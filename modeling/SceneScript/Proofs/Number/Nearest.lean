import SceneScript.Proofs.Number.Whole

namespace SceneScript.Number
open Float.Model (Format UnpackedFloat totalExponent)
open Float.Model.UnpackedFloat
open Float.Model.UnpackedFloat.ExtendedMantissa (shiftRightOne)

theorem shiftRight_succ (em : ExtendedMantissa) (k : Nat) :
    em >>> (k + 1) = shiftRightOne (em >>> k) := rfl

theorem mantissa_shiftRight (em : ExtendedMantissa) (k : Nat) :
    (em >>> k).mantissa = em.mantissa / 2 ^ k := by
  induction k with
  | zero => exact (Nat.div_one _).symm
  | succ k ih =>
    rw [shiftRight_succ, shiftRightOne, ih]
    exact Nat.div_div_eq_div_mul ..

/-- Zeros that are shifted out leave no trace. -/
theorem shiftRight_of_dvd (m k : Nat) :
    (⟨m * 2 ^ k, false, false⟩ : ExtendedMantissa) >>> k = ⟨m, false, false⟩ := by
  induction k generalizing m with
  | zero => exact congrArg (ExtendedMantissa.mk · false false) (Nat.mul_one m)
  | succ k ih =>
    rw [shiftRight_succ, Nat.pow_succ', ← Nat.mul_assoc, ih, shiftRightOne]
    simp

theorem roundedMantissa_bounds (em : ExtendedMantissa) :
    em.mantissa ≤ em.roundedMantissa ∧ em.roundedMantissa ≤ em.mantissa + 1 := by
  obtain ⟨m, r, s⟩ := em
  cases r <;> cases s <;>
    simp only [ExtendedMantissa.roundedMantissa, ExtendedMantissa.accuracy,
      Accuracy.roundToNearestEven] <;> omega

def roundOff (m k : Nat) : Nat := ((⟨m, false, false⟩ : ExtendedMantissa) >>> k).roundedMantissa

theorem roundOff_mul (m k : Nat) : roundOff (m * 2 ^ k) k = m := by
  rw [roundOff, shiftRight_of_dvd]
  rfl

/-- Rounding stays on the side of a multiple of the last place on which the number is. -/
theorem le_roundOff {b m k : Nat} (h : b * 2 ^ k ≤ m) : b ≤ roundOff m k := by
  refine Nat.le_trans ?_ (roundedMantissa_bounds _).1
  rw [mantissa_shiftRight]
  exact (Nat.le_div_iff_mul_le (Nat.two_pow_pos k)).2 h

theorem roundOff_le {b m k : Nat} (h : m ≤ b * 2 ^ k) : roundOff m k ≤ b := by
  rcases Nat.eq_or_lt_of_le h with rfl | hlt
  · exact Nat.le_of_eq (roundOff_mul b k)
  · refine Nat.le_trans (roundedMantissa_bounds _).2 ?_
    rw [mantissa_shiftRight]
    exact (Nat.div_lt_iff_lt_mul (Nat.two_pow_pos k)).2 hlt

theorem shiftToTargetExponent_exact {m k : Nat} {e : Int} (hlog : m.log2 = 52 + k)
    (he : -1074 ≤ e + k) :
    shiftToTargetExponent Format.binary64 m e .exact =
      ((⟨m, false, false⟩ : ExtendedMantissa) >>> k, e + k) := by
  have htarget : Format.binary64.targetExponent (totalExponent m e) = e + k := by
    simp only [Format.targetExponent, totalExponent, Format.mantissaBits, Format.minExponent, hlog]
    simp
    omega
  rw [shiftToTargetExponent, htarget]
  have hshift : (e + k - e).toNat = k := by omega
  simp only [shiftToExponent, hshift]
  rfl

theorem log2_eq {m k : Nat} (hlow : 2 ^ k ≤ m) (hhigh : m < 2 ^ (k + 1)) : m.log2 = k :=
  (Nat.log2_eq_iff (Nat.ne_of_gt (Nat.lt_of_lt_of_le (Nat.two_pow_pos k) hlow))).2 ⟨hlow, hhigh⟩

theorem roundOff_bounds {m k : Nat} (hlog : m.log2 = 52 + k) (hm : m ≠ 0) :
    2 ^ 52 ≤ roundOff m k ∧ roundOff m k ≤ 2 ^ 53 := by
  obtain ⟨hlow, hhigh⟩ := (Nat.log2_eq_iff hm).1 hlog
  constructor
  · apply le_roundOff
    rwa [← Nat.pow_add]
  · apply roundOff_le
    rw [← Nat.pow_add, Nat.add_right_comm] at *
    exact Nat.le_of_lt hhigh

theorem roundWithAccuracy_of_shifts (s : Sign) {m : Nat} {e e' e'' : Int}
    {em em' : ExtendedMantissa}
    (hfirst : shiftToTargetExponent Format.binary64 m e .exact = (em, e'))
    (hsecond : shiftToTargetExponent Format.binary64 em.roundedMantissa e' .exact = (em', e''))
    (hpos : 0 < em'.mantissa) :
    roundWithAccuracy Format.binary64 s m e .exact = .finite s em'.mantissa e'' hpos := by
  simp only [roundWithAccuracy, hfirst, hsecond]
  exact dif_neg (Nat.ne_of_gt hpos)

/-- What is rounded to 53 bits is `roundOff` at the place of the 53rd; a carry adds a place. -/
theorem roundWithAccuracy_exact (s : Sign) {m k : Nat} {e : Int} (hm : m ≠ 0)
    (hlog : m.log2 = 52 + k) (he : -1074 ≤ e + k) : ∃ r j, ∃ hr : 0 < r,
      roundWithAccuracy Format.binary64 s m e .exact = .finite s r (e + (j : Nat)) hr ∧
      2 ^ 52 ≤ r ∧ r < 2 ^ 53 ∧ k ≤ j ∧ j ≤ k + 1 ∧ r * 2 ^ j = roundOff m k * 2 ^ k := by
  obtain ⟨hlow, hhigh⟩ := roundOff_bounds hlog hm
  have hpos : 0 < roundOff m k := Nat.lt_of_lt_of_le (by decide) hlow
  have hfirst := shiftToTargetExponent_exact hlog he
  rcases Nat.eq_or_lt_of_le hhigh with hcarry | hhigh
  · have hlog' : (roundOff m k).log2 = 52 + 1 := by
      rw [hcarry]
      rfl
    have hshift : (⟨roundOff m k, false, false⟩ : ExtendedMantissa) >>> 1 =
      ⟨2 ^ 52, false, false⟩ := by
      rw [hcarry]
      rfl
    have hsecond := shiftToTargetExponent_exact hlog' (by omega : -1074 ≤ e + k + (1 : Nat))
    rw [hshift, Int.add_assoc] at hsecond
    exact ⟨2 ^ 52, k + 1, by decide, roundWithAccuracy_of_shifts s hfirst hsecond (by decide),
      Nat.le_refl _, by decide, Nat.le_succ k, Nat.le_refl _,
      by rw [hcarry, Nat.pow_succ' (n := k), ← Nat.mul_assoc]; rfl⟩
  · have hlog' : (roundOff m k).log2 = 52 + 0 := log2_eq hlow hhigh
    have hsecond := shiftToTargetExponent_exact hlog' (by omega : -1074 ≤ e + k + (0 : Nat))
    rw [Int.add_assoc] at hsecond
    exact ⟨roundOff m k, k, hpos, roundWithAccuracy_of_shifts s hfirst hsecond hpos, hlow, hhigh,
      Nat.le_refl k, Nat.le_succ k, rfl⟩

theorem log2_mul_two_pow {n l : Nat} (hn : n ≠ 0) (hl : n.log2 = l) (k : Nat) :
    (n * 2 ^ k).log2 = l + k := by
  obtain ⟨hlow, hhigh⟩ := (Nat.log2_eq_iff hn).1 hl
  apply log2_eq
  · rw [Nat.pow_add]
    exact Nat.mul_le_mul_right _ hlow
  · rw [Nat.add_right_comm, Nat.pow_add]
    exact Nat.mul_lt_mul_of_pos_right hhigh (Nat.two_pow_pos k)

/-- A number of 53 bits is kept, however many zeros follow them. -/
theorem roundWithAccuracy_mul (s : Sign) {m k : Nat} {e : Int} (hm : 0 < m) (hlow : 2 ^ 52 ≤ m)
    (hhigh : m < 2 ^ 53) (he : -1074 ≤ e) :
    roundWithAccuracy Format.binary64 s (m * 2 ^ k) (e - k) .exact = .finite s m e hm := by
  have hbits : m.log2 = 52 := log2_eq hlow hhigh
  have hlog := log2_mul_two_pow (Nat.ne_of_gt hm) hbits k
  have hcancel : e - k + k = e := Int.sub_add_cancel e k
  have hfirst := @shiftToTargetExponent_exact _ k (e - k) hlog (by omega)
  rw [shiftRight_of_dvd, hcancel] at hfirst
  have hsecond := @shiftToTargetExponent_exact _ 0 e hbits (by omega)
  refine (roundWithAccuracy_of_shifts s hfirst hsecond hm).trans ?_
  congr 1
  exact Int.add_zero e

/-- Whether `k` is on the side of every short number on which `n` is. -/
def IsFaithful (n k : Int) : Prop :=
  ∀ b : Int, IsShort b.natAbs → (b ≤ n → b ≤ k) ∧ (n ≤ b → k ≤ b)

theorem IsFaithful.refl (n : Int) : IsFaithful n n := fun _ _ => ⟨id, id⟩

theorem IsFaithful.neg {n k : Int} (h : IsFaithful n k) : IsFaithful (-n) (-k) := by
  intro b hb
  obtain ⟨hbelow, habove⟩ := h (-b) (by rwa [Int.natAbs_neg])
  constructor
  · intro hle
    have := habove (by omega)
    omega
  · intro hle
    have := hbelow (by omega)
    omega

/-- Short numbers are natural where they are compared with what natural numbers are rounded to. -/
theorem isFaithful_of_nat {n k : Nat} (h : ∀ b, IsShort b → (b ≤ n → b ≤ k) ∧ (n ≤ b → k ≤ b)) :
    IsFaithful n k := by
  intro b hb
  rcases Int.lt_or_le b 0 with hneg | hpos
  · exact ⟨fun _ => by omega, fun _ => by omega⟩
  · obtain ⟨m, rfl⟩ := Int.eq_ofNat_of_zero_le hpos
    obtain ⟨hbelow, habove⟩ := h m hb
    exact ⟨fun hle => Int.ofNat_le.2 (hbelow (Int.ofNat_le.1 hle)),
      fun hle => Int.ofNat_le.2 (habove (Int.ofNat_le.1 hle))⟩

theorem toInt?_neg {x : Float} {n : Int} (h : toInt? x = some n) : toInt? (-x) = some (-n) := by
  unfold toInt? at h
  split at h
  next d hview =>
    split at h
    next hwhole =>
      have hneg : View.ofFloat (-x) = .finite ⟨!d.negative, d.mantissa, d.exponent⟩ := by
        rw [ofFloat_neg, hview]
        rfl
      have hvalue : signed d.negative (d.roundTo .towardZero) = n := Option.some.inj h
      rw [toInt?_of_finite hneg hwhole rfl, signed_not, ← hvalue]
      rfl
    next => cases h
  next => cases h

/-- A number of 53 bits at most is shifted up to them. -/
theorem round_of_small {n l d : Nat} (hpos : 0 < n) (hl : n.log2 = l) (hd : 52 = l + d)
    (hscaled : 0 < n * 2 ^ d) :
    UnpackedFloat.round Format.binary64 .positive n 0 =
      .finite .positive (n * 2 ^ d) (-d) hscaled := by
  obtain ⟨hlow, hhigh⟩ := scaled_bounds hpos hl hd
  have htarget : Format.binary64.targetExponent (totalExponent n 0) = -(d : Int) := by
    simp only [Format.targetExponent, totalExponent, Format.mantissaBits, Format.minExponent, hl]
    simp
    omega
  have hshift : ((0 : Int) - -(d : Int)).toNat = d := by omega
  have hexact := @roundWithAccuracy_mul .positive _ 0 (-d) hscaled hlow hhigh (by omega)
  rw [Nat.pow_zero, Nat.mul_one] at hexact
  have hplace : (0 : Int) - d = -d - (0 : Nat) := by omega
  simp only [UnpackedFloat.round, decreaseExponent, htarget, hshift, Nat.shiftLeft_eq, hplace]
  exact hexact

theorem toFloat_of_small {n l d : Nat} (hpos : 0 < n) (hl : n.log2 = l) (hd : 52 = l + d)
    (hscaled : 0 < n * 2 ^ d) :
    n.toUInt64.toFloat = .ofModel (.pack (.finite .positive (n * 2 ^ d) (-d) hscaled)) := by
  have hlt : n < 2 ^ 53 := by
    rw [← Nat.log2_lt (Nat.ne_of_gt hpos)]
    omega
  have hword : n.toUInt64.toNat = n := Nat.mod_eq_of_lt (Nat.lt_trans hlt (by decide))
  have hgreater : compare (n : Int) 0 = .gt := Int.compare_eq_gt.2 (by omega)
  have hround : ofUInt64 Format.binary64 n.toUInt64 =
      UnpackedFloat.round Format.binary64 .positive n 0 := by
    rw [ofUInt64, hword, ofNat, UnpackedFloat.ofInt, UnpackedFloat.normalize, hgreater]
    rfl
  have hmodel : n.toUInt64.toFloat = .ofModel (.pack (ofUInt64 Format.binary64 n.toUInt64)) := rfl
  rw [hmodel, hround, round_of_small hpos hl hd hscaled]

/-- A number of 53 bits at most is converted exactly, and the factor one changes nothing. -/
theorem ofFloat_ofScientific_small {n l d : Nat} (hpos : 0 < n) (hl : n.log2 = l)
    (hd : 52 = l + d) :
    View.ofFloat (Float.ofScientific n false 0) = .finite ⟨false, n * 2 ^ d, -d⟩ := by
  obtain ⟨hlow, hhigh⟩ := scaled_bounds hpos hl hd
  have hscaled : 0 < n * 2 ^ d := Nat.lt_of_lt_of_le (by decide) hlow
  have hnormal : IsNormal (n * 2 ^ d) (-d) := ⟨hlow, hhigh, by omega, by omega⟩
  have hlt : n < 2 ^ 53 := by
    rw [← Nat.log2_lt (Nat.ne_of_gt hpos)]
    omega
  have hone : (Float.ofBits 0x3FF0000000000000).toModel.unpack =
      .finite .positive (2 ^ 52) (-52) (by decide) := rfl
  have hproduct : Float.ofScientific n false 0 =
      n.toUInt64.toFloat * Float.ofBits 0x3FF0000000000000 := dif_pos ⟨hlt, by decide⟩
  have hexact := @roundWithAccuracy_mul .positive _ 52 (-d) hscaled hlow hhigh (by omega)
  have hmul : mul Format.binary64 (.finite .positive (n * 2 ^ d) (-d) hscaled)
      (.finite .positive (2 ^ 52) (-52) (by decide)) =
        .finite .positive (n * 2 ^ d) (-d) hscaled := hexact
  have hunpack : (Float.Model.pack (.finite .positive (n * 2 ^ d) (-d) hscaled)).unpack =
      .finite .positive (n * 2 ^ d) (-d) hscaled := unpack_pack_of_normal hnormal .positive hscaled
  rw [hproduct, toFloat_of_small hpos hl hd hscaled]
  show View.ofFloat (.ofModel (.pack (mul Format.binary64 (Float.Model.pack _).unpack _))) = _
  rw [hunpack, hone, hmul, ofFloat_pack_of_normal hnormal]
  rfl

theorem ofScientific_of_large {n : Nat} (h : 2 ^ 53 ≤ n) :
    Float.ofScientific n false 0 =
      .ofModel (.pack (roundWithAccuracy Format.binary64 .positive (n * 2 ^ 53) (-53) .exact)) := by
  have hn : n ≠ 0 := Nat.ne_of_gt (Nat.lt_of_lt_of_le (by decide) h)
  have hslow : Float.ofScientific n false 0 = .ofModel (Float.Model.ofScientific n 0) :=
    dif_neg fun hlt => Nat.not_lt.2 h hlt.1
  have hmodel : UnpackedFloat.ofScientific Format.binary64 n 0 =
      roundWithAccuracy Format.binary64 .positive (n <<< 53 * 1) (-53) .exact := by
    rw [UnpackedFloat.ofScientific, dif_neg hn, if_neg (by decide), if_neg (by simp),
      if_pos (Int.le_refl 0)]
    rfl
  rw [hslow, Float.Model.ofScientific, hmodel, Nat.mul_one, Nat.shiftLeft_eq]

/-- A longer number is rounded where its 53rd bit is. -/
theorem ofFloat_ofScientific_large {n k : Nat} (hn : n ≠ 0) (hl : n.log2 = 52 + (k + 1))
    (hk : k ≤ 900) : ∃ r j, View.ofFloat (Float.ofScientific n false 0) =
      .finite ⟨false, r, (j : Nat)⟩ ∧ ∀ c, (c * 2 ^ (k + 1) ≤ n → c * 2 ^ (k + 1) ≤ r * 2 ^ j) ∧
        (n ≤ c * 2 ^ (k + 1) → r * 2 ^ j ≤ c * 2 ^ (k + 1)) := by
  have hlow : 2 ^ 53 ≤ n := by
    rw [← Nat.le_log2 hn]
    omega
  have hlog : (n * 2 ^ 53).log2 = 52 + (k + 54) := log2_mul_two_pow hn hl 53
  obtain ⟨r, j, hr, hround, hlow', hhigh, hkj, hjk, hvalue⟩ := @roundWithAccuracy_exact .positive _
    (k + 54) (-53) (Nat.mul_ne_zero hn (by decide)) hlog (by omega)
  obtain ⟨i, rfl⟩ : ∃ i, j = i + 53 := ⟨j - 53, by omega⟩
  have hplace : (-53 : Int) + (i + 53 : Nat) = i := by omega
  have hnormal : IsNormal r i := ⟨hlow', hhigh, by omega, by omega⟩
  have hshift (c : Nat) : c * 2 ^ (k + 54) = c * 2 ^ (k + 1) * 2 ^ 53 := by
    rw [Nat.mul_assoc, ← Nat.pow_add]
  rw [hshift, Nat.pow_add, ← Nat.mul_assoc] at hvalue
  have hresult := Nat.mul_right_cancel (by decide) hvalue
  refine ⟨r, i, ?_, fun c => ?_⟩
  · simp only [ofScientific_of_large hlow, hround, hplace]
    exact ofFloat_pack_of_normal hnormal .positive hr
  · rw [hresult]
    refine ⟨fun hle => Nat.mul_le_mul_right _ (le_roundOff ?_),
      fun hle => Nat.mul_le_mul_right _ (roundOff_le ?_)⟩
    all_goals
      rw [hshift]
      exact Nat.mul_le_mul_right _ hle

theorem isShort_le_iff_of_large {n m k : Nat} (hn : n ≠ 0) (hl : n.log2 = 52 + (k + 1))
    (h : ∀ c, (c * 2 ^ (k + 1) ≤ n → c * 2 ^ (k + 1) ≤ m) ∧
      (n ≤ c * 2 ^ (k + 1) → m ≤ c * 2 ^ (k + 1))) :
    IsFaithful n m := by
  obtain ⟨hlow, -⟩ := (Nat.log2_eq_iff hn).1 hl
  rw [Nat.pow_add] at hlow
  refine isFaithful_of_nat fun b hb => ?_
  rcases Nat.lt_or_ge b (2 ^ (k + 1 + 52)) with hsmall | hlarge
  · rw [Nat.add_comm, Nat.pow_add] at hsmall
    exact ⟨fun _ => Nat.le_trans (Nat.le_of_lt hsmall) ((h _).1 hlow),
      fun hle => absurd (Nat.lt_of_lt_of_le hsmall hlow) (Nat.not_lt.2 hle)⟩
  · obtain ⟨c, rfl⟩ := hb.dvd hlarge
    rw [Nat.mul_comm]
    exact h c

/-- A magnitude that a float can hold has a float that is a whole number beside it. -/
theorem toInt?_ofScientific {n : Nat} (hle : n ≤ 2 ^ 64) :
    ∃ k : Int, toInt? (Float.ofScientific n false 0) = some k ∧ IsFaithful n k := by
  rcases Nat.eq_zero_or_pos n with rfl | hpos
  · exact ⟨0, by decide +kernel, .refl 0⟩
  have hn := Nat.ne_of_gt hpos
  have hl64 : n.log2 < 65 := (Nat.log2_lt hn).2 (Nat.lt_of_le_of_lt hle (by decide))
  rcases Nat.lt_or_ge 52 n.log2 with hlarge | hsmall
  · have hl : n.log2 = 52 + (n.log2 - 53 + 1) := by omega
    obtain ⟨r, j, hview, hside⟩ := ofFloat_ofScientific_large hn hl (by omega)
    exact ⟨_, toInt?_of_shifted_up hview, isShort_le_iff_of_large hn hl hside⟩
  · have hview := ofFloat_ofScientific_small hpos rfl (Nat.add_sub_cancel' hsmall).symm
    exact ⟨_, toInt?_of_shifted_down hview, .refl n⟩

/-- The float of a whole number is a whole number, on the same side of all short ones. -/
theorem toInt?_ofInt {n : Int} (hle : n.natAbs ≤ 2 ^ 64) :
    ∃ k, toInt? (ofInt n) = some k ∧ IsFaithful n k := by
  obtain ⟨k, hk, hfaithful⟩ := toInt?_ofScientific hle
  unfold ofInt
  dsimp only
  split
  next hneg =>
    refine ⟨-k, toInt?_neg hk, ?_⟩
    have hn : n = -(n.natAbs : Int) := by omega
    rw [hn]
    exact hfaithful.neg
  next hpos =>
    refine ⟨k, hk, ?_⟩
    have hn : n = n.natAbs := by omega
    rw [hn]
    exact hfaithful

end SceneScript.Number
