import SceneScript.Proofs.Number.Whole

namespace SceneScript.Number
open Float.Model (UnpackedFloat)
open Float.Model.UnpackedFloat

def Dyadic.value (d : Dyadic) : ℚ := signed d.negative d.mantissa * 2 ^ d.exponent

def View.isAtMost (q : ℚ) : View → Bool
  | nan => false
  | infinite negative => negative
  | finite d => d.value ≤ q

def View.isAtLeast (q : ℚ) : View → Bool
  | nan => false
  | infinite negative => !negative
  | finite d => q ≤ d.value

def AtMost (x : Float) (q : ℚ) : Prop := (View.ofFloat x).isAtMost q = true

def AtLeast (x : Float) (q : ℚ) : Prop := (View.ofFloat x).isAtLeast q = true

instance (x : Float) (q : ℚ) : Decidable (AtMost x q) :=
  inferInstanceAs (Decidable ((View.ofFloat x).isAtMost q = true))

instance (x : Float) (q : ℚ) : Decidable (AtLeast x q) :=
  inferInstanceAs (Decidable ((View.ofFloat x).isAtLeast q = true))

theorem atMost_iff {x : Float} {d : Dyadic} (h : View.ofFloat x = .finite d) (q : ℚ) :
    AtMost x q ↔ d.value ≤ q := by
  rw [AtMost, h]
  exact decide_eq_true_iff

theorem atLeast_iff {x : Float} {d : Dyadic} (h : View.ofFloat x = .finite d) (q : ℚ) :
    AtLeast x q ↔ q ≤ d.value := by
  rw [AtLeast, h]
  exact decide_eq_true_iff

def Encloses (low high : Float) (n : Int) : Prop := AtMost low n ∧ AtLeast high n

/-- The exponent decides between canonical magnitudes, and for equal ones the mantissa. -/
theorem magnitude_lt_of_lex {m n : Nat} {e f : Int} (hm : m < 2 ^ 53)
    (hn : 2 ^ 52 ≤ n ∨ f = -1074) (he : -1074 ≤ e) (h : e < f ∨ e = f ∧ m < n) :
    (m : ℚ) * 2 ^ e < n * 2 ^ f := by
  rcases h with hlt | ⟨rfl, hlt⟩
  · obtain ⟨k, rfl⟩ : ∃ k : Nat, f = e + 1 + k := ⟨(f - e - 1).toNat, by omega⟩
    have hfull : (2 ^ 52 : ℚ) ≤ n := by
      exact_mod_cast hn.resolve_right (by omega)
    have hunit : (0 : ℚ) < 2 ^ e := zpow_pos (by norm_num) e
    have hgrow : (2 : ℚ) ^ (e + 1) ≤ 2 ^ (e + 1 + (k : Int)) :=
      zpow_le_zpow_right₀ (by norm_num) (by omega)
    calc (m : ℚ) * 2 ^ e < 2 ^ 53 * 2 ^ e := by
          exact mul_lt_mul_of_pos_right (by exact_mod_cast hm) hunit
      _ = 2 ^ 52 * 2 ^ (e + 1) := by
          rw [zpow_add_one₀ (by norm_num)]
          ring
      _ ≤ n * 2 ^ (e + 1 + (k : Int)) := mul_le_mul hfull hgrow (by positivity) (by positivity)
  · exact mul_lt_mul_of_pos_right (by exact_mod_cast hlt) (zpow_pos (by norm_num) e)

theorem isLE_compare_iff {m n : Nat} {e f : Int} (hm : m < 2 ^ 53) (hn : n < 2 ^ 53)
    (hm' : 2 ^ 52 ≤ m ∨ e = -1074) (hn' : 2 ^ 52 ≤ n ∨ f = -1074) (he : -1074 ≤ e)
    (hf : -1074 ≤ f) :
    ((compare e f).then (compare m n)).isLE = true ↔ (m : ℚ) * 2 ^ e ≤ n * 2 ^ f := by
  rcases lt_trichotomy e f with hlt | rfl | hgt
  · have hmagnitude := magnitude_lt_of_lex hm hn' he (.inl hlt)
    simp [compare_lt_iff_lt.2 hlt, hmagnitude.le]
  · have hunit : (0 : ℚ) < 2 ^ e := zpow_pos (by norm_num) e
    simp [mul_le_mul_iff_left₀ hunit, Nat.isLE_compare]
  · have hmagnitude := magnitude_lt_of_lex hn hm' hf (.inl hgt)
    simp [compare_gt_iff_gt.2 hgt, hmagnitude]

theorem value_zero (negative : Bool) (e : Int) : Dyadic.value ⟨negative, 0, e⟩ = 0 := by
  cases negative <;> simp [Dyadic.value, signed]

theorem value_positive (m : Nat) (e : Int) : Dyadic.value ⟨false, m, e⟩ = m * 2 ^ e := rfl

theorem value_negative (m : Nat) (e : Int) : Dyadic.value ⟨true, m, e⟩ = -(m * 2 ^ e) := by
  simp [Dyadic.value, signed]

theorem magnitude_pos {m : Nat} (hm : 0 < m) (e : Int) : (0 : ℚ) < m * 2 ^ e :=
  mul_pos (Nat.cast_pos.2 hm) (zpow_pos (by norm_num) e)

/-- The order of unpacked numbers is that of their values. -/
theorem le_finite_iff {u v : UnpackedFloat} {d : Dyadic} (hv : View.ofUnpacked v = .finite d)
    (hd : d.IsCanonical) (hu : ∀ d', View.ofUnpacked u = .finite d' → d'.IsCanonical) :
    u.le v = true ↔ (View.ofUnpacked u).isAtMost d.value = true := by
  -- By the signs. For numbers of one sign the exponent decides, and the fraction where the
  -- exponents agree.
  have hsigns := And.intro value_positive value_negative
  cases v with
  | notANumber => cases hv
  | infinity s => cases hv
  | zero t =>
    cases hv
    cases u with
    | notANumber => exact Iff.rfl
    | infinity s => cases s <;> exact Iff.rfl
    | zero s =>
      simp [UnpackedFloat.le, UnpackedFloat.compare, View.ofUnpacked, View.isAtMost, value_zero]
    | finite s m e hm =>
      have hpos := magnitude_pos hm e
      cases s <;> simp [UnpackedFloat.le, UnpackedFloat.compare, View.ofUnpacked, View.isAtMost,
        isMinus, value_zero, hsigns, hpos, hpos.le]
  | finite t n f hn =>
    cases hv
    have hpos := magnitude_pos hn f
    cases u with
    | notANumber => exact Iff.rfl
    | infinity s => cases s <;> exact Iff.rfl
    | zero s =>
      cases t <;> simp [UnpackedFloat.le, UnpackedFloat.compare, View.ofUnpacked, View.isAtMost,
        isMinus, value_zero, hsigns, hpos, hpos.le]
    | finite s m e hm =>
      have hpos' := magnitude_pos hm e
      have hd' := hu _ rfl
      have hle := isLE_compare_iff hd'.mantissa_lt hd.mantissa_lt hd'.full hd.full
        hd'.least hd.least
      have hge := isLE_compare_iff hd.mantissa_lt hd'.mantissa_lt hd.full hd'.full
        hd.least hd'.least
      cases s <;> cases t <;> simp only [UnpackedFloat.le, UnpackedFloat.compare, View.ofUnpacked,
        View.isAtMost, isMinus, hsigns, decide_eq_true_eq, Option.any]
      · rw [Ordering.swap_then, Int.compare_swap, Nat.compare_swap, neg_le_neg_iff]
        exact hge
      · exact iff_of_true rfl (by linarith)
      · exact iff_of_false (by decide) (by linarith)
      · exact hle

theorem le_iff_unpacked (x y : Float) : x ≤ y ↔ x.toModel.unpack.le y.toModel.unpack = true :=
  decide_eq_true_iff

/-- A float is at most a finite one exactly if it is at most its value. -/
theorem le_iff_atMost (x : Float) {y : Float} {d : Dyadic} (hy : View.ofFloat y = .finite d) :
    x ≤ y ↔ AtMost x d.value := by
  rw [le_iff_unpacked, AtMost, ofFloat_eq_ofUnpacked]
  refine le_finite_iff (by rw [← ofFloat_eq_ofUnpacked, hy]) (isCanonical_of_view hy) fun d' h => ?_
  rw [← ofFloat_eq_ofUnpacked] at h
  exact isCanonical_of_view h

theorem neg_le_neg_unpacked (u v : UnpackedFloat) : v.neg.le u.neg = u.le v := by
  have hsign (s t : Sign) : compare (-t) (-s) = compare s t := by cases s <;> cases t <;> rfl
  cases u with
  | notANumber => cases v <;> rfl
  | infinity s =>
    cases v with
    | infinity t => exact congrArg (fun o => (some o).any Ordering.isLE) (hsign s t)
    | _ => cases s <;> rfl
  | zero s =>
    cases v with
    | infinity t => cases t <;> rfl
    | finite t n f hn => cases t <;> rfl
    | _ => rfl
  | finite s m e hm =>
    cases v with
    | finite t n f hn =>
      have hswap : ((compare e f).then (compare m n)).swap = (compare f e).then (compare n m) := by
        rw [Ordering.swap_then, Int.compare_swap, Nat.compare_swap]
      have hswap' : ((compare f e).then (compare n m)).swap = (compare e f).then (compare m n) := by
        rw [Ordering.swap_then, Int.compare_swap, Nat.compare_swap]
      cases s <;> cases t
      · exact congrArg Ordering.isLE hswap.symm
      · rfl
      · rfl
      · exact congrArg Ordering.isLE hswap'
    | infinity t => cases t <;> cases s <;> rfl
    | _ => cases s <;> rfl

theorem neg_le_neg_float (x y : Float) : -y ≤ -x ↔ x ≤ y := by
  have hunpack (z : Float) : (-z).toModel.unpack = z.toModel.unpack.neg := unpack_pack_neg _
  rw [le_iff_unpacked, le_iff_unpacked, hunpack, hunpack, neg_le_neg_unpacked]

theorem value_not (d : Dyadic) : Dyadic.value { d with negative := !d.negative } = -d.value := by
  simp [Dyadic.value, signed_not]

theorem atMost_neg (x : Float) (q : ℚ) : AtMost (-x) (-q) ↔ AtLeast x q := by
  rw [AtMost, AtLeast, ofFloat_neg]
  cases View.ofFloat x with
  | nan => exact Iff.rfl
  | infinite negative => exact Iff.rfl
  | finite d =>
    simp only [View.neg, View.isAtMost, View.isAtLeast, value_not, decide_eq_true_eq]
    exact neg_le_neg_iff

/-- A float is at least a finite one exactly if it is at least its value. -/
theorem le_iff_atLeast {x : Float} {d : Dyadic} (hx : View.ofFloat x = .finite d) (y : Float) :
    x ≤ y ↔ AtLeast y d.value := by
  have hneg : View.ofFloat (-x) = .finite { d with negative := !d.negative } := by
    rw [ofFloat_neg, hx]
    rfl
  rw [← neg_le_neg_float, le_iff_atMost _ hneg, value_not, atMost_neg]

/-- A float without a fraction, as a whole number. -/
theorem value_of_nonneg {d : Dyadic} (h : 0 ≤ d.exponent) (r : Rounding) :
    d.value = signed d.negative (d.roundTo r) := by
  obtain ⟨negative, m, e⟩ := d
  obtain ⟨k, rfl⟩ := Int.eq_ofNat_of_zero_le h
  simp only [Dyadic.value, Dyadic.roundTo, if_pos h, Int.toNat_natCast, zpow_natCast, signed]
  cases negative <;> simp

theorem value_of_neg {d : Dyadic} {k : Nat} (h : d.exponent = -k) :
    d.value = (signed d.negative d.mantissa : ℚ) / (2 ^ k : Nat) := by
  rw [Dyadic.value, h, zpow_neg, zpow_natCast, div_eq_mul_inv]
  push_cast
  rfl

/-- Division of a negated magnitude rounds away from zero. -/
theorem neg_ediv_natCast (m : Nat) {u : Nat} (hu : 0 < u) :
    -(m : Int) / u = -((if m % u = 0 then m / u else m / u + 1 : Nat) : Int) := by
  rw [Int.neg_ediv, Int.sign_eq_one_of_pos (Int.natCast_pos.2 hu)]
  simp only [Int.natCast_dvd_natCast, Nat.dvd_iff_mod_eq_zero]
  split
  · simp
  · push_cast
    omega

theorem roundTo_of_neg {d : Dyadic} {k : Nat} (h : d.exponent = -k) (hk : 0 < k) (r : Rounding) :
    d.roundTo r = if r.movesOut d.negative (d.mantissa % 2 ^ k) (2 ^ k) then d.mantissa / 2 ^ k + 1
      else d.mantissa / 2 ^ k := by
  have hunit : (- -(k : Int)).toNat = k := by omega
  rw [Dyadic.roundTo, if_neg (by omega), h]
  simp only [hunit]
  rfl

theorem roundTo_inward {d : Dyadic} {k : Nat} {r : Rounding} (h : d.exponent = -k) (hk : 0 < k)
    (hr : ∀ part unit, r.movesOut d.negative part unit = false) :
    d.roundTo r = d.mantissa / 2 ^ k := by
  rw [roundTo_of_neg h hk, hr, if_neg Bool.false_ne_true]

theorem roundTo_outward {d : Dyadic} {k : Nat} {r : Rounding} (h : d.exponent = -k) (hk : 0 < k)
    (hr : ∀ part unit, r.movesOut d.negative part unit = decide (part ≠ 0)) :
    d.roundTo r =
      if d.mantissa % 2 ^ k = 0 then d.mantissa / 2 ^ k else d.mantissa / 2 ^ k + 1 := by
  rw [roundTo_of_neg h hk, hr]
  by_cases hpart : d.mantissa % 2 ^ k = 0 <;> simp [hpart]

theorem roundTo_down (d : Dyadic) : signed d.negative (d.roundTo .down) = ⌊d.value⌋ := by
  rcases Int.lt_or_le d.exponent 0 with hneg | hnonneg
  · obtain ⟨k, hk⟩ : ∃ k : Nat, d.exponent = -k := ⟨(-d.exponent).toNat, by omega⟩
    have hpos : 0 < k := by omega
    rw [value_of_neg hk, Rat.floor_intCast_div_natCast]
    rcases d with ⟨_ | _, m, e⟩
    · rw [roundTo_inward hk hpos fun _ _ => rfl]
      exact Int.natCast_ediv ..
    · rw [roundTo_outward hk hpos fun _ _ => rfl]
      exact (neg_ediv_natCast m (Nat.two_pow_pos k)).symm
  · rw [value_of_nonneg hnonneg .down, Int.floor_intCast]

theorem roundTo_up (d : Dyadic) : signed d.negative (d.roundTo .up) = ⌈d.value⌉ := by
  rcases Int.lt_or_le d.exponent 0 with hneg | hnonneg
  · obtain ⟨k, hk⟩ : ∃ k : Nat, d.exponent = -k := ⟨(-d.exponent).toNat, by omega⟩
    have hpos : 0 < k := by omega
    rw [value_of_neg hk, Rat.ceil_intCast_div_natCast]
    rcases d with ⟨_ | _, m, e⟩
    · rw [roundTo_outward hk hpos fun _ _ => rfl]
      exact (Int.neg_eq_comm.1 (neg_ediv_natCast m (Nat.two_pow_pos k)).symm).symm
    · rw [roundTo_inward hk hpos fun _ _ => rfl]
      have hmagnitude : - -(m : Int) = m := Int.neg_neg _
      simp only [signed, if_true, hmagnitude]
      exact congrArg Neg.neg (Int.natCast_ediv ..)
  · rw [value_of_nonneg hnonneg .up, Int.ceil_intCast]

/-- The magnitude that a number with a fraction is rounded to has 53 bits at most. -/
theorem roundTo_lt_of_neg {d : Dyadic} (h : d.exponent < 0) (hm : d.mantissa < 2 ^ 53)
    (r : Rounding) : d.roundTo r < 2 ^ 53 := by
  obtain ⟨k, hk⟩ : ∃ k : Nat, d.exponent = -(k + 1 : Nat) := ⟨(-d.exponent).toNat - 1, by omega⟩
  have hhalf : d.mantissa / 2 ^ (k + 1) ≤ d.mantissa / 2 := by
    rw [Nat.pow_succ', ← Nat.div_div_eq_div_mul]
    exact Nat.div_le_self ..
  rw [roundTo_of_neg hk (Nat.succ_pos k)]
  split <;> omega

/-- Rounding gives a float that is the whole number. -/
theorem toInt?_round {x : Float} {d : Dyadic} (h : View.ofFloat x = .finite d) (r : Rounding) :
    toInt? (round r x) = some (signed d.negative (d.roundTo r)) := by
  have hm := (isCanonical_of_view h).mantissa_lt
  rw [round, h]
  dsimp only
  split
  next hnonneg =>
    refine toInt?_of_finite h (.inl hnonneg) ?_
    simp only [Dyadic.roundTo, if_pos hnonneg]
  next hneg =>
    have hlt := roundTo_lt_of_neg (Int.not_le.1 hneg) hm r
    exact toInt?_toFloat d.negative ⟨_, 0, hlt, (Nat.mul_one _).symm⟩
      (Nat.le_of_lt (Nat.lt_trans hlt (by decide)))

theorem toInt?_ceil {x : Float} {d : Dyadic} (h : View.ofFloat x = .finite d) :
    toInt? (ceil x) = some ⌈d.value⌉ := by
  rw [ceil, toInt?_round h, roundTo_up]

theorem toInt?_floor {x : Float} {d : Dyadic} (h : View.ofFloat x = .finite d) :
    toInt? (floor x) = some ⌊d.value⌋ := by
  rw [floor, toInt?_round h, roundTo_down]

/-- The whole number that a float is, is its value. -/
theorem value_of_toInt? {x : Float} {n : Int} (h : toInt? x = some n) :
    ∃ d, View.ofFloat x = .finite d ∧ d.value = n := by
  unfold toInt? at h
  split at h
  next d hview =>
    refine ⟨d, hview, ?_⟩
    split at h
    next hwhole =>
      rw [← Option.some.inj h]
      rcases Int.lt_or_le d.exponent 0 with hneg | hnonneg
      · obtain ⟨k, hk⟩ : ∃ k : Nat, d.exponent = -k := ⟨(-d.exponent).toNat, by omega⟩
        have hunit : (-d.exponent).toNat = k := by omega
        have hzero : d.mantissa % 2 ^ k = 0 := by
          rw [hunit] at hwhole
          exact hwhole.resolve_left (by omega)
        obtain ⟨c, hc⟩ := Nat.dvd_of_mod_eq_zero hzero
        rw [value_of_neg hk, roundTo_inward hk (by omega) fun _ _ => rfl, hc,
          Nat.mul_div_cancel_left c (Nat.two_pow_pos k)]
        cases d.negative <;> simp [signed, neg_div]
      · exact value_of_nonneg hnonneg .towardZero
    next => cases h
  next => cases h

/-- A float is at most one that is a whole number exactly if it is at most this number. -/
theorem le_iff_of_toInt? {y : Float} {n : Int} (h : toInt? y = some n) (x : Float) :
    x ≤ y ↔ AtMost x n := by
  obtain ⟨d, hview, hvalue⟩ := value_of_toInt? h
  rw [le_iff_atMost x hview, hvalue]

theorem ge_iff_of_toInt? {x : Float} {n : Int} (h : toInt? x = some n) (y : Float) :
    x ≤ y ↔ AtLeast y n := by
  obtain ⟨d, hview, hvalue⟩ := value_of_toInt? h
  rw [le_iff_atLeast hview y, hvalue]

theorem toIntBetween_of_toInt? {x : Float} {n : Int} (h : toInt? x = some n) (least most : Int) :
    toIntBetween least most x = max least (min most n) := by
  unfold toInt? at h
  split at h
  next d hview =>
    split at h
    next => rw [toIntBetween, hview, ← Option.some.inj h]
    next => cases h
  next => cases h

end SceneScript.Number
