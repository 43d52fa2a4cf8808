import SceneScript.Proofs.Number.Bits
import SceneScript.Number.Rounding

namespace SceneScript.Number

/-- A magnitude with a sign. -/
def signed (negative : Bool) (n : Nat) : Int := if negative then -n else n

theorem natAbs_signed (negative : Bool) (n : Nat) : (signed negative n).natAbs = n := by
  unfold signed
  split <;> omega

theorem signed_not (negative : Bool) (n : Nat) : signed (!negative) n = -signed negative n := by
  cases negative
  · rfl
  · exact (Int.neg_neg _).symm

theorem toInt?_of_finite {x : Float} {negative : Bool} {m n : Nat} {e : Int}
    (h : View.ofFloat x = .finite ⟨negative, m, e⟩)
    (hwhole : 0 ≤ e ∨ m % Nat.pow 2 (-e).toNat = 0)
    (hn : Dyadic.roundTo .towardZero ⟨negative, m, e⟩ = n) :
    toInt? x = some (signed negative n) := by
  rw [toInt?, h]
  dsimp only
  rw [if_pos hwhole, hn]
  rfl

theorem toInt?_of_shifted_up {x : Float} {negative : Bool} {m d : Nat}
    (h : View.ofFloat x = .finite ⟨negative, m, d⟩) :
    toInt? x = some (signed negative (m * 2 ^ d)) := by
  refine toInt?_of_finite h (.inl (Int.natCast_nonneg d)) ?_
  rw [Dyadic.roundTo, if_pos (Int.natCast_nonneg d)]
  rfl

theorem toInt?_of_shifted_down {x : Float} {negative : Bool} {n d : Nat}
    (h : View.ofFloat x = .finite ⟨negative, n * 2 ^ d, -d⟩) :
    toInt? x = some (signed negative n) := by
  have hunit : (- -(d : Int)).toNat = d := by omega
  refine toInt?_of_finite h (.inr ?_) ?_
  · rw [hunit]
    exact Nat.mul_mod_left ..
  · rcases Nat.eq_zero_or_pos d with rfl | hshift
    · have hnone : (0 : Int) ≤ -((0 : Nat) : Int) := by decide
      rw [Dyadic.roundTo, if_pos hnone]
      simp
    · have hneg : ¬(0 : Int) ≤ -(d : Int) := by omega
      rw [Dyadic.roundTo, if_neg hneg]
      simp only [Rounding.movesOut, hunit, Bool.false_eq_true, if_false]
      exact Nat.mul_div_cancel n (Nat.two_pow_pos d)

def IsShort (n : Nat) : Prop := ∃ a k, a < 2 ^ 53 ∧ n = a * 2 ^ k

theorem isShort_two_pow (k : Nat) : IsShort (2 ^ k) := ⟨1, k, by decide, (Nat.one_mul _).symm⟩

/-- The bits of a short number beyond the 53rd are zeros. -/
theorem IsShort.dvd {n l : Nat} (h : IsShort n) (hl : 2 ^ (l + 52) ≤ n) : 2 ^ l ∣ n := by
  obtain ⟨a, k, ha, rfl⟩ := h
  have hlk : l ≤ k := by
    by_contra hlt
    have hkl : k + 53 ≤ l + 52 := by omega
    have hpow : 2 ^ (k + 53) ≤ 2 ^ (l + 52) := Nat.pow_le_pow_right (by decide) hkl
    have hlt : a * 2 ^ k < 2 ^ 53 * 2 ^ k := Nat.mul_lt_mul_of_pos_right ha (Nat.two_pow_pos k)
    rw [← Nat.pow_add, Nat.add_comm 53 k] at hlt
    exact absurd (Nat.lt_of_lt_of_le hlt hpow) (Nat.not_lt.2 hl)
  exact Nat.dvd_mul_left_of_dvd (Nat.pow_dvd_pow 2 hlk) a

theorem isShort_roundTo {d : Dyadic} (h : d.mantissa < 2 ^ 53) :
    IsShort (d.roundTo .towardZero) := by
  unfold Dyadic.roundTo
  split
  next => exact ⟨d.mantissa, d.exponent.toNat, h, rfl⟩
  next =>
    simp only [Rounding.movesOut, Bool.false_eq_true, if_false]
    exact ⟨_, 0, Nat.lt_of_le_of_lt (Nat.div_le_self ..) h, (Nat.mul_one _).symm⟩

/-- The whole number that a float is has no more bits than the float. -/
theorem isShort_of_toInt? {x : Float} {n : Int} (h : toInt? x = some n) : IsShort n.natAbs := by
  unfold toInt? at h
  split at h
  next d hview =>
    split at h
    next =>
      have hvalue : signed d.negative (d.roundTo .towardZero) = n := Option.some.inj h
      rw [← hvalue, natAbs_signed]
      exact isShort_roundTo (isCanonical_of_view hview).mantissa_lt
    next => cases h
  next => cases h

theorem toInt?_toFloat_zero (negative : Bool) :
    toInt? (Dyadic.toFloat ⟨negative, 0, 0⟩) = some 0 := by
  cases negative <;> decide +kernel

/-- The mantissa of a float has the 53 highest bits of the number, `l` being the place of the
first. -/
theorem view_toFloat {n l m : Nat} (negative : Bool) (hpos : 0 < n)
    (hl : n.log2 = l) (hl64 : l ≤ 64) (hm : Nat.pow 2 52 ≤ m) (hm' : m < Nat.pow 2 53)
    (hmantissa : (if (l : Int) - 52 ≤ 0 then n * Nat.pow 2 ((0 : Int) - ((l : Int) - 52)).toNat
      else n / Nat.pow 2 ((l : Int) - 52 - 0).toNat) = m) :
    View.ofFloat (Dyadic.toFloat ⟨negative, n, 0⟩) = .finite ⟨negative, m, (l : Int) - 52⟩ := by
  have hmax : max ((0 : Int) + (l : Int) - 52) (-1074) = (l : Int) - 52 := by omega
  have hexponent : ((l : Int) - 52 + 1075).toNat = l + 1023 := by omega
  have hplace : ((l + 1023 : Nat) : Int) - 1075 = (l : Int) - 52 := by omega
  rw [Dyadic.toFloat]
  simp only [Nat.ne_of_gt hpos, if_false, hl, hmax, hmantissa]
  rw [if_neg (Nat.not_lt.2 hm), hexponent, view_ofBits negative (by omega)
    (by omega) hm hm', hplace]

/-- A number of more than 53 bits is the mantissa times a power of two, of which it is a
multiple. -/
theorem toInt?_toFloat_of_large {n d : Nat} (negative : Bool) (h : IsShort n) (hpos : 0 < n)
    (hd : n.log2 = d + 52) (hd64 : d + 52 ≤ 64) (hd0 : 0 < d) :
    toInt? (Dyadic.toFloat ⟨negative, n, 0⟩) = some (signed negative n) := by
  have hlow := Nat.log2_self_le (Nat.ne_of_gt hpos)
  have hhigh : n < 2 ^ (n.log2 + 1) := Nat.lt_log2_self
  rw [hd] at hlow hhigh
  obtain ⟨m, rfl⟩ := h.dvd hlow
  -- No bit is cut off, so what is left are exactly 53.
  have hm : Nat.pow 2 52 ≤ m := by
    rw [Nat.pow_add] at hlow
    exact Nat.le_of_mul_le_mul_left hlow (Nat.two_pow_pos d)
  have hm' : m < Nat.pow 2 53 := by
    rw [Nat.add_assoc, Nat.pow_add] at hhigh
    exact Nat.lt_of_mul_lt_mul_left hhigh
  have hplace : ((d + 52 : Nat) : Int) - 52 = d := by omega
  have hview := @view_toFloat _ _ m negative hpos hd hd64 hm hm'
  rw [hplace] at hview
  rw [toInt?_of_shifted_up (hview ?_), Nat.mul_comm]
  rw [if_neg (by omega), Int.sub_zero, Int.toNat_natCast]
  exact Nat.mul_div_cancel_left m (Nat.two_pow_pos d)

theorem scaled_bounds {n l d : Nat} (hpos : 0 < n) (hl : n.log2 = l) (hd : 52 = l + d) :
    2 ^ 52 ≤ n * 2 ^ d ∧ n * 2 ^ d < 2 ^ 53 := by
  obtain ⟨hlow, hhigh⟩ := (Nat.log2_eq_iff (Nat.ne_of_gt hpos)).1 hl
  have hbits : 53 = l + 1 + d := by omega
  rw [hbits, hd, Nat.pow_add, Nat.pow_add]
  exact ⟨Nat.mul_le_mul_right _ hlow, Nat.mul_lt_mul_of_pos_right hhigh (Nat.two_pow_pos d)⟩

/-- A number of 53 bits at most is shifted up to them, and rounding shifts it back. -/
theorem toInt?_toFloat_of_small {n l d : Nat} (negative : Bool) (hpos : 0 < n) (hl : n.log2 = l)
    (hd : 52 = l + d) : toInt? (Dyadic.toFloat ⟨negative, n, 0⟩) = some (signed negative n) := by
  obtain ⟨hm, hm'⟩ := scaled_bounds hpos hl hd
  have hplace : (l : Int) - 52 = -d := by omega
  have hunit : ((0 : Int) - -(d : Int)).toNat = d := by omega
  have hview := view_toFloat negative hpos hl (by omega) hm hm'
  rw [hplace, if_pos (by omega), hunit] at hview
  exact toInt?_of_shifted_down (hview rfl)

/-- A short number that a float can hold is the value of its float. -/
theorem toInt?_toFloat {n : Nat} (negative : Bool) (h : IsShort n) (hle : n ≤ 2 ^ 64) :
    toInt? (Dyadic.toFloat ⟨negative, n, 0⟩) = some (signed negative n) := by
  rcases Nat.eq_zero_or_pos n with rfl | hpos
  · rw [toInt?_toFloat_zero]
    cases negative <;> rfl
  have hlow := Nat.log2_self_le (Nat.ne_of_gt hpos)
  have hl64 : n.log2 ≤ 64 := by
    by_contra hlarge
    have hpow : 2 ^ 65 ≤ 2 ^ n.log2 := Nat.pow_le_pow_right (by decide) (by omega)
    exact absurd (hpow.trans (hlow.trans hle)) (by decide)
  rcases Nat.lt_or_ge 52 n.log2 with hlarge | hsmall
  · exact toInt?_toFloat_of_large negative h hpos (Nat.sub_add_cancel (Nat.le_of_lt hlarge)).symm
      (by omega) (Nat.sub_pos_of_lt hlarge)
  · exact toInt?_toFloat_of_small negative hpos rfl (Nat.add_sub_cancel' hsmall).symm

end SceneScript.Number
