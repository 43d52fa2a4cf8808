import SceneScript.Proofs.Number.Bits
import SceneScript.Proofs.Number.Decimal

namespace SceneScript.Number

theorem holds_of_multiple? {i : Interval} {tie : Tie} {unit n : Nat}
    (h : i.multiple? tie unit = some n) : i.holds (n * unit) = true := by
  unfold Interval.multiple? at h
  dsimp only at h
  split at h
  next hbelow habove =>
    cases h
    split
    · exact habove
    · exact hbelow
  next hbelow _ =>
    cases h
    exact hbelow
  next _ habove =>
    cases h
    exact habove
  next => cases h

/-- The coarsest multiple lies in the interval, as the value itself does. -/
theorem exists_holds_coarsest {i : Interval} (hvalue : i.holds i.value = true)
    (tie : Tie) (k : Nat) : ∃ j : Nat, (i.coarsest tie k).exponent = j ∧
      i.holds ((i.coarsest tie k).coefficient * 10 ^ j) = true := by
  induction k with
  | zero => exact ⟨0, rfl, by rwa [Nat.pow_zero, Nat.mul_one]⟩
  | succ k ih =>
    rw [Interval.coarsest]
    split
    next n hn => exact ⟨k + 1, rfl, holds_of_multiple? hn⟩
    next => exact ih

theorem value_trimZeros (d : Decimal) (fuel : Nat) : (d.trimZeros fuel).value = d.value := by
  induction fuel generalizing d with
  | zero => rfl
  | succ fuel ih =>
    rw [Decimal.trimZeros]
    split
    next h =>
      obtain ⟨c, hc⟩ := Nat.dvd_of_mod_eq_zero h.2
      rw [ih, Decimal.value, Decimal.value, hc, Nat.mul_div_cancel_left c (by decide)]
      dsimp only
      rw [zpow_add_one₀ (by norm_num)]
      push_cast
      ring
    next => rfl

/-- The lower end of the interval of a float, in quarters of its last place. Below a power of two
the neighbour is half as far away. -/
def lowQuarters (m : Nat) (e : Int) : Nat := 4 * m - if m = Nat.pow 2 52 ∧ -1074 < e then 1 else 2

/-- Whether `v` rounds to the float with this mantissa and exponent. The ends of the interval round
to an even mantissa. -/
structure Rounds (m : Nat) (e : Int) (v : ℚ) : Prop where
  low : lowQuarters m e * 2 ^ (e - 2) ≤ v
  high : v ≤ (4 * m + 2 : Nat) * 2 ^ (e - 2)
  inner : m % 2 = 1 → lowQuarters m e * 2 ^ (e - 2) < v ∧ v < (4 * m + 2 : Nat) * 2 ^ (e - 2)

def quarterUnits (quarter : Int) : Nat :=
  if 0 ≤ quarter then Nat.pow 2 quarter.toNat else Nat.pow 5 (-quarter).toNat

theorem quarterUnits_mul (quarter : Int) :
    (quarterUnits quarter : ℚ) * 10 ^ min quarter 0 = 2 ^ quarter := by
  rcases Int.lt_or_le quarter 0 with hneg | hnonneg
  · obtain ⟨k, rfl⟩ : ∃ k : Nat, quarter = -k := ⟨(-quarter).toNat, by omega⟩
    have hten : (10 : ℚ) = 5 * 2 := by norm_num
    rw [quarterUnits, if_neg (by omega), Int.neg_neg, Int.toNat_natCast,
      min_eq_left (by omega), zpow_neg, zpow_neg, zpow_natCast, zpow_natCast, hten, mul_pow]
    field_simp
    exact Nat.cast_pow 5 k
  · obtain ⟨k, rfl⟩ := Int.eq_ofNat_of_zero_le hnonneg
    rw [quarterUnits, if_pos hnonneg, Int.toNat_natCast, min_eq_right hnonneg,
      zpow_zero, zpow_natCast, mul_one]
    exact Nat.cast_pow 2 k

theorem rounds_of_holds {m : Nat} {e : Int} {n : Nat}
    (h : (Interval.ofDyadic m e).1.holds n = true) :
    Rounds m e (n * 10 ^ (Interval.ofDyadic m e).2) := by
  -- The interval is kept in quarters of the last place, as whole numbers in units of a power of
  -- ten; divided by that unit its ends are those of the interval of the float.
  have hunit : (0 : ℚ) < 10 ^ (Interval.ofDyadic m e).2 := zpow_pos (by norm_num) _
  have hends (k : Nat) : ((k * quarterUnits (e - 2) : Nat) : ℚ) * 10 ^ (Interval.ofDyadic m e).2 =
      k * 2 ^ (e - 2) := by
    rw [Nat.cast_mul, mul_assoc]
    exact congrArg ((k : ℚ) * ·) (quarterUnits_mul (e - 2))
  have hlow : ((Interval.ofDyadic m e).1.low : ℚ) * _ = _ := hends (lowQuarters m e)
  have hhigh : ((Interval.ofDyadic m e).1.high : ℚ) * _ = _ := hends (4 * m + 2)
  rw [Interval.holds, Bool.or_eq_true, Bool.and_eq_true, Bool.and_eq_true, decide_eq_true_eq,
    decide_eq_true_eq, Bool.or_eq_true, beq_iff_eq, beq_iff_eq] at h
  rcases h with ⟨habove, hbelow⟩ | ⟨hclosed, hend⟩
  · have hstrict := And.intro (mul_lt_mul_of_pos_right (Nat.cast_lt (α := ℚ).2 habove) hunit)
      (mul_lt_mul_of_pos_right (Nat.cast_lt (α := ℚ).2 hbelow) hunit)
    rw [hlow, hhigh] at hstrict
    exact ⟨hstrict.1.le, hstrict.2.le, fun _ => hstrict⟩
  · have heven : m % 2 = 0 := by
      rwa [Interval.ofDyadic, beq_iff_eq] at hclosed
    have hodd : m % 2 ≠ 1 := by omega
    have hle : (lowQuarters m e : ℚ) * 2 ^ (e - 2) ≤ (4 * m + 2 : Nat) * 2 ^ (e - 2) := by
      refine mul_le_mul_of_nonneg_right (Nat.cast_le.2 ?_) (by positivity)
      unfold lowQuarters
      omega
    rcases hend with rfl | rfl
    · rw [hlow]
      exact ⟨le_refl _, hle, fun h => absurd h hodd⟩
    · rw [hhigh]
      exact ⟨hle, le_refl _, fun h => absurd h hodd⟩

theorem holds_value {m : Nat} (hm : 0 < m) (e : Int) :
    (Interval.ofDyadic m e).1.holds (Interval.ofDyadic m e).1.value = true := by
  have hscale : 0 < quarterUnits (e - 2) := by
    unfold quarterUnits
    split
    · exact Nat.two_pow_pos _
    · exact Nat.pow_pos (by decide)
  have hquarters : lowQuarters m e < 4 * m := Nat.sub_lt (by omega) (by split <;> decide)
  have hbelow : (Interval.ofDyadic m e).1.low < (Interval.ofDyadic m e).1.value :=
    Nat.mul_lt_mul_of_pos_right hquarters hscale
  have habove : (Interval.ofDyadic m e).1.value < (Interval.ofDyadic m e).1.high :=
    Nat.mul_lt_mul_of_pos_right (by omega) hscale
  rw [Interval.holds, decide_eq_true hbelow, decide_eq_true habove]
  rfl

/-- The shortest decimal rounds to its float. -/
theorem rounds_shortest {m : Nat} (hm : 0 < m) (e : Int) (tie : Tie) :
    Rounds m e (shortest tie m e).value := by
  obtain ⟨j, hexponent, hholds⟩ := exists_holds_coarsest (holds_value hm e) tie
    (digitCount (Interval.ofDyadic m e).1.value - 1)
  rw [shortest, if_neg (Nat.ne_of_gt hm)]
  dsimp only
  rw [value_trimZeros, Decimal.value, hexponent, zpow_add₀ (by norm_num), ← mul_assoc]
  have hrounds := rounds_of_holds hholds
  push_cast at hrounds
  exact hrounds

theorem Rounds.lt {m N : Nat} {e : Int} {v : ℚ} (hv : Rounds m e v)
    (hN : 4 * m + 2 < N ∨ m % 2 = 1 ∧ 4 * m + 2 ≤ N) : v < N * 2 ^ (e - 2) := by
  have hunit : (0 : ℚ) < 2 ^ (e - 2) := zpow_pos (by norm_num) _
  rcases hN with hlt | ⟨hodd, hle⟩
  · exact hv.high.trans_lt (mul_lt_mul_of_pos_right (Nat.cast_lt.2 hlt) hunit)
  · exact (hv.inner hodd).2.trans_le (mul_le_mul_of_nonneg_right (Nat.cast_le.2 hle) hunit.le)

/-- A number that rounds to a float is below the interval of a greater one. -/
theorem not_rounds_of_lex {m n : Nat} {e f : Int} {v : ℚ} (hm : m < 2 ^ 53)
    (hm' : 2 ^ 52 ≤ m ∨ e = -1074) (hn : 2 ^ 52 ≤ n ∨ f = -1074) (he : -1074 ≤ e)
    (h : e < f ∨ e = f ∧ m < n) (hv : Rounds m e v) : ¬ Rounds n f v := by
  intro hw
  rcases h with hlt | ⟨rfl, hlt⟩
  · -- One place further up, an interval starts where the last one below ends, which is open.
    obtain ⟨k, rfl⟩ : ∃ k : Nat, f = e + 1 + k := ⟨(f - e - 1).toNat, by omega⟩
    have hfull : 2 ^ 54 - 1 ≤ lowQuarters n (e + 1 + k) := by
      have hn := hn.resolve_right (by omega)
      have hpow : Nat.pow 2 52 = 2 ^ 52 := rfl
      unfold lowQuarters
      split <;> omega
    have hgrow : (2 : ℚ) * 2 ^ (e - 2) ≤ 2 ^ (e + 1 + (k : Int) - 2) := by
      rw [← zpow_one_add₀ (by norm_num)]
      exact zpow_le_zpow_right₀ (by norm_num) (by omega)
    have hbelow : v < (2 ^ 55 - 2 : Nat) * 2 ^ (e - 2) := hv.lt (by omega)
    have habove : ((2 ^ 54 - 1 : Nat) : ℚ) * (2 * 2 ^ (e - 2)) ≤ v :=
      (mul_le_mul (Nat.cast_le.2 hfull) hgrow (by positivity) (Nat.cast_nonneg _)).trans hw.low
    norm_num at hbelow habove
    linarith
  · have hlow : lowQuarters n e = 4 * n - 2 := by
      have hpow : Nat.pow 2 52 = 2 ^ 52 := rfl
      rw [lowQuarters, if_neg (by omega)]
    by_cases hnext : m % 2 = 0 ∧ n = m + 1
    · have hedge : 4 * n - 2 = 4 * m + 2 := by omega
      have hstrict := (hw.inner (by omega)).1
      rw [hlow, hedge] at hstrict
      exact absurd hv.high (not_le.2 hstrict)
    · have hbelow : v < (lowQuarters n e : Nat) * 2 ^ (e - 2) := hv.lt (by omega)
      exact absurd hw.low (not_le.2 hbelow)

/-- No number rounds to two floats. -/
theorem eq_of_rounds {c d : Dyadic} {v : ℚ} (hc : c.IsCanonical) (hd : d.IsCanonical)
    (h : Rounds c.mantissa c.exponent v) (h' : Rounds d.mantissa d.exponent v) :
    c.mantissa = d.mantissa ∧ c.exponent = d.exponent := by
  rcases lt_trichotomy c.exponent d.exponent with hlt | heq | hgt
  · exact absurd h' (not_rounds_of_lex hc.mantissa_lt hc.full hd.full hc.least (.inl hlt) h)
  · rcases lt_trichotomy c.mantissa d.mantissa with hlt | hsame | hgt
    · exact absurd h' (not_rounds_of_lex hc.mantissa_lt hc.full hd.full hc.least
        (.inr ⟨heq, hlt⟩) h)
    · exact ⟨hsame, heq⟩
    · exact absurd h (not_rounds_of_lex hd.mantissa_lt hd.full hc.full hd.least
        (.inr ⟨heq.symm, hgt⟩) h')
  · exact absurd h (not_rounds_of_lex hd.mantissa_lt hd.full hc.full hd.least (.inl hgt) h')

theorem pos_of_rounds {m : Nat} (hm : 0 < m) {e : Int} {v : ℚ} (h : Rounds m e v) : 0 < v := by
  have hquarters : 0 < lowQuarters m e := by
    unfold lowQuarters
    split <;> omega
  exact (mul_pos (Nat.cast_pos.2 hquarters) (zpow_pos (by norm_num) _)).trans_le h.low

/-- Two magnitudes of floats with shortest decimals of one value are the same. -/
theorem eq_of_value_shortest {c d : Dyadic} (hc : c.IsCanonical) (hd : d.IsCanonical) {tie : Tie}
    (h : (shortest tie c.mantissa c.exponent).value = (shortest tie d.mantissa d.exponent).value) :
    c.mantissa = d.mantissa ∧ c.exponent = d.exponent := by
  have hzero (e : Int) : (shortest tie 0 e).value = 0 := by
    rw [shortest, if_pos rfl]
    simp [Decimal.value]
  rcases Nat.eq_zero_or_pos c.mantissa with hc0 | hc0 <;>
    rcases Nat.eq_zero_or_pos d.mantissa with hd0 | hd0
  · have hce := hc.full.resolve_left (by omega)
    have hde := hd.full.resolve_left (by omega)
    exact ⟨hc0.trans hd0.symm, hce.trans hde.symm⟩
  · have hpos := pos_of_rounds hd0 (rounds_shortest hd0 d.exponent tie)
    rw [← h, hc0, hzero] at hpos
    exact absurd hpos (lt_irrefl 0)
  · have hpos := pos_of_rounds hc0 (rounds_shortest hc0 c.exponent tie)
    rw [h, hd0, hzero] at hpos
    exact absurd hpos (lt_irrefl 0)
  · have hrounds := rounds_shortest hc0 c.exponent tie
    rw [h] at hrounds
    exact eq_of_rounds hc hd hrounds (rounds_shortest hd0 d.exponent tie)

end SceneScript.Number
