import Mathlib
import SceneScript.Number.Reader

namespace SceneScript.Number

def Decimal.value (d : Decimal) : ℚ := d.coefficient * 10 ^ d.exponent

def readDecimal? (text : List Char) : Option Decimal :=
  (readPower (splitDigits text).2.2).map fun power =>
    ⟨ofDigits ((splitDigits text).1 ++ (splitDigits text).2.1),
      power - (splitDigits text).2.1.length⟩

theorem ofDigits_eq (text : List Char) : ofDigits text = Nat.ofDigitChars 10 text 0 :=
  Nat.ofDigitChars_eq_foldl.symm

theorem ofDigits_digits (n : Nat) : ofDigits (digits n) = n := by
  rw [ofDigits_eq, digits, Nat.ofDigitChars_ten_toDigits]

theorem ofDigits_zeros_append (n : Nat) (text : List Char) :
    ofDigits (List.replicate n '0' ++ text) = ofDigits text := by
  rw [ofDigits_eq, Nat.ofDigitChars_append, Nat.ofDigitChars_replicate_zero,
    Nat.mul_zero, ofDigits_eq]

theorem isDigit_of_mem_digits {n : Nat} {c : Char} (h : c ∈ digits n) : c.isDigit = true :=
  Nat.isDigit_of_mem_toDigits (by decide) (by decide) h

theorem digits_ne_nil (n : Nat) : digits n ≠ [] := Nat.toDigits_ne_nil

def StopsAt (p : Char → Bool) (text : List Char) : Prop := ∀ c ∈ text.head?, p c = false

theorem takeWhile_append_stop {p : Char → Bool} {part rest : List Char}
    (hpart : ∀ c ∈ part, p c = true)
    (hrest : StopsAt p rest) : (part ++ rest).takeWhile p = part := by
  rw [List.takeWhile_append_of_pos hpart]
  cases rest with
  | nil => exact List.append_nil part
  | cons c rest => rw [List.takeWhile_cons_of_neg (by simp [hrest c rfl]), List.append_nil]

theorem dropWhile_append_stop {p : Char → Bool} {part rest : List Char}
    (hpart : ∀ c ∈ part, p c = true)
    (hrest : StopsAt p rest) : (part ++ rest).dropWhile p = rest := by
  rw [List.dropWhile_append_of_pos hpart]
  cases rest with
  | nil => rfl
  | cons c rest => exact List.dropWhile_cons_of_neg (by simp [hrest c rfl])

variable {whole fraction rest : List Char}

theorem splitDigits_point (hwhole : ∀ c ∈ whole, c.isDigit = true)
    (hfraction : ∀ c ∈ fraction, c.isDigit = true) (hrest : StopsAt Char.isDigit rest) :
    splitDigits (whole ++ '.' :: (fraction ++ rest)) = (whole, fraction, rest) := by
  have hpoint : StopsAt Char.isDigit ('.' :: (fraction ++ rest)) := by
    rintro c ⟨⟩
    decide
  rw [splitDigits, takeWhile_append_stop hwhole hpoint, dropWhile_append_stop hwhole hpoint]
  simp only [takeWhile_append_stop hfraction hrest, dropWhile_append_stop hfraction hrest]

theorem splitDigits_point_end (hwhole : ∀ c ∈ whole, c.isDigit = true)
    (hfraction : ∀ c ∈ fraction, c.isDigit = true) :
    splitDigits (whole ++ '.' :: fraction) = (whole, fraction, []) := by
  have hsplit := splitDigits_point hwhole hfraction (nofun : StopsAt Char.isDigit [])
  rwa [List.append_nil] at hsplit

theorem splitDigits_power (hwhole : ∀ c ∈ whole, c.isDigit = true) :
    splitDigits (whole ++ 'e' :: rest) = (whole, [], 'e' :: rest) := by
  have hmark : StopsAt Char.isDigit ('e' :: rest) := by
    rintro c ⟨⟩
    decide
  rw [splitDigits, takeWhile_append_stop hwhole hmark, dropWhile_append_stop hwhole hmark]
  rfl

theorem splitDigits_digits (hwhole : ∀ c ∈ whole, c.isDigit = true) :
    splitDigits whole = (whole, [], []) := by
  have hend : StopsAt Char.isDigit [] := nofun
  rw [← List.append_nil whole, splitDigits, takeWhile_append_stop hwhole hend,
    dropWhile_append_stop hwhole hend]
  rw [List.append_nil]

/-- A power is read with the sign it is written with. -/
theorem readPower_written (power : Int) :
    readPower ('e' :: (if power < 0 then '-' else '+') :: digits power.natAbs) = some power := by
  have hnonempty : (digits power.natAbs).isEmpty = false := by
    simp [digits]
  have hall : (digits power.natAbs).all Char.isDigit = true :=
    List.all_eq_true.2 fun c hc => isDigit_of_mem_digits hc
  have hmark : 'e'.toLower = 'e' := by decide
  by_cases hneg : power < 0
  · rw [if_pos hneg, readPower, if_pos hmark]
    simp only [hnonempty, hall, ofDigits_digits]
    exact congrArg some (show -(power.natAbs : Int) = power by omega)
  · rw [if_neg hneg, readPower, if_pos hmark]
    simp only [hnonempty, hall, ofDigits_digits]
    exact congrArg some (show (power.natAbs : Int) = power by omega)

theorem readDecimal?_of_split {text whole fraction rest : List Char} {power : Int}
    (hsplit : splitDigits text = (whole, fraction, rest)) (hpower : readPower rest = some power) :
    readDecimal? text = some ⟨ofDigits (whole ++ fraction), power - fraction.length⟩ := by
  rw [readDecimal?, hsplit, hpower]
  rfl

/-- The digits of a coefficient with zeros before them, so many that there is one before the
point. -/
def padded (places coefficient : Nat) : List Char :=
  List.replicate (places + 1 - (digits coefficient).length) '0' ++ digits coefficient

theorem isDigit_of_mem_padded {places coefficient : Nat} {c : Char}
    (h : c ∈ padded places coefficient) : c.isDigit = true := by
  rcases List.mem_append.1 h with hzero | hdigit
  · rw [List.eq_of_mem_replicate hzero]
    decide
  · exact isDigit_of_mem_digits hdigit

theorem lt_length_padded (places coefficient : Nat) :
    places < (padded places coefficient).length := by
  simp only [padded, List.length_append, List.length_replicate]
  omega

theorem positional_of_neg {d : Decimal} {places : Nat} (h : d.exponent = -places)
    (hplaces : 0 < places) (pointed : Bool) : d.positional pointed =
      (padded places d.coefficient).take ((padded places d.coefficient).length - places) ++
        '.' :: (padded places d.coefficient).drop
          ((padded places d.coefficient).length - places) := by
  have hunit : (-d.exponent).toNat = places := by omega
  rw [Decimal.positional, if_neg (by omega), hunit]
  rfl

theorem ofDigits_padded (places coefficient : Nat) :
    ofDigits (padded places coefficient) = coefficient := by
  rw [padded, ofDigits_zeros_append, ofDigits_digits]

theorem ofDigits_digits_zero (n : Nat) : ofDigits (digits n ++ ['0']) = 10 * n := by
  rw [ofDigits_eq, Nat.ofDigitChars_append, ← ofDigits_eq, ofDigits_digits]
  rfl

theorem exists_readDecimal?_fraction (pointed : Bool) {d : Decimal} (h : d.exponent < 0) :
    ∃ d', readDecimal? (d.positional pointed) = some d' ∧ d'.value = d.value := by
  obtain ⟨places, hplaces⟩ : ∃ places : Nat, d.exponent = -places := ⟨(-d.exponent).toNat, by omega⟩
  have hlength := lt_length_padded places d.coefficient
  rw [positional_of_neg hplaces (by omega)]
  refine ⟨_, readDecimal?_of_split (splitDigits_point_end
    (fun c hc => isDigit_of_mem_padded (List.mem_of_mem_take hc))
    (fun c hc => isDigit_of_mem_padded (List.mem_of_mem_drop hc))) rfl, ?_⟩
  have hfraction : (padded places d.coefficient).length -
      ((padded places d.coefficient).length - places) = places := by omega
  rw [Decimal.value, Decimal.value, List.take_append_drop, ofDigits_padded, List.length_drop,
    hfraction, hplaces, Int.zero_sub]

theorem exists_readDecimal?_whole (pointed : Bool) {d : Decimal} (h : 0 ≤ d.exponent) :
    ∃ d', readDecimal? (d.positional pointed) = some d' ∧ d'.value = d.value := by
  obtain ⟨places, hplaces⟩ := Int.eq_ofNat_of_zero_le h
  have hwhole (c : Char) (hc : c ∈ digits (d.coefficient * Nat.pow 10 places)) : c.isDigit = true :=
    isDigit_of_mem_digits hc
  rw [Decimal.positional, if_pos h, hplaces, Int.toNat_natCast]
  cases pointed with
  | true =>
    have hzero : ∀ c ∈ ['0'], c.isDigit = true :=
      List.forall_mem_singleton.2 (by decide)
    rw [if_pos rfl]
    have hsplit := splitDigits_point_end hwhole hzero
    refine ⟨_, readDecimal?_of_split hsplit rfl, ?_⟩
    rw [Decimal.value, Decimal.value, ofDigits_digits_zero, hplaces]
    simp
    ring
  | false =>
    simp only [Bool.false_eq_true, if_false, List.append_nil]
    refine ⟨_, readDecimal?_of_split (splitDigits_digits hwhole) rfl, ?_⟩
    rw [Decimal.value, Decimal.value, List.append_nil, ofDigits_digits, hplaces]
    simp

theorem exists_readDecimal?_positional (pointed : Bool) (d : Decimal) :
    ∃ d', readDecimal? (d.positional pointed) = some d' ∧ d'.value = d.value :=
  (Int.lt_or_le d.exponent 0).elim (exists_readDecimal?_fraction pointed)
    (exists_readDecimal?_whole pointed)

theorem exists_readDecimal?_scientific (d : Decimal) :
    ∃ d', readDecimal? d.scientific = some d' ∧ d'.value = d.value := by
  have hall (c : Char) (hc : c ∈ digits d.coefficient) : c.isDigit = true :=
    isDigit_of_mem_digits hc
  have hlength : 0 < (digits d.coefficient).length := List.length_pos_iff.2 (digits_ne_nil _)
  have hpower := readPower_written (d.exponent + (digits d.coefficient).length - 1)
  unfold Decimal.scientific
  dsimp only
  split
  next hnone =>
    rw [List.append_nil]
    refine ⟨_, readDecimal?_of_split (splitDigits_power
      fun c hc => hall c (List.mem_of_mem_take hc)) hpower, ?_⟩
    have hone : (digits d.coefficient).length = 1 := by
      have hdrop := congrArg List.length (List.isEmpty_iff.1 hnone)
      rw [List.length_drop] at hdrop
      exact Nat.le_antisymm (Nat.le_of_sub_eq_zero hdrop) hlength
    rw [Decimal.value, Decimal.value, List.append_nil, List.take_of_length_le (Nat.le_of_eq hone),
      ofDigits_digits, hone]
    simp
  next hsome =>
    rw [List.append_assoc]
    refine ⟨_, readDecimal?_of_split (splitDigits_point
      (fun c hc => hall c (List.mem_of_mem_take hc))
      (fun c hc => hall c (List.mem_of_mem_drop hc)) ?_) hpower, ?_⟩
    · rintro c ⟨⟩
      decide
    · have hfraction : d.exponent + (digits d.coefficient).length - 1 -
          ((digits d.coefficient).drop 1).length = d.exponent := by
        rw [List.length_drop]
        omega
      rw [Decimal.value, Decimal.value, List.take_append_drop, ofDigits_digits]
      simp only [hfraction]

/-- A written magnitude is read back as a decimal of its value. -/
theorem exists_readDecimal?_magnitude (style : Style) (d : Decimal) :
    ∃ d', readDecimal? (style.magnitude d) = some d' ∧ d'.value = d.value := by
  unfold Style.magnitude
  dsimp only
  split
  · split
    · exact exists_readDecimal?_scientific d
    · exact exists_readDecimal?_positional _ d
  · exact exists_readDecimal?_positional _ d

theorem value_eq_of_magnitude_eq {style : Style} {d d' : Decimal}
    (h : style.magnitude d = style.magnitude d') : d.value = d'.value := by
  obtain ⟨r, hread, hvalue⟩ := exists_readDecimal?_magnitude style d
  obtain ⟨r', hread', hvalue'⟩ := exists_readDecimal?_magnitude style d'
  rw [h, hread'] at hread
  cases hread
  rw [← hvalue, hvalue']

end SceneScript.Number
