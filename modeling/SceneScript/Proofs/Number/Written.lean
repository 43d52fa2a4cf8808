import SceneScript.Proofs.Number.Shortest

namespace SceneScript.Number

def isNumeric (c : Char) : Bool := c.isDigit || c == '.' || c == 'e' || c == '+' || c == '-'

theorem isNumeric_of_isDigit {c : Char} (h : c.isDigit = true) : isNumeric c = true := by
  simp [isNumeric, h]

/-- Digits, of which there is at least one, and what else a number is written with. -/
def IsWritten (text : List Char) : Prop :=
  ∃ first rest, text = first :: rest ∧ first.isDigit = true ∧ ∀ c ∈ rest, isNumeric c = true

theorem IsWritten.of_digits {whole rest : List Char} (hwhole : whole ≠ [])
    (hdigits : ∀ c ∈ whole, c.isDigit = true) (hrest : ∀ c ∈ rest, isNumeric c = true) :
    IsWritten (whole ++ rest) := by
  obtain ⟨first, more, rfl⟩ := List.exists_cons_of_ne_nil hwhole
  refine ⟨first, more ++ rest, rfl, hdigits first List.mem_cons_self, fun c hc => ?_⟩
  rcases List.mem_append.1 hc with hmore | hrest'
  · exact isNumeric_of_isDigit (hdigits c (List.mem_cons_of_mem _ hmore))
  · exact hrest c hrest'

theorem isWritten_positional (pointed : Bool) (d : Decimal) : IsWritten (d.positional pointed) := by
  rcases Int.lt_or_le d.exponent 0 with hneg | hnonneg
  · obtain ⟨places, hplaces⟩ : ∃ places : Nat, d.exponent = -places :=
      ⟨(-d.exponent).toNat, by omega⟩
    have hlength := lt_length_padded places d.coefficient
    rw [positional_of_neg hplaces (by omega)]
    refine .of_digits ?_ (fun c hc => isDigit_of_mem_padded (List.mem_of_mem_take hc))
      fun c hc => ?_
    · rw [ne_eq, List.take_eq_nil_iff]
      rintro (hnone | hnil)
      · omega
      · rw [hnil] at hlength
        cases hlength
    · rcases List.mem_cons.1 hc with rfl | hdigit
      · rfl
      · exact isNumeric_of_isDigit (isDigit_of_mem_padded (List.mem_of_mem_drop hdigit))
  · rw [Decimal.positional, if_pos hnonneg]
    refine .of_digits (digits_ne_nil _) (fun c hc => isDigit_of_mem_digits hc) ?_
    cases pointed with
    | true => exact List.forall_mem_cons.2 ⟨rfl, List.forall_mem_singleton.2 rfl⟩
    | false => exact List.forall_mem_nil _

theorem isWritten_scientific (d : Decimal) : IsWritten d.scientific := by
  unfold Decimal.scientific
  dsimp only
  rw [List.append_assoc]
  refine .of_digits ?_ (fun c hc => isDigit_of_mem_digits (List.mem_of_mem_take hc)) fun c hc => ?_
  · rw [ne_eq, List.take_eq_nil_iff]
    exact not_or.2 ⟨Nat.one_ne_zero, digits_ne_nil _⟩
  · rcases List.mem_append.1 hc with hfraction | hpower
    · split at hfraction
      next => cases hfraction
      next =>
        rcases List.mem_cons.1 hfraction with rfl | hdigit
        · rfl
        · exact isNumeric_of_isDigit (isDigit_of_mem_digits (List.mem_of_mem_drop hdigit))
    · rcases List.mem_cons.1 hpower with rfl | hsigned
      · rfl
      · rcases List.mem_cons.1 hsigned with rfl | hdigit
        · split <;> rfl
        · exact isNumeric_of_isDigit (isDigit_of_mem_digits hdigit)

theorem isWritten_magnitude (style : Style) (d : Decimal) : IsWritten (style.magnitude d) := by
  unfold Style.magnitude
  dsimp only
  split
  · split
    · exact isWritten_scientific d
    · exact isWritten_positional _ d
  · exact isWritten_positional _ d

theorem toList_finite (style : Style) (d : Dyadic) : (style.finite d).toList =
    (if d.negative then ['-'] else []) ++
      style.magnitude (shortest style.tie d.mantissa d.exponent) :=
  String.toList_ofList

/-- Floats with one text are the same: the sign is read off the first character, and the magnitude
off its value. -/
theorem finite_injective {style : Style} {c d : Dyadic} (hc : c.IsCanonical) (hd : d.IsCanonical)
    (h : style.finite c = style.finite d) : c = d := by
  have htext := congrArg String.toList h
  rw [toList_finite, toList_finite] at htext
  obtain ⟨first, rest, hfirst, hdigit, -⟩ :=
    isWritten_magnitude style (shortest style.tie c.mantissa c.exponent)
  obtain ⟨first', rest', hfirst', hdigit', -⟩ :=
    isWritten_magnitude style (shortest style.tie d.mantissa d.exponent)
  have hminus : ¬ Char.isDigit '-' = true := by decide
  have hsign : c.negative = d.negative := by
    cases hcn : c.negative <;> cases hdn : d.negative
    · rfl
    · rw [hcn, hdn, hfirst] at htext
      cases (List.cons.inj htext).1
      exact absurd hdigit hminus
    · rw [hcn, hdn, hfirst'] at htext
      cases (List.cons.inj htext).1
      exact absurd hdigit' hminus
    · rfl
  rw [hsign, List.append_cancel_left_eq] at htext
  obtain ⟨hmantissa, hexponent⟩ := eq_of_value_shortest hc hd (value_eq_of_magnitude_eq htext)
  obtain ⟨negative, m, e⟩ := c
  obtain ⟨negative', n, f⟩ := d
  cases hsign
  cases hmantissa
  cases hexponent
  rfl

theorem isNumeric_of_mem_finite {style : Style} {d : Dyadic} {c : Char}
    (h : c ∈ (style.finite d).toList) : isNumeric c = true := by
  obtain ⟨first, rest, htext, hdigit, hrest⟩ :=
    isWritten_magnitude style (shortest style.tie d.mantissa d.exponent)
  rw [toList_finite, htext] at h
  rcases List.mem_append.1 h with hsign | hmagnitude
  · split at hsign
    · cases List.mem_singleton.1 hsign
      rfl
    · cases hsign
  · rcases List.mem_cons.1 hmagnitude with rfl | hmem
    · exact isNumeric_of_isDigit hdigit
    · exact hrest c hmem

theorem point_mem_positional (d : Decimal) : '.' ∈ d.positional true := by
  unfold Decimal.positional
  split
  · exact List.mem_append_right _ List.mem_cons_self
  · exact List.mem_append_right _ List.mem_cons_self

theorem mark_mem_scientific (d : Decimal) : 'e' ∈ d.scientific :=
  List.mem_append_right _ List.mem_cons_self

theorem magnitude_exchange (d : Decimal) : Style.exchange.magnitude d = d.scientific ∨
    Style.exchange.magnitude d = d.positional true := ite_eq_or_eq ..

/-- The text of a float for exchange is not that of a natural number: it has a point or a power. -/
theorem exists_not_isDigit_finite (d : Dyadic) :
    ∃ c ∈ (Style.exchange.finite d).toList, c.isDigit = false := by
  rw [toList_finite]
  rcases magnitude_exchange (shortest Style.exchange.tie d.mantissa d.exponent) with h | h
  · exact ⟨'e', List.mem_append_right _ (h ▸ mark_mem_scientific _), by decide⟩
  · exact ⟨'.', List.mem_append_right _ (h ▸ point_mem_positional _), by decide⟩

end SceneScript.Number
