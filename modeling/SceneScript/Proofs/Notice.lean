import SceneScript.Notice

namespace SceneScript.Notice

/-- Whether a notice reports a fault of a program and no warning, whichever module it is from. -/
def isFault : Notice → Bool
  | error _ => true
  | warning .. => false
  | missingModule .. => false
  | forwarded _ notice => notice.isFault

def isForwarded : Notice → Bool
  | forwarded .. => true
  | _ => false

theorem isWarningText_eq_false {text : String} {c : Char} (h : text.toList.head? = some c)
    (hc : c ≠ 'W') : isWarningText text = false := by
  unfold isWarningText
  cases hlist : text.toList with
  | nil => rfl
  | cons first more =>
    rw [hlist, List.head?_cons] at h
    cases h
    have hmark : warningMark.toList = 'W' :: "arning: ".toList := rfl
    rw [hmark, List.isPrefixOf_cons_cons]
    simp [Ne.symm hc]

theorem isWarningText_mark_append (rest : String) :
    isWarningText (warningMark ++ rest) = true := by
  unfold isWarningText
  rw [String.toList_append, List.isPrefixOf_iff_prefix]
  exact List.prefix_append _ _

theorem isWarning_error (d : Diagnostic) : (error d).isWarning = false := by
  unfold isWarning text Diagnostic.text
  cases d.span with
  | none =>
    have hlabel : d.cause.label.toList.head? = some 'S' ∨
      d.cause.label.toList.head? = some 'E' := by
      unfold Cause.label
      split
      · exact .inl rfl
      · exact .inr rfl
    rcases hlabel with hlabel | hlabel
    · exact isWarningText_eq_false (by simp [hlabel]) (by decide : 'S' ≠ 'W')
    · exact isWarningText_eq_false (by simp [hlabel]) (by decide : 'E' ≠ 'W')
  | some span =>
    have hbracket : (toString "[line ").toList.head? = some '[' := rfl
    exact isWarningText_eq_false (by simp [hbracket]) (by decide : '[' ≠ 'W')

theorem isWarning_forwarded (source : String) (n : Notice) :
    (forwarded source n).isWarning = false := by
  have hbracket : (toString "[").toList.head? = some '[' := rfl
  unfold isWarning text
  exact isWarningText_eq_false (by simp [hbracket]) (by decide : '[' ≠ 'W')

theorem isWarning_warning (line : Nat) (concern : Concern) :
    (warning line concern).isWarning = true := by
  unfold isWarning text
  rw [String.append_assoc]
  exact isWarningText_mark_append _

theorem isWarning_missingModule (line : Nat) (name : String) :
    (missingModule line name).isWarning = true := by
  unfold isWarning text
  rw [String.append_assoc]
  exact isWarningText_mark_append _

/-- Only a notice of the program itself can have the text of a warning. -/
theorem isWarning_iff (n : Notice) :
    n.isWarning = true ↔ n.isFault = false ∧ n.isForwarded = false := by
  cases n with
  | error d => simp [isWarning_error, isFault]
  | warning line concern => simp [isWarning_warning, isFault, isForwarded]
  | missingModule line name => simp [isWarning_missingModule, isFault, isForwarded]
  | forwarded source n => simp [isWarning_forwarded, isForwarded]

end SceneScript.Notice
