import SceneScript.Proofs.Program.Total
import SceneScript.Proofs.Text.Lines
import SceneScript.Proofs.Token.Layout

namespace SceneScript

namespace Token
variable {source : String} {t : Token}

theorem one_le_place_of_mem (ht : t ∈ ofSource source) : 1 ≤ t.span.line ∧ 1 ≤ t.span.column := by
  obtain ⟨left, right, -, -, hspan⟩ := (tiles_ofSource source).exists_of_mem ht
  rw [hspan]
  exact ⟨Nat.le_add_right 1 _, Nat.le_add_right 1 _⟩

/-- A token other than the end of the input begins with a character that is not white space. -/
theorem exists_lexeme_of_mem (ht : t ∈ ofSource source) (heof : t.kind.isEof = false) :
    ∃ c tail, t.lexeme.toList = c :: tail ∧ Text.isBlank c = false := by
  obtain ⟨words, last, htokens, hlast, -, -, -⟩ := (tiles_ofSource source).exists_eof
  have hword : t ∈ (ofSource source).dropLast := by
    rw [htokens] at ht ⊢
    rw [List.dropLast_concat]
    rcases List.mem_append.1 ht with ht | ht
    · exact ht
    · obtain rfl := List.mem_singleton.1 ht
      rw [hlast] at heof
      cases heof
  obtain ⟨c, tail, hlexeme, hmunch⟩ := standsAlone_of_mem_scan _ _ t hword
  refine ⟨c, tail, by rw [hlexeme, String.toList_ofList], Bool.eq_false_iff.2 fun hblank => ?_⟩
  rw [munch, if_pos hblank] at hmunch
  cases hmunch

/-- A token stands on the line that its place numbers, and its column counts its first character. -/
theorem exists_line_of_mem (ht : t ∈ ofSource source) (heof : t.kind.isEof = false) :
    ∃ row c, (Text.lines source.toList)[t.span.line - 1]? = some row ∧
      row[t.span.column - 1]? = some c ∧ t.lexeme.toList.head? = some c := by
  obtain ⟨c, tail, hlexeme, hblank⟩ := exists_lexeme_of_mem ht heof
  obtain ⟨left, right, htext, -, hspan⟩ := (tiles_ofSource source).exists_of_mem ht
  have hsource : source.toList = left ++ c :: (tail ++ right) := by
    rw [← List.nil_append source.toList, htext, hlexeme, List.append_assoc, List.cons_append]
  have hline : t.span.line - 1 = left.count '\n' := by
    rw [hspan]
    exact Nat.add_sub_cancel_left ..
  have hcolumn : t.span.column - 1 = (left.rtakeWhile (· ≠ '\n')).length := by
    rw [hspan]
    exact Nat.add_sub_cancel_left ..
  have hsign (d : Char) (hd : Text.isBlank d = true) : c ≠ d := by
    rintro rfl
    rw [hd] at hblank
    cases hblank
  obtain ⟨row, hplaced, hchar⟩ :=
    Text.exists_line left (tail ++ right) (hsign '\n' (by decide)) (hsign '\r' (by decide))
  rw [hline, hcolumn, hsource]
  exact ⟨row, c, hplaced, hchar, by rw [hlexeme]; rfl⟩

/-- The end of the input stands behind the last line, unless the source is empty or ends with a
newline. -/
theorem lines_of_isEof (ht : t ∈ ofSource source) (heof : t.kind.isEof = true) :
    ((Text.lines source.toList)[t.span.line - 1]? = none ↔
      source = "" ∨ source.toList.getLast? = some '\n') ∧
    ∀ row, (Text.lines source.toList)[t.span.line - 1]? = some row →
      t.span.column = row.length + 1 := by
  obtain ⟨words, last, htokens, -, -, hspan, hwords⟩ := (tiles_ofSource source).exists_eof
  obtain rfl : t = last := by
    rw [htokens] at ht
    rcases List.mem_append.1 ht with ht | ht
    · rw [(hwords t ht).1] at heof
      cases heof
    · exact List.mem_singleton.1 ht
  have hline : t.span.line - 1 = source.toList.count '\n' := by
    rw [hspan]
    exact Nat.add_sub_cancel_left ..
  have hcolumn : t.span.column = (source.toList.rtakeWhile (· ≠ '\n')).length + 1 := by
    rw [hspan]
    exact Nat.add_comm ..
  rw [hline, hcolumn, ← String.toList_eq_nil_iff]
  refine ⟨Text.getElem?_lines_end_eq_none_iff _, fun row hsome => ?_⟩
  · rw [Text.getElem?_lines_end] at hsome
    split at hsome
    · cases hsome
    · cases hsome
      rfl

end Token

theorem Diagnostic.span_withSource (d : Diagnostic) (source : String) :
    (d.withSource source).span = d.span := by
  unfold withSource
  split
  · rfl
  · dsimp only
    split <;> rfl

theorem Diagnostic.sourceLine_placed_withSource (cause : Cause) {span : Span}
    (hline : span.line ≠ 0) (source : String) : ((placed cause span).withSource source).sourceLine =
      ((Text.lines source.toList)[span.line - 1]?).map String.ofList := by
  unfold placed withSource
  dsimp only
  rw [if_neg hline]
  cases (Text.lines source.toList)[span.line - 1]? <;> rfl

namespace Program

theorem exists_of_ofSource_eq_error {source : String} {d : Diagnostic}
    (h : ofSource source = .error d) : ∃ t ∈ Token.ofSource source, d = .placed d.cause t.span := by
  obtain ⟨last, hlast, heof, -⟩ := exists_last source
  obtain ⟨t, ht, hplaced⟩ := exists_placed_of_ofTokens h
  rw [closed_of_last hlast heof] at ht
  exact ⟨t, ht, hplaced⟩

/-- An error of a parse blames a token, and once its line was looked up in the source the caret
stands under that token: the excerpt is the line of the source that the place of the error numbers,
and at its column that line has the first character of the token. At the end of the input there is
no excerpt exactly if the source is empty or ends with a newline; otherwise the caret is one behind
the line. -/
theorem caret_points_at_token (source : String) (d : Diagnostic) (h : ofSource source = .error d) :
    let shown := d.withSource source
    (∃ t ∈ Token.ofSource source, shown.span = some t.span) ∧
    ∀ t ∈ Token.ofSource source, shown.span = some t.span →
      1 ≤ t.span.line ∧ 1 ≤ t.span.column ∧
      (t.kind.isEof = false → ∃ row c, (Text.lines source.toList)[t.span.line - 1]? = some row ∧
        shown.sourceLine = some (String.ofList row) ∧
        row[t.span.column - 1]? = some c ∧ t.lexeme.toList.head? = some c) ∧
      (t.kind.isEof = true →
        (shown.sourceLine = none ↔ source = "" ∨ source.toList.getLast? = some '\n') ∧
        ∀ excerpt, shown.sourceLine = some excerpt → ∃ row,
          (Text.lines source.toList)[t.span.line - 1]? = some row ∧
          excerpt = String.ofList row ∧ t.span.column = row.length + 1) := by
  intro shown
  obtain ⟨blamed, hblamed, hplaced⟩ := exists_of_ofSource_eq_error h
  have hspan : shown.span = d.span := d.span_withSource source
  have hd : d.span = some blamed.span := congrArg Diagnostic.span hplaced
  refine ⟨⟨blamed, hblamed, hspan.trans hd⟩, fun t ht hcited => ?_⟩
  obtain ⟨hline, hcolumn⟩ := Token.one_le_place_of_mem ht
  have hexcerpt : shown.sourceLine =
      ((Text.lines source.toList)[t.span.line - 1]?).map String.ofList := by
    have hcause : d = .placed d.cause t.span := by
      rw [hplaced, ← Option.some.inj (hd.symm.trans (hspan.symm.trans hcited))]
      rfl
    show (d.withSource source).sourceLine = _
    rw [hcause]
    exact Diagnostic.sourceLine_placed_withSource d.cause (Nat.ne_of_gt hline) source
  refine ⟨hline, hcolumn, fun heof => ?_, fun heof => ?_⟩
  · obtain ⟨row, c, hplace, hchar, hhead⟩ := Token.exists_line_of_mem ht heof
    exact ⟨row, c, hplace, by rw [hexcerpt, hplace]; rfl, hchar, hhead⟩
  · obtain ⟨hnone, hbehind⟩ := Token.lines_of_isEof ht heof
    rw [hexcerpt, Option.map_eq_none_iff]
    refine ⟨hnone, fun excerpt hsome => ?_⟩
    obtain ⟨row, hplace, rfl⟩ := Option.map_eq_some_iff.1 hsome
    exact ⟨row, hplace, rfl, hbehind row hplace⟩

/-- A two-byte character and a carriage return stand in front of the parenthesis that is blamed. -/
theorem caret_points_at_parenthesis :
    let source := "greeting = \"é\"\r\n  again = )\r\n"
    ∃ d t, ofSource source = .error d ∧ t ∈ Token.ofSource source ∧ t.span = ⟨27, 28, 2, 11⟩ ∧
      (d.withSource source).span = some t.span ∧
      (d.withSource source).sourceLine = some "  again = )" ∧ t.lexeme.toList.head? = some ')' := by
  intro source
  have hplace : (match ofSource source with | .ok _ => none | .error d => d.span) =
      some ⟨27, 28, 2, 11⟩ := by decide +kernel
  have hwords : ∀ t ∈ Token.ofSource source, t.span = ⟨27, 28, 2, 11⟩ → t.kind.isEof = false := by
    decide +kernel
  have hline : (Text.lines source.toList)[1]? = some "  again = )".toList := by decide +kernel
  cases hresult : ofSource source with
  | ok p =>
    rw [hresult] at hplace
    cases hplace
  | error d =>
    rw [hresult] at hplace
    obtain ⟨⟨t, ht, hcited⟩, hall⟩ := caret_points_at_token source d hresult
    have hspan : t.span = ⟨27, 28, 2, 11⟩ := by
      rw [d.span_withSource, show d.span = _ from hplace] at hcited
      exact (Option.some.inj hcited).symm
    obtain ⟨row, c, hplaced, hexcerpt, hchar, hhead⟩ := (hall t ht hcited).2.2.1 (hwords t ht hspan)
    rw [hspan] at hplaced hchar
    obtain rfl := Option.some.inj (hplaced.symm.trans hline)
    refine ⟨d, t, rfl, ht, hspan, hcited, hexcerpt, ?_⟩
    rw [hhead, ← hchar]
    rfl

end Program
end SceneScript
