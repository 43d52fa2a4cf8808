import Mathlib.Data.List.DropRight
import SceneScript.Token.Scan

namespace SceneScript

/-- The place behind a text: after its bytes and its newlines, and after the characters of its last
line. -/
def Position.behind (text : List Char) : Position where
  offset := (String.ofList text).utf8ByteSize
  line := 1 + text.count '\n'
  column := 1 + (text.rtakeWhile (· ≠ '\n')).length

theorem Position.next_behind (text : List Char) (c : Char) :
    (behind text).next c = behind (text ++ [c]) := by
  have hoffset : (String.ofList (text ++ [c])).utf8ByteSize =
      (String.ofList text).utf8ByteSize + c.utf8Size := by
    rw [String.ofList_append, String.utf8ByteSize_append, ← String.singleton_eq_ofList,
      String.utf8ByteSize_singleton]
  rw [next, behind, behind, hoffset, List.count_append, List.rtakeWhile_concat]
  by_cases hc : c = '\n'
  · subst hc
    rfl
  · rw [if_neg hc, List.count_singleton, if_neg (by simpa using hc), if_pos (by simpa using hc),
      List.length_append]
    rfl

theorem Position.behind_after (text more : List Char) :
    (behind text).after more = behind (text ++ more) := by
  induction more generalizing text with
  | nil => rw [after_nil, List.append_nil]
  | cons c more ih =>
    rw [after_cons, next_behind, ih, List.append_assoc]
    rfl

namespace Token

def beginsToken (c : Char) : Bool :=
  c = '"' || c.isDigit || beginsName c || (single? c).isSome || (paired? c).isSome

/-- A piece of a text that is no token, in front of what follows it. -/
inductive Filler : List Char → List Char → Prop
  | blank {c : Char} {following : List Char} : Text.isBlank c = true → Filler [c] following
  /-- A comment goes on to the end of its line. -/
  | comment {opening note following : List Char} : opening = ['#'] ∨ opening = ['/', '/'] →
      '\n' ∉ note → (∀ c ∈ following.head?, c = '\n') → Filler (opening ++ note) following
  | dropped {c : Char} {following : List Char} : Text.isBlank c = false → c ≠ '#' →
      beginsToken c = false → Filler [c] following

/-- A stretch of a text without tokens, in front of what follows it. -/
inductive Gap : List Char → List Char → Prop
  | none {following : List Char} : Gap [] following
  | more {gap piece following : List Char} : Gap gap (piece ++ following) →
      Filler piece following → Gap (gap ++ piece) following

/-- The tokens of a text behind another one: gaps stand before all tokens, and the end of the input
is the last token. -/
inductive Tiles : List Char → List Char → List Token → Prop
  | finish {before gap : List Char} : Gap gap [] →
      Tiles before gap [⟨.eof, (Position.behind (before ++ gap)).to (.behind (before ++ gap)), ""⟩]
  | more {before gap lexeme following : List Char} {kind : TokenKind} {tokens : List Token} :
      Gap gap (lexeme ++ following) → lexeme ≠ [] → kind.isEof = false →
      Tiles (before ++ gap ++ lexeme) following tokens →
      Tiles before (gap ++ lexeme ++ following)
        (⟨kind, (Position.behind (before ++ gap)).to (.behind (before ++ gap ++ lexeme)),
          String.ofList lexeme⟩ :: tokens)

variable {c : Char} {following tail : List Char} {kind : TokenKind}

theorem isEof_wordKind (text : List Char) : (wordKind text).isEof = false := by
  unfold wordKind
  split <;> rfl

theorem isEof_of_munch (h : munch c following = (some kind, tail)) : kind.isEof = false := by
  rw [munch] at h
  split at h
  · cases h
  split at h
  · cases h
  split at h
  · cases h
    rfl
  split at h
  · cases h
    rfl
  split at h
  · cases h
    exact isEof_wordKind _
  split at h
  · cases h
    rfl
  · split at h <;>
    · cases h
      rfl
  · cases h

theorem rest_eq_of_munch {found : Option TokenKind} (h : munch c following = (found, tail)) :
    following = tail ++ rest c following := by
  have hsplit := rest_of_munch c following
  rw [h] at hsplit
  exact hsplit.symm

/-- What follows a comment is a new line. -/
theorem filler_of_comment {opening : List Char} (h : opening = ['#'] ∨ opening = ['/', '/'])
    (line : List Char) : Filler (opening ++ commentTail line) (line.dropWhile (· ≠ '\n')) := by
  refine .comment h (fun hnewline => ?_) fun c hc => ?_
  · simpa using List.mem_takeWhile_imp hnewline
  · have hhead := List.head?_dropWhile_not (fun c => decide (c ≠ '\n')) line
    rw [Option.mem_def.1 hc] at hhead
    simpa using hhead

theorem filler_of_munch (h : munch c following = (none, tail)) :
    Filler (c :: tail) (rest c following) := by
  have hrest := rest_eq_of_munch h
  rw [munch] at h
  split at h
  next hblank =>
    cases h
    exact .blank hblank
  next hblank =>
  split at h
  next hcomment =>
    cases h
    have hsame : commentTail following ++ rest c following =
        commentTail following ++ following.dropWhile (· ≠ '\n') := by
      rw [← hrest, commentTail, List.takeWhile_append_dropWhile]
    rw [List.append_cancel_left hsame]
    rcases hcomment with rfl | ⟨rfl, hslash⟩
    · exact filler_of_comment (.inl rfl) following
    · obtain ⟨line, rfl⟩ := List.head?_eq_some_iff.1 hslash
      exact filler_of_comment (.inr rfl) line
  next hcomment =>
  split at h
  · cases h
  split at h
  · cases h
  split at h
  · cases h
  split at h
  · cases h
  · split at h <;> cases h
  next hquote hdigit hname _ _ hsingle hpaired =>
    cases h
    refine .dropped (Bool.eq_false_iff.2 hblank) (fun hhash => hcomment (.inl hhash)) ?_
    simp [beginsToken, hquote, hdigit, hname, hsingle, hpaired]

theorem scan_of_token (p : Position) (h : munch c following = (some kind, tail)) :
    scan p (c :: following) =
      ⟨kind, p.to (p.after (c :: tail)), String.ofList (c :: tail)⟩ ::
        scan (p.after (c :: tail)) (rest c following) := by
  rw [scan, h]

theorem scan_of_filler (p : Position) (h : munch c following = (none, tail)) :
    scan p (c :: following) = scan (p.after (c :: tail)) (rest c following) := by
  rw [scan, h]

/-- What is scanned in a gap is tiled from the beginning of the gap on. -/
theorem tiles_scan (p : Position) (text : List Char) : ∀ before gap, Gap gap text →
    p = .behind (before ++ gap) → Tiles before (gap ++ text) (scan p text) := by
  induction p, text using scan.induct with
  | case1 p =>
    intro before gap hgap hp
    rw [scan, hp, List.append_nil]
    exact .finish hgap
  | case2 p c following tail q kind h ih =>
    intro before gap hgap hp
    have htext : c :: following = (c :: tail) ++ rest c following :=
      congrArg (c :: ·) (rest_eq_of_munch h)
    have hplace : p.after (c :: tail) = .behind (before ++ gap ++ (c :: tail)) := by
      rw [← Position.behind_after, hp]
    have hmore := ih (before ++ gap ++ (c :: tail)) [] .none (by rw [List.append_nil, ← hplace])
    rw [scan_of_token p h, hplace, hp, htext, ← List.append_assoc]
    rw [htext] at hgap
    rw [show q = _ from hplace] at hmore
    exact .more hgap (List.cons_ne_nil c tail) (isEof_of_munch h) hmore
  | case3 p c following tail q h ih =>
    intro before gap hgap hp
    have htext : c :: following = (c :: tail) ++ rest c following :=
      congrArg (c :: ·) (rest_eq_of_munch h)
    rw [scan_of_filler p h, htext, ← List.append_assoc]
    rw [htext] at hgap
    refine ih before (gap ++ (c :: tail)) (hgap.more (filler_of_munch h)) ?_
    rw [← List.append_assoc, ← Position.behind_after, ← hp]

theorem tiles_ofSource (source : String) : Tiles [] source.toList (ofSource source) :=
  tiles_scan .start source.toList [] [] .none rfl

theorem utf8ByteSize_le_of_begins {a b : List Char} (h : a <+: b) :
    (String.ofList a).utf8ByteSize ≤ (String.ofList b).utf8ByteSize := by
  obtain ⟨more, rfl⟩ := h
  rw [String.ofList_append, String.utf8ByteSize_append]
  exact Nat.le_add_right _ _

namespace Tiles
variable {before text : List Char} {tokens : List Token}

/-- Only the last token ends the input, and it alone has no text. -/
theorem exists_eof (h : Tiles before text tokens) : ∃ words last, tokens = words ++ [last] ∧
    last.kind.isEof = true ∧ last.lexeme = "" ∧
    last.span = (Position.behind (before ++ text)).to (.behind (before ++ text)) ∧
    ∀ t ∈ words, t.kind.isEof = false ∧ t.lexeme ≠ "" := by
  induction h with
  | @finish before gap _ => exact ⟨[], _, rfl, rfl, rfl, rfl, nofun⟩
  | @more before gap lexeme following kind tokens _ hlexeme hkind _ ih =>
    obtain ⟨words, last, rfl, heof, hempty, hspan, hwords⟩ := ih
    refine ⟨_ :: words, last, rfl, heof, hempty, ?_, List.forall_mem_cons.2 ⟨⟨hkind, ?_⟩, hwords⟩⟩
    · simpa only [List.append_assoc] using hspan
    · exact fun hnil => hlexeme (String.ofList_eq_empty_iff.1 hnil)

/-- A token has the text of its source and its place, behind all that was tiled before. -/
theorem exists_of_mem (h : Tiles before text tokens) {t : Token} (ht : t ∈ tokens) :
    ∃ left right, before ++ text = left ++ t.lexeme.toList ++ right ∧ before <+: left ∧
      t.span = (Position.behind left).to (.behind (left ++ t.lexeme.toList)) := by
  induction h with
  | @finish before gap _ =>
    obtain rfl := List.mem_singleton.1 ht
    exact ⟨before ++ gap, [], by simp, List.prefix_append _ _, by simp⟩
  | @more before gap lexeme following kind tokens _ _ _ _ ih =>
    rcases List.mem_cons.1 ht with rfl | ht
    · refine ⟨before ++ gap, following, ?_, List.prefix_append _ _, ?_⟩
      · simp only [String.toList_ofList, List.append_assoc]
      · rw [String.toList_ofList]
    · obtain ⟨left, right, htext, hbegins, hspan⟩ := ih ht
      refine ⟨left, right, ?_, ?_, hspan⟩
      · simpa only [List.append_assoc] using htext
      · rw [List.append_assoc] at hbegins
        exact (List.prefix_append _ _).trans hbegins

/-- Each token stops before the next ones start. -/
theorem pairwise (h : Tiles before text tokens) :
    tokens.Pairwise fun t u => t.span.stop ≤ u.span.start := by
  induction h with
  | finish => exact List.pairwise_singleton _ _
  | more _ _ _ hmore ih =>
    refine List.pairwise_cons.2 ⟨fun u hu => ?_, ih⟩
    obtain ⟨left, right, -, hbegins, hspan⟩ := hmore.exists_of_mem hu
    rw [hspan]
    exact utf8ByteSize_le_of_begins hbegins

end Tiles

/-- Tokens tile their source: all of it is tokens and gaps. The last token, and no other, ends the
input, where the source ends; each other one has a text. A token has the text of the source between
the places where it starts and stops, and its line and column are those of its first character; no
token starts before the ones in front of it stop. -/
theorem tokens_tile_source (source : String) :
    Tiles [] source.toList (ofSource source) ∧
    (∃ words last, ofSource source = words ++ [last] ∧ last.kind.isEof = true ∧ last.lexeme = "" ∧
      last.span.start = source.utf8ByteSize ∧ last.span.stop = source.utf8ByteSize ∧
      ∀ t ∈ words, t.kind.isEof = false ∧ t.lexeme ≠ "") ∧
    (∀ t ∈ ofSource source, ∃ left right : String, source = left ++ t.lexeme ++ right ∧
      t.span.start = left.utf8ByteSize ∧ t.span.stop = (left ++ t.lexeme).utf8ByteSize ∧
      t.span.line = 1 + left.toList.count '\n' ∧
      t.span.column = 1 + (left.toList.rtakeWhile (· ≠ '\n')).length) ∧
    (ofSource source).Pairwise fun t u => t.span.stop ≤ u.span.start := by
  have htiles := tiles_ofSource source
  refine ⟨htiles, ?_, fun t ht => ?_, htiles.pairwise⟩
  · obtain ⟨words, last, htokens, heof, hempty, hspan, hwords⟩ := htiles.exists_eof
    have hoffset : (Position.behind source.toList).offset = source.utf8ByteSize := by
      rw [Position.behind, String.ofList_toList]
    rw [List.nil_append] at hspan
    refine ⟨words, last, htokens, heof, hempty, ?_, ?_, hwords⟩ <;> rw [hspan] <;> exact hoffset
  · obtain ⟨left, right, htext, -, hspan⟩ := htiles.exists_of_mem ht
    refine ⟨String.ofList left, String.ofList right, ?_, ?_⟩
    · rw [← String.toList_inj, String.toList_append, String.toList_append, String.toList_ofList,
        String.toList_ofList]
      exact htext
    · have hstop : (Position.behind (left ++ t.lexeme.toList)).offset =
          (String.ofList left ++ t.lexeme).utf8ByteSize := by
        rw [Position.behind, String.ofList_append, String.ofList_toList]
      rw [hspan, String.toList_ofList]
      exact ⟨rfl, hstop, rfl, rfl⟩

/-- A string of two-byte characters behind a comment and a character that begins no token. -/
theorem place_of_string_behind_comment :
    let source := "a # note\n? \"é\""
    ∃ t ∈ ofSource source, t.span = ⟨11, 15, 2, 3⟩ ∧
      ∃ left right : String, source = left ++ t.lexeme ++ right ∧ left.utf8ByteSize = 11 ∧
        1 + left.toList.count '\n' = 2 := by
  intro source
  have hspan : (ofSource source)[1]?.map Token.span = some ⟨11, 15, 2, 3⟩ := by decide +kernel
  obtain ⟨t, hsecond, hplace⟩ := Option.map_eq_some_iff.1 hspan
  have ht : t ∈ ofSource source := List.mem_of_getElem? hsecond
  obtain ⟨-, -, hall, -⟩ := tokens_tile_source source
  obtain ⟨left, right, hsource, hstart, -, hline, -⟩ := hall t ht
  rw [hplace] at hstart hline
  exact ⟨t, ht, hplace, left, right, hsource, hstart.symm, hline.symm⟩

end Token
end SceneScript
