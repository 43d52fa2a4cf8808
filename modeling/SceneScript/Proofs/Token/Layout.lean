import SceneScript.Proofs.Token.Newline

namespace SceneScript.Token

variable {b c : Char} {following tail text layout : List Char} {kind : TokenKind}
  {tokens : List Token}

theorem takeWhile_takeWhile_self (p : Char → Bool) (text : List Char) :
    (text.takeWhile p).takeWhile p = text.takeWhile p :=
  List.takeWhile_eq_self_iff.2 fun _ h => List.mem_takeWhile_imp h

theorem numberTail_numberTail (text : List Char) :
    numberTail (numberTail text) = numberTail text := by
  have hwhole : ∀ d ∈ text.takeWhile Char.isDigit, d.isDigit = true :=
    fun _ h => List.mem_takeWhile_imp h
  rcases fraction_or_none text with ⟨d, more, heq, hd⟩ | hnone
  · have hdrop : (text.takeWhile Char.isDigit ++ '.' :: d :: more.takeWhile Char.isDigit).dropWhile
        Char.isDigit = '.' :: d :: more.takeWhile Char.isDigit := by
      rw [dropWhile_append_of_false (by decide), List.dropWhile_eq_nil_iff.2 hwhole,
        List.nil_append]
    rw [numberTail_of_fraction hd heq, numberTail_of_fraction hd hdrop,
      takeWhile_append_of_false (by decide), takeWhile_takeWhile_self, takeWhile_takeWhile_self]
  · have hdrop : (text.takeWhile Char.isDigit).dropWhile Char.isDigit = [] :=
      List.dropWhile_eq_nil_iff.2 hwhole
    rw [numberTail_of_no_fraction hnone, numberTail_of_no_fraction (by simp [hdrop]),
      takeWhile_takeWhile_self]

theorem munch_of_isDigit (h : c.isDigit = true) (following : List Char) :
    munch c following = (some (numberKind (c :: numberTail following)), numberTail following) := by
  have hblank : ¬Text.isBlank c = true := by
    intro hblank
    rw [(signs_of_isBlank hblank).1] at h
    cases h
  have hsign (d : Char) (hd : d.isDigit = false) : c ≠ d := by
    rintro rfl
    rw [hd] at h
    cases h
  rw [munch, if_neg hblank, if_neg (by simp [hsign '#' rfl, hsign '/' rfl]),
    if_neg (hsign '"' rfl), if_pos h]

theorem munch_of_beginsName (h : beginsName c = true) (following : List Char) :
    munch c following = (some (wordKind (c :: following.takeWhile continuesName)),
      following.takeWhile continuesName) := by
  have hsign (d : Char) (hd : beginsName d = false) : c ≠ d := by
    rintro rfl
    rw [hd] at h
    cases h
  have hdigit : ¬c.isDigit = true := by
    simp only [beginsName, isAlpha_eq, Char.isDigit, ge_iff_le,
      UInt32.le_iff_toNat_le, Char.toNat_val, Bool.or_eq_true, Bool.and_eq_true,
      decide_eq_true_eq, ← Char.toNat_inj, Char.reduceToNat] at h ⊢
    omega
  have hblank : ¬Text.isBlank c = true := by
    intro hblank
    have hname := (signs_of_isBlank hblank).2.1
    simp only [continuesName, Char.isAlphanum, Bool.or_eq_false_iff] at hname
    simp only [beginsName, hname, Bool.false_or, decide_eq_true_eq] at h
    subst h
    exact absurd hblank (by decide)
  rw [munch, if_neg hblank, if_neg (by simp [hsign '#' (by decide), hsign '/' (by decide)]),
    if_neg (hsign '"' (by decide)), if_neg hdigit, if_pos h]

/-- A sign is taken with an equality sign behind it or without. -/
theorem munch_sign_alone (hquote : c ≠ '"') (hdigit : ¬c.isDigit = true)
    (hname : ¬beginsName c = true) (h : munch c following = (some kind, tail)) :
    munch c tail = (some kind, tail) := by
  rw [munch] at h ⊢
  split at h
  next => cases h
  next hblank =>
  split at h
  next => cases h
  next hnote =>
  rw [if_neg hblank]
  split at h
  next sign _ hsign =>
    cases h
    rw [if_neg (fun hhash => hnote (.inl (by simpa using hhash))), if_neg hquote, if_neg hdigit,
      if_neg hname]
  next alone withEqual hsign hpaired =>
    have hslash : c ≠ '/' := by
      rintro rfl
      cases hsign
    rw [if_neg (by simpa [hslash] using fun hhash => hnote (.inl hhash)), if_neg hquote,
      if_neg hdigit, if_neg hname]
    split at h <;>
    · cases h
      rfl
  next => cases h

/-- The piece of a lexeme alone is the lexeme. -/
theorem munch_alone (h : munch c following = (some kind, tail)) :
    munch c tail = (some kind, tail) := by
  by_cases hquote : c = '"'
  · subst hquote
    rw [munch_quote] at h
    cases h
    by_cases hmem : '"' ∈ following
    · obtain ⟨text, rest, rfl, hno⟩ := List.eq_append_cons_of_mem hmem
      rw [munch_quote, (closed_of_not_mem hno _).1, (closed_of_not_mem hno _).2,
        (closed_of_not_mem hno []).1, (closed_of_not_mem hno []).2]
    · rw [stringTail_of_not_mem hmem, munch_quote, stringTail_of_not_mem hmem]
  by_cases hdigit : c.isDigit = true
  · rw [munch_of_isDigit hdigit] at h
    cases h
    rw [munch_of_isDigit hdigit, numberTail_numberTail]
  by_cases hname : beginsName c = true
  · rw [munch_of_beginsName hname] at h
    cases h
    rw [munch_of_beginsName hname, takeWhile_takeWhile_self]
  · exact munch_sign_alone hquote hdigit hname h

/-- A token that is cut into itself where it stands alone. -/
def StandsAlone (t : Token) : Prop :=
  ∃ c tail, t.lexeme = String.ofList (c :: tail) ∧ munch c tail = (some t.kind, tail)

theorem standsAlone_of_mem_scan (p : Position) (text : List Char) :
    ∀ t ∈ (scan p text).dropLast, t.StandsAlone := by
  induction p, text using scan.induct with
  | case1 p =>
    rw [scan]
    simp
  | case2 p c following tail q kind h ih =>
    rw [scan_of_token p h, List.dropLast_cons_of_ne_nil (scan_ne_nil _ _)]
    exact List.forall_mem_cons.2 ⟨⟨c, tail, rfl, munch_alone h⟩, ih⟩
  | case3 p c following tail q h ih =>
    rw [scan_of_filler p h]
    exact ih

/-- Only the last token of a text may be a string that is not closed. -/
theorem isUnclosed_of_mem_scan (p : Position) (text : List Char) :
    ∀ t ∈ (scan p text).dropLast.dropLast, t.isUnclosed = false := by
  induction p, text using scan.induct with
  | case1 p =>
    rw [scan]
    simp
  | case2 p c following tail q kind h ih =>
    rw [scan_of_token p h, List.dropLast_cons_of_ne_nil (scan_ne_nil _ _)]
    by_cases hclosed : c = '"' ∧ '"' ∉ following
    · have htail : rest c following = [] := by
        rw [hclosed.1, rest, munch_quote, stringTail_of_not_mem hclosed.2, List.drop_length]
      rw [htail, scan]
      simp
    · have hfirst := Bool.eq_false_iff.2 (mt (isUnclosed_iff_of_munch h (p.to q)).1 hclosed)
      by_cases hlast : (scan q (rest c following)).dropLast = []
      · rw [show p.after (c :: tail) = q from rfl, hlast]
        simp
      · rw [List.dropLast_cons_of_ne_nil hlast]
        exact List.forall_mem_cons.2 ⟨hfirst, ih⟩
  | case3 p c following tail q h ih =>
    rw [scan_of_filler p h]
    exact ih

/-- White space, and comments with the newlines that end them. -/
inductive Layout : List Char → Prop
  | nil : Layout []
  | blank {b : Char} {more : List Char} : Text.isBlank b = true → Layout more → Layout (b :: more)
  | comment {opening note more : List Char} : opening = ['#'] ∨ opening = ['/', '/'] →
      '\n' ∉ note → Layout more → Layout (opening ++ note ++ '\n' :: more)

theorem scan_filler (p : Position) (h : munch c (tail ++ following) = (none, tail)) :
    scan p (c :: (tail ++ following)) = scan (p.after (c :: tail)) following := by
  rw [scan_of_filler p h, rest, h, List.drop_left]

theorem scan_blank (p : Position) (hb : Text.isBlank b = true) (following : List Char) :
    scan p (b :: following) = scan (p.next b) following := by
  have hmunch : munch b ([] ++ following) = (none, []) := by
    rw [munch, if_pos hb]
  exact scan_filler p hmunch

/-- A comment up to the end of its line is passed over. -/
theorem scan_comment (p : Position) {opening note : List Char}
    (hopening : opening = ['#'] ∨ opening = ['/', '/']) (hnote : '\n' ∉ note) (more : List Char) :
    scan p (opening ++ note ++ '\n' :: more) = scan (p.after (opening ++ note)) ('\n' :: more) := by
  have htail : commentTail (note ++ '\n' :: more) = note := by
    rw [commentTail, takeWhile_append_of_false (by decide)]
    exact List.takeWhile_eq_self_iff.2 (all_ne_of_not_mem hnote)
  rcases hopening with rfl | rfl
  · have hmunch : munch '#' (note ++ '\n' :: more) = (none, note) := by
      rw [munch, if_neg (by decide), if_pos (.inl rfl), htail]
    exact scan_filler p hmunch
  · have hmunch : munch '/' (('/' :: note) ++ '\n' :: more) = (none, '/' :: note) := by
      rw [munch, if_neg (by decide), if_pos (.inr ⟨rfl, rfl⟩), List.cons_append, commentTail,
        List.takeWhile_cons_of_pos (by decide), ← commentTail, htail]
    exact scan_filler p hmunch

theorem exists_scan_layout (h : Layout layout) (text : List Char) (p : Position) :
    ∃ q, scan p (layout ++ text) = scan q text := by
  induction h generalizing p with
  | nil => exact ⟨p, rfl⟩
  | blank hb _ ih =>
    rw [List.cons_append, scan_blank p hb]
    exact ih _
  | @comment opening note more hopening hnote _ ih =>
    rw [List.append_assoc, List.cons_append, scan_comment p hopening hnote,
      scan_blank _ (by decide)]
    exact ih _

def content (t : Token) : TokenKind × String := (t.kind, t.lexeme)

/-- A text of the lexemes of tokens, in their order. Between neighbours there is a separator: white
space, and more white space or comments behind it. -/
inductive Writes : List Token → List Char → Prop
  | none : Writes [] []
  | last (t : Token) : Writes [t] t.lexeme.toList
  | more {t u : Token} {tokens : List Token} {b : Char} {layout text : List Char} :
    Text.isBlank b = true → Layout layout → Writes (u :: tokens) text →
      Writes (t :: u :: tokens) (t.lexeme.toList ++ b :: (layout ++ text))

/-- What is cut out of a text is what was written. -/
theorem content_scan_of_writes (h : Writes tokens text) (halone : ∀ t ∈ tokens, t.StandsAlone)
    (hclosed : ∀ t ∈ tokens.dropLast, t.isUnclosed = false) (p : Position) :
    (scan p text).map content = tokens.map content ++ [(.eof, "")] := by
  -- Token by token. In front of white space a lexeme is cut as it is alone, and an unclosed string
  -- can only come last.
  induction h generalizing p with
  | none =>
    rw [scan]
    rfl
  | last t =>
    obtain ⟨c, tail, hlexeme, hmunch⟩ := halone t (List.mem_singleton_self t)
    have halone : munch c (tail ++ []) = (some t.kind, tail) := by rwa [List.append_nil]
    have hscan := scan_of_munch p halone
    rw [List.append_nil] at hscan
    rw [hlexeme, String.toList_ofList, hscan, scan, List.map_cons, List.map_cons, List.map_cons,
      content, ← hlexeme]
    rfl
  | @more t u tokens b layout text hb hlayout _ ih =>
    obtain ⟨c, tail, hlexeme, hmunch⟩ := halone t (List.mem_cons_self ..)
    obtain ⟨hfirst, hothers⟩ := List.forall_mem_cons.1 hclosed
    have hquote : c = '"' → '"' ∈ tail := by
      intro hc
      by_contra hno
      have hopen := (isUnclosed_iff_of_munch hmunch t.span).2 ⟨hc, hno⟩
      rw [← hlexeme, hfirst] at hopen
      cases hopen
    have hsame := munch_append (endsPiece_of_isBlank hb) (layout ++ text)
      (.inr (by rw [hmunch]; rfl)) hquote
    obtain ⟨q, hq⟩ := exists_scan_layout hlayout text ((p.after (c :: tail)).next b)
    rw [hlexeme, String.toList_ofList, List.cons_append, scan_of_munch p (hsame.trans hmunch),
      scan_blank _ hb, hq, List.map_cons,
      ih (fun t' ht' => halone t' (List.mem_cons_of_mem _ ht')) hothers, content, ← hlexeme]
    rfl

/-- The tokens of a source are its words and an end marker. -/
theorem content_ofSource (source : String) :
    (ofSource source).map content = (words source).map content ++ [(.eof, "")] := by
  obtain ⟨words', last, htokens, heof, hlexeme, -, -⟩ := (tiles_ofSource source).exists_eof
  have hkind : last.kind = .eof := by
    revert heof
    cases last.kind <;> simp [TokenKind.isEof]
  rw [words, htokens, List.dropLast_concat, List.map_append, List.map_singleton, content, hkind,
    hlexeme]

/-- The tokens of a source may be laid out anew. -/
theorem content_ofSource_of_writes {source text : String}
    (h : Writes (words source) text.toList) :
    (ofSource text).map content = (words source).map content ++ [(.eof, "")] :=
  content_scan_of_writes h (standsAlone_of_mem_scan _ _) (isUnclosed_of_mem_scan _ _) _

end SceneScript.Token
