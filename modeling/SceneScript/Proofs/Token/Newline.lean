import SceneScript.Proofs.Token.Tiling

namespace SceneScript

/-- The same place in a text that is put further down, from the beginning of a line on. -/
def Position.moved (p : Position) (bytes lines : Nat) : Position :=
  ⟨p.offset + bytes, p.line + lines, p.column⟩

def Span.moved (s : Span) (bytes lines : Nat) : Span :=
  ⟨s.start + bytes, s.stop + bytes, s.line + lines, s.column⟩

namespace Token

def moved (t : Token) (bytes lines : Nat) : Token := { t with span := t.span.moved bytes lines }

def words (source : String) : List Token := (ofSource source).dropLast

def isUnclosed (t : Token) : Bool :=
  match t.kind with
  | .string text => t.lexeme == "\"" ++ text
  | _ => false

def endsInString (source : String) : Bool := (ofSource source).any isUnclosed

variable {b c : Char} {following tail : List Char} {kind : TokenKind}

/-- The letters, as ranges of codes. -/
theorem isAlpha_eq (c : Char) : c.isAlpha = (decide (c.val ≥ 'A'.val ∧ c.val ≤ 'Z'.val) ||
    (decide (c.val ≥ 'a'.val) && decide (c.val ≤ 'z'.val))) := rfl

/-- White space goes on with no token. -/
theorem signs_of_isBlank (h : Text.isBlank b = true) :
    b.isDigit = false ∧ continuesName b = false ∧ b ≠ '.' ∧ b ≠ '=' ∧ b ≠ '/' ∧ b ≠ '"' := by
  simp only [Text.isBlank, Text.Runs.hold, Text.blankRuns, List.any_cons, List.any_nil,
    Bool.or_false, Bool.or_eq_true, Bool.and_eq_true, decide_eq_true_eq] at h
  refine ⟨?_, ?_, ?_, ?_, ?_, ?_⟩
  · simp only [Char.isDigit, ge_iff_le, UInt32.le_iff_toNat_le, Char.toNat_val,
      Bool.and_eq_false_iff, decide_eq_false_iff_not, Char.reduceToNat]
    omega
  · simp only [continuesName, Char.isAlphanum, isAlpha_eq, Char.isDigit, ge_iff_le,
      UInt32.le_iff_toNat_le, Char.toNat_val, Bool.and_eq_false_iff, Bool.or_eq_false_iff,
      decide_eq_false_iff_not, ← Char.toNat_inj, Char.reduceToNat]
    omega
  all_goals
    rintro rfl
    revert h
    decide

section
variable {p : Char → Bool}

theorem takeWhile_append_of_false (hb : p b = false) (text more : List Char) :
    (text ++ b :: more).takeWhile p = text.takeWhile p := by
  rw [List.takeWhile_append]
  split
  next hall => rw [List.takeWhile_cons_of_neg (by simp [hb]), List.append_nil,
    List.IsPrefix.eq_of_length (List.takeWhile_prefix p) hall]
  next => rfl

theorem dropWhile_append_of_false (hb : p b = false) (text more : List Char) :
    (text ++ b :: more).dropWhile p = text.dropWhile p ++ b :: more := by
  rw [List.dropWhile_append]
  split
  next hnone => rw [List.dropWhile_cons_of_neg (by simp [hb]), List.isEmpty_iff.1 hnone,
    List.nil_append]
  next => rfl

end

theorem all_ne_of_not_mem {text : List Char} (h : b ∉ text) :
    ∀ d ∈ text, decide (d ≠ b) = true := by
  intro d hd
  rw [decide_eq_true_eq]
  rintro rfl
  exact h hd

theorem numberTail_of_no_fraction
    (h : ∀ d more, following.dropWhile Char.isDigit = '.' :: d :: more → d.isDigit = false) :
    numberTail following = following.takeWhile Char.isDigit := by
  unfold numberTail
  dsimp only
  split
  next d more heq => rw [if_neg (by simp [h d more heq])]
  next => rfl

theorem numberTail_of_fraction {d : Char} {more : List Char} (hd : d.isDigit = true)
    (h : following.dropWhile Char.isDigit = '.' :: d :: more) :
    numberTail following =
      following.takeWhile Char.isDigit ++ '.' :: d :: more.takeWhile Char.isDigit := by
  unfold numberTail
  simp only [h, hd, if_true]

/-- A number has a fraction or none. -/
theorem fraction_or_none (text : List Char) :
    (∃ d more, text.dropWhile Char.isDigit = '.' :: d :: more ∧ d.isDigit = true) ∨
      ∀ d more, text.dropWhile Char.isDigit = '.' :: d :: more → d.isDigit = false := by
  by_cases h : ∃ d more, text.dropWhile Char.isDigit = '.' :: d :: more ∧ d.isDigit = true
  · exact .inl h
  · exact .inr fun d more heq => Bool.eq_false_iff.2 fun hd => h ⟨d, more, heq, hd⟩

theorem numberTail_append (hdigit : b.isDigit = false) (hpoint : b ≠ '.') (text more : List Char) :
    numberTail (text ++ b :: more) = numberTail text := by
  have hdrop := dropWhile_append_of_false hdigit text more
  rcases fraction_or_none text with ⟨d, rest, heq, hd⟩ | hnone
  · rw [heq, List.cons_append, List.cons_append] at hdrop
    rw [numberTail_of_fraction hd heq, numberTail_of_fraction hd hdrop,
      takeWhile_append_of_false hdigit, takeWhile_append_of_false hdigit]
  · rw [numberTail_of_no_fraction hnone, numberTail_of_no_fraction fun d rest heq => ?_,
      takeWhile_append_of_false hdigit]
    -- The point of a fraction is in the text, and the digit behind it is not the one put there.
    rw [hdrop] at heq
    rcases hwhole : text.dropWhile Char.isDigit with _ | ⟨point, _ | ⟨digit, others⟩⟩
    · rw [hwhole] at heq
      cases heq
      exact absurd rfl hpoint
    · rw [hwhole] at heq
      cases heq
      exact hdigit
    · rw [hwhole] at heq
      cases heq
      exact hnone d others hwhole

/-- The piece that begins with `c` depends on what follows through what it takes of it. -/
theorem munch_congr {x y : List Char} (hslash : x.head? = some '/' ↔ y.head? = some '/')
    (hequal : x.head? = some '=' ↔ y.head? = some '=')
    (hcomment : c = '#' ∨ c = '/' ∧ y.head? = some '/' → commentTail x = commentTail y)
    (hquoted : c = '"' → x.takeWhile (· ≠ '"') = y.takeWhile (· ≠ '"'))
    (hstring : c = '"' → stringTail x = stringTail y) (hnumber : numberTail x = numberTail y)
    (hname : x.takeWhile continuesName = y.takeWhile continuesName) : munch c x = munch c y := by
  rw [munch, munch]
  simp only [hslash, hequal, hnumber, hname]
  refine ite_congr rfl (fun _ => rfl) fun _ => ite_congr rfl (fun hnote => ?_) fun _ =>
    ite_congr rfl (fun hquote => ?_) fun _ => rfl
  · rw [hcomment hnote]
  · rw [hquoted hquote, hstring hquote]

/-- Behind its closing quote a string has ended. -/
theorem closed_of_not_mem {text : List Char} (h : '"' ∉ text) (rest : List Char) :
    (text ++ '"' :: rest).takeWhile (· ≠ '"') = text ∧
      stringTail (text ++ '"' :: rest) = text ++ ['"'] := by
  have hall := all_ne_of_not_mem h
  have htake : (text ++ '"' :: rest).takeWhile (· ≠ '"') = text := by
    rw [takeWhile_append_of_false (by decide), List.takeWhile_eq_self_iff.2 hall]
  have hdrop : (text ++ '"' :: rest).dropWhile (· ≠ '"') = '"' :: rest := by
    rw [dropWhile_append_of_false (by decide), List.dropWhile_eq_nil_iff.2 hall, List.nil_append]
  refine ⟨htake, ?_⟩
  rw [stringTail, htake, hdrop]
  rfl

/-- A character that no piece goes on with, strings and comments apart. -/
def EndsPiece (b : Char) : Prop :=
  b.isDigit = false ∧ continuesName b = false ∧ b ≠ '.' ∧ b ≠ '=' ∧ b ≠ '/'

theorem endsPiece_of_isBlank (h : Text.isBlank b = true) : EndsPiece b := by
  obtain ⟨hdigit, hname, hpoint, hequal, hslash, -⟩ := signs_of_isBlank h
  exact ⟨hdigit, hname, hpoint, hequal, hslash⟩

/-- A character that ends a piece does so as the end of the text does. -/
theorem munch_append (hb : EndsPiece b) (more : List Char)
    (hcomment : b = '\n' ∨ (munch c following).1.isSome = true)
    (hstring : c = '"' → '"' ∈ following) :
    munch c (following ++ b :: more) = munch c following := by
  obtain ⟨hdigit, hname, hpoint, hequal, hslash⟩ := hb
  have hhead (d : Char) (hd : b ≠ d) :
      (following ++ b :: more).head? = some d ↔ following.head? = some d := by
    cases following with
    | nil => simpa using hd
    | cons => rfl
  have hclosed (hquote : c = '"') : ∃ text rest, following = text ++ '"' :: rest ∧ '"' ∉ text :=
    List.eq_append_cons_of_mem (hstring hquote)
  refine munch_congr (hhead '/' hslash) (hhead '=' hequal) (fun hnote => ?_) (fun hquote => ?_)
    (fun hquote => ?_) (numberTail_append hdigit hpoint _ _) (takeWhile_append_of_false hname _ _)
  · rcases hcomment with rfl | hsome
    · exact takeWhile_append_of_false (by decide) _ _
    · rw [munch, if_pos hnote] at hsome
      split at hsome <;> cases hsome
  · obtain ⟨text, rest, rfl, hno⟩ := hclosed hquote
    rw [List.append_assoc, List.cons_append, (closed_of_not_mem hno _).1,
      (closed_of_not_mem hno _).1]
  · obtain ⟨text, rest, rfl, hno⟩ := hclosed hquote
    rw [List.append_assoc, List.cons_append, (closed_of_not_mem hno _).2,
      (closed_of_not_mem hno _).2]

/-- Without the closing quote a string goes on to the end of the text. -/
theorem stringTail_of_not_mem (h : '"' ∉ following) : stringTail following = following := by
  have hall := all_ne_of_not_mem h
  rw [stringTail, List.takeWhile_eq_self_iff.2 hall, List.dropWhile_eq_nil_iff.2 hall,
    List.take_nil, List.append_nil]

theorem munch_quote (following : List Char) : munch '"' following =
    (some (.string (String.ofList (following.takeWhile (· ≠ '"')))), stringTail following) := by
  have hblank : Text.isBlank '"' = false := by decide
  rw [munch, hblank]
  rfl

theorem isUnclosed_wordKind (text : List Char) (span : Span) (lexeme : String) :
    (⟨wordKind text, span, lexeme⟩ : Token).isUnclosed = false := by
  unfold wordKind
  cases Keyword.ofText? (String.ofList text) <;> rfl

theorem isUnclosed_of_ne (h : munch c following = (some kind, tail)) (hc : c ≠ '"') (span : Span)
    (lexeme : String) : (⟨kind, span, lexeme⟩ : Token).isUnclosed = false := by
  rw [munch] at h
  split at h
  · cases h
  split at h
  · cases h
  split at h
  · cases h
    rfl
  split at h
  · cases h
    exact isUnclosed_wordKind _ _ _
  split at h
  · cases h
    rfl
  · split at h <;>
    · cases h
      rfl
  · cases h

/-- A string is not closed if no quote follows. -/
theorem isUnclosed_iff_of_munch (h : munch c following = (some kind, tail)) (span : Span) :
    (⟨kind, span, String.ofList (c :: tail)⟩ : Token).isUnclosed = true ↔
      c = '"' ∧ '"' ∉ following := by
  by_cases hc : c = '"'
  · subst hc
    rw [munch_quote] at h
    cases h
    rw [isUnclosed, beq_iff_eq, show "\"" = String.ofList ['"'] from rfl, ← String.ofList_append,
      String.ofList_inj, List.singleton_append, List.cons_inj_right]
    refine ⟨fun htail => ⟨rfl, fun hmem => ?_⟩, fun ⟨_, hno⟩ => ?_⟩
    · obtain ⟨text, rest, rfl, hno⟩ := List.eq_append_cons_of_mem hmem
      rw [(closed_of_not_mem hno rest).1, (closed_of_not_mem hno rest).2] at htail
      simp at htail
    · rw [stringTail_of_not_mem hno]
      exact (List.takeWhile_eq_self_iff.2 (all_ne_of_not_mem hno)).symm
  · simp [isUnclosed_of_ne h hc, hc]

theorem Position.moved_next (p : Position) (bytes lines : Nat) (c : Char) :
    (p.moved bytes lines).next c = (p.next c).moved bytes lines := by
  unfold Position.next Position.moved
  split <;> simp <;> omega

theorem Position.moved_after (p : Position) (bytes lines : Nat) (text : List Char) :
    (p.moved bytes lines).after text = (p.after text).moved bytes lines := by
  induction text generalizing p with
  | nil => rfl
  | cons c text ih => rw [Position.after_cons, Position.moved_next, ih, Position.after_cons]

/-- From a place further down, the tokens of a text are the same further down. -/
theorem scan_moved (p : Position) (bytes lines : Nat) (text : List Char) :
    scan (p.moved bytes lines) text = (scan p text).map (·.moved bytes lines) := by
  induction p, text using scan.induct with
  | case1 p =>
    rw [scan, scan]
    rfl
  | case2 p c following tail q kind h ih =>
    rw [scan_of_token _ h, scan_of_token _ h, Position.moved_after, List.map_cons]
    exact congrArg₂ _ rfl ih
  | case3 p c following tail q h ih =>
    rw [scan_of_filler _ h, scan_of_filler _ h, Position.moved_after]
    exact ih

theorem scan_ne_nil (p : Position) (text : List Char) : scan p text ≠ [] := by
  induction p, text using scan.induct with
  | case1 p =>
    rw [scan]
    exact List.cons_ne_nil _ _
  | case2 p c following tail q kind h ih =>
    rw [scan_of_token _ h]
    exact List.cons_ne_nil _ _
  | case3 p c following tail q h ih =>
    rw [scan_of_filler _ h]
    exact ih

theorem rest_append {following more : List Char}
    (h : munch c (following ++ b :: more) = munch c following) :
    rest c (following ++ b :: more) = rest c following ++ b :: more := by
  rw [rest, rest, h, List.drop_append_of_le_length (munch_begins c following).length_le]

/-- Behind a piece and what follows it. -/
theorem after_rest {found : Option TokenKind} (p : Position) (h : munch c following = (found, tail))
    (more : List Char) :
    (p.after (c :: tail)).after (rest c following ++ more) = p.after (c :: following ++ more) := by
  rw [← Position.after_append, ← List.append_assoc, List.cons_append, ← rest_eq_of_munch h]

theorem scan_append_newline (p : Position) (text more : List Char) :
    (scan p text).any isUnclosed = false → scan p (text ++ '\n' :: more) =
      (scan p text).dropLast ++ scan (p.after (text ++ ['\n'])) more := by
  -- On the pieces of the first text. Each is cut as it was, since none goes on over a new line but
  -- a string, which is closed here.
  induction p, text using scan.induct with
  | case1 p =>
    intro _
    have hblank : munch '\n' more = (none, []) := by
      rw [munch, if_pos (by decide)]
    rw [List.nil_append, scan_of_filler _ hblank, rest, hblank, scan]
    rfl
  | case2 p c following tail q kind h ih =>
    intro hclosed
    rw [scan_of_token p h, List.any_cons, Bool.or_eq_false_iff] at hclosed
    have hquote : c = '"' → '"' ∈ following := by
      intro hc
      by_contra hno
      rw [(isUnclosed_iff_of_munch h _).2 ⟨hc, hno⟩] at hclosed
      cases hclosed.1
    have hsame := munch_append (endsPiece_of_isBlank (by decide)) more (.inl rfl) hquote
    rw [List.cons_append, scan_of_token p (hsame.trans h), rest_append hsame, ih hclosed.2,
      after_rest p h, scan_of_token p h, List.dropLast_cons_of_ne_nil (scan_ne_nil _ _)]
    rfl
  | case3 p c following tail q h ih =>
    intro hclosed
    rw [scan_of_filler p h] at hclosed
    have hquote : c = '"' → '"' ∈ following := by
      rintro rfl
      rw [munch_quote] at h
      cases h
    have hsame := munch_append (endsPiece_of_isBlank (by decide)) more (.inl rfl) hquote
    rw [List.cons_append, scan_of_filler p (hsame.trans h), rest_append hsame, ih hclosed,
      after_rest p h, scan_of_filler p h]

/-- The beginning of the line below a text. -/
theorem after_newline (text : List Char) : Position.start.after (text ++ ['\n']) =
    Position.start.moved ((String.ofList text).utf8ByteSize + 1) (1 + text.count '\n') := by
  have hplace : Position.start.after (text ++ ['\n']) = (Position.behind text).next '\n' := by
    rw [Position.next_behind]
    exact Position.behind_after [] _
  rw [hplace, Position.next, if_pos rfl]
  simp only [Position.behind, Position.start, Position.moved, Position.mk.injEq]
  exact ⟨by rw [Nat.zero_add]; rfl, by omega, trivial⟩

/-- A new line cuts a text that does not end inside a string: the tokens of two texts with a new
line between them are those of the first and, further down by it, those of the second. The end of
the input moves as well. -/
theorem ofSource_append_newline (a b : String) (h : endsInString a = false) :
    words (a ++ "\n" ++ b) = words a ++ (words b).map (·.moved (a.utf8ByteSize + 1)
      (1 + a.toList.count '\n')) ∧
    ofSource (a ++ "\n" ++ b) = words a ++ (ofSource b).map (·.moved (a.utf8ByteSize + 1)
      (1 + a.toList.count '\n')) := by
  have htext : (a ++ "\n" ++ b).toList = a.toList ++ '\n' :: b.toList := by
    simp
  have hall : ofSource (a ++ "\n" ++ b) = words a ++ (ofSource b).map (·.moved (a.utf8ByteSize + 1)
      (1 + a.toList.count '\n')) := by
    rw [ofSource, htext, scan_append_newline _ _ _ h, after_newline, scan_moved,
      String.ofList_toList]
    rfl
  refine ⟨?_, hall⟩
  have hmore : (ofSource b).map (·.moved (a.utf8ByteSize + 1) (1 + a.toList.count '\n')) ≠ [] :=
    fun hnil => scan_ne_nil _ _ (List.map_eq_nil_iff.1 hnil)
  rw [words, hall, List.dropLast_append_of_ne_nil hmore, ← List.map_dropLast]
  rfl

/-- A number before a point at the end of a line, and a quote in a comment. -/
theorem ofSource_append_newline_of_comment :
    let a := "x = \"é\" 7. # \""
    let b := "5 // 6\n  y"
    endsInString a = false ∧ words (a ++ "\n" ++ b) =
      words a ++ (words b).map (·.moved 16 1) := by
  intro a b
  have hclosed : endsInString a = false := by decide +kernel
  have hsize : a.utf8ByteSize = 15 := by decide +kernel
  have hlines : a.toList.count '\n' = 0 := by decide +kernel
  have hwords := (ofSource_append_newline a b hclosed).1
  rw [hsize, hlines] at hwords
  exact ⟨hclosed, hwords⟩

end Token
end SceneScript
