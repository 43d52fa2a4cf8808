import SceneScript.Proofs.Program.Levels
import SceneScript.Proofs.Program.WellFormed
import SceneScript.Proofs.Text.Lines
import SceneScript.Proofs.Token.Layout

namespace SceneScript

/-! ### Tokens of a cube -/

namespace Expr
open Reader
variable {word opening closing : Token} {inside rest : List Token}

theorem splitCube_of_no_parens
    (h : ∀ t ∈ inside, t.is .leftParen = false ∧ t.is .rightParen = false)
    (hclosing : closing.is .rightParen = true) (rest : List Token) :
    splitCube 0 (inside ++ closing :: rest) = some (inside, rest) := by
  induction inside with
  | nil =>
    rw [List.nil_append, splitCube, if_pos hclosing]
  | cons t inside ih =>
    obtain ⟨hopen, hclose⟩ := h t (List.mem_cons_self ..)
    rw [List.cons_append, splitCube, if_neg (by simp [hclose])]
    simp only [hopen, Bool.false_eq_true, if_false]
    rw [ih fun t' ht' => h t' (List.mem_cons_of_mem _ ht')]
    rfl

theorem readCube_of_no_parens (span : Span) (hopening : opening.is .leftParen = true)
    (h : ∀ t ∈ inside, t.is .leftParen = false ∧ t.is .rightParen = false)
    (hclosing : closing.is .rightParen = true) (rest : List Token) :
    readCube span (opening :: (inside ++ closing :: rest)) =
      .ok (.cube span (cubeVertices (String.join (inside.map Token.rawText))), rest) := by
  rw [readCube, bind_of_ok _ (expect_cons_of_is _ hopening _), get_bind_apply]
  simp only [splitCube_of_no_parens h hclosing rest, set_bind_apply, pure_apply]

theorem readsAs_cube {level : Nat} (hword : word.kind = .keyword .cube)
    (hopening : opening.is .leftParen = true)
    (h : ∀ t ∈ inside, t.is .leftParen = false ∧ t.is .rightParen = false)
    (hclosing : closing.is .rightParen = true) :
    ReadsAs level (word :: opening :: (inside ++ [closing]))
      (.cube word.span (cubeVertices (String.join (inside.map Token.rawText)))) := by
  apply ReadsAs.of_readPrimary
  · intro rest t ht
    obtain rfl : word = t := by simpa using ht
    rw [Token.is, hword]
  · intro depth _ rest _
    have hcube := readCube_of_no_parens word.span hopening h hclosing rest
    rw [List.cons_append, List.cons_append, List.append_assoc, List.singleton_append, readPrimary,
      get_bind_apply]
    simp only [hword, set_bind_apply]
    exact hcube

/-- Texts of vertices are found where they are joined by colons. -/
theorem cubeVertices_intercalate {vertices : List String}
    (h : ∀ vertex ∈ vertices, IsVertexText vertex) :
    cubeVertices (String.ofList ([':'].intercalate (vertices.map String.toList))) = vertices := by
  rcases vertices with _ | ⟨first, more⟩
  · decide
  have hcolons : ∀ piece ∈ (first :: more).map String.toList, ':' ∉ piece := by
    intro piece hpiece
    obtain ⟨vertex, hvertex, rfl⟩ := List.mem_map.1 hpiece
    exact (h vertex hvertex).2.1
  have hcut : Text.split ':' ([':'].intercalate ((first :: more).map String.toList)) =
      (first :: more).map String.toList := Text.split_intercalate (List.cons_ne_nil _ _) hcolons
  unfold cubeVertices
  rw [String.toList_ofList, hcut]
  generalize first :: more = vertices at h
  induction vertices with
  | nil => rfl
  | cons vertex vertices ih =>
    obtain ⟨⟨hne, -, htrim⟩, hmore⟩ := List.forall_mem_cons.1 h
    have hrest := ih hmore
    simp only [List.map_cons, htrim, List.filter_cons] at hrest ⊢
    rw [if_pos (by simpa using hne), List.map_cons, String.ofList_toList]
    rw [hrest]

end Expr

/-! ### The inside of a cube -/

namespace Token
variable {b c : Char} {text tail following glued raw : List Char} {kind : TokenKind}

def isVertexChar (c : Char) : Bool := c.isAlphanum || ['+', '-', '.', ',', '_'].contains c

/-- Tokens that may stand between the parentheses of a cube with no parentheses inside. -/
structure IsInside (t : Token) : Prop where
  isEof : t.kind.isEof = false
  leftParen : t.is .leftParen = false
  rightParen : t.is .rightParen = false

/-- Wherever a text stands in front of a closing parenthesis, it is cut into tokens inside a cube
that have those characters when they are glued together. -/
def GluesTo (text glued : List Char) : Prop :=
  ∀ (p : Position) (more : List Char), ∃ inside q,
    scan p (text ++ ')' :: more) = inside ++ scan q (')' :: more) ∧
    (∀ t ∈ inside, t.IsInside) ∧ (String.join (inside.map rawText)).toList = glued

theorem gluesTo_nil : GluesTo [] [] := fun p _ => ⟨[], p, rfl, nofun, rfl⟩

theorem GluesTo.blank (hb : Text.isBlank b = true) (h : GluesTo text glued) :
    GluesTo (b :: text) glued := by
  intro p more
  rw [List.cons_append, scan_blank p hb]
  exact h _ more

/-- One token more in front. -/
theorem GluesTo.token (h : GluesTo text glued)
    (hmunch : ∀ more, munch c (tail ++ (text ++ ')' :: more)) = (some kind, tail))
    (hinside : IsInside ⟨kind, .zero, String.ofList (c :: tail)⟩)
    (hraw : (rawText ⟨kind, .zero, String.ofList (c :: tail)⟩).toList = raw) :
    GluesTo (c :: (tail ++ text)) (raw ++ glued) := by
  intro p more
  obtain ⟨inside, q, hscan, hall, hglued⟩ := h (p.after (c :: tail)) more
  refine ⟨⟨kind, p.to (p.after (c :: tail)), String.ofList (c :: tail)⟩ :: inside, q, ?_, ?_, ?_⟩
  · rw [List.cons_append, List.append_assoc, scan_of_munch p (hmunch more), hscan]
    rfl
  · exact List.forall_mem_cons.2 ⟨⟨hinside.isEof, hinside.leftParen, hinside.rightParen⟩, hall⟩
  · rw [List.map_cons, String.join_cons, String.toList_append, hglued, ← hraw]
    rfl

theorem GluesTo.quoted (hquote : '"' ∉ raw) (h : GluesTo text glued) :
    GluesTo ('"' :: (raw ++ ['"'] ++ text)) (raw ++ glued) :=
  h.token (fun _ => munch_quoted _ hquote) ⟨rfl, rfl, rfl⟩ (String.toList_ofList ..)

theorem isBlank_of_isDigit (h : c.isDigit = true) : Text.isBlank c = false := by
  by_contra hblank
  rw [(signs_of_isBlank (by simpa using hblank)).1] at h
  cases h

theorem isBlank_of_continuesName (h : continuesName c = true) : Text.isBlank c = false := by
  by_contra hblank
  rw [(signs_of_isBlank (by simpa using hblank)).2.1] at h
  cases h

theorem isBlank_of_mem_numberTail (text : List Char) :
    ∀ d ∈ numberTail text, Text.isBlank d = false := by
  have hdigits (text : List Char) : ∀ d ∈ text.takeWhile Char.isDigit, Text.isBlank d = false :=
    fun d hd => isBlank_of_isDigit (List.mem_takeWhile_imp hd)
  rcases fraction_or_none text with ⟨first, more, heq, hfirst⟩ | hnone
  · rw [numberTail_of_fraction hfirst heq]
    have hfraction : ∀ d ∈ '.' :: first :: more.takeWhile Char.isDigit, Text.isBlank d = false :=
      List.forall_mem_cons.2 ⟨by decide, List.forall_mem_cons.2
        ⟨isBlank_of_isDigit hfirst, hdigits more⟩⟩
    exact List.forall_mem_append.2 ⟨hdigits text, hfraction⟩
  · rw [numberTail_of_no_fraction hnone]
    exact hdigits text

theorem isInside_wordKind (text : List Char) (lexeme : String) :
    IsInside ⟨wordKind text, .zero, lexeme⟩ ∧ rawText ⟨wordKind text, .zero, lexeme⟩ = lexeme := by
  unfold wordKind
  cases Keyword.ofText? (String.ofList text) <;> exact ⟨⟨rfl, rfl, rfl⟩, rfl⟩

/-- Characters of vertices and colons begin tokens without quotes and parentheses, and without white
space in them. -/
theorem munch_of_isVertexChar (h : isVertexChar c = true ∨ c = ':') (following : List Char) :
    ∃ kind tail, munch c following = (some kind, tail) ∧ (∀ d ∈ tail, Text.isBlank d = false) ∧
      IsInside ⟨kind, .zero, String.ofList (c :: tail)⟩ ∧
      rawText ⟨kind, .zero, String.ofList (c :: tail)⟩ = String.ofList (c :: tail) := by
  by_cases hdigit : c.isDigit = true
  · exact ⟨_, _, munch_of_isDigit hdigit following, isBlank_of_mem_numberTail following,
      ⟨rfl, rfl, rfl⟩, rfl⟩
  by_cases hname : beginsName c = true
  · obtain ⟨hinside, hraw⟩ := isInside_wordKind (c :: following.takeWhile continuesName)
      (String.ofList (c :: following.takeWhile continuesName))
    exact ⟨_, _, munch_of_beginsName hname following,
      fun d hd => isBlank_of_continuesName (List.mem_takeWhile_imp hd), hinside, hraw⟩
  -- What begins neither a number nor a name is a sign of its own.
  have hsign : c ∈ ['+', '-', '.', ',', ':'] := by
    simp only [beginsName, Bool.or_eq_true, not_or, decide_eq_true_eq] at hname
    simp only [isVertexChar, Char.isAlphanum, hname, hdigit, Bool.false_or, List.contains_iff_mem,
      List.mem_cons, List.not_mem_nil, or_false] at h ⊢
    tauto
  have hmunch : ∃ sign, munch c following = (some (.symbol sign), []) ∧ sign ≠ .leftParen ∧
      sign ≠ .rightParen := by
    simp only [List.mem_cons, List.not_mem_nil, or_false] at hsign
    rcases hsign with rfl | rfl | rfl | rfl | rfl
    · exact ⟨.plus, rfl, by decide, by decide⟩
    · exact ⟨.minus, rfl, by decide, by decide⟩
    · exact ⟨.dot, rfl, by decide, by decide⟩
    · exact ⟨.comma, rfl, by decide, by decide⟩
    · exact ⟨.colon, rfl, by decide, by decide⟩
  obtain ⟨sign, hmunch, hleft, hright⟩ := hmunch
  refine ⟨_, _, hmunch, List.forall_mem_nil _, ⟨rfl, ?_, ?_⟩, rfl⟩
  · exact beq_eq_false_iff_ne.2 hleft
  · exact beq_eq_false_iff_ne.2 hright

theorem isBlank_of_isVertexChar (h : isVertexChar c = true) : Text.isBlank c = false := by
  by_contra hblank
  obtain ⟨kind, tail, hmunch, -⟩ := munch_of_isVertexChar (.inl h) []
  rw [munch, if_pos (by simpa using hblank)] at hmunch
  cases hmunch

/-- A token that begins with such a character is in front of a text without its white space. -/
theorem GluesTo.cons_of_munch (hc : isVertexChar c = true ∨ c = ':')
    (hmunch : munch c (tail ++ text) = (some kind, tail))
    (h : GluesTo text (text.filter (!Text.isBlank ·))) :
    GluesTo (c :: (tail ++ text)) ((c :: (tail ++ text)).filter (!Text.isBlank ·)) := by
  obtain ⟨kind', tail', hmunch', htail, hinside, hraw⟩ := munch_of_isVertexChar hc (tail ++ text)
  obtain ⟨rfl, rfl⟩ : kind' = kind ∧ tail' = tail := by
    rw [hmunch] at hmunch'
    cases hmunch'
    exact ⟨rfl, rfl⟩
  have hblank : Text.isBlank c = false := by
    rcases hc with hc | rfl
    · exact isBlank_of_isVertexChar hc
    · decide
  have hquote : c ≠ '"' := by
    rintro rfl
    revert hc
    decide
  have hlater (more : List Char) :
      munch c (tail' ++ (text ++ ')' :: more)) = (some kind', tail') := by
    rw [← List.append_assoc, ← hmunch]
    exact munch_append (by unfold EndsPiece; decide) more (.inr (by rw [hmunch]; rfl))
      (fun hc => absurd hc hquote)
  have hkept : (c :: tail').filter (!Text.isBlank ·) = c :: tail' := by
    apply List.filter_eq_self.2
    exact List.forall_mem_cons.2 ⟨by simp [hblank], fun d hd => by simp [htail d hd]⟩
  rw [← List.cons_append, List.filter_append, hkept]
  exact h.token hlater hinside (congrArg String.toList hraw |>.trans (String.toList_ofList ..))

/-- However it is cut into tokens, a text of such characters is glued together again, without the
white space in it. -/
theorem gluesTo_of_forall (p : Position) (text : List Char)
    (h : ∀ c ∈ text, isVertexChar c = true ∨ c = ':' ∨ Text.isBlank c = true) :
    GluesTo text (text.filter (!Text.isBlank ·)) := by
  -- On the pieces that the text is cut into: blanks are dropped, and every other piece is part of a
  -- vertex.
  induction p, text using scan.induct with
  | case1 p => exact gluesTo_nil
  | case2 p c following tail q kind hmunch ih =>
    have hsplit : following = tail ++ rest c following := rest_eq_of_munch hmunch
    generalize rest c following = later at hsplit ih
    obtain ⟨hc, hfollowing⟩ := List.forall_mem_cons.1 h
    have hblank : Text.isBlank c = false := by
      by_contra hblank
      rw [munch, if_pos (by simpa using hblank)] at hmunch
      cases hmunch
    have hsign : isVertexChar c = true ∨ c = ':' := by simpa [hblank] using hc
    have hrest := ih fun d hd => hfollowing d (by rw [hsplit]; exact List.mem_append_right _ hd)
    rw [hsplit] at hmunch ⊢
    exact hrest.cons_of_munch hsign hmunch
  | case3 p c following tail q hmunch ih =>
    obtain ⟨hc, hfollowing⟩ := List.forall_mem_cons.1 h
    have hblank : Text.isBlank c = true := by
      by_contra hblank
      have hsign : isVertexChar c = true ∨ c = ':' := by simpa [hblank] using hc
      obtain ⟨kind, tail, hmunch', -⟩ := munch_of_isVertexChar hsign following
      rw [hmunch] at hmunch'
      cases hmunch'
    have hmunch' : munch c following = (none, []) := by rw [munch, if_pos hblank]
    have hrest : rest c following = following := by rw [rest, hmunch']; rfl
    rw [hrest] at ih
    have hglued := (ih hfollowing).blank hblank
    rwa [List.filter_cons_of_neg (by simp [hblank])]

/-- Vertices in quotes, with colons between them. -/
theorem gluesTo_quoted {texts : List (List Char)} (h : ∀ text ∈ texts, '"' ∉ text) :
    GluesTo ([':'].intercalate (texts.map fun text => '"' :: (text ++ ['"'])))
      ([':'].intercalate texts) := by
  induction texts with
  | nil => exact gluesTo_nil
  | cons text more ih =>
    obtain ⟨htext, hmore⟩ := List.forall_mem_cons.1 h
    cases more with
    | nil => simpa using gluesTo_nil.quoted htext
    | cons next more =>
      have hcolon (later : List Char) : munch ':' ([] ++ later) = (some (.symbol .colon), []) := rfl
      have hraw : (rawText ⟨.symbol .colon, .zero, String.ofList [':']⟩).toList = [':'] := rfl
      have hrest := (ih hmore).token (fun _ => hcolon _) ⟨rfl, rfl, rfl⟩ hraw
      simpa only [List.map_cons, List.intercalate_cons_cons, List.append_assoc, List.cons_append,
        List.nil_append] using hrest.quoted htext

theorem layout_of_forall (h : ∀ b ∈ text, Text.isBlank b = true) : Layout text := by
  induction text with
  | nil => exact .nil
  | cons b text ih =>
    obtain ⟨hb, htext⟩ := List.forall_mem_cons.1 h
    exact .blank hb (ih htext)

theorem munch_cube {gap : List Char} (hgap : ∀ b ∈ gap, Text.isBlank b = true) (more : List Char) :
    munch 'c' ("ube".toList ++ (gap ++ '(' :: more)) = (some (.keyword .cube), "ube".toList) := by
  have hends : (gap ++ '(' :: more).takeWhile continuesName = [] := by
    cases gap with
    | nil => exact List.takeWhile_cons_of_neg (by decide)
    | cons b gap =>
      have hb := (signs_of_isBlank (List.forall_mem_cons.1 hgap).1).2.1
      exact List.takeWhile_cons_of_neg (by simp [hb])
  have htail : ("ube".toList ++ (gap ++ '(' :: more)).takeWhile continuesName = "ube".toList := by
    rw [List.takeWhile_append_of_pos (List.all_eq_true.1 (by decide)), hends, List.append_nil]
  have hword : wordKind ('c' :: "ube".toList) = .keyword .cube := by
    have htext : String.ofList ('c' :: "ube".toList) = Keyword.cube.text := by decide +kernel
    rw [wordKind, htext, Keyword.ofText?_text]
  rw [munch_of_beginsName (by decide), htail, hword]

/-- The words of a cube whose inside is glued to certain characters. -/
theorem exists_words_cube {gap body : String} (hgap : ∀ b ∈ gap.toList, Text.isBlank b = true)
    (hbody : GluesTo body.toList glued) :
    ∃ (word opening closing : Token) (inside : List Token),
      words ("cube" ++ gap ++ "(" ++ body ++ ")") = word :: opening :: (inside ++ [closing]) ∧
      word.kind = .keyword .cube ∧ word.span = ⟨0, 4, 1, 1⟩ ∧ opening.is .leftParen = true ∧
      (∀ t ∈ inside, t.IsInside) ∧ (String.join (inside.map rawText)).toList = glued ∧
      closing.is .rightParen = true := by
  have hsource : ("cube" ++ gap ++ "(" ++ body ++ ")").toList =
      'c' :: ("ube".toList ++ (gap.toList ++ '(' :: (body.toList ++ [')']))) := by
    simp
  have hopening (later : List Char) :
    munch '(' ([] ++ later) = (some (.symbol .leftParen), []) := rfl
  have hclosing : munch ')' ([] ++ []) = (some (.symbol .rightParen), []) := rfl
  obtain ⟨p, hp⟩ := exists_scan_layout (layout_of_forall hgap) ('(' :: (body.toList ++ [')']))
    (Position.start.after ('c' :: "ube".toList))
  obtain ⟨inside, q, hinside, hall, hglued⟩ := hbody (p.after ['(']) []
  have hopened := scan_of_munch p (hopening (body.toList ++ [')']))
  have hclosed := scan_of_munch q hclosing
  rw [List.nil_append] at hopened hclosed
  rw [scan] at hclosed
  refine ⟨⟨.keyword .cube, ⟨0, 4, 1, 1⟩, "cube"⟩, ⟨.symbol .leftParen, p.to (p.after ['(']), "("⟩,
    ⟨.symbol .rightParen, q.to (q.after [')']), ")"⟩, inside, ?_, rfl, rfl, rfl, hall, hglued, rfl⟩
  have htokens : ofSource ("cube" ++ gap ++ "(" ++ body ++ ")") =
      (⟨.keyword .cube, ⟨0, 4, 1, 1⟩, "cube"⟩ :: ⟨.symbol .leftParen, p.to (p.after ['(']), "("⟩ ::
        (inside ++ [⟨.symbol .rightParen, q.to (q.after [')']), ")"⟩])) ++
      [⟨.eof, (q.after [')']).to (q.after [')']), ""⟩] := by
    rw [ofSource, hsource, scan_of_munch _ (munch_cube hgap _), hp, hopened, hinside, hclosed,
      List.cons_append, List.cons_append, List.append_assoc]
    rfl
  rw [words, htokens, List.dropLast_concat]

end Token

namespace Program

/-- What is read of a source are the tokens in front of its end marker. -/
theorem body_ofSource (source : String) : body (Token.ofSource source) = Token.words source := by
  obtain ⟨words, last, htokens, heof, -, -, hwords⟩ := (Token.tiles_ofSource source).exists_eof
  rw [body, Token.words, htokens, List.dropLast_concat,
    List.takeWhile_append_of_pos fun t ht => by rw [(hwords t ht).1]; rfl,
    List.takeWhile_cons_of_neg (by simp [heof]), List.append_nil]

end Program

namespace Expr
open Token

theorem isVertexText_of_forall {vertex : String} (hne : vertex ≠ "")
    (h : ∀ c ∈ vertex.toList, isVertexChar c = true) : IsVertexText vertex := by
  have hblank (c : Char) (hc : c ∈ vertex.toList) := isBlank_of_isVertexChar (h c hc)
  refine ⟨fun hnil => hne (String.toList_eq_nil_iff.1 hnil), fun hcolon => ?_, ?_⟩
  · exact absurd (h ':' hcolon) (by decide)
  · exact Text.trim_eq_self (fun c hc => hblank c (List.mem_of_mem_head? hc))
      fun c hc => hblank c (List.mem_of_mem_getLast? hc)

theorem read_cube {gap body : String} {vertices : List String}
    (hgap : ∀ b ∈ gap.toList, Text.isBlank b = true)
    (hbody : GluesTo body.toList ([':'].intercalate (vertices.map String.toList)))
    (h : ∀ vertex ∈ vertices, IsVertexText vertex) :
    Expr.read (Program.body (ofSource ("cube" ++ gap ++ "(" ++ body ++ ")"))) =
      .ok (.cube ⟨0, 4, 1, 1⟩ vertices, []) := by
  obtain ⟨word, opening, closing, inside, hwords, hword, hspan, hopening, hinside, hglued,
    hclosing⟩ := exists_words_cube hgap hbody
  have hcube : ReadsAs 4 _ _ := readsAs_cube hword hopening
    (fun t ht => ⟨(hinside t ht).leftParen, (hinside t ht).rightParen⟩) hclosing
  have hread : Expr.read (_ ++ []) = _ := hcube.read nofun
  have hvertices : cubeVertices (String.join (inside.map rawText)) = vertices := by
    rw [← String.ofList_toList (s := String.join _), hglued]
    exact cubeVertices_intercalate h
  rw [Program.body_ofSource, hwords, ← hspan]
  rw [List.append_nil, hvertices] at hread
  exact hread

/-- Quotes do not matter around the vertices of a cube, nor does white space between its tokens: a
cube has the vertices that are written, in their order, with each of them in quotes or without any
quotes and with white space anywhere behind the first word. -/
theorem cube_reads_alike_with_and_without_quotes (vertices : List String)
    (h : ∀ vertex ∈ vertices, vertex ≠ "" ∧ ∀ c ∈ vertex.toList, isVertexChar c = true) :
    let reads (source : String) := Expr.read (Program.body (ofSource source))
    reads ("cube(" ++ ":".intercalate (vertices.map fun vertex => "\"" ++ vertex ++ "\"") ++ ")") =
      .ok (.cube ⟨0, 4, 1, 1⟩ vertices, []) ∧
    ∀ gap body : String, (∀ b ∈ gap.toList, Text.isBlank b = true) →
      body.toList.filter (!Text.isBlank ·) = (":".intercalate vertices).toList →
      reads ("cube" ++ gap ++ "(" ++ body ++ ")") = .ok (.cube ⟨0, 4, 1, 1⟩ vertices, []) := by
  have htexts : ∀ vertex ∈ vertices, IsVertexText vertex :=
    fun vertex hvertex => isVertexText_of_forall (h vertex hvertex).1 (h vertex hvertex).2
  have hchars : ∀ text ∈ vertices.map String.toList, ∀ c ∈ text, isVertexChar c = true := by
    intro text htext
    obtain ⟨vertex, hvertex, rfl⟩ := List.mem_map.1 htext
    exact (h vertex hvertex).2
  refine ⟨?_, fun gap body hgap hbody => read_cube hgap ?_ htexts⟩
  · have hquotes : ∀ text ∈ vertices.map String.toList, '"' ∉ text :=
      fun text htext hquote => absurd (hchars text htext '"' hquote) (by decide)
    have hglues := gluesTo_quoted hquotes
    have hquoted : (":".intercalate (vertices.map fun vertex => "\"" ++ vertex ++ "\"")).toList =
        [':'].intercalate ((vertices.map String.toList).map
          fun text => '"' :: (text ++ ['"'])) := by
      rw [String.toList_intercalate, List.map_map, List.map_map]
      congr 1
      apply List.map_congr_left
      intro vertex _
      simp
    rw [← hquoted] at hglues
    exact @read_cube "" _ _ nofun hglues htexts
  · rw [String.toList_intercalate] at hbody
    have hall : ∀ c ∈ [':'].intercalate (vertices.map String.toList),
        isVertexChar c = true ∨ c = ':' :=
      Text.forall_mem_intercalate (.inr rfl) fun text htext c hc => .inl (hchars text htext c hc)
    have hglues := gluesTo_of_forall .start body.toList fun c hc => by
      by_cases hblank : Text.isBlank c = true
      · exact .inr (.inr hblank)
      · have hkept : c ∈ body.toList.filter (!Text.isBlank ·) := by
          apply List.mem_filter.2
          exact ⟨hc, by simpa using hblank⟩
        rw [hbody] at hkept
        exact (hall c hkept).imp id .inl
    rwa [hbody] at hglues

/-- Signs, points, an exponent and a reserved word. -/
theorem cube_reads_alike_of_cube_word :
    let vertices := ["-1,0,.5", "+1e5,cube,7."]
    (∀ vertex ∈ vertices, vertex ≠ "" ∧ ∀ c ∈ vertex.toList, isVertexChar c = true) ∧
      Expr.read (Program.body (ofSource "cube(\"-1,0,.5\":\"+1e5,cube,7.\")")) =
        .ok (.cube ⟨0, 4, 1, 1⟩ vertices, []) ∧
      Expr.read (Program.body (ofSource "cube (-1, 0,. 5\n:+1e5,cube,7. )")) =
        .ok (.cube ⟨0, 4, 1, 1⟩ vertices, []) := by
  intro vertices
  have hvertices : ∀ vertex ∈ vertices, vertex ≠ "" ∧ ∀ c ∈ vertex.toList,
    isVertexChar c = true := by
    have hall :
        vertices.all (fun vertex => vertex != "" && vertex.toList.all isVertexChar) = true := by
      decide +kernel
    intro vertex hvertex
    simpa using List.all_eq_true.1 hall vertex hvertex
  obtain ⟨hquoted, hplain⟩ := cube_reads_alike_with_and_without_quotes vertices hvertices
  exact ⟨hvertices, hquoted, hplain " " "-1, 0,. 5\n:+1e5,cube,7. " (List.all_eq_true.1 (by decide))
    (by decide +kernel)⟩

end Expr

end SceneScript
