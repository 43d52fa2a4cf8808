import SceneScript.Proofs.Program.Append
import SceneScript.Proofs.Program.InStepStmt
import SceneScript.Proofs.Program.Syntax
import SceneScript.Proofs.Token.Tiling

namespace SceneScript
open Reader

/-! ### One reading at its places -/

theorem eq_of_forall₂_property {α : Type} {ps ps' : List (Property α)}
    (h : List.Forall₂ (Property.Rel Eq) ps ps') : ps = ps' := by
  induction h with
  | nil => rfl
  | cons hab _ ih =>
    cases hab with
    | single h => rw [h, ih]
    | list h => rw [eq_of_forall₂ h, ih]

theorem eq_of_option_rel {α : Type} {a b : Option α} (h : Option.Rel Eq a b) : a = b := by
  cases h with
  | none => rfl
  | some h => rw [h]

theorem Triple.eq_of_rel {a b : Triple} (h : Triple.Rel Eq a b) : a = b := by
  cases a
  cases b
  obtain ⟨hx, hy, hz⟩ := h
  cases hx
  cases hy
  cases hz
  rfl

theorem AssignedValue.eq_of_rel {a b : AssignedValue} (h : AssignedValue.Rel Eq a b) : a = b := by
  cases h with
  | expr h => rw [h]
  | triple h => rw [Triple.eq_of_rel h]
  | relative h =>
    cases h with
    | none => rfl
    | some h => rw [Triple.eq_of_rel h]

theorem MethodArgument.eq_of_rel {a b : MethodArgument} (h : MethodArgument.Rel Eq a b) :
    a = b := by
  cases h with
  | value h => rw [h]
  | excluded => rfl

def Likeness.same (P : Span → Prop) : Likeness where
  span s s' := s = s' ∧ P s
  expr := Eq
  stmt := Eq
  number _ hs := by rw [hs.1]
  string _ hs := by rw [hs.1]
  reference _ _ hs := by rw [hs.1]
  negation hs h := by rw [hs.1, h]
  operation _ h h' := by rw [h, h']
  call _ _ hs h := by rw [hs.1, eq_of_forall₂ h]
  cube _ hs := by rw [hs.1]
  mesh _ _ hs := by rw [hs.1]
  material hs h := by rw [hs.1, eq_of_forall₂_property h]
  modifier _ hs h := by rw [hs.1, eq_of_forall₂_property h]
  group _ hs := by rw [hs.1]
  imports _ _ _ hs := by rw [hs.1]
  assign _ _ hs h := by rw [hs.1, h]
  setProperty _ _ _ hs h := by rw [hs.1, AssignedValue.eq_of_rel h]
  callMethod _ _ _ hs h := by rw [hs.1, eq_of_forall₂ h]
  print hs h := by rw [hs.1, h]
  branch hs hc hblock hother := by
    rw [hs.1, hc, eq_of_forall₂ hblock]
    cases hother with
    | none => rfl
    | some h => rw [eq_of_forall₂ h]
  whileLoop hs hc hbody := by rw [hs.1, hc, eq_of_forall₂ hbody]
  forLoop _ hs hstart hstop hstep hbody := by
    rw [hs.1, hstart, hstop, eq_of_forall₂ hbody, eq_of_option_rel hstep]

theorem forall₂_same {P : Span → Prop} {tokens : List Token}
    (h : ∀ t ∈ tokens, P t.span) : List.Forall₂ (Likeness.same P).Token tokens tokens :=
  List.forall₂_same.2 fun t ht => ⟨rfl, rfl, rfl, h t ht⟩

def Likeness.exact : Likeness := .same fun _ => True

theorem forall₂_exact (tokens : List Token) :
    List.Forall₂ Likeness.exact.Token tokens tokens := forall₂_same fun _ _ => trivial

/-! ### Loops -/

namespace Reader
variable {α : Type} {loop : Nat → Reader α} {rest tokens : List Token}

theorem eq_of_forall₂_exact {us : List Token} (h : List.Forall₂ Likeness.exact.Token tokens us) :
    tokens = us := by
  induction h with
  | nil => rfl
  | @cons t u more more' ht _ ih =>
    cases t
    cases u
    obtain ⟨rfl, rfl, rfl, -⟩ := ht
    rw [ih]

/-- A loop that ends of itself: bounds on its rounds that are no less than the number of tokens make
no difference, and it takes tokens off the front only. -/
def EndsOfItself (loop : Nat → Reader α) : Prop :=
  ∀ n m tokens, tokens.length ≤ n → tokens.length ≤ m → loop n tokens = loop m tokens ∧
    ∀ a rest, loop n tokens = .ok (a, rest) → rest <:+ tokens

def TakesSome (x : Reader α) : Prop :=
  ∀ tokens a rest, x tokens = .ok (a, rest) → ∃ t more, tokens = t :: more ∧ rest <:+ more

theorem eq_of_agree {least : Nat} {r r' : Except Diagnostic (α × List Token)}
    (h : Agree .exact Eq least tokens r r') : r = r' := by
  cases h with
  | ok hab _ _ hrest => rw [hab, eq_of_forall₂_exact hrest]
  | error hspan =>
    cases hspan with
    | none => rfl
    | some hspan => rw [hspan.1]

theorem endsOfItself (h : ∀ n, LoopsInStep .exact n Eq loop loop) : EndsOfItself loop := by
  intro n m tokens hn hm
  have hsame (k : Nat) (hk : tokens.length ≤ k) :=
    h _ n k tokens tokens (forall₂_exact tokens) (Nat.lt_succ_self _) hn hk
  refine ⟨eq_of_agree (hsame m hm), fun a rest hread => ?_⟩
  have hends := hsame n hn
  rw [hread] at hends
  cases hends with
  | ok _ hfront _ _ => exact ⟨_, hfront.symm⟩

theorem endsOfItself_of_forall₂ {loop : Nat → Reader (List α)}
    (h : ∀ n, LoopsInStep .exact n (List.Forall₂ Eq) loop loop) : EndsOfItself loop := by
  rw [List.forall₂_eq_eq_eq] at h
  exact endsOfItself h

theorem takesSome {x : Reader α} (h : ∀ n, InStep .exact n 1 Eq x x) : TakesSome x := by
  intro tokens a rest hread
  have hends := h _ tokens tokens (forall₂_exact tokens) (Nat.lt_succ_self _)
  rw [hread] at hends
  cases hends with
  | @ok _ _ front _ _ _ hfront hleast _ =>
    rcases front with _ | ⟨t, front⟩
    · cases hleast
    · exact ⟨t, front ++ rest, hfront, List.suffix_append _ _⟩

end Reader

/-- Expressions are read by the rule itself: the bound on nesting never counts. -/
theorem Expr.read_eq : Expr.read = Expr.readLevel Expr.read 4 := by
  funext tokens
  have hinner : InStep .exact tokens.length 0 Eq (readWithin tokens.length) Expr.read := by
    intro ts us hts hn
    obtain rfl := eq_of_forall₂_exact hts
    exact (inStep_readWithin hn (Nat.le_refl _) ts ts hts (Nat.lt_succ_self _)).weaken
  exact eq_of_agree (inStep_readLevel hinner 4 tokens tokens (forall₂_exact tokens)
    (Nat.lt_succ_self _))

theorem Stmt.read_eq : Stmt.read = do
    let form ← readForm Stmt.read
    let _ ← accept .semicolon
    return form := by
  funext tokens
  have hinner : InStep .exact tokens.length 1 Eq (readWithin tokens.length) Stmt.read := by
    intro ts us hts hn
    obtain rfl := eq_of_forall₂_exact hts
    exact inStep_readWithin hn (Nat.le_refl _) ts ts hts (Nat.lt_succ_self _)
  have hform := (inStep_readForm hinner).bind (S := Eq) fun form form' h =>
    (inStep_accept (l := .exact) .semicolon).bind fun _ _ _ => .pure h
  exact eq_of_agree (hform tokens tokens (forall₂_exact tokens) (Nat.lt_succ_self _))

/-- Every loop of a parse ends of itself, and nesting is bounded by the tokens alone. -/
structure LoopsEnd : Prop where
  statements : EndsOfItself (repeatWhile (fun _ => true) (Stmt.readItem Stmt.read))
  blocks : EndsOfItself (repeatWhile (!·.is .rightBrace) (Stmt.readItem Stmt.read))
  alternatives (span : Span) : EndsOfItself fun n => Stmt.readBranch Stmt.read n span
  importNames : EndsOfItself (afterCommas (ident "expected import name after ','"))
  segments : EndsOfItself Import.readSegments
  methodArguments : EndsOfItself (repeatWhile (!·.is .rightParen) MethodArgument.read)
  arguments : EndsOfItself (afterCommas Expr.read)
  members : EndsOfItself Expr.readMembers
  operands (level : Nat) (left : Expr) :
    EndsOfItself fun n => Expr.joinOperands (level + 1) (Expr.readLevel Expr.read level) n left
  keys : EndsOfItself (afterCommas (name "expected property name after ','"))
  values (accepted : List String) : EndsOfItself (Expr.moreValues accepted Expr.read)
  entries (accepted : List String) :
    EndsOfItself (repeatWhile (!·.is .rightBrace) (Expr.readEntry accepted Expr.read))
  sections : EndsOfItself (repeatWhile (!·.is .rightBrace) Expr.readMeshSection)
  vertices : EndsOfItself (repeatWhile (!·.is .rightBracket) Expr.readVertex)
  faces : EndsOfItself (repeatWhile (!·.is .rightBracket) Expr.readFace)
  indices : EndsOfItself (afterCommas Expr.readIndex)
  children : EndsOfItself Expr.readChildren
  expr : TakesSome Expr.read
  stmt : TakesSome Stmt.read
  expr_eq : Expr.read = Expr.readLevel Expr.read 4
  stmt_eq : Stmt.read = do
    let form ← Stmt.readForm Stmt.read
    let _ ← accept .semicolon
    return form

theorem loopsEnd : LoopsEnd := by
  -- A reading goes in step with itself under any two bounds that are large enough, so no bound
  -- shows.
  have hexpr (n : Nat) : InStep .exact n 1 Eq Expr.read Expr.read := Expr.inStep_read
  have hvalue (n : Nat) : InStep .exact n 0 Eq Expr.read Expr.read := (hexpr n).weaken
  have hstmt (n : Nat) : InStep .exact n 1 Eq Stmt.read Stmt.read := Stmt.inStep_read
  have hitem (n : Nat) : InStep .exact n 1 Eq (Stmt.readItem Stmt.read) (Stmt.readItem Stmt.read) :=
    (Stmt.inStep_readItem (hstmt n)).imp fun _ _ => eq_of_option_rel
  have hargument (n : Nat) : InStep .exact n 1 Eq MethodArgument.read MethodArgument.read :=
    MethodArgument.inStep_read.imp fun _ _ => MethodArgument.eq_of_rel
  have hentry (accepted : List String) (n : Nat) : InStep .exact n 1 Eq
      (Expr.readEntry accepted Expr.read) (Expr.readEntry accepted Expr.read) :=
    (Expr.inStep_readEntry (hvalue n) accepted).imp fun _ _ => eq_of_forall₂_property
  exact {
    statements := endsOfItself_of_forall₂ fun n =>
      loopsInStep_repeatWhile (fun _ _ _ => rfl) (hitem n)
    blocks := endsOfItself_of_forall₂ fun n => loopsInStep_repeatWhile (respects_isNot _) (hitem n)
    alternatives := fun span => endsOfItself fun n =>
      Stmt.loopsInStep_readBranch (hstmt n) ⟨rfl, trivial⟩
    importNames := endsOfItself_of_forall₂ fun n =>
      loopsInStep_afterCommas (inStep_ident _).weaken
    segments := endsOfItself fun n => Import.loopsInStep_readSegments
    methodArguments := endsOfItself_of_forall₂ fun n =>
      loopsInStep_repeatWhile (respects_isNot _) (hargument n)
    arguments := endsOfItself_of_forall₂ fun n => loopsInStep_afterCommas (hvalue n)
    members := endsOfItself fun n => Expr.loopsInStep_readMembers
    operands := fun level left => endsOfItself fun n => Expr.loopsInStep_joinOperands _
      ((Expr.inStep_readLevel (hvalue n) level).smaller (Nat.le_succ n)).weaken rfl
    keys := endsOfItself_of_forall₂ fun n =>
      loopsInStep_afterCommas (inStep_name _).weaken
    values := fun accepted => endsOfItself_of_forall₂ fun n =>
      Expr.loopsInStep_moreValues (hvalue n) accepted
    entries := fun accepted => endsOfItself_of_forall₂ fun n =>
      loopsInStep_repeatWhile (respects_isNot _) (hentry accepted n)
    sections := endsOfItself_of_forall₂ fun n =>
      loopsInStep_repeatWhile (respects_isNot _) Expr.inStep_readMeshSection
    vertices := endsOfItself_of_forall₂ fun n =>
      loopsInStep_repeatWhile (respects_isNot _) Expr.inStep_readVertex
    faces := endsOfItself_of_forall₂ fun n =>
      loopsInStep_repeatWhile (respects_isNot _) Expr.inStep_readFace
    indices := endsOfItself_of_forall₂ fun n =>
      loopsInStep_afterCommas Expr.inStep_readIndex.weaken
    children := endsOfItself fun n => Expr.loopsInStep_readChildren
    expr := takesSome hexpr
    stmt := takesSome hstmt
    expr_eq := Expr.read_eq
    stmt_eq := Stmt.read_eq }

/-! ### Tokens with an end marker -/

theorem Token.kind_eq_eof {t : Token} (h : t.kind.isEof = true) : t.kind = .eof := by
  revert h
  cases t.kind <;> simp [TokenKind.isEof]

section Lookahead
variable {marker : Token} (hmarker : marker.kind.isEof = true) (rest after : List Token)
include hmarker

theorem Expr.entryNames?_marker : entryNames? (rest ++ marker :: after) = entryNames? rest := by
  have hnoname : marker.name? = none := by rw [Token.name?, Token.kind_eq_eof hmarker]
  have hsign (sign : Symbol) : marker.is sign = false := by
    rw [Token.is, Token.kind_eq_eof hmarker]
  induction rest using entryNames?.induct with
  | case1 first next rest name hname hequal =>
    simp only [List.cons_append, entryNames?, hname, hequal, if_true]
  | case2 first next rest name hname hequal hcomma ih =>
    simp only [List.cons_append, entryNames?, hname, hcomma, if_true, ih]
  | case3 first next rest name hname hequal hcomma =>
    simp only [List.cons_append, entryNames?, hname, hequal, hcomma, Bool.false_eq_true, if_false]
  | case4 first next rest hname => simp only [List.cons_append, entryNames?, hname]
  | case5 tokens hshort =>
    rcases tokens with _ | ⟨first, _ | ⟨next, more⟩⟩
    · cases after <;> simp [entryNames?, hnoname]
    · cases hfirst : first.name? <;> simp [entryNames?, hfirst, hsign]
    · exact absurd rfl (hshort _ _ _)

theorem Import.beginsNames_marker : beginsNames (rest ++ marker :: after) = beginsNames rest := by
  have hkind := Token.kind_eq_eof hmarker
  rcases rest with _ | ⟨first, _ | ⟨next, more⟩⟩
  · cases after <;> simp [beginsNames, Token.ident?, hkind]
  · simp [beginsNames, Token.is, Token.isWord, hkind]
  · rfl

theorem Stmt.beginsPrint_marker : beginsPrint (rest ++ marker :: after) = beginsPrint rest := by
  have hkind := Token.kind_eq_eof hmarker
  rcases rest with _ | ⟨first, _ | ⟨next, more⟩⟩
  · cases after <;> simp [beginsPrint, Token.is, hkind]
  · simp [beginsPrint, Token.ident?, hkind]
  · rfl

end Lookahead

namespace Program
variable {tokens front rest : List Token}

/-- The tokens a parse works on: an end marker is put behind those that do not end with one. -/
def closed (tokens : List Token) : List Token :=
  if tokens.getLast?.any (·.kind.isEof) then tokens
  else tokens ++ [⟨.eof, (tokens.getLast?.map (·.span)).getD .zero, ""⟩]

/-- What is read of a list of tokens stands in front of an end marker, at the place where they
end. -/
theorem exists_closed_eq (tokens : List Token) : ∃ marker after,
    closed tokens = body tokens ++ marker :: after ∧ marker.kind.isEof = true ∧
    marker.span = stop tokens := by
  cases hfind : tokens.find? (·.kind.isEof) with
  | some marker =>
    obtain ⟨heof, before, after, htokens, hbefore⟩ := List.find?_eq_some_iff_append.1 hfind
    have hbody : body tokens = before := by
      rw [body, htokens, List.takeWhile_append_of_pos hbefore,
        List.takeWhile_cons_of_neg (by simp [heof]), List.append_nil]
    have hstop : stop tokens = marker.span := by rw [stop, hfind]
    unfold closed
    split
    · exact ⟨marker, after, by rw [hbody, htokens], heof, hstop.symm⟩
    · refine ⟨marker, after ++ [⟨.eof, (tokens.getLast?.map (·.span)).getD .zero, ""⟩], ?_, heof,
        hstop.symm⟩
      rw [hbody, ← List.cons_append, ← List.append_assoc, ← htokens]
  | none =>
    have hnone := List.find?_eq_none.1 hfind
    have hbody : body tokens = tokens := List.takeWhile_eq_self_iff.2 (by simpa using hnone)
    have hlast : tokens.getLast?.any (·.kind.isEof) = false := by
      cases hlast : tokens.getLast? with
      | none => rfl
      | some last => simpa using hnone last (List.mem_of_getLast? hlast)
    refine ⟨⟨.eof, stop tokens, ""⟩, [], ?_, rfl, rfl⟩
    rw [closed, hlast, hbody, stop, hfind]
    rfl

/-- A cursor of a parse, behind some tokens and in front of others, is in range: the next token
stands there, or the end marker that ends the parse. What looks ahead from there sees what is read
only. -/
structure CursorInside (tokens front rest : List Token) : Prop where
  next : ∃ t, (closed tokens)[front.length]? = some t ∧
    (rest.head? = some t ∨ rest = [] ∧ t.kind.isEof = true ∧ t.span = stop tokens)
  entry : Expr.entryNames? ((closed tokens).drop front.length) = Expr.entryNames? rest
  names : Import.beginsNames ((closed tokens).drop front.length) = Import.beginsNames rest
  print : Stmt.beginsPrint ((closed tokens).drop front.length) = Stmt.beginsPrint rest

theorem cursorInside (h : body tokens = front ++ rest) : CursorInside tokens front rest := by
  obtain ⟨marker, after, hclosed, heof, hspan⟩ := exists_closed_eq tokens
  have hdrop : (closed tokens).drop front.length = rest ++ marker :: after := by
    rw [hclosed, h, List.append_assoc, List.drop_left]
  have hnext : (closed tokens)[front.length]? = (rest ++ marker :: after).head? := by
    rw [← hdrop, List.head?_drop]
  refine ⟨?_, ?_, ?_, ?_⟩
  · cases rest with
    | nil => exact ⟨marker, hnext, .inr ⟨rfl, heof, hspan⟩⟩
    | cons t more => exact ⟨t, hnext, .inl rfl⟩
  · rw [hdrop, Expr.entryNames?_marker heof]
  · rw [hdrop, Import.beginsNames_marker heof]
  · rw [hdrop, Stmt.beginsPrint_marker heof]

theorem stop_mem_closed (tokens : List Token) : ∃ t ∈ closed tokens, t.span = stop tokens := by
  obtain ⟨marker, after, hclosed, -, hspan⟩ := exists_closed_eq tokens
  exact ⟨marker, by simp [hclosed], hspan⟩

theorem mem_closed {t : Token} (ht : t ∈ tokens) : t ∈ closed tokens := by
  unfold closed
  split
  · exact ht
  · exact List.mem_append_left _ ht

/-- An error of a parse is placed at a token. -/
theorem exists_placed_of_ofTokens {d : Diagnostic} (h : ofTokens tokens = .error d) :
    ∃ t ∈ closed tokens, d = .placed d.cause t.span := by
  have halike : List.Forall₂ (Likeness.same fun s => ∃ t ∈ closed tokens, t.span = s).Token
      tokens tokens := forall₂_same fun t ht => ⟨t, mem_closed ht, rfl⟩
  have hends := ends_runReader halike ⟨rfl, stop_mem_closed tokens⟩ fun n => Program.inStep_read
  change Ends _ _ (ofTokens tokens) (ofTokens tokens) at hends
  rw [h] at hends
  cases hends with
  | error cause hspan =>
    obtain ⟨-, t, ht, rfl⟩ := hspan
    exact ⟨t, ht, rfl⟩

/-- A parse comes to a program, or its error is one of syntax, at the place of a token. -/
theorem ofTokens_cases (tokens : List Token) : (∃ p, ofTokens tokens = .ok p) ∨
    ∃ d, ofTokens tokens = .error d ∧ d.cause.isSyntax = true ∧
      ∃ t ∈ closed tokens, d.span = some t.span := by
  cases hresult : ofTokens tokens with
  | ok p => exact .inl ⟨p, rfl⟩
  | error d =>
    obtain ⟨t, ht, hplaced⟩ := exists_placed_of_ofTokens hresult
    exact .inr ⟨d, rfl, isSyntax_of_ofTokens hresult, t, ht, congrArg Diagnostic.span hplaced⟩

/-- The last token of a source is its end marker, and no token stands below it. -/
theorem exists_last (source : String) : ∃ last, (Token.ofSource source).getLast? = some last ∧
    last.kind.isEof = true ∧ ∀ t ∈ Token.ofSource source, t.span.line ≤ last.span.line := by
  have htiles := Token.tiles_ofSource source
  obtain ⟨words, last, htokens, heof, -, hspan, -⟩ := htiles.exists_eof
  refine ⟨last, by rw [htokens, List.getLast?_concat], heof, fun t ht => ?_⟩
  obtain ⟨left, right, htext, -, hplace⟩ := htiles.exists_of_mem ht
  rw [hplace, hspan, htext]
  simp only [Position.to, Position.behind, List.count_append]
  omega

theorem closed_of_last {last : Token} (hlast : tokens.getLast? = some last)
    (heof : last.kind.isEof = true) : closed tokens = tokens := by
  rw [closed, hlast, if_pos]
  exact heof

/-- Parsing is total. Whatever the tokens, each loop of the parse ends of itself; its cursor stays
in range; it comes to a program at the first end marker, or to an error of syntax at the place of a
token, which for the tokens of a source is no line below the last one. -/
theorem parse_ends_at_program_or_token (tokens : List Token) :
    LoopsEnd ∧
    (∀ front rest, body tokens = front ++ rest → CursorInside tokens front rest) ∧
    (∀ p rest, read (body tokens) = .ok (p, rest) → rest = []) ∧
    ((∃ p, ofTokens tokens = .ok p) ∨
      ∃ d, ofTokens tokens = .error d ∧ d.cause.isSyntax = true ∧
        ∃ t ∈ closed tokens, d.span = some t.span) ∧
    ∀ source d, tokens = Token.ofSource source → ofTokens tokens = .error d →
      ∃ s last, d.span = some s ∧ tokens.getLast? = some last ∧ s.line ≤ last.span.line := by
  refine ⟨loopsEnd, fun _ _ h => cursorInside h, fun p rest h => (read_eq_ok_iff.1 h).1,
    ofTokens_cases tokens, ?_⟩
  rintro source d rfl herror
  rcases ofTokens_cases (Token.ofSource source) with ⟨p, hp⟩ | ⟨d', hd, -, t, ht, hspan⟩
  · rw [hp] at herror
    cases herror
  · rw [hd] at herror
    cases herror
    obtain ⟨last, hlast, heof, hbelow⟩ := exists_last source
    rw [closed_of_last hlast heof] at ht
    exact ⟨t.span, last, hspan, hlast, hbelow t ht⟩

end Program

end SceneScript
