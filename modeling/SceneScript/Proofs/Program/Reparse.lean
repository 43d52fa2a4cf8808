import SceneScript.Proofs.Module.Load
import SceneScript.Proofs.Program.ReparseExpr

namespace SceneScript
open Reader Token
variable {rest : List Token}

/-! ### Imports -/

namespace Import

/-- Names with commas between them, up to the word after them. -/
theorem read_names (first : String) (more : List String) (rest : List Token) :
    beginsNames (joined .comma ((first :: more).map fun name => [ofIdent name]) ++
        ofWord .origin :: rest) = true ∧
      ∃ between, ident "expected import name" (joined .comma ((first :: more).map fun name =>
          [ofIdent name]) ++ ofWord .origin :: rest) = .ok (first, between) ∧
        moreAfterCommas (ident "expected import name after ','") between =
          .ok (more, ofWord .origin :: rest) := by
  constructor
  · cases more with
    | nil => rfl
    | cons next more =>
      rw [List.map_cons, List.map_cons, joined_cons_cons]
      rfl
  have hreads : List.Forall₂ (Reads (fun _ => True) (ident "expected import name after ','"))
      ((first :: more).map fun name => [ofIdent name]) (first :: more) :=
    List.forall₂_map_left_iff.2 (List.forall₂_same.2 fun name _ rest _ => ident_ofIdent _ name rest)
  have hword : ∀ t ∈ (ofWord .origin :: rest).head?, t.is .comma = false := by simp
  obtain ⟨between, hfirst, -, hmore⟩ := exists_first_of_separated (separated_joined _) hreads
    (fun _ _ _ => trivial) trivial hword
  rw [← List.map_cons (f := fun name => [ofIdent name])] at hfirst
  obtain ⟨t, htokens, ht⟩ := ident_eq_ok hfirst
  refine ⟨between, ?_, ?_⟩
  · rw [htokens, ident, expectSome_cons _ ht]
  · rw [moreAfterCommas, get_bind_apply]
    exact hmore _ (Nat.le_refl _)

/-- A source, and perhaps the name that its module is bound to. -/
theorem read_source (names : List String) (source : String) (boundAs : Option String)
    (rest : List Token) :
    (do
      let source ← readSource
      let boundAs ← if ← acceptWord .aliasing then some <$> ident "expected alias name after 'as'"
        else pure none
      return (⟨.zero, names, source, boundAs⟩ : Import) : Reader Import)
      (.ofKind (.string source) :: (renderAlias boundAs ++ ofSign .semicolon :: rest)) =
      .ok (⟨.zero, names, source, boundAs⟩, ofSign .semicolon :: rest) := by
  cases boundAs <;> rfl

theorem read_render (declaration : Import) (rest : List Token) :
    ∃ tail, declaration.render = ofWord .importing :: tail ∧
      Import.read .zero (tail ++ ofSign .semicolon :: rest) =
        .ok ({ declaration with span := .zero }, ofSign .semicolon :: rest) := by
  obtain ⟨span, names, source, boundAs⟩ := declaration
  refine ⟨_, rfl, ?_⟩
  rw [List.append_assoc, List.cons_append]
  cases names with
  | nil =>
    have hnames (tail : List Token) : beginsNames (.ofKind (.string source) :: tail) = false := by
      cases tail <;> rfl
    show Import.read .zero (.ofKind (.string source) :: (renderAlias boundAs ++ _)) = _
    rw [Import.read, get_bind_apply, hnames, if_neg Bool.false_ne_true,
      bind_of_ok _ (pure_apply [] _)]
    exact read_source [] source boundAs rest
  | cons first more =>
    obtain ⟨hnames, between, hfirst, hmore⟩ := read_names first more
      (.ofKind (.string source) :: (renderAlias boundAs ++ ofSign .semicolon :: rest))
    have htokens : renderNames (first :: more) ++
        .ofKind (.string source) :: (renderAlias boundAs ++ ofSign .semicolon :: rest) =
        joined .comma ((first :: more).map fun name => [ofIdent name]) ++ ofWord .origin ::
          .ofKind (.string source) :: (renderAlias boundAs ++ ofSign .semicolon :: rest) := by
      rw [renderNames, if_neg (by simp), List.append_assoc, List.singleton_append]
    rw [htokens, Import.read, get_bind_apply, hnames, if_pos rfl, bind_of_ok _ hfirst,
      bind_of_ok _ hmore, bind_of_ok _ (expectWord_cons_of_isWord _ rfl _),
        bind_of_ok _ (pure_apply _ _)]
    exact read_source (first :: more) source boundAs rest

end Import

/-! ### Triples and assigned values -/

theorem Triple.read_render {first : Expr → List Token} {coords : Triple} (h : coords.WellFormed)
    (hfirst : Expr.ReadsAs 4 (first coords.x) coords.x.unplaced) (hends : Expr.EndsBefore 4 rest) :
    Triple.read (coords.render first ++ rest) = .ok (coords.unplaced, rest) := by
  have hcomma (tokens : List Token) : Expr.EndsBefore 4 (ofSign .comma :: tokens) :=
    Expr.endsBefore_ofSign (by decide) tokens
  simp only [Triple.render, joined_cons_cons, joined_singleton, List.append_assoc, List.cons_append]
  rw [Triple.read, bind_of_ok _ (hfirst.read (hcomma _)), bind_of_ok _ (expect_cons_of_is _ rfl _),
    bind_of_ok _ ((Expr.readsAs_render _ h.y 4).read (hcomma _)),
    bind_of_ok _ (expect_cons_of_is _ rfl _),
      bind_of_ok _ ((Expr.readsAs_render _ h.z 4).read hends),
    pure_apply]
  rfl

namespace AssignedValue

/-- What does not begin with the name of an anchor is an expression or a triple. -/
theorem read_of_anchor? {tokens : List Token} (h : tokens.head?.bind anchor? = none) :
    AssignedValue.read tokens = (do
      let first ← Expr.read
      if ← accept .comma then
        let second ← Expr.read
        expect .comma "expected ',' between coordinates"
        let third ← Expr.read
        return .triple ⟨first, second, third⟩
      else return .expr first : Reader AssignedValue) tokens := by
  rw [AssignedValue.read, peek?_bind_apply]
  simp only [h]

theorem read_render {value : AssignedValue} (h : value.WellFormed) (rest : List Token) :
    AssignedValue.read (value.render Expr.renderFirst ++ ofSign .semicolon :: rest) =
      .ok (value.unplaced, ofSign .semicolon :: rest) := by
  have hends : Expr.EndsBefore 4 (ofSign .semicolon :: rest) :=
    Expr.endsBefore_ofSign (by decide) rest
  have hcomma (tokens : List Token) : Expr.EndsBefore 4 (ofSign .comma :: tokens) :=
    Expr.endsBefore_ofSign (by decide) tokens
  cases value with
  | expr value =>
    have hread : Expr.ReadsAs 4 (between .leftParen .rightParen value.render) value.unplaced :=
      (Expr.readsAs_render value h 4).paren rfl rfl
    rw [AssignedValue.render, read_of_anchor? rfl, bind_of_ok _ (hread.read hends),
      bind_of_ok _ (accept_ofSign_of_ne .comma .semicolon (by decide) _), if_neg Bool.false_ne_true,
      pure_apply]
    rfl
  | triple coords =>
    have hx := Expr.readsAs_renderFirst h.x 4
    have hhead : (coords.render Expr.renderFirst ++ ofSign .semicolon :: rest).head?.bind anchor? =
        none := by
      obtain ⟨t, more, hrender, ht⟩ := Expr.exists_cons_renderFirst coords.x
      simp [Triple.render, hrender, ht]
    rw [AssignedValue.render, read_of_anchor? hhead]
    simp only [Triple.render, joined_cons_cons, joined_singleton, List.append_assoc,
      List.cons_append]
    rw [bind_of_ok _ (hx.read (hcomma _)), bind_of_ok _ (accept_cons_of_is rfl _), if_pos rfl,
      bind_of_ok _ ((Expr.readsAs_render _ h.y 4).read (hcomma _)),
      bind_of_ok _ (expect_cons_of_is _ rfl _),
        bind_of_ok _ ((Expr.readsAs_render _ h.z 4).read hends),
      pure_apply]
    rfl
  | relative anchor offset =>
    have hanchor : anchor? (ofIdent ("@" ++ anchor)) = some anchor := by
      rw [anchor?, ident?_ofIdent, Option.map_some, String.toList_append]
      exact congrArg some String.ofList_toList
    rw [AssignedValue.render, AssignedValue.read, peek?_bind_apply, List.cons_append,
      List.head?_cons, Option.bind_some, hanchor]
    cases offset with
    | none =>
      rfl
    | some coords =>
      have hcoords := Triple.read_render (h coords rfl)
        (Expr.readsAs_render _ (h coords rfl).x 4) hends
      dsimp only
      rw [modify_bind_apply, List.tail_cons, renderOffset, List.cons_append,
        bind_of_ok _ (takeIf_cons_of_pos rfl _), if_pos Option.isSome_some,
          bind_of_ok _ (map_of_ok some hcoords),
        pure_apply]
      rfl

end AssignedValue

/-! ### Arguments of methods -/

namespace MethodArgument

def ReadsArgument (ts : List Token) (argument : MethodArgument) : Prop :=
  ∀ rest, Expr.EndsBefore 4 rest → MethodArgument.read (ts ++ rest) =
    (do
      let _ ← accept .comma
      return argument : Reader MethodArgument) rest

theorem readsArgument_value {e : Expr} (h : e.WellFormed) :
    ReadsArgument e.render (.value e.unplaced) := by
  intro rest hends
  obtain ⟨t, more, hrender, hword, -⟩ := Expr.exists_cons_render e
  have hnone : acceptWord .excluding (e.render ++ rest) = .ok (false, e.render ++ rest) :=
    acceptWord_of_head? (by simpa [hrender] using hword)
  rw [MethodArgument.read, bind_of_ok _ hnone, if_neg Bool.false_ne_true,
    bind_of_ok _ (map_of_ok MethodArgument.value ((Expr.readsAs_render e h 4).read hends))]

theorem readsArgument_excluded (object : String) :
    ReadsArgument [ofWord .excluding, ofIdent object] (.excluded object) := by
  intro rest _
  rw [List.cons_append, List.singleton_append, MethodArgument.read,
    bind_of_ok _ (acceptWord_cons_of_isWord rfl _), if_pos rfl,
    bind_of_ok _ (map_of_ok MethodArgument.excluded (ident_ofIdent _ object rest))]

theorem rounds_of_arguments {pieces : List (List Token)} {arguments : List MethodArgument}
    (h : List.Forall₂ ReadsArgument pieces arguments)
    (hhead : ∀ piece ∈ pieces, ∃ t ∈ piece.head?, t.is .rightParen = false) (rest : List Token) :
    Rounds (fun t => !t.is .rightParen) MethodArgument.read
      (joined .comma pieces ++ ofSign .rightParen :: rest) arguments
        (ofSign .rightParen :: rest) := by
  induction h with
  | nil => exact .done (by simp)
  | @cons piece argument pieces arguments hread hmore ih =>
    obtain ⟨⟨t, ht, hclosing⟩, hheads⟩ := List.forall_mem_cons.1 hhead
    obtain ⟨tail, rfl⟩ := List.head?_eq_some_iff.1 ht
    cases pieces with
    | nil =>
      cases hmore
      have hstep := hread (ofSign .rightParen :: rest) (Expr.endsBefore_ofSign (by decide) rest)
      rw [bind_of_ok _ (accept_ofSign_of_ne .comma .rightParen (by decide) _), pure_apply] at hstep
      rw [joined_singleton]
      exact .round (by simpa using hclosing) hstep (by simp) (.done (by simp))
    | cons next pieces =>
      have hstep := hread (ofSign .comma :: (joined .comma (next :: pieces) ++
        ofSign .rightParen :: rest))
        (Expr.endsBefore_ofSign (by decide) _)
      rw [bind_of_ok _ (accept_cons_of_is rfl _), pure_apply] at hstep
      rw [joined_cons_cons, List.append_assoc, List.cons_append]
      refine .round (by simpa using hclosing) hstep ?_ (ih hheads)
      simp only [List.length_append, List.length_cons]
      omega

end MethodArgument

namespace Stmt

/-! ### Statements without blocks -/

theorem readMethodCall_render (target method : String) {args : List Expr} (excluded : Option String)
    (h : ∀ arg ∈ args, arg.WellFormed) (rest : List Token) :
    readMethodCall .zero target method (joined .comma (renderArguments args excluded) ++
      ofSign .rightParen :: rest) =
      .ok (.callMethod .zero target method (Expr.unplacedAll args) excluded, rest) := by
  have harguments : List.Forall₂ MethodArgument.ReadsArgument (renderArguments args excluded)
      (args.map (MethodArgument.value ·.unplaced) ++
        (excluded.map MethodArgument.excluded).toList) := by
    refine List.rel_append ?_ ?_
    · refine List.forall₂_map_left_iff.2 (List.forall₂_map_right_iff.2 (List.forall₂_same.2 ?_))
      exact fun arg harg => MethodArgument.readsArgument_value (h arg harg)
    · cases excluded with
      | none => exact .nil
      | some object => exact .cons (MethodArgument.readsArgument_excluded object) .nil
  have hheads : ∀ piece ∈ renderArguments args excluded, ∃ t ∈ piece.head?,
    t.is .rightParen = false := by
    refine List.forall_mem_append.2 ⟨List.forall_mem_map.2 fun arg _ => ?_, ?_⟩
    · obtain ⟨t, more, hrender, -, hclosing⟩ := Expr.exists_cons_render arg
      exact ⟨t, by simp [hrender], hclosing⟩
    · cases excluded <;> simp
  have hrounds := MethodArgument.rounds_of_arguments harguments hheads rest
  rw [readMethodCall, bind_of_ok _ hrounds.untilClosed, bind_of_ok _ (expect_cons_of_is _ rfl _),
    pure_apply, Expr.unplacedAll_eq_map]
  cases excluded <;> simp [List.filterMap_append, List.filterMap_map]

/-- What follows the name does not make it a print. -/
theorem beginsPrint_of_not_isPrint {target member : String} (h : ¬IsPrint target member)
    (tokens : List Token) :
    (target == "console" && beginsPrint (ofSign .dot :: ofName member :: tokens)) = false := by
  rw [Bool.and_eq_false_iff, beq_eq_false_iff_ne, or_iff_not_imp_left, not_not]
  intro htarget
  by_contra hbegins
  have hident : (ofName member).ident? = some "print" := by simpa [beginsPrint] using hbegins
  exact h ⟨htarget, eq_of_ident?_ofName hident⟩

/-- The tokens are read as the statement, up to the semicolon that follows them. -/
def ReadsForm (ts : List Token) (s : Stmt) : Prop :=
  ∀ depth, ts.length ≤ depth → ∀ rest, readForm (readWithin depth) (ts ++
    ofSign .semicolon :: rest) =
    .ok (s, ofSign .semicolon :: rest)

/-- What a name begins does not depend on how blocks are read. -/
theorem readsForm_of_readNamed {target : String} {ts : List Token} {s : Stmt}
    (h : ∀ rest, readNamed .zero target (ts ++ ofSign .semicolon :: rest) =
      .ok (s, ofSign .semicolon :: rest)) : ReadsForm (ofIdent target :: ts) s :=
  fun _ _ rest => h rest

theorem readsForm_imports (declaration : Import) :
    ReadsForm declaration.render (.imports { declaration with span := .zero }) := by
  intro depth _ rest
  obtain ⟨tail, hrender, hread⟩ := declaration.read_render rest
  rw [hrender]
  exact bind_of_ok (fun declaration => (return Stmt.imports declaration : Reader Stmt)) hread

section
variable {value : Expr}

theorem endsBefore_semicolon (rest : List Token) : Expr.EndsBefore 4 (ofSign .semicolon :: rest) :=
  Expr.endsBefore_ofSign (by decide) rest

theorem readsForm_assign (span : Span) (name : String) (confined : Bool) (h : value.WellFormed) :
    ReadsForm ((assign span name confined value).render Expr.renderFirst)
      (.assign .zero name confined value.unplaced) := by
  have hvalue (rest : List Token) :=
    (Expr.readsAs_render value h 4).read (endsBefore_semicolon rest)
  cases confined with
  | true =>
    intro depth _ rest
    show readConfined .zero (ofIdent name :: ofSign .equal :: (value.render ++ _)) = _
    rw [readConfined, bind_of_ok _ (ident_ofIdent _ name _),
      bind_of_ok _ (expect_cons_of_is _ rfl _), bind_of_ok _ (hvalue rest), pure_apply]
  | false =>
    refine readsForm_of_readNamed fun rest => ?_
    have hprint (tokens : List Token) :
        ¬(name == "console" && beginsPrint (ofSign .equal :: tokens)) = true := by
      cases tokens <;> simp [beginsPrint]
    rw [List.cons_append, readNamed, get_bind_apply, if_neg (hprint _),
      bind_of_ok _ (accept_cons_of_is rfl _), if_pos rfl, bind_of_ok _ (hvalue rest), pure_apply]

theorem readsForm_setProperty (span : Span) (target : String) (child : Option String)
    (property : String) {value : AssignedValue} (hprint : child = none → ¬IsPrint target property)
    (h : value.WellFormed) :
    ReadsForm ((setProperty span target child property value).render Expr.renderFirst)
      (.setProperty .zero target child property value.unplaced) := by
  refine readsForm_of_readNamed fun rest => ?_
  have hnone (tokens : List Token) := accept_ofSign_of_ne .equal .dot (by decide) tokens
  have hvalue := AssignedValue.read_render h rest
  cases child with
  | none =>
    have hno := beginsPrint_of_not_isPrint (hprint rfl)
    simp only [renderChild, List.nil_append, List.cons_append]
    rw [readNamed, get_bind_apply, hno, if_neg Bool.false_ne_true, bind_of_ok _ (hnone _),
      if_neg Bool.false_ne_true, bind_of_ok _ (expect_cons_of_is _ rfl _),
      bind_of_ok _ (accept_ofName .leftParen property _), if_neg Bool.false_ne_true,
      bind_of_ok _ (name_ofName _ property _),
      bind_of_ok _ (accept_ofSign_of_ne .leftParen .equal (by decide) _), if_neg Bool.false_ne_true,
      bind_of_ok _ (expect_cons_of_is _ rfl _), bind_of_ok _ hvalue, pure_apply]
  | some object =>
    have hno (tokens : List Token) :
        ¬(target == "console" &&
          beginsPrint (ofSign .dot :: ofSign .leftParen :: tokens)) = true := by
      simp [beginsPrint, Token.ident?, ofSign, ofKind]
    simp only [renderChild, between_append, List.cons_append, List.nil_append]
    rw [readNamed, get_bind_apply, if_neg (hno _), bind_of_ok _ (hnone _),
      if_neg Bool.false_ne_true, bind_of_ok _ (expect_cons_of_is _ rfl _),
      bind_of_ok _ (accept_cons_of_is rfl _), if_pos rfl, readChildProperty,
      bind_of_ok _ (ident_ofIdent _ object _),
      bind_of_ok _ (expect_cons_of_is _ rfl _), bind_of_ok _ (expect_cons_of_is _ rfl _),
      bind_of_ok _ (name_ofName _ property _), bind_of_ok _ (expect_cons_of_is _ rfl _),
        bind_of_ok _ hvalue,
      pure_apply]

theorem readsForm_callMethod (span : Span) (target method : String) {args : List Expr}
    (excluded : Option String) (hprint : ¬IsPrint target method)
    (h : ∀ arg ∈ args, arg.WellFormed) :
    ReadsForm ((callMethod span target method args excluded).render Expr.renderFirst)
      (.callMethod .zero target method (Expr.unplacedAll args) excluded) := by
  refine readsForm_of_readNamed fun rest => ?_
  have hno := beginsPrint_of_not_isPrint hprint
  have hcall := readMethodCall_render target method excluded h (ofSign .semicolon :: rest)
  rw [List.cons_append, List.cons_append, between_append, readNamed, get_bind_apply, hno,
    if_neg Bool.false_ne_true, bind_of_ok _ (accept_ofSign_of_ne .equal .dot (by decide) _),
    if_neg Bool.false_ne_true, bind_of_ok _ (expect_cons_of_is _ rfl _),
    bind_of_ok _ (accept_ofName .leftParen method _), if_neg Bool.false_ne_true,
    bind_of_ok _ (name_ofName _ method _), bind_of_ok _ (accept_cons_of_is rfl _),
      if_pos rfl, hcall]

theorem readsForm_print (span : Span) (h : value.WellFormed) :
    ReadsForm ((print span value).render Expr.renderFirst) (.print .zero value.unplaced) := by
  refine readsForm_of_readNamed fun rest => ?_
  have hvalue := (Expr.readsAs_render value h 4).read
    (@Expr.endsBefore_ofSign .rightParen (by decide) (ofSign .semicolon :: rest))
  have hbegins (tokens : List Token) : ("console" == "console" &&
      beginsPrint (ofSign .dot :: ofIdent "print" :: tokens)) = true := rfl
  rw [List.cons_append, List.cons_append, readNamed, get_bind_apply, hbegins, if_pos rfl,
    modify_bind_apply, List.drop_succ_cons, List.drop_succ_cons, List.drop_zero, readPrint,
    read_between hvalue, pure_apply]

end

/-! ### Blocks -/

theorem renderBlock_eq_flatten (first : Expr → List Token) (block : List Stmt) :
    renderBlock first block =
      ((block.map (render first)).map (· ++ [ofSign .semicolon])).flatten := by
  induction block with
  | nil => rfl
  | cons s block ih =>
    rw [renderBlock, ih]
    simp

/-- A statement begins with a name or a word. -/
theorem exists_cons_render (first : Expr → List Token) (s : Stmt) :
    ∃ t more, s.render first = t :: more ∧ ∀ sign, t.is sign = false := by
  cases s with
  | assign span name confined value => cases confined <;> exact ⟨_, _, rfl, fun _ => rfl⟩
  | _ => exact ⟨_, _, rfl, fun _ => rfl⟩

section
variable {depth n : Nat} {block : List Stmt} {s : Stmt} {ts : List Token}

theorem ReadsForm.readWithin (h : ReadsForm ts s) (hdepth : ts.length < depth) (rest : List Token) :
    Stmt.readWithin depth (ts ++ ofSign .semicolon :: rest) = .ok (s, rest) := by
  obtain ⟨depth, rfl⟩ : ∃ k, depth = k + 1 := ⟨depth - 1, by omega⟩
  rw [Stmt.readWithin, bind_of_ok _ (h depth (Nat.le_of_lt_succ hdepth) rest),
    bind_of_ok _ (accept_cons_of_is rfl _), pure_apply]

/-- A statement with its semicolon is an item. -/
theorem reads_item (h : ReadsForm (s.render Expr.renderFirst) s.unplaced)
    (hdepth : (s.render Expr.renderFirst).length < depth) :
    Reads (fun _ => True) (readItem (Stmt.readWithin depth))
      (s.render Expr.renderFirst ++ [ofSign .semicolon]) (some s.unplaced) := by
  intro rest _
  rw [List.append_assoc, List.singleton_append]
  refine readItem_of_head? ?_ (h.readWithin hdepth rest)
  obtain ⟨t, more, hrender, ht⟩ := exists_cons_render Expr.renderFirst s
  simp [hrender, ht]

/-- A statement of a block is shorter than the block. -/
theorem length_lt_length_renderBlock {first : Expr → List Token} (h : s ∈ block) :
    (s.render first).length < (renderBlock first block).length := by
  induction block with
  | nil => cases h
  | cons other block ih =>
    rw [renderBlock, List.length_append, List.length_cons]
    rcases List.mem_cons.1 h with rfl | h
    · omega
    · have := ih h
      omega

theorem readBlock_render (h : ∀ s ∈ block, ReadsForm (s.render Expr.renderFirst) s.unplaced)
    (hdepth : (renderBlock Expr.renderFirst block).length ≤ depth) (rest : List Token) :
    readBlock (Stmt.readWithin depth)
      (between .leftBrace .rightBrace (renderBlock Expr.renderFirst block) ++ rest) =
      .ok (unplacedAll block, rest) := by
  have hitems : List.Forall₂ (Reads (fun _ => True) (readItem (Stmt.readWithin depth)))
      ((block.map (render Expr.renderFirst)).map (· ++ [ofSign .semicolon]))
      (block.map (some ·.unplaced)) := by
    rw [List.map_map]
    refine List.forall₂_map_left_iff.2
      (List.forall₂_map_right_iff.2 (List.forall₂_same.2 fun s hs => ?_))
    exact reads_item (h s hs) (Nat.lt_of_lt_of_le (length_lt_length_renderBlock hs) hdepth)
  have hheads : ∀ piece ∈ (block.map (render Expr.renderFirst)).map (· ++ [ofSign .semicolon]),
      ∃ t ∈ piece.head?, (!t.is .rightBrace) = true := by
    rw [List.map_map]
    refine List.forall_mem_map.2 fun s _ => ?_
    obtain ⟨t, more, hrender, ht⟩ := exists_cons_render Expr.renderFirst s
    exact ⟨t, by simp [hrender], by simp [ht]⟩
  have hrounds := @rounds_of_forall₂ _ _ _ (ofSign .rightBrace :: rest) _ _ hitems hheads (by simp)
  rw [renderBlock_eq_flatten, readBlock, read_between hrounds.untilClosed, pure_apply,
    unplacedAll_eq_map]
  simp [List.reduceOption, List.filterMap_map]

/-- Rounds that are left over do not count. -/
theorem readBranch_of_le {m : Nat} {span : Span} {tokens : List Token} {t : Token} (hnm : n ≤ m)
    (h : readBranch (Stmt.readWithin depth) n span tokens = .ok (s, t :: rest)) :
    readBranch (Stmt.readWithin depth) m span tokens = .ok (s, t :: rest) := by
  have hsame := (@extends_readBranch false [] _ _
    (extends_readWithin (Nat.le_refl depth)) n m hnm span tokens s (t :: rest) h).2 nofun
  simpa using hsame

section
variable {statement : Reader Stmt} {span : Span} {condition : Expr} {thenBlock block : List Stmt}
  {tokens between after more : List Token} {t : Token}

theorem readBranch_of_end (hcondition : Expr.read tokens = .ok (condition, between))
    (hthen : readBlock statement between = .ok (thenBlock, rest))
    (hend : acceptWord .alternative rest = .ok (false, rest)) :
    readBranch statement (n + 1) span tokens =
      .ok (.branch span condition thenBlock none, rest) := by
  rw [readBranch, bind_of_ok _ hcondition, bind_of_ok _ hthen, bind_of_ok _ hend,
    if_neg Bool.false_ne_true, pure_apply]

theorem readBranch_of_block (hcondition : Expr.read tokens = .ok (condition, between))
    (hthen : readBlock statement between = .ok (thenBlock, t :: more))
    (ht : t.isWord .alternative = true) (hmore : ∀ t ∈ more.head?, t.isWord .conditional = false)
    (hblock : readBlock statement more = .ok (block, rest)) :
    readBranch statement (n + 1) span tokens =
      .ok (.branch span condition thenBlock (some block), rest) := by
  rw [readBranch, bind_of_ok _ hcondition, bind_of_ok _ hthen,
    bind_of_ok _ (acceptWord_cons_of_isWord ht _), if_pos rfl, bind_of_ok _ (takeIf_of_head? hmore)]
  dsimp only
  rw [bind_of_ok _ hblock, pure_apply]

/-- The words of both conditions are taken before the second one is read. -/
theorem readBranch_of_condition {t' : Token}
    (hcondition : Expr.read tokens = .ok (condition, between))
    (hthen : readBlock statement between = .ok (thenBlock, t :: t' :: more))
    (ht : t.isWord .alternative = true) (ht' : t'.isWord .conditional = true)
    (hinner : readBranch statement n t'.span more = .ok (s, rest)) :
    readBranch statement (n + 1) span tokens =
      .ok (.branch span condition thenBlock (some [s]), rest) := by
  rw [readBranch, bind_of_ok _ hcondition, bind_of_ok _ hthen,
    bind_of_ok _ (acceptWord_cons_of_isWord ht _), if_pos rfl,
      bind_of_ok _ (takeIf_cons_of_pos ht' _)]
  dsimp only
  rw [bind_of_ok _ hinner, pure_apply]

end

theorem exists_of_isCondition (h : isCondition block = true) :
    ∃ span condition thenBlock elseBlock, block = [.branch span condition thenBlock elseBlock] := by
  unfold isCondition at h
  split at h
  next => exact ⟨_, _, _, _, rfl⟩
  next => cases h

/-! ### Statements with blocks -/

theorem endsBefore_block (inside rest : List Token) :
    Expr.EndsBefore 4 (between .leftBrace .rightBrace inside ++ rest) :=
  Expr.endsBefore_ofSign (by decide) _

variable {condition : Expr} {thenBlock body : List Stmt} {elseBlock : Option (List Stmt)}

/-- A condition whose alternative has braces, or is a condition without them, or is left out. -/
theorem readsForm_branch (span : Span) (hcondition : condition.WellFormed)
    (hthen : ∀ s ∈ thenBlock, ReadsForm (s.render Expr.renderFirst) s.unplaced)
    (helse : ∀ block ∈ elseBlock, ∀ s ∈ block, ReadsForm (s.render Expr.renderFirst) s.unplaced) :
    ReadsForm ((branch span condition thenBlock elseBlock).render Expr.renderFirst)
      (.branch .zero condition.unplaced (unplacedAll thenBlock) (unplacedElse elseBlock)) := by
  intro depth hdepth rest
  unfold render at hdepth ⊢
  have hthenDepth : (renderBlock Expr.renderFirst thenBlock).length ≤ depth := by
    simp only [List.length_cons, List.length_append, length_between] at hdepth
    omega
  have hread (tokens : List Token) :
      Expr.read (condition.render ++ (between .leftBrace .rightBrace
        (renderBlock Expr.renderFirst thenBlock) ++ tokens)) = .ok (condition.unplaced,
        between .leftBrace .rightBrace (renderBlock Expr.renderFirst thenBlock) ++ tokens) :=
    (Expr.readsAs_render condition hcondition 4).read (endsBefore_block _ tokens)
  have hblock (tokens : List Token) := readBlock_render hthen hthenDepth tokens
  simp only [List.cons_append, List.append_assoc]
  show readBranch (Stmt.readWithin depth) (_ + 1) .zero _ = _
  cases elseBlock with
  | none => exact readBranch_of_end (hread _) (hblock _) (acceptWord_ofSign _ _ _)
  | some block =>
    have hmore := helse block rfl
    unfold renderElse at hdepth ⊢
    cases hcond : isCondition block with
    | false =>
      have hblockDepth : (renderBlock Expr.renderFirst block).length ≤ depth := by
        simp only [hcond, Bool.false_eq_true, if_false, List.length_cons, List.length_append,
          length_between] at hdepth
        omega
      rw [if_neg Bool.false_ne_true]
      exact readBranch_of_block (hread _) (hblock _) rfl (by simp [between]; rfl)
        (readBlock_render hmore hblockDepth _)
    | true =>
      obtain ⟨span', condition', thenBlock', elseBlock', rfl⟩ := exists_of_isCondition hcond
      obtain ⟨tail, htail⟩ : ∃ tail, (branch span' condition' thenBlock' elseBlock').render
          Expr.renderFirst = ofWord .conditional :: tail := ⟨_, by unfold render; rfl⟩
      have hinner := hmore _ (List.mem_singleton_self _)
      generalize branch span' condition' thenBlock' elseBlock' = inner at *
      -- The block of the alternative is printed without its braces and without its semicolon.
      have halone : (renderBlock Expr.renderFirst [inner]).dropLast =
        ofWord .conditional :: tail := by
        rw [renderBlock, renderBlock, List.dropLast_concat, htail]
      simp only [hcond, if_true, halone, List.length_cons, List.length_append] at hdepth
      have hbranch : readBranch (Stmt.readWithin depth)
        ((tail ++ ofSign .semicolon :: rest).length + 1)
          .zero (tail ++ ofSign .semicolon :: rest) =
          .ok (inner.unplaced, ofSign .semicolon :: rest) := by
        rw [htail] at hinner
        exact hinner depth (by rw [List.length_cons]; omega) rest
      rw [if_pos rfl, halone]
      refine readBranch_of_condition (hread _) (hblock _) rfl rfl (readBranch_of_le ?_ hbranch)
      simp only [List.length_cons, List.length_append]
      omega

theorem readsForm_whileLoop (span : Span) (hcondition : condition.WellFormed)
    (hbody : ∀ s ∈ body, ReadsForm (s.render Expr.renderFirst) s.unplaced) :
    ReadsForm ((whileLoop span condition body).render Expr.renderFirst)
      (.whileLoop .zero condition.unplaced (unplacedAll body)) := by
  intro depth hdepth rest
  unfold render at hdepth ⊢
  have hbodyDepth : (renderBlock Expr.renderFirst body).length ≤ depth := by
    simp only [List.length_cons, List.length_append, length_between] at hdepth
    omega
  simp only [List.cons_append, List.append_assoc]
  show readWhile (Stmt.readWithin depth) .zero _ = _
  rw [readWhile, bind_of_ok _ ((Expr.readsAs_render condition hcondition 4).read
    (endsBefore_block _ _)), bind_of_ok _ (readBlock_render hbody hbodyDepth _), pure_apply]

theorem readsForm_forLoop (span : Span) (counter : String) {start stop : Expr} {step : Option Expr}
    (hstart : start.WellFormed) (hstop : stop.WellFormed) (hstep : ∀ e ∈ step, e.WellFormed)
    (hbody : ∀ s ∈ body, ReadsForm (s.render Expr.renderFirst) s.unplaced) :
    ReadsForm ((forLoop span counter start stop step body).render Expr.renderFirst)
      (.forLoop .zero counter start.unplaced stop.unplaced (step.map Expr.unplaced)
        (unplacedAll body)) := by
  intro depth hdepth rest
  unfold render at hdepth ⊢
  have hbodyDepth : (renderBlock Expr.renderFirst body).length ≤ depth := by
    simp only [List.length_cons, List.length_append, length_between] at hdepth
    omega
  have hblock := readBlock_render hbody hbodyDepth (ofSign .semicolon :: rest)
  have hfrom := (Expr.readsAs_render start hstart 4).read
    (Expr.endsBefore_ofWord .upTo (stop.render ++
      (renderStep step ++ (between .leftBrace .rightBrace
      (renderBlock Expr.renderFirst body) ++ ofSign .semicolon :: rest))))
  simp only [List.cons_append, List.append_assoc]
  have hform (tokens : List Token) : readForm (Stmt.readWithin depth) (ofWord .forLoop :: tokens) =
      readFor (Stmt.readWithin depth) .zero tokens := rfl
  rw [hform, readFor, bind_of_ok _ (ident_ofIdent _ counter _),
    bind_of_ok _ (expect_cons_of_is _ rfl _), bind_of_ok _ hfrom,
    bind_of_ok _ (expectWord_cons_of_isWord _ rfl _)]
  cases step with
  | none =>
    have hnone (inside tokens : List Token) :
        acceptWord .stepping (between .leftBrace .rightBrace inside ++ tokens) =
          .ok (false, between .leftBrace .rightBrace inside ++ tokens) :=
      acceptWord_ofSign .stepping .leftBrace _
    rw [renderStep, List.nil_append,
      bind_of_ok _ ((Expr.readsAs_render stop hstop 4).read (endsBefore_block _ _)),
      bind_of_ok _ (hnone _ _), if_neg Bool.false_ne_true, bind_of_ok _ (pure_apply none _)]
    dsimp only
    rw [bind_of_ok _ hblock, pure_apply]
    rfl
  | some step =>
    have hby := (Expr.readsAs_render step (hstep step rfl) 4).read (endsBefore_block
      (renderBlock Expr.renderFirst body) (ofSign .semicolon :: rest))
    rw [renderStep, List.cons_append,
      bind_of_ok _ ((Expr.readsAs_render stop hstop 4).read (Expr.endsBefore_ofWord .stepping _)),
      bind_of_ok _ (acceptWord_cons_of_isWord rfl _), if_pos rfl, bind_of_ok _ (map_of_ok some hby)]
    dsimp only
    rw [bind_of_ok _ hblock, pure_apply]
    rfl

end

mutual
/-- Every form of statement is read off its canonical tokens. -/
theorem readsForm_render : ∀ s :
    Stmt, s.WellFormed → ReadsForm (s.render Expr.renderFirst) s.unplaced
  | .imports declaration, _ => readsForm_imports declaration
  | .assign span name confined _, h => readsForm_assign span name confined h
  | .setProperty span target child property _, h =>
    readsForm_setProperty span target child property h.1 h.2
  | .callMethod span target method _ excluded, h =>
    readsForm_callMethod span target method excluded h.1 h.2
  | .print span _, h => readsForm_print span h
  | .branch span _ thenBlock none, h =>
    readsForm_branch span h.1 (readsForm_renderAll thenBlock h.2.1) nofun
  | .branch span _ thenBlock (some block), h =>
    readsForm_branch span h.1 (readsForm_renderAll thenBlock h.2.1) fun _ hblock =>
      Option.mem_some.1 hblock ▸ readsForm_renderAll block h.2.2
  | .whileLoop span _ body, h => readsForm_whileLoop span h.1 (readsForm_renderAll body h.2)
  | .forLoop span counter _ _ _ body, h =>
    readsForm_forLoop span counter h.1 h.2.1 h.2.2.1 (readsForm_renderAll body h.2.2.2)
theorem readsForm_renderAll : ∀ block : List Stmt, AllWellFormed block →
    ∀ s ∈ block, ReadsForm (s.render Expr.renderFirst) s.unplaced
  | [], _ => nofun
  | first :: more, h =>
    List.forall_mem_cons.2 ⟨readsForm_render first h.1, readsForm_renderAll more h.2⟩
end

end Stmt

namespace Program
open Stmt

/-! ### Programs -/

theorem items_renderBlock {block : List Stmt}
    (h : ∀ s ∈ block, ReadsForm (s.render Expr.renderFirst) s.unplaced) :
    Items (renderBlock Expr.renderFirst block) (block.map (some ·.unplaced)) := by
  induction block with
  | nil => exact .nil
  | cons s block ih =>
    obtain ⟨hs, hmore⟩ := List.forall_mem_cons.1 h
    refine .cons (readItem_of_head? ?_ ?_) (ih hmore)
    · obtain ⟨t, more, hrender, ht⟩ := exists_cons_render Expr.renderFirst s
      simp [renderBlock, hrender, ht]
    · exact hs.readWithin (by rw [renderBlock, List.length_append]; omega) _

theorem ofTokens_render {p : Program} (h : p.WellFormed) :
    ofTokens (p.render Expr.renderFirst) = .ok p.unplaced := by
  have hbody : body (p.render Expr.renderFirst) = p.render Expr.renderFirst :=
    List.takeWhile_eq_self_iff.2 fun t ht => by rw [noEnd_renderBlock p.statements t ht]; rfl
  have hitems := items_renderBlock (readsForm_renderAll p.statements (allWellFormed_iff.2 h))
  have hread : read (p.render Expr.renderFirst) = .ok (p.unplaced, []) := by
    refine read_eq_ok_iff.2 ⟨rfl, _, hitems, ?_⟩
    simp [Program.unplaced, List.reduceOption, List.filterMap_map]
  unfold ofTokens runReader
  rw [hbody, hread]

/-- The canonical tokens of what a source text is read as, with parentheses around each first
coordinate that begins with the name of an anchor, are read as the same program up to places. -/
theorem ofTokens_render_of_ofSource {source : String} {p : Program} (h : ofSource source = .ok p) :
    ofTokens (p.render Expr.renderFirst) = .ok p.unplaced :=
      ofTokens_render (wellFormed_of_ofSource h)

/-- A chain of conditions, a relative position, and a child with a reserved word for its
property. -/
def chainSource : String :=
  "if a { b.pos = @c + (@d), e, f } else if g { h.(i).to = j } else { k.l(m not n) }"

theorem ofTokens_render_of_chain : ∃ p, ofSource chainSource = .ok p ∧
    ofTokens (p.render Expr.renderFirst) = .ok p.unplaced := by
  obtain ⟨p, hp⟩ : ∃ p, ofSource chainSource = .ok p :=
    exists_of_isSome_toOption (by decide +kernel)
  exact ⟨p, hp, ofTokens_render_of_ofSource hp⟩

/-- Without its parentheses the first coordinate here is the name of an anchor, of which the other
two are no offset. -/
theorem ofTokens_render_of_anchor_first : ∃ p, ofSource "a.pos = (@b), c, d" = .ok p ∧
    ∀ q, ofTokens (p.render Expr.render) ≠ .ok q := by
  obtain ⟨p, hp⟩ : ∃ p, ofSource "a.pos = (@b), c, d" = .ok p :=
    exists_of_isSome_toOption (by decide +kernel)
  refine ⟨p, hp, fun q hq => ?_⟩
  have hfails : ((ofSource "a.pos = (@b), c, d").toOption.bind fun p =>
      (ofTokens (p.render Expr.render)).toOption).isSome = false := by decide +kernel
  rw [hp] at hfails
  simp [Except.toOption, hq] at hfails

end Program

end SceneScript
