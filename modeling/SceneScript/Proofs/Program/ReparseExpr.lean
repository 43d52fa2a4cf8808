import SceneScript.Proofs.Number.Numeral
import SceneScript.Proofs.Program.Cube
import SceneScript.Proofs.Program.Rendering

namespace SceneScript
open Reader

open Token

/-! ### Canonical tokens -/

theorem Token.separated_joined (pieces : List (List Token)) :
    Separated pieces (joined .comma pieces) := by
  match pieces with
  | [] => exact .nil
  | [piece] =>
    rw [joined_singleton]
    exact .single piece
  | piece :: next :: pieces =>
    rw [joined_cons_cons]
    exact .cons piece rfl (separated_joined (next :: pieces))

@[simp] theorem Expr.span_unplaced (e : Expr) : e.unplaced.span = .zero := by cases e <;> rfl

theorem Token.between_append (opening closing : Symbol) (inside rest : List Token) :
    between opening closing inside ++
      rest = ofSign opening :: (inside ++ ofSign closing :: rest) := by
  rw [between, List.cons_append, List.append_assoc, List.singleton_append]

namespace Reader
variable {α β : Type} {continues : Token → Bool} {step : Reader α} {tokens rest : List Token}
  {as : List α}

theorem accept_ofSign_of_ne (wanted sign : Symbol) (h : sign ≠ wanted) (rest : List Token) :
    accept wanted (ofSign sign :: rest) = .ok (false, ofSign sign :: rest) :=
  accept_of_head? (by simp [h])

theorem accept_ofName (wanted : Symbol) (text : String) (rest : List Token) :
    accept wanted (ofName text :: rest) = .ok (false, ofName text :: rest) :=
  accept_of_head? (by simp)

theorem acceptWord_ofSign (word : Keyword) (sign : Symbol) (rest : List Token) :
    acceptWord word (ofSign sign :: rest) = .ok (false, ofSign sign :: rest) :=
  acceptWord_of_head? (by simp; rfl)

theorem ident_ofIdent (wanted name : String) (rest : List Token) :
    ident wanted (ofIdent name :: rest) = .ok (name, rest) :=
  expectSome_cons wanted (ident?_ofIdent name) rest

theorem name_ofName (wanted text : String) (rest : List Token) :
    name wanted (ofName text :: rest) = .ok (text, rest) :=
  expectSome_cons wanted (name?_ofName text) rest

/-- What stands between two signs is read after the first of them, up to the second. -/
theorem read_between {x : Reader α} {opening closing : Symbol} {inside : List Token} {a : α}
    (h : x (inside ++ ofSign closing :: rest) = .ok (a, ofSign closing :: rest))
    (wanted wanted' : String) (f : α → Reader β) :
    (do
      expect opening wanted
      let a ← x
      expect closing wanted'
      f a : Reader β) (between opening closing inside ++ rest) = f a rest := by
  rw [between_append, bind_of_ok _ (expect_cons_of_is _ (by simp) _), bind_of_ok _ h,
    bind_of_ok _ (expect_cons_of_is _ (by simp) _)]

/-- The rounds of a loop: each begins with a token on which the loop goes on, and takes one at
least. -/
inductive Rounds (continues : Token → Bool) (step : Reader α) :
    List Token → List α → List Token → Prop
  | done {rest : List Token} : (∀ t ∈ rest.head?, continues t = false) →
    Rounds continues step rest [] rest
  | round {t : Token} {more between rest : List Token} {a : α} {as : List α} : continues t = true →
    step (t :: more) = .ok (a, between) → between.length ≤ more.length →
    Rounds continues step between as rest → Rounds continues step (t :: more) (a :: as) rest

theorem Rounds.repeatWhile {n : Nat} (h : Rounds continues step tokens as rest)
    (hn : tokens.length ≤ n) : Reader.repeatWhile continues step n tokens = .ok (as, rest) := by
  induction h generalizing n with
  | done hstop => exact repeatWhile_of_head? step n hstop
  | round ht hstep hshort _ ih =>
    obtain ⟨n, rfl⟩ : ∃ k, n = k + 1 := ⟨n - 1, by simp at hn; omega⟩
    exact repeatWhile_succ ht hstep (ih (by simp at hn; omega))

/-- Pieces that are read whatever follows them, up to where the loop stops. -/
theorem rounds_of_forall₂ {pieces : List (List Token)}
    (h : List.Forall₂ (Reads (fun _ => True) step) pieces as)
    (hcontinues : ∀ piece ∈ pieces, ∃ t ∈ piece.head?, continues t = true)
    (hrest : ∀ t ∈ rest.head?, continues t = false) :
    Rounds continues step (pieces.flatten ++ rest) as rest := by
  induction h with
  | nil => exact .done hrest
  | @cons piece a pieces as hread _ ih =>
    obtain ⟨t, ht, hgoes⟩ := hcontinues piece (List.mem_cons_self ..)
    obtain ⟨more, rfl⟩ := List.head?_eq_some_iff.1 ht
    have hmore := ih fun p hp => hcontinues p (List.mem_cons_of_mem _ hp)
    have hstep := hread (pieces.flatten ++ rest) trivial
    rw [List.flatten_cons, List.append_assoc, List.cons_append]
    exact .round hgoes hstep (by simp) hmore

theorem Rounds.untilClosed {closing : Symbol}
    (h : Rounds (fun token => !token.is closing) step tokens as rest) :
    Reader.untilClosed closing step tokens = .ok (as, rest) := by
  rw [Reader.untilClosed, get_bind_apply]
  exact h.repeatWhile (Nat.le_refl _)

end Reader

/-! ### Cubes -/

namespace Expr
variable {rest : List Token}

theorem toList_join_joined (vertices : List String) :
    (String.join ((joined .colon (vertices.map fun vertex =>
      [.ofKind (.string vertex)])).map Token.rawText)).toList =
      [':'].intercalate (vertices.map String.toList) := by
  induction vertices with
  | nil => rfl
  | cons vertex vertices ih =>
    cases vertices with
    | nil => simp [Token.rawText, Token.ofKind]
    | cons next vertices =>
      have hcolon : (ofSign .colon).rawText = ":" := rfl
      have htext : (ofKind (.string vertex)).rawText = vertex := rfl
      simp only [List.map_cons, joined_cons_cons, List.singleton_append, String.join_cons,
        String.toList_append, hcolon, htext] at ih ⊢
      rw [ih]
      simp [List.intercalate]

theorem cubeVertices_join {vertices : List String} (h : ∀ vertex ∈ vertices, IsVertexText vertex) :
    cubeVertices (String.join ((joined .colon (vertices.map fun vertex =>
      [.ofKind (.string vertex)])).map Token.rawText)) = vertices := by
  have hglued := congrArg String.ofList (toList_join_joined vertices)
  rw [String.ofList_toList] at hglued
  rw [hglued]
  exact cubeVertices_intercalate h

theorem readCube_joined {vertices : List String} (h : ∀ vertex ∈ vertices, IsVertexText vertex) :
    readCube .zero (between .leftParen .rightParen
      (joined .colon (vertices.map fun vertex => [.ofKind (.string vertex)])) ++ rest) =
      .ok (.cube .zero vertices, rest) := by
  have hparens : ∀ t ∈ joined .colon (vertices.map fun vertex => [.ofKind (.string vertex)]),
      t.is .leftParen = false ∧ t.is .rightParen = false := by
    refine forall_mem_joined (by decide) fun piece hpiece t ht => ?_
    obtain ⟨vertex, -, rfl⟩ := List.mem_map.1 hpiece
    obtain rfl := List.mem_singleton.1 ht
    exact ⟨rfl, rfl⟩
  rw [between_append, readCube_of_no_parens .zero (is_ofSign ..) hparens (is_ofSign ..),
    cubeVertices_join h]

/-! ### Ends of expressions -/

theorem endsBefore_ofSign {sign : Symbol}
    (h : sign ∈ [Symbol.comma, .semicolon, .rightParen, .leftBrace, .rightBrace])
      (rest : List Token) :
    EndsBefore 4 (ofSign sign :: rest) := by
  have hno : sign ≠ .dot ∧ sign ≠ .leftParen ∧ ∀ op : BinaryOp, sign ≠ op.symbol := by
    simp only [List.mem_cons, List.not_mem_nil, or_false] at h
    rcases h with rfl | rfl | rfl | rfl | rfl <;>
      exact ⟨by decide, by decide, fun op => by cases op <;> decide⟩
  obtain ⟨hdot, hparen, hop⟩ := hno
  exact endsBefore_cons_of_is (Token.is_iff.2 rfl) hdot hparen (fun op _ => hop op) rest

theorem endsBefore_ofWord (word : Keyword) (rest : List Token) :
    EndsBefore 4 (ofWord word :: rest) := by
  intro t ht
  obtain rfl : ofWord word = t := by simpa using ht
  exact ⟨rfl, rfl, fun _ _ => rfl⟩

/-! ### Meshes -/

theorem expectItemEnd_semicolon (wanted : String) :
    expectItemEnd wanted (ofSign .semicolon :: rest) = .ok ((), rest) := by
  rw [expectItemEnd, bind_of_ok _ (accept_cons_of_is rfl _)]
  rfl

theorem readSignedNumber_render (x : Float) :
    readSignedNumber (Number.render x ++ rest) = .ok (x, rest) := by
  have hnumber (y : Float) : number? (.ofKind (.number y)) = some y := rfl
  unfold Number.render
  split
  · rw [readSignedNumber, List.cons_append, bind_of_ok _ (accept_cons_of_is rfl _),
      List.singleton_append, bind_of_ok _ (expectSome_cons _ (hnumber _) _), if_pos rfl,
      Number.neg_neg, pure_apply]
  · have hminus : accept .minus (.ofKind (.number x) :: rest) =
        .ok (false, .ofKind (.number x) :: rest) := accept_of_head? (by simp [ofKind, Token.is])
    rw [readSignedNumber, List.singleton_append, bind_of_ok _ hminus,
      bind_of_ok _ (expectSome_cons _ (hnumber _) _), if_neg Bool.false_ne_true, pure_apply]

theorem reads_vertex (v : Vector3) :
    Reads (fun _ => True) readVertex (v.render ++ [ofSign .semicolon]) v := by
  intro rest _
  simp only [Vector3.render, joined_cons_cons, joined_singleton, List.append_assoc,
    List.cons_append]
  rw [readVertex, bind_of_ok _ (readSignedNumber_render v.x),
    bind_of_ok _ (expect_cons_of_is _ rfl _),
    bind_of_ok _ (readSignedNumber_render v.y), bind_of_ok _ (expect_cons_of_is _ rfl _),
    bind_of_ok _ (readSignedNumber_render v.z), List.nil_append,
    bind_of_ok _ (expectItemEnd_semicolon _), pure_apply]

theorem readMaterialRef_render (material : MaterialRef) :
    readMaterialRef (material.render ++ ofSign .semicolon :: rest) =
      .ok (material, ofSign .semicolon :: rest) := by
  cases material with
  | named name =>
    rw [MaterialRef.render, readMaterialRef, List.singleton_append,
      bind_of_ok _ (ident_ofIdent _ name _),
      bind_of_ok _ (accept_ofSign_of_ne .dot .semicolon (by decide) _), if_neg Bool.false_ne_true,
      pure_apply]
  | member library item =>
    rw [MaterialRef.render, readMaterialRef, List.cons_append,
      bind_of_ok _ (ident_ofIdent _ library _), List.cons_append,
      bind_of_ok _ (accept_cons_of_is rfl _), if_pos rfl, List.singleton_append,
      bind_of_ok _ (name_ofName _ item _), pure_apply]

theorem reads_face {face : FaceLiteral} (h : face.WellFormed) :
    Reads (fun _ => True) readFace (face.render ++ [ofSign .semicolon]) face := by
  obtain ⟨indices, material⟩ := face
  obtain ⟨hcount, hindices⟩ := h
  intro rest _
  rcases indices with _ | ⟨first, more⟩
  · exact absurd hcount (by simp)
  dsimp only at hcount hindices
  -- The indices are read up to what is no comma.
  have hreads : List.Forall₂ (Reads (fun _ => True) readIndex)
      ((first :: more).map fun index => [.ofKind (.number (Number.ofIndex index))])
        (first :: more) := by
    refine List.forall₂_map_left_iff.2 (List.forall₂_same.2 fun index hindex rest _ => ?_)
    obtain ⟨x, hx⟩ := hindices index hindex
    exact readIndex_cons rfl (Number.index?_ofIndex hx) rest
  have hlist (rest : List Token) (hcomma : ∀ t ∈ rest.head?, t.is .comma = false) :
      ∃ after, readIndex (joined .comma ((first :: more).map fun index =>
        [.ofKind (.number (Number.ofIndex index))]) ++ rest) = .ok (first, after) ∧
        moreAfterCommas readIndex after = .ok (more, rest) := by
    obtain ⟨after, hfirst, -, hmore⟩ := exists_first_of_separated (separated_joined _) hreads
      (fun _ _ _ => trivial) trivial hcomma
    refine ⟨after, hfirst, ?_⟩
    rw [moreAfterCommas, get_bind_apply]
    exact hmore _ (Nat.le_refl _)
  have hfew : ¬(first :: more).length < 3 := Nat.not_lt.2 hcount
  unfold FaceLiteral.render readFace
  rw [peek?_bind_apply]
  cases material with
  | none =>
    obtain ⟨after, hfirst, hmore⟩ := hlist (ofSign .semicolon :: rest) (by simp)
    dsimp only
    rw [List.append_nil, List.append_assoc, List.singleton_append, bind_of_ok _ hfirst,
      bind_of_ok _ hmore, if_neg hfew,
      bind_of_ok _ (accept_ofSign_of_ne .colon .semicolon (by decide) _), if_neg Bool.false_ne_true,
      bind_of_ok _ (pure_apply none _), bind_of_ok _ (expectItemEnd_semicolon _), pure_apply]
  | some material =>
    obtain ⟨after, hfirst, hmore⟩ :=
      hlist (ofSign .colon :: (material.render ++ ofSign .semicolon :: rest)) (by simp)
    simp only [List.append_assoc, List.cons_append, List.nil_append]
    rw [bind_of_ok _ hfirst, bind_of_ok _ hmore, if_neg hfew,
      bind_of_ok _ (accept_cons_of_is rfl _),
      if_pos rfl, bind_of_ok _ (map_of_ok some (readMaterialRef_render material)),
      bind_of_ok _ (expectItemEnd_semicolon _), pure_apply]

/-- Items of a section, each with a semicolon after it, are read up to the closing bracket. -/
theorem untilClosed_items {α : Type} {item : Reader α} {pieces : List (List Token)} {as : List α}
    (h : List.Forall₂ (fun piece a => Reads (fun _ => True) item (piece ++ [ofSign .semicolon]) a)
      pieces as)
    (hhead : ∀ piece ∈ pieces, ∃ t ∈ piece.head?, t.is .rightBracket = false) (rest : List Token) :
    untilClosed .rightBracket item ((pieces.map (· ++ [ofSign .semicolon])).flatten ++
      ofSign .rightBracket :: rest) = .ok (as, ofSign .rightBracket :: rest) := by
  refine (rounds_of_forall₂ (List.forall₂_map_left_iff.2 h) (fun piece hpiece => ?_) ?_).untilClosed
  · obtain ⟨inner, hinner, rfl⟩ := List.mem_map.1 hpiece
    obtain ⟨t, ht, hclosing⟩ := hhead inner hinner
    exact ⟨t, by rw [List.head?_append, ht]; rfl, by simp [hclosing]⟩
  · simp

theorem exists_head?_render (v : Vector3) : ∃ t ∈ v.render.head?, t.is .rightBracket = false := by
  unfold Vector3.render Number.render
  rw [joined_cons_cons]
  split
  · exact ⟨_, rfl, rfl⟩
  · exact ⟨_, rfl, rfl⟩

theorem exists_head?_render_face {face : FaceLiteral} (h : face.WellFormed) :
    ∃ t ∈ face.render.head?, t.is .rightBracket = false := by
  obtain ⟨indices, material⟩ := face
  obtain ⟨hcount, -⟩ := h
  match indices with
  | [] => exact absurd hcount (by simp)
  | [_] => exact ⟨_, rfl, rfl⟩
  | _ :: _ :: _ =>
    unfold FaceLiteral.render
    rw [List.map_cons, List.map_cons, joined_cons_cons]
    exact ⟨_, rfl, rfl⟩

def closeSection (part : MeshSection) : Reader MeshSection := do
  expect .rightBracket "expected ']' to close mesh section"
  return part

/-- A section is read by its heading, if the items of that heading can be read. -/
theorem readMeshSection_render {α : Type} {heading : String} {item : Reader α}
    {make : List α → MeshSection} {render : α → List Token} {as : List α}
    (hheading : ∀ tokens,
      readMeshSection (ofIdent heading :: ofSign .equal :: ofSign .leftBracket :: tokens) =
        (make <$> untilClosed .rightBracket item >>= closeSection) tokens)
    (hreads : ∀ a ∈ as, Reads (fun _ => True) item (render a ++ [ofSign .semicolon]) a)
    (hhead : ∀ a ∈ as, ∃ t ∈ (render a).head?, t.is .rightBracket = false) (rest : List Token) :
    readMeshSection (MeshSection.render heading (as.map render) ++ rest) = .ok (make as, rest) := by
  have hitems := @untilClosed_items _ item (as.map render) as
    (List.forall₂_map_left_iff.2 (List.forall₂_same.2 hreads)) (List.forall_mem_map.2 hhead) rest
  rw [MeshSection.render, List.cons_append, List.cons_append, between_append, hheading,
    bind_of_ok _ (map_of_ok _ hitems), closeSection, bind_of_ok _ (expect_cons_of_is _ rfl _),
    pure_apply]

theorem readMeshSection_vertices (vertices : List Vector3) (rest : List Token) :
    readMeshSection (MeshSection.render "vertices" (vertices.map Vector3.render) ++ rest) =
      .ok (.vertices vertices, rest) :=
  readMeshSection_render (fun _ => rfl) (fun v _ => reads_vertex v)
    (fun v _ => exists_head?_render v) rest

theorem readMeshSection_faces {faces : List FaceLiteral} (h : ∀ face ∈ faces, face.WellFormed)
    (rest : List Token) :
    readMeshSection (MeshSection.render "faces" (faces.map FaceLiteral.render) ++ rest) =
      .ok (.faces faces, rest) :=
  readMeshSection_render (fun _ => rfl) (fun face hface => reads_face (h face hface))
    (fun face hface => exists_head?_render_face (h face hface)) rest

theorem readMesh_render (vertices : List Vector3) {faces : List FaceLiteral}
    (h : ∀ face ∈ faces, face.WellFormed) (rest : List Token) :
    readMesh .zero (between .leftBrace .rightBrace
      (MeshSection.render "vertices" (vertices.map Vector3.render) ++
        MeshSection.render "faces" (faces.map FaceLiteral.render)) ++ rest) =
      .ok (.mesh .zero vertices faces, rest) := by
  have hsections : Rounds (fun t => !t.is .rightBrace) readMeshSection
      ([MeshSection.render "vertices" (vertices.map Vector3.render),
        MeshSection.render "faces" (faces.map FaceLiteral.render)].flatten ++
          ofSign .rightBrace :: rest)
      [.vertices vertices, .faces faces] (ofSign .rightBrace :: rest) := by
    refine rounds_of_forall₂ (.cons (fun rest _ => readMeshSection_vertices vertices rest)
      (.cons (fun rest _ => readMeshSection_faces h rest) .nil)) ?_ (by simp)
    simp [MeshSection.render]
  have hbody := hsections.untilClosed
  simp only [List.flatten_cons, List.flatten_nil, List.append_nil] at hbody
  rw [readMesh, read_between hbody]
  rfl

/-! ### Groups -/

theorem readChildren_joined (children : List String) {n : Nat} (hn : children.length ≤ n) :
    readChildren n (joined .comma (children.map fun child => [ofIdent child]) ++
      ofSign .rightBracket :: rest) = .ok (children, ofSign .rightBracket :: rest) := by
  induction children generalizing n with
  | nil => exact readChildren_of_head? n (by simp)
  | cons child children ih =>
    obtain ⟨n, rfl⟩ : ∃ k, n = k + 1 := ⟨n - 1, by simp at hn; omega⟩
    cases children with
    | nil =>
      rw [List.map_cons, List.map_nil, joined_singleton, List.singleton_append,
        readChildren_cons n (ident?_ofIdent child),
        bind_of_ok _ (accept_ofSign_of_ne .comma .rightBracket (by decide) _),
        if_neg Bool.false_ne_true, pure_apply]
    | cons next children =>
      have hmore := ih (Nat.le_of_succ_le_succ hn)
      rw [List.map_cons] at hmore
      rw [List.map_cons, List.map_cons, joined_cons_cons, List.append_assoc, List.singleton_append,
        readChildren_cons n (ident?_ofIdent child), List.cons_append,
        bind_of_ok _ (accept_cons_of_is rfl _), if_pos rfl, bind_of_ok _ hmore, pure_apply]

theorem readGroup_render (children : List String) :
    readGroup .zero (between .leftBracket .rightBracket
      (joined .comma (children.map fun child => [ofIdent child])) ++ rest) =
      .ok (.group .zero children, rest) := by
  have hlength : children.length ≤
    (joined .comma (children.map fun child => [ofIdent child])).length := by
    calc children.length = (children.map fun child => [ofIdent child]).length :=
      (List.length_map _).symm
      _ ≤ _ := length_le_length_joined _ (by simp)
  rw [readGroup, between_append, bind_of_ok _ (expect_cons_of_is _ rfl _), get_bind_apply,
    bind_of_ok _ (readChildren_joined children _), bind_of_ok _ (expect_cons_of_is _ rfl _),
      pure_apply]
  rw [List.length_append]
  exact Nat.le_trans hlength (Nat.le_add_right ..)

/-! ### Property blocks -/

/-- The tokens are no names before an equality sign: none is the first of them, or what follows it
is neither a comma nor an equality sign. -/
def Unnamed (ts : List Token) : Prop :=
  ∃ t more, ts = t :: more ∧
    (t.name? = none ∨ ∀ t' ∈ more.head?, t'.is .equal = false ∧ t'.is .comma = false)

theorem entryNames?_cons_of_head? {t : Token} {more : List Token}
    (h : t.name? = none ∨ ∀ t' ∈ more.head?, t'.is .equal = false ∧ t'.is .comma = false) :
    entryNames? (t :: more) = none := by
  cases more with
  | nil => rfl
  | cons t' more =>
    cases hname : t.name? with
    | none => simp [entryNames?, hname]
    | some name =>
      obtain ⟨hequal, hcomma⟩ := h.resolve_left (by simp [hname]) t' rfl
      simp [entryNames?, hname, hequal, hcomma]

theorem entryNames?_cons_comma {t : Token} {more : List Token} (h : entryNames? more = none) :
    entryNames? (t :: ofSign .comma :: more) = none := by
  cases hname : t.name? with
  | none => simp [entryNames?, hname]
  | some name => simp [entryNames?, hname, h]

/-- A list of values is taken for no entry. -/
theorem entryNames?_joined {pieces : List (List Token)} (hne : pieces ≠ [])
    (h : ∀ piece ∈ pieces, Unnamed piece)
    (hrest : ∀ t ∈ rest.head?, t.is .equal = false ∧ t.is .comma = false) :
    entryNames? (joined .comma pieces ++ rest) = none := by
  induction pieces with
  | nil => exact absurd rfl hne
  | cons piece pieces ih =>
    obtain ⟨⟨t, more, rfl, hfirst⟩, hpieces⟩ := List.forall_mem_cons.1 h
    cases pieces with
    | nil =>
      rw [joined_singleton, List.cons_append]
      refine entryNames?_cons_of_head? (hfirst.imp_right fun hhead t' ht' => ?_)
      cases more with
      | nil => exact hrest t' ht'
      | cons t'' more => exact hhead t' ht'
    | cons next pieces =>
      have hlater := ih (List.cons_ne_nil _ _) hpieces
      rw [joined_cons_cons, List.cons_append, List.cons_append, List.append_assoc, List.cons_append]
      cases more with
      | nil => exact entryNames?_cons_comma hlater
      | cons t'' more => exact entryNames?_cons_of_head? hfirst

section
variable {accepted : List String} {value : Reader Expr} {n : Nat}

theorem moreValues_of_head? (h : ∀ t ∈ rest.head?, t.is .comma = false) :
    moreValues accepted value n rest = .ok ([], rest) := by
  cases n with
  | zero => rfl
  | succ n =>
    rw [moreValues, get_bind_apply]
    cases rest with
    | nil => rfl
    | cons t rest => simp [h t rfl]

theorem moreValues_succ {t : Token} {more between : List Token} {e : Expr} {es : List Expr}
    (ht : t.is .comma = true) (hentry : entryNames? more = none)
    (hfirst : value more = .ok (e, between))
    (hmore : moreValues accepted value n between = .ok (es, rest)) :
    moreValues accepted value (n + 1) (t :: more) = .ok (e :: es, rest) := by
  have hbegins : beginsEntry accepted more = false := by simp only [beginsEntry, hentry]
  rw [moreValues, get_bind_apply]
  dsimp only
  rw [if_pos (by simp [ht, hbegins]), set_bind_apply, bind_of_ok _ hfirst, bind_of_ok _ hmore,
    pure_apply]

/-- The first of several values is read, and the others after their commas. -/
theorem exists_first_value {piece : List Token} {pieces : List (List Token)} {e : Expr}
    {es : List Expr} (hreads : List.Forall₂ (Reads (EndsBefore 4) value)
      (piece :: pieces) (e :: es))
    (hunnamed : ∀ p ∈ piece :: pieces, Unnamed p) (hends : EndsBefore 4 rest)
    (hrest : ∀ t ∈ rest.head?, t.is .equal = false ∧ t.is .comma = false) :
    ∃ between, value (joined .comma (piece :: pieces) ++ rest) = .ok (e, between) ∧
      between.length ≤ (joined .comma (piece :: pieces) ++ rest).length ∧
      ∀ n, between.length ≤ n → moreValues accepted value n between = .ok (es, rest) := by
  induction es generalizing e piece pieces with
  | nil =>
    obtain ⟨hfirst, hmore⟩ := List.forall₂_cons.1 hreads
    cases hmore
    rw [joined_singleton]
    exact ⟨rest, hfirst rest hends, by simp, fun n _ => moreValues_of_head?
      fun t ht => (hrest t ht).2⟩
  | cons e' es ih =>
    obtain ⟨hfirst, hmore⟩ := List.forall₂_cons.1 hreads
    rcases pieces with _ | ⟨next, pieces⟩
    · cases hmore
    have hlater := (List.forall_mem_cons.1 hunnamed).2
    obtain ⟨between, hitem, hlength, hafter⟩ := ih hmore hlater
    rw [joined_cons_cons, List.append_assoc, List.cons_append]
    refine ⟨_, hfirst _ (endsBefore_comma rfl 4 _), by simp, fun n hn => ?_⟩
    obtain ⟨n, rfl⟩ : ∃ k, n = k + 1 := ⟨n - 1, by simp at hn; omega⟩
    exact moreValues_succ rfl (entryNames?_joined (List.cons_ne_nil _ _) hlater hrest) hitem
      (hafter n (Nat.le_trans hlength (by simpa using hn)))

/-- What stands after an entry: a semicolon, or the brace that closes the block. -/
def EndsEntry (rest : List Token) : Prop :=
  ∃ sign more, rest = ofSign sign :: more ∧ (sign = .semicolon ∨ sign = .rightBrace)

theorem EndsEntry.endsBefore (h : EndsEntry rest) : EndsBefore 4 rest := by
  obtain ⟨sign, more, rfl, rfl | rfl⟩ := h
  · exact endsBefore_ofSign (by decide) more
  · exact endsBefore_ofSign (by decide) more

theorem EndsEntry.head? (h : EndsEntry rest) :
    ∀ t ∈ rest.head?, t.is .equal = false ∧ t.is .comma = false := by
  obtain ⟨sign, more, rfl, rfl | rfl⟩ := h <;> simp

/-- An entry with its key and the list of its values. -/
theorem readEntry_joined (accepted : List String) (key : String) {pieces : List (List Token)}
    {es : List Expr} (hne : es ≠ []) (hreads : List.Forall₂ (Reads (EndsBefore 4) value) pieces es)
    (hunnamed : ∀ p ∈ pieces, Unnamed p) (hends : EndsEntry rest) :
    readEntry accepted value (ofName key :: ofSign .equal :: (joined .comma pieces ++ rest)) =
      pairEntry (some .zero) [key] es rest := by
  rcases hreads with _ | ⟨hfirst, hmore⟩
  · exact absurd rfl hne
  obtain ⟨between, hvalue, -, hlater⟩ :=
    @exists_first_value _ accepted _ _ _ _ _ (.cons hfirst hmore) hunnamed
    hends.endsBefore hends.head?
  have hkeys (item : Reader String) (tokens : List Token) :
      moreAfterCommas item (ofSign .equal :: tokens) = .ok ([], ofSign .equal :: tokens) := by
    rw [moreAfterCommas, get_bind_apply]
    exact afterCommas_of_head? item _ (by simp)
  rw [readEntry, bind_of_ok _ (accept_ofName .comma key _), if_neg Bool.false_ne_true,
    bind_of_ok _ (accept_ofName .semicolon key _), if_neg Bool.false_ne_true, peek?_bind_apply,
    bind_of_ok _ (name_ofName _ key _), bind_of_ok _ (hkeys _ _),
    bind_of_ok _ (expect_cons_of_is _ rfl _), bind_of_ok _ hvalue, get_bind_apply,
    bind_of_ok _ (hlater _ (Nat.le_refl _))]
  rfl

end

/-- The tokens are read as an entry of a block, where values are read to a depth that suffices. -/
def ReadsEntry (ts : List Token) (p : Property Expr) : Prop :=
  ∀ accepted depth, ts.length ≤ depth →
    Reads EndsEntry (readEntry accepted (readWithin depth)) ts [p]

section
variable {pieces : List (List Token)} {entries : List (Property Expr)} {depth : Nat}

/-- Entries with semicolons between them. A semicolon is a round of the loop that yields no
entry. -/
theorem rounds_of_entries (accepted : List String) (h : List.Forall₂ ReadsEntry pieces entries)
    (hhead : ∀ piece ∈ pieces, ∃ t ∈ piece.head?, t.is .rightBrace = false)
    (hdepth : (joined .semicolon pieces).length ≤ depth) (rest : List Token) :
    ∃ lists, lists.flatten = entries ∧ Rounds (fun t => !t.is .rightBrace)
      (readEntry accepted (readWithin depth)) (joined .semicolon pieces ++
        ofSign .rightBrace :: rest)
      lists (ofSign .rightBrace :: rest) := by
  induction h with
  | nil => exact ⟨[], rfl, .done (by simp)⟩
  | @cons piece entry pieces entries hentry hmore ih =>
    obtain ⟨⟨t, ht, hclosing⟩, hheads⟩ := List.forall_mem_cons.1 hhead
    obtain ⟨tail, rfl⟩ := List.head?_eq_some_iff.1 ht
    cases pieces with
    | nil =>
      cases hmore
      rw [joined_singleton] at hdepth ⊢
      exact ⟨[[entry]], rfl, .round (by simpa using hclosing)
        (hentry accepted depth hdepth _ ⟨_, _, rfl, .inr rfl⟩) (by simp) (.done (by simp))⟩
    | cons next pieces =>
      rw [joined_cons_cons] at hdepth ⊢
      obtain ⟨lists, hlists, hrounds⟩ := ih hheads (by simp at hdepth; omega)
      have hfirst : (t :: tail).length ≤ depth := by simp at hdepth ⊢; omega
      rw [List.append_assoc, List.cons_append, List.cons_append]
      refine ⟨[entry] :: [] :: lists, by simp [hlists], .round (by simpa using hclosing)
        (hentry accepted depth hfirst _ ⟨_, _, rfl, .inl rfl⟩) (by simp)
          (.round rfl ?_ (by simp) hrounds)⟩
      rw [readEntry, bind_of_ok _ (accept_ofSign_of_ne .comma .semicolon (by decide) _),
        if_neg Bool.false_ne_true,
        bind_of_ok _ (accept_cons_of_is rfl _), if_pos rfl, pure_apply]

theorem readProperties_joined (accepted : List String) (h : List.Forall₂ ReadsEntry pieces entries)
    (hhead : ∀ piece ∈ pieces, ∃ t ∈ piece.head?, t.is .rightBrace = false)
    (hdepth : (joined .semicolon pieces).length ≤ depth) (rest : List Token) :
    readProperties accepted (readWithin depth)
      (between .leftBrace .rightBrace (joined .semicolon pieces) ++ rest) =
        .ok (entries, rest) := by
  obtain ⟨lists, hlists, hrounds⟩ := rounds_of_entries accepted h hhead hdepth rest
  rw [readProperties, read_between hrounds.untilClosed, pure_apply, hlists]

end

/-! ### Expressions -/

theorem unnamed_render (e : Expr) : Unnamed e.render := by
  cases e with
  | number | string => exact ⟨_, _, rfl, .inl rfl⟩
  | reference span name members =>
    refine ⟨_, _, rfl, .inr ?_⟩
    cases members <;> simp
  | binary => exact ⟨_, _, rfl, .inl rfl⟩
  | call span receiver callee args =>
    cases receiver <;> exact ⟨_, _, rfl, .inr (by simp [between])⟩
  | cube | mesh | material | modifier | group => exact ⟨_, _, rfl, .inr (by simp [between])⟩

/-- The name of a conversion is written as the word that it is. -/
theorem callee_renderCallee (receiver : Option String) (callee : String) :
    Callee receiver callee (renderCallee receiver callee) := by
  cases receiver with
  | some receiver => exact .member (ident?_ofIdent _) rfl (name?_ofName _)
  | none =>
    rw [renderCallee, ofCallee]
    split
    next h =>
      obtain ⟨word, hword, rfl⟩ := List.mem_map.1 (List.contains_iff_mem.1 h)
      have hname : ofName word.text = ofWord word := by
        rw [ofName, wordKind, String.ofList_toList, Keyword.ofText?_text]
        rfl
      have hword : (ofWord word).isConversion = true :=
        List.any_eq_true.2 ⟨word, hword, Token.isWord_iff.2 rfl⟩
      rw [hname]
      exact .conversion hword
    next => exact .plain (ident?_ofIdent _)

theorem selection_render (members : List String) :
    Selection members ((members.map fun member => [ofSign .dot, ofName member]).flatten) := by
  induction members with
  | nil => exact .nil
  | cons member members ih => exact .cons rfl (name?_ofName member) ih

section
variable {n : Nat} {ts : List Token} {key : String} {pieces : List (List Token)} {es : List Expr}
  {e : Expr}

/-- What a word begins is read at every level. -/
theorem readsAs_word {word : Keyword} (h : ∀ depth, ts.length ≤ depth → ∀ rest,
    readPrimary (readWithin depth) (ofWord word :: (ts ++ rest)) = .ok (e, rest)) :
    ReadsAs n (ofWord word :: ts) e :=
  .of_readPrimary (by simp) fun depth hdepth rest _ => h depth (Nat.le_of_succ_le hdepth) rest

theorem readsEntry_joined (hreads : List.Forall₂ (ReadsAs 4) pieces es) (hne : es ≠ [])
    (hunnamed : ∀ piece ∈ pieces, Unnamed piece) {p : Property Expr}
    (hpair : ∀ rest, pairEntry (some .zero) [key] es rest = .ok ([p], rest)) :
    ReadsEntry (ofName key :: ofSign .equal :: joined .comma pieces) p := by
  intro accepted depth hdepth rest hends
  have hshort : (joined .comma pieces).length < depth := by simp at hdepth; omega
  have hvalues := reads_of_separated (separated_joined pieces) hreads hshort
  rw [List.cons_append, List.cons_append, readEntry_joined accepted key hne hvalues hunnamed hends,
    hpair]

theorem unnamed_renderAll (es : List Expr) : ∀ piece ∈ renderAll es, Unnamed piece := by
  rw [renderAll_eq_map]
  exact List.forall_mem_map.2 fun e _ => unnamed_render e

theorem exists_head?_renderProperties (properties : List (Property Expr)) :
    ∀ piece ∈ renderProperties properties, ∃ t ∈ piece.head?, t.is .rightBrace = false := by
  induction properties with
  | nil => simp [renderProperties]
  | cons p properties ih =>
    refine List.forall_mem_cons.2 ⟨?_, ih⟩
    cases p <;> exact ⟨_, rfl, is_ofName ..⟩

end

mutual
theorem readsAs_render : ∀ e : Expr, e.WellFormed → ∀ n, ReadsAs n e.render e.unplaced
  | .number _ _, _, _ => readsAs_number rfl
  | .string _ _, _, _ => readsAs_string rfl
  | .reference _ name members, _, _ =>
    readsAs_reference (ident?_ofIdent name) (selection_render members)
  | .binary _ op left right, h, n => by
    have hsign : (ofSign op.symbol).is op.symbol = true := by simp
    have hboth := (readsAs_render left h.1 op.level).operation hsign
      (readsAs_render right h.2 (op.level - 1))
    have hunplaced : left.unplaced.operation op right.unplaced =
        .binary .zero op left.unplaced right.unplaced := by
      simp [operation]
      rfl
    rw [hunplaced] at hboth
    exact (hboth.mono op.level_le).paren rfl rfl
  | .call _ receiver callee args, h, n => by
    have hcallee := callee_renderCallee receiver callee
    -- A call takes its place from its name, and canonical tokens have none.
    have hplace : placeOf (renderCallee receiver callee) = .zero := by
      cases receiver with
      | some receiver => rfl
      | none =>
        show placeOf [ofCallee callee] = .zero
        unfold ofCallee
        split <;> rfl
    have hcall := @readsAs_call n _ _ _ _ (ofSign .leftParen) (ofSign .rightParen) _ _ hcallee rfl
      (separated_joined _) (readsAs_renderAll args h) rfl
    rwa [hplace] at hcall
  | .cube _ vertices, h, _ => readsAs_word fun _ _ _ => readCube_joined h
  | .mesh _ vertices faces, h, _ => readsAs_word fun _ _ rest => readMesh_render vertices h rest
  | .material _ properties, h, n => by
    refine readsAs_word fun depth hdepth rest => ?_
    have hshort : (joined .semicolon (renderProperties properties)).length ≤ depth := by
      rw [length_between] at hdepth
      omega
    exact bind_of_ok (fun entries => (return Expr.material .zero entries : Reader Expr))
      (readProperties_joined Material.properties (readsAs_renderProperties properties h)
        (exists_head?_renderProperties properties) hshort rest)
  | .modifier _ kind properties, h, n => by
    refine readsAs_word fun depth hdepth rest => ?_
    have hshort : (joined .semicolon (renderProperties properties)).length ≤ depth := by
      simp only [List.length_cons, length_between] at hdepth
      omega
    exact bind_of_ok (fun entries => (return Expr.modifier .zero kind entries : Reader Expr))
      (readProperties_joined ("base" :: (Modifier.properties? kind).getD [])
        (readsAs_renderProperties properties h)
          (exists_head?_renderProperties properties) hshort rest)
  | .group _ children, _, _ => readsAs_word fun _ _ _ => readGroup_render children
theorem readsAs_renderAll : ∀ es : List Expr, AllWellFormed es →
    List.Forall₂ (ReadsAs 4) (renderAll es) (unplacedAll es)
  | [], _ => .nil
  | first :: more, h => .cons (readsAs_render first h.1 4) (readsAs_renderAll more h.2)
theorem readsEntry_renderProperty : ∀ p : Property Expr, PropertyWellFormed p →
    ReadsEntry (renderProperty p) (unplacedProperty p)
  | .single key value, h => by
    have hvalue := readsAs_render value h 4
    have hentry := @readsEntry_joined key [value.render] [value.unplaced] (.cons hvalue .nil)
      (List.cons_ne_nil _ _) (by simpa using unnamed_render value) (.single key value.unplaced)
      fun _ => rfl
    rwa [joined_singleton] at hentry
  | .list key values, h => by
    have hlength : 2 ≤ (unplacedAll values).length := by
      rw [unplacedAll_eq_map, List.length_map]
      exact h.1
    have hne : unplacedAll values ≠ [] :=
      List.ne_nil_of_length_pos (Nat.lt_of_lt_of_le Nat.two_pos hlength)
    have hmany : [key].length ≠ (unplacedAll values).length := Nat.ne_of_lt hlength
    refine readsEntry_joined (readsAs_renderAll values h.2) hne (unnamed_renderAll values)
      fun rest => ?_
    rw [pairEntry, if_neg hmany]
    rfl
theorem readsAs_renderProperties : ∀ properties : List (Property Expr),
    PropertiesWellFormed properties →
    List.Forall₂ ReadsEntry (renderProperties properties) (unplacedProperties properties)
  | [], _ => .nil
  | first :: more, h =>
    .cons (readsEntry_renderProperty first h.1) (readsAs_renderProperties more h.2)
end

/-! ### What an expression begins with -/

/-- An expression begins neither with the word before an object that is left out nor with a closing
parenthesis. -/
theorem exists_cons_render (e : Expr) : ∃ t more, e.render = t :: more ∧
    t.isWord .excluding = false ∧ t.is .rightParen = false := by
  cases e with
  | call span receiver callee args =>
    have hcallee := callee_renderCallee receiver callee
    unfold render
    generalize renderCallee receiver callee = head at hcallee
    cases hcallee with
    | plain ht | member ht =>
      exact ⟨_, _, rfl, by simp [Token.isWord, Token.is, Token.ident?_eq_some_iff.1 ht]⟩
    | @conversion t ht =>
      refine ⟨t, _, rfl, ?_⟩
      obtain ⟨word, hword, hkind⟩ := List.any_eq_true.1 ht
      simp only [Token.isWord, Token.is, Token.isWord_iff.1 hkind, and_true]
      revert hword
      cases word <;> decide
  | _ => exact ⟨_, _, rfl, rfl, rfl⟩

theorem readsAs_renderFirst {e : Expr} (h : e.WellFormed) (n : Nat) :
    ReadsAs n e.renderFirst e.unplaced := by
  unfold renderFirst
  split
  · exact (readsAs_render e h 4).paren rfl rfl
  · exact readsAs_render e h n

/-- A first coordinate begins with no name of an anchor. -/
theorem exists_cons_renderFirst (e : Expr) :
    ∃ t more, e.renderFirst = t :: more ∧ AssignedValue.anchor? t = none := by
  obtain ⟨t, more, hrender, -⟩ := unnamed_render e
  unfold renderFirst
  rw [hrender, List.head?_cons, Option.bind_some]
  split
  next => exact ⟨_, _, rfl, rfl⟩
  next h => exact ⟨t, more, rfl, by simpa using h⟩

end Expr
end SceneScript
