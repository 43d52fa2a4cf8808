import SceneScript.Program.Read
import SceneScript.Proofs.Program.Unplaced
import SceneScript.Proofs.Text.Lines

namespace SceneScript

/-! ### Tokens -/

namespace Token

def ofSign (sign : Symbol) : Token := .ofKind (.symbol sign)

def ofWord (word : Keyword) : Token := .ofKind (.keyword word)

def ofIdent (name : String) : Token := .ofKind (.ident name)

def ofName (text : String) : Token := .ofKind (wordKind text.toList)

def conversions : List String := [Keyword.int, .float, .string, .bool].map Keyword.text

def ofCallee (callee : String) : Token :=
  if conversions.contains callee then ofName callee else ofIdent callee

def joined (sign : Symbol) (pieces : List (List Token)) : List Token :=
  [ofSign sign].intercalate pieces

def between (opening closing : Symbol) (inside : List Token) : List Token :=
  ofSign opening :: (inside ++ [ofSign closing])

@[simp] theorem span_ofKind (kind : TokenKind) : (ofKind kind).span = .zero := rfl

@[simp] theorem is_ofSign (sign other : Symbol) : (ofSign sign).is other = (sign == other) := rfl

@[simp] theorem isWord_ofWord (word other : Keyword) :
    (ofWord word).isWord other = (word == other) := rfl

@[simp] theorem ident?_ofIdent (name : String) : (ofIdent name).ident? = some name := rfl

@[simp] theorem is_ofIdent (name : String) (sign : Symbol) : (ofIdent name).is sign = false := rfl

@[simp] theorem is_ofWord (word : Keyword) (sign : Symbol) : (ofWord word).is sign = false := rfl

@[simp] theorem name?_ofName (text : String) : (ofName text).name? = some text := by
  unfold ofName wordKind
  rw [String.ofList_toList]
  cases h : Keyword.ofText? text with
  | none => rfl
  | some word => exact congrArg some (Keyword.text_of_ofText? h)

theorem eq_of_ident?_ofName {text name : String} (h : (ofName text).ident? = some name) :
    text = name := by
  unfold ofName wordKind at h
  rw [String.ofList_toList] at h
  split at h
  next => cases h
  next => exact Option.some.inj h

@[simp] theorem is_ofName (text : String) (sign : Symbol) : (ofName text).is sign = false := by
  unfold ofName wordKind
  split <;> rfl

@[simp] theorem joined_nil (sign : Symbol) : joined sign [] = [] := rfl

@[simp] theorem joined_singleton (sign : Symbol) (piece : List Token) :
    joined sign [piece] = piece := by
  simp [joined]

@[simp] theorem joined_cons_cons (sign : Symbol) (piece next : List Token)
    (pieces : List (List Token)) :
    joined sign (piece :: next :: pieces) = piece ++
      ofSign sign :: joined sign (next :: pieces) := by
  simp [joined, List.intercalate]

theorem forall_mem_joined {sign : Symbol} {pieces : List (List Token)} {P : Token → Prop}
    (hsign : P (ofSign sign)) (h : ∀ piece ∈ pieces, ∀ t ∈ piece, P t) :
    ∀ t ∈ joined sign pieces, P t := Text.forall_mem_intercalate hsign h

theorem length_le_length_joined (sign : Symbol) {pieces : List (List Token)}
    (h : ∀ piece ∈ pieces, piece ≠ []) : pieces.length ≤ (joined sign pieces).length := by
  induction pieces with
  | nil => exact Nat.zero_le _
  | cons piece pieces ih =>
    obtain ⟨hpiece, hmore⟩ := List.forall_mem_cons.1 h
    cases pieces with
    | nil =>
      rw [joined_singleton]
      exact List.length_pos_iff.2 hpiece
    | cons next pieces =>
      have := ih hmore
      rw [joined_cons_cons, List.length_append]
      simp only [List.length_cons] at this ⊢
      omega

theorem length_between (opening closing : Symbol) (inside : List Token) :
    (between opening closing inside).length = inside.length + 2 := by
  rw [between, List.length_cons, List.length_append, List.length_singleton]

end Token

open Token

/-! ### Expressions -/

def Number.isNegative (x : Float) : Bool := decide (Nat.pow 2 63 ≤ x.toBits.toNat)

def Number.render (x : Float) : List Token :=
  if isNegative x then [ofSign .minus, .ofKind (.number (-x))] else [.ofKind (.number x)]

/-- The number that is written for an index. The greatest index stands for all greater ones too, and
the least of them that is a float is written. -/
def Number.ofIndex (index : Nat) : Float :=
  Dyadic.toFloat ⟨false, if index < Nat.pow 2 64 - 1 then index else Nat.pow 2 64, 0⟩

def Vector3.render (v : Vector3) : List Token :=
  joined .comma [Number.render v.x, Number.render v.y, Number.render v.z]

def MaterialRef.render : MaterialRef → List Token
  | named name => [ofIdent name]
  | member library item => [ofIdent library, ofSign .dot, ofName item]

def FaceLiteral.render (face : FaceLiteral) : List Token :=
  joined .comma (face.indices.map fun index => [.ofKind (.number (Number.ofIndex index))]) ++
    match face.material with
    | some material => ofSign .colon :: material.render
    | none => []

def MeshSection.render (heading : String) (items : List (List Token)) : List Token :=
  ofIdent heading :: ofSign .equal ::
    between .leftBracket .rightBracket (items.map (· ++ [ofSign .semicolon])).flatten

namespace Expr

def renderCallee : Option String → String → List Token
  | some receiver, callee => [ofIdent receiver, ofSign .dot, ofName callee]
  | none, callee => [ofCallee callee]

mutual
def render : Expr → List Token
  | .number _ x => [.ofKind (.number x)]
  | .string _ text => [.ofKind (.string text)]
  | .reference _ name members =>
    ofIdent name :: (members.map fun member => [ofSign .dot, ofName member]).flatten
  | .binary _ op left right =>
    between .leftParen .rightParen (left.render ++ ofSign op.symbol :: right.render)
  | .call _ receiver callee args =>
    renderCallee receiver callee ++ between .leftParen .rightParen (joined .comma (renderAll args))
  | .cube _ vertices =>
    ofWord .cube :: between .leftParen .rightParen
      (joined .colon (vertices.map fun vertex => [.ofKind (.string vertex)]))
  | .mesh _ vertices faces =>
    ofWord .mesh :: between .leftBrace .rightBrace
      (MeshSection.render "vertices" (vertices.map Vector3.render) ++
        MeshSection.render "faces" (faces.map FaceLiteral.render))
  | .material _ properties =>
    ofWord .material :: between .leftBrace .rightBrace
      (joined .semicolon (renderProperties properties))
  | .modifier _ kind properties =>
    ofWord .modifier :: ofSign .dot :: ofIdent kind ::
      between .leftBrace .rightBrace (joined .semicolon (renderProperties properties))
  | .group _ children =>
    ofWord .group :: between .leftBracket .rightBracket
      (joined .comma (children.map fun child => [ofIdent child]))
def renderAll : List Expr → List (List Token)
  | [] => []
  | first :: more => first.render :: renderAll more
def renderProperty : Property Expr → List Token
  | .single key value => ofName key :: ofSign .equal :: value.render
  | .list key values => ofName key :: ofSign .equal :: joined .comma (renderAll values)
def renderProperties : List (Property Expr) → List (List Token)
  | [] => []
  | first :: more => renderProperty first :: renderProperties more
end

theorem renderAll_eq_map (es : List Expr) : renderAll es = es.map render := by
  induction es with
  | nil => rfl
  | cons first more ih => rw [renderAll, ih, List.map_cons]

/-- A first coordinate that does not begin with the name of an anchor: one that would, stands in
parentheses. -/
def renderFirst (e : Expr) : List Token :=
  if (e.render.head?.bind AssignedValue.anchor?).isSome then between .leftParen .rightParen e.render
  else e.render

end Expr

/-! ### Statements -/

def Import.renderNames (names : List String) : List Token :=
  if names.isEmpty then [] else joined .comma (names.map fun name => [ofIdent name]) ++
    [ofWord .origin]

def Import.renderAlias : Option String → List Token
  | some name => [ofWord .aliasing, ofIdent name]
  | none => []

def Import.render (declaration : Import) : List Token :=
  ofWord .importing :: (renderNames declaration.names ++
    .ofKind (.string declaration.source) :: renderAlias declaration.boundAs)

section
variable (first : Expr → List Token)

def Triple.render (first : Expr → List Token) (coords : Triple) : List Token :=
  joined .comma [first coords.x, coords.y.render, coords.z.render]

def AssignedValue.renderOffset : Option Triple → List Token
  | some coords => ofSign .plus :: coords.render Expr.render
  | none => []

def AssignedValue.render : AssignedValue → List Token
  | expr value => between .leftParen .rightParen value.render
  | triple coords => coords.render first
  | relative anchor offset => ofIdent ("@" ++ anchor) :: renderOffset offset

def Stmt.renderChild : Option String → List Token
  | some child => between .leftParen .rightParen [ofIdent child] ++ [ofSign .dot]
  | none => []

/-- The arguments of a method; the object that it leaves out is the last one. -/
def Stmt.renderArguments (args : List Expr) (excluded : Option String) : List (List Token) :=
  args.map Expr.render ++ (excluded.map fun object => [ofWord .excluding, ofIdent object]).toList

def Stmt.renderStep : Option Expr → List Token
  | some step => ofWord .stepping :: step.render
  | none => []

/-- Whether a block is a condition alone, which an `else` may stand before without braces. -/
def Stmt.isCondition : List Stmt → Bool
  | [.branch ..] => true
  | _ => false

mutual
def Stmt.render : Stmt → List Token
  | .imports declaration => declaration.render
  | .assign _ name confined value =>
    (if confined then [ofWord .confining] else []) ++ ofIdent name :: ofSign .equal :: value.render
  | .setProperty _ target child property value =>
    ofIdent target :: ofSign .dot ::
      (renderChild child ++ ofName property :: ofSign .equal :: value.render first)
  | .callMethod _ target method args excluded =>
    ofIdent target :: ofSign .dot :: ofName method :: between .leftParen .rightParen
      (joined .comma (renderArguments args excluded))
  | .print _ value =>
    ofIdent "console" :: ofSign .dot :: ofIdent "print" ::
      between .leftParen .rightParen value.render
  | .branch _ condition thenBlock elseBlock =>
    ofWord .conditional :: (condition.render ++
      between .leftBrace .rightBrace (renderBlock thenBlock) ++ renderElse elseBlock)
  | .whileLoop _ condition body =>
    ofWord .whileLoop :: (condition.render ++ between .leftBrace .rightBrace (renderBlock body))
  | .forLoop _ counter start stop step body =>
    ofWord .forLoop :: ofIdent counter :: ofSign .equal :: (start.render ++
      ofWord .upTo :: (stop.render ++ (renderStep step ++
        between .leftBrace .rightBrace (renderBlock body))))
def Stmt.renderBlock : List Stmt → List Token
  | [] => []
  | first :: more => first.render ++ ofSign .semicolon :: renderBlock more
def Stmt.renderElse : Option (List Stmt) → List Token
  | none => []
  | some block =>
    ofWord .alternative :: if Stmt.isCondition block then (renderBlock block).dropLast
      else between .leftBrace .rightBrace (renderBlock block)
end

def Program.render (p : Program) : List Token := Stmt.renderBlock first p.statements

end

/-! ### End markers -/

def Token.NoEnd (ts : List Token) : Prop := ∀ t ∈ ts, t.kind.isEof = false

namespace Token
variable {ts us : List Token}

theorem noEnd_nil : NoEnd [] := nofun

theorem NoEnd.cons {t : Token} (ht : t.kind.isEof = false) (h : NoEnd ts) : NoEnd (t :: ts) :=
  List.forall_mem_cons.2 ⟨ht, h⟩

theorem NoEnd.append (h : NoEnd ts) (h' : NoEnd us) :
    NoEnd (ts ++ us) := List.forall_mem_append.2 ⟨h, h'⟩

theorem NoEnd.between {opening closing : Symbol} (h : NoEnd ts) :
    NoEnd (between opening closing ts) :=
  .cons rfl (h.append (.cons rfl noEnd_nil))

theorem noEnd_joined (sign : Symbol) {pieces : List (List Token)}
    (h : ∀ piece ∈ pieces, NoEnd piece) : NoEnd (joined sign pieces) := forall_mem_joined rfl h

theorem noEnd_flatten {pieces : List (List Token)} (h : ∀ piece ∈ pieces, NoEnd piece) :
    NoEnd pieces.flatten := fun t ht =>
  let ⟨piece, hpiece, hmem⟩ := List.mem_flatten.1 ht
  h piece hpiece t hmem

theorem isEof_ofName (text : String) : (ofName text).kind.isEof = false := by
  unfold ofName wordKind
  split <;> rfl

theorem isEof_ofCallee (callee : String) : (ofCallee callee).kind.isEof = false := by
  unfold ofCallee
  split
  · exact isEof_ofName callee
  · rfl

end Token

theorem Number.noEnd_render (x : Float) : NoEnd (Number.render x) := by
  unfold Number.render
  split
  · exact .cons rfl (.cons rfl noEnd_nil)
  · exact .cons rfl noEnd_nil

theorem Vector3.noEnd_render (v : Vector3) : NoEnd v.render :=
  noEnd_joined _ (by simp [Number.noEnd_render])

theorem FaceLiteral.noEnd_render (face : FaceLiteral) : NoEnd face.render := by
  refine .append (noEnd_joined _ (List.forall_mem_map.2 fun _ _ => .cons rfl noEnd_nil)) ?_
  cases face.material with
  | none => exact noEnd_nil
  | some material =>
    refine .cons rfl ?_
    cases material with
    | named name => exact .cons rfl noEnd_nil
    | member library item => exact .cons rfl (.cons rfl (.cons (isEof_ofName item) noEnd_nil))

theorem MeshSection.noEnd_render (heading : String) {items : List (List Token)}
    (h : ∀ item ∈ items, NoEnd item) : NoEnd (MeshSection.render heading items) :=
  .cons rfl (.cons rfl (.between (noEnd_flatten (List.forall_mem_map.2 fun item hitem =>
    (h item hitem).append (.cons rfl noEnd_nil)))))

namespace Expr

mutual
theorem noEnd_render : ∀ e : Expr, NoEnd e.render
  | .number .. => .cons rfl noEnd_nil
  | .string .. => .cons rfl noEnd_nil
  | .reference _ _ _ => .cons rfl (noEnd_flatten (List.forall_mem_map.2 fun member _ =>
      .cons rfl (.cons (isEof_ofName member) noEnd_nil)))
  | .binary _ _ left right => .between ((noEnd_render left).append (.cons rfl (noEnd_render right)))
  | .call _ (some _) callee args =>
    .append (.cons rfl (.cons rfl (.cons (isEof_ofName callee) noEnd_nil)))
      (.between (noEnd_joined _ (noEnd_renderAll args)))
  | .call _ none callee args =>
    .append (.cons (isEof_ofCallee callee) noEnd_nil)
      (.between (noEnd_joined _ (noEnd_renderAll args)))
  | .cube _ _ =>
    .cons rfl (.between (noEnd_joined _ (List.forall_mem_map.2 fun _ _ => .cons rfl noEnd_nil)))
  | .mesh _ _ _ => .cons rfl (.between (.append
      (MeshSection.noEnd_render _ (List.forall_mem_map.2 fun v _ => v.noEnd_render))
      (MeshSection.noEnd_render _ (List.forall_mem_map.2 fun face _ => face.noEnd_render))))
  | .material _ properties =>
    .cons rfl (.between (noEnd_joined _ (noEnd_renderProperties properties)))
  | .modifier _ _ properties =>
    .cons rfl (.cons rfl
      (.cons rfl (.between (noEnd_joined _ (noEnd_renderProperties properties)))))
  | .group _ _ =>
    .cons rfl (.between (noEnd_joined _ (List.forall_mem_map.2 fun _ _ => .cons rfl noEnd_nil)))
theorem noEnd_renderAll : ∀ es : List Expr, ∀ piece ∈ renderAll es, NoEnd piece
  | [] => nofun
  | first :: more => List.forall_mem_cons.2 ⟨noEnd_render first, noEnd_renderAll more⟩
theorem noEnd_renderProperty : ∀ p : Property Expr, NoEnd (renderProperty p)
  | .single key value => .cons (isEof_ofName key) (.cons rfl (noEnd_render value))
  | .list key values =>
    .cons (isEof_ofName key) (.cons rfl (noEnd_joined _ (noEnd_renderAll values)))
theorem noEnd_renderProperties : ∀ properties : List (Property Expr),
    ∀ piece ∈ renderProperties properties, NoEnd piece
  | [] => nofun
  | first :: more => List.forall_mem_cons.2 ⟨noEnd_renderProperty first,
    noEnd_renderProperties more⟩
end

theorem noEnd_renderFirst (e : Expr) : NoEnd e.renderFirst := by
  unfold renderFirst
  split
  · exact (noEnd_render e).between
  · exact noEnd_render e

end Expr

theorem Import.noEnd_render (declaration : Import) : NoEnd declaration.render := by
  refine .cons rfl (.append ?_ (.cons rfl ?_))
  · unfold renderNames
    split
    · exact noEnd_nil
    · exact .append (noEnd_joined _ (List.forall_mem_map.2 fun _ _ => .cons rfl noEnd_nil))
        (.cons rfl noEnd_nil)
  · cases declaration.boundAs with
    | none => exact noEnd_nil
    | some name => exact .cons rfl (.cons rfl noEnd_nil)

theorem Triple.noEnd_render {first : Expr → List Token} (hfirst : ∀ e, NoEnd (first e))
    (coords : Triple) : NoEnd (coords.render first) :=
  noEnd_joined _ (by simp [hfirst, Expr.noEnd_render])

theorem AssignedValue.noEnd_render (value : AssignedValue) :
    NoEnd (value.render Expr.renderFirst) := by
  cases value with
  | expr value => exact (Expr.noEnd_render value).between
  | triple coords => exact coords.noEnd_render Expr.noEnd_renderFirst
  | relative anchor offset =>
    cases offset with
    | none => exact .cons rfl noEnd_nil
    | some coords => exact .cons rfl (.cons rfl (coords.noEnd_render Expr.noEnd_render))

namespace Stmt

mutual
theorem noEnd_render : ∀ s : Stmt, NoEnd (s.render Expr.renderFirst)
  | .imports declaration => declaration.noEnd_render
  | .assign _ _ true value => .cons rfl (.cons rfl (.cons rfl (Expr.noEnd_render value)))
  | .assign _ _ false value => .cons rfl (.cons rfl (Expr.noEnd_render value))
  | .setProperty _ _ (some _) property value =>
    .cons rfl (.cons rfl (.cons rfl (.cons rfl (.cons rfl (.cons rfl
      (.cons (isEof_ofName property) (.cons rfl (value.noEnd_render))))))))
  | .setProperty _ _ none property value =>
    .cons rfl (.cons rfl (.cons (isEof_ofName property) (.cons rfl (value.noEnd_render))))
  | .callMethod _ _ method args excluded => by
    refine .cons rfl (.cons rfl (.cons (isEof_ofName method) (.between (noEnd_joined _ ?_))))
    refine List.forall_mem_append.2 ⟨List.forall_mem_map.2 fun arg _ => arg.noEnd_render, ?_⟩
    cases excluded with
    | none => exact nofun
    | some object => exact List.forall_mem_singleton.2 (.cons rfl (.cons rfl noEnd_nil))
  | .print _ value => .cons rfl (.cons rfl (.cons rfl (Expr.noEnd_render value).between))
  | .branch _ condition thenBlock none => .cons rfl (((Expr.noEnd_render condition).append
      (noEnd_renderBlock thenBlock).between).append noEnd_nil)
  | .branch _ condition thenBlock (some block) => by
    have hblock := noEnd_renderBlock block
    refine .cons rfl (((Expr.noEnd_render condition).append
      (noEnd_renderBlock thenBlock).between).append (.cons rfl ?_))
    split
    · exact fun t ht => hblock t (List.dropLast_sublist _ |>.subset ht)
    · exact hblock.between
  | .whileLoop _ condition body =>
    .cons rfl ((Expr.noEnd_render condition).append (noEnd_renderBlock body).between)
  | .forLoop _ _ start stop none body =>
    .cons rfl (.cons rfl (.cons rfl ((Expr.noEnd_render start).append (.cons rfl
      ((Expr.noEnd_render stop).append (noEnd_renderBlock body).between)))))
  | .forLoop _ _ start stop (some step) body =>
    .cons rfl (.cons rfl (.cons rfl ((Expr.noEnd_render start).append (.cons rfl
      ((Expr.noEnd_render stop).append (.cons rfl ((Expr.noEnd_render step).append
        (noEnd_renderBlock body).between)))))))
theorem noEnd_renderBlock : ∀ block : List Stmt, NoEnd (renderBlock Expr.renderFirst block)
  | [] => noEnd_nil
  | s :: more => (noEnd_render s).append (.cons rfl (noEnd_renderBlock more))
end

end Stmt

end SceneScript
