import SceneScript.Proofs.Program.Inherits
import SceneScript.Proofs.Text.Lines

namespace SceneScript
open Reader

def IsVertexText (text : String) : Prop :=
  text.toList ≠ [] ∧ ':' ∉ text.toList ∧ Text.trim text.toList = text.toList

def FaceLiteral.WellFormed (face : FaceLiteral) : Prop :=
  3 ≤ face.indices.length ∧ ∀ index ∈ face.indices, ∃ x, Expr.index? x = some index

namespace Expr

mutual
def WellFormed : Expr → Prop
  | .number .. => True
  | .string .. => True
  | .reference .. => True
  | .binary _ _ left right => left.WellFormed ∧ right.WellFormed
  | .call _ _ _ args => AllWellFormed args
  | .cube _ vertices => ∀ vertex ∈ vertices, IsVertexText vertex
  | .mesh _ _ faces => ∀ face ∈ faces, face.WellFormed
  | .material _ properties => PropertiesWellFormed properties
  | .modifier _ _ properties => PropertiesWellFormed properties
  | .group .. => True
def AllWellFormed : List Expr → Prop
  | [] => True
  | first :: more => first.WellFormed ∧ AllWellFormed more
def PropertyWellFormed : Property Expr → Prop
  | .single _ value => value.WellFormed
  | .list _ values => 2 ≤ values.length ∧ AllWellFormed values
def PropertiesWellFormed : List (Property Expr) → Prop
  | [] => True
  | first :: more => PropertyWellFormed first ∧ PropertiesWellFormed more
end

theorem allWellFormed_iff {es : List Expr} : AllWellFormed es ↔ ∀ e ∈ es, e.WellFormed := by
  induction es with
  | nil => simp [AllWellFormed]
  | cons first more ih => rw [AllWellFormed, ih, List.forall_mem_cons]

theorem propertiesWellFormed_iff {properties : List (Property Expr)} :
    PropertiesWellFormed properties ↔ ∀ p ∈ properties, PropertyWellFormed p := by
  induction properties with
  | nil => simp [PropertiesWellFormed]
  | cons first more ih => rw [PropertiesWellFormed, ih, List.forall_mem_cons]

end Expr

structure Triple.WellFormed (coords : Triple) : Prop where
  x : coords.x.WellFormed
  y : coords.y.WellFormed
  z : coords.z.WellFormed

def AssignedValue.WellFormed : AssignedValue → Prop
  | expr value => value.WellFormed
  | triple coords => coords.WellFormed
  | relative _ offset => ∀ coords ∈ offset, coords.WellFormed

namespace Stmt

/-- Whether a member of this name makes a print of what begins with the target. -/
def IsPrint (target member : String) : Prop := target = "console" ∧ member = "print"

mutual
def WellFormed : Stmt → Prop
  | .imports _ => True
  | .assign _ _ _ value => value.WellFormed
  | .setProperty _ target child property value =>
    (child = none → ¬IsPrint target property) ∧ value.WellFormed
  | .callMethod _ target method args _ => ¬IsPrint target method ∧ ∀ arg ∈ args, arg.WellFormed
  | .print _ value => value.WellFormed
  | .branch _ condition thenBlock elseBlock =>
    condition.WellFormed ∧ AllWellFormed thenBlock ∧ ElseWellFormed elseBlock
  | .whileLoop _ condition body => condition.WellFormed ∧ AllWellFormed body
  | .forLoop _ _ start stop step body =>
    start.WellFormed ∧ stop.WellFormed ∧ (∀ e ∈ step, e.WellFormed) ∧ AllWellFormed body
def AllWellFormed : List Stmt → Prop
  | [] => True
  | first :: more => first.WellFormed ∧ AllWellFormed more
def ElseWellFormed : Option (List Stmt) → Prop
  | none => True
  | some block => AllWellFormed block
end

theorem allWellFormed_iff {block : List Stmt} :
    AllWellFormed block ↔ ∀ s ∈ block, s.WellFormed := by
  induction block with
  | nil => simp [AllWellFormed]
  | cons first more ih => rw [AllWellFormed, ih, List.forall_mem_cons]

end Stmt

def Program.WellFormed (p : Program) : Prop := ∀ s ∈ p.statements, s.WellFormed

def Token.Lexed (t : Token) : Prop := ∀ text, t.name? = some text → t.kind = wordKind text.toList

theorem Token.lexed_of_munch {c : Char} {following tail : List Char}
    {kind : TokenKind} (span : Span) (h : munch c following = (some kind, tail)) :
    Token.Lexed ⟨kind, span, String.ofList (c :: tail)⟩ := by
  intro text hname
  rw [munch] at h
  split at h
  · cases h
  split at h
  · cases h
  split at h
  · cases h
    cases hname
  split at h
  · cases h
    cases hname
  split at h
  · cases h
    have htext : text = String.ofList (c :: following.takeWhile continuesName) := by
      unfold Token.name? at hname
      split at hname <;> first | cases hname; rfl | cases hname
    rw [htext, String.toList_ofList]
  split at h
  · cases h
    cases hname
  · split at h <;>
    · cases h
      cases hname
  · cases h

theorem Token.lexed_scan (p : Position) (text : List Char) : ∀ t ∈ scan p text, t.Lexed := by
  induction p, text using scan.induct with
  | case1 p =>
    intro t ht
    rw [scan, List.mem_singleton] at ht
    rw [ht]
    intro text hname
    cases hname
  | case2 p c following tail q kind h ih =>
    rw [scan, h]
    exact List.forall_mem_cons.2 ⟨lexed_of_munch _ h, ih⟩
  | case3 p c following tail q h ih =>
    rw [scan, h]
    exact ih

namespace Text

theorem mem_of_mem_trim {text : List Char} {c : Char} (h : c ∈ trim text) : c ∈ text := by
  rw [trim, List.mem_reverse] at h
  exact (List.dropWhile_sublist _).subset (List.mem_reverse.1 ((List.dropWhile_sublist _).subset h))

/-- Without blanks at its ends a text is trimmed. -/
theorem trim_eq_self {text : List Char} (hfirst : ∀ c ∈ text.head?, isBlank c = false)
    (hlast : ∀ c ∈ text.getLast?, isBlank c = false) : trim text = text := by
  have hdrop (text : List Char) (h : ∀ c ∈ text.head?, isBlank c = false) :
      text.dropWhile isBlank = text := by
    cases text with
    | nil => rfl
    | cons c rest => rw [List.dropWhile_cons_of_neg (by simp [h c rfl])]
  rw [trim, hdrop text hfirst, hdrop, List.reverse_reverse]
  rwa [List.head?_reverse]

theorem trim_trim (text : List Char) : trim (trim text) = trim text := by
  have hdrop (text : List Char) : ∀ c ∈ (text.dropWhile isBlank).head?, isBlank c = false := by
    intro c hc
    have := List.head?_dropWhile_not isBlank text
    rw [hc] at this
    simpa using this
  refine trim_eq_self (fun c hc => ?_) fun c hc => ?_
  · rw [trim, List.head?_reverse] at hc
    obtain ⟨front, hfront⟩ : (text.dropWhile isBlank).reverse.dropWhile isBlank <:+
      (text.dropWhile isBlank).reverse := List.dropWhile_suffix _
    have hlast : (text.dropWhile isBlank).reverse.getLast? = some c := by
      rw [← hfront, List.getLast?_append, hc]
      rfl
    rw [List.getLast?_reverse] at hlast
    exact hdrop _ c hlast
  · rw [trim, List.getLast?_reverse] at hc
    exact hdrop _ c hc

end Text

theorem Expr.isVertexText_of_mem_cubeVertices {text vertex : String}
    (h : vertex ∈ cubeVertices text) : IsVertexText vertex := by
  obtain ⟨piece, hpiece, rfl⟩ := List.mem_map.1 h
  obtain ⟨hmem, hempty⟩ := List.mem_filter.1 hpiece
  obtain ⟨cut, hcut, rfl⟩ := List.mem_map.1 hmem
  rw [IsVertexText, String.toList_ofList]
  refine ⟨by simpa using hempty, fun hcolon => ?_, Text.trim_trim cut⟩
  exact Text.not_mem_of_mem_split hcut (Text.mem_of_mem_trim hcolon)

theorem Property.wellFormed_of_has {p : Property Expr} (h : p.Has Expr.WellFormed) :
    Expr.PropertyWellFormed p := by
  cases p with
  | single key value => exact h
  | list key values => exact ⟨h.1, Expr.allWellFormed_iff.2 h.2⟩

theorem AssignedValue.wellFormed_of_has {value : AssignedValue} (h : value.Has Expr.WellFormed) :
    value.WellFormed := by
  have hcoords (coords : Triple) (h : coords.Has Expr.WellFormed) : coords.WellFormed :=
    ⟨h.x, h.y, h.z⟩
  cases value with
  | expr e => exact h
  | triple coords => exact hcoords coords h
  | relative anchor offset => exact fun coords hmem => hcoords coords (h coords hmem)

def Trait.wellFormed : Trait where
  token := Token.Lexed
  span _ := True
  member target name := ¬Stmt.IsPrint target name
  expr := Expr.WellFormed
  stmt := Stmt.WellFormed
  span_of_token _ := trivial
  member_of_token {t target name} hlexed hname hnot := by
    rintro ⟨rfl, rfl⟩
    have hkind := hlexed "print" hname
    have hnone : Keyword.ofText? "print" = none := by decide +kernel
    rw [Token.wordKind, String.ofList_toList, hnone] at hkind
    exact hnot ⟨rfl, Token.ident?_eq_some_iff.2 hkind⟩
  number _ := trivial
  string _ := trivial
  reference _ := trivial
  negation _ he := ⟨trivial, he⟩
  operation _ hleft hright := ⟨hleft, hright⟩
  call _ hargs := Expr.allWellFormed_iff.2 hargs
  cube _ _ := fun _ hvertex => Expr.isVertexText_of_mem_cubeVertices hvertex
  mesh _ hfaces := hfaces
  material _ hall := Expr.propertiesWellFormed_iff.2 fun p hp =>
    Property.wellFormed_of_has (hall p hp)
  modifier _ hall := Expr.propertiesWellFormed_iff.2 fun p hp =>
    Property.wellFormed_of_has (hall p hp)
  group _ := trivial
  imports _ := trivial
  assign _ he := he
  setProperty _ hmember hvalue := ⟨hmember, AssignedValue.wellFormed_of_has hvalue⟩
  callMethod _ hmember hargs := ⟨hmember, hargs⟩
  print _ he := he
  branch {_ _ _ elseBlock} _ hcondition hthen helse := by
    refine ⟨hcondition, Stmt.allWellFormed_iff.2 hthen, ?_⟩
    cases elseBlock with
    | none => trivial
    | some block => exact Stmt.allWellFormed_iff.2 (helse block rfl)
  whileLoop _ hcondition hbody := ⟨hcondition, Stmt.allWellFormed_iff.2 hbody⟩
  forLoop _ hstart hstop hstep hbody := ⟨hstart, hstop, hstep, Stmt.allWellFormed_iff.2 hbody⟩

/-- What is read from a source text is well formed. -/
theorem Program.wellFormed_of_ofSource {source : String} {p : Program}
    (h : ofSource source = .ok p) : p.WellFormed := by
  unfold ofSource ofTokens runReader at h
  split at h
  next p' rest hread =>
    cases h
    obtain ⟨front, hfront, hwell⟩ := yields_read (l := .wellFormed) _ _ _ hread
    refine hwell fun t ht => ?_
    have hbody : t ∈ body (Token.ofSource source) := by
      rw [hfront]
      exact List.mem_append_left _ ht
    exact Token.lexed_scan _ _ t ((List.takeWhile_sublist _).subset hbody)
  next => cases h

end SceneScript
