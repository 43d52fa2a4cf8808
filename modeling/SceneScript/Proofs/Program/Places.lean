import SceneScript.Proofs.Program.Inherits

namespace SceneScript
open Reader

namespace Expr
variable {P : Span → Prop}

mutual
def Placed (P : Span → Prop) : Expr → Prop
  | .number span _ => P span
  | .string span _ => P span
  | .reference span _ _ => P span
  | .binary span _ left right => P span ∧ left.Placed P ∧ right.Placed P
  | .call span _ _ args => P span ∧ AllPlaced P args
  | .cube span _ => P span
  | .mesh span _ _ => P span
  | .material span properties => P span ∧ PropertiesPlaced P properties
  | .modifier span _ properties => P span ∧ PropertiesPlaced P properties
  | .group span _ => P span
def AllPlaced (P : Span → Prop) : List Expr → Prop
  | [] => True
  | first :: more => first.Placed P ∧ AllPlaced P more
def PropertyPlaced (P : Span → Prop) : Property Expr → Prop
  | .single _ value => value.Placed P
  | .list _ values => AllPlaced P values
def PropertiesPlaced (P : Span → Prop) : List (Property Expr) → Prop
  | [] => True
  | first :: more => PropertyPlaced P first ∧ PropertiesPlaced P more
end

theorem Placed.span {e : Expr} (h : e.Placed P) : P e.span := by
  cases e with
  | binary => exact h.1
  | call => exact h.1
  | material => exact h.1
  | modifier => exact h.1
  | _ => exact h

theorem allPlaced_iff {es : List Expr} : AllPlaced P es ↔ ∀ e ∈ es, e.Placed P := by
  induction es with
  | nil => simp [AllPlaced]
  | cons first more ih => rw [AllPlaced, ih, List.forall_mem_cons]

theorem propertiesPlaced_iff {properties : List (Property Expr)} :
    PropertiesPlaced P properties ↔ ∀ p ∈ properties, PropertyPlaced P p := by
  induction properties with
  | nil => simp [PropertiesPlaced]
  | cons first more ih => rw [PropertiesPlaced, ih, List.forall_mem_cons]

mutual
theorem placed_of_forall (h : ∀ s, P s) : ∀ e : Expr, e.Placed P
  | .number span _ => h span
  | .string span _ => h span
  | .reference span _ _ => h span
  | .binary span _ left right => ⟨h span, left.placed_of_forall h, right.placed_of_forall h⟩
  | .call span _ _ args => ⟨h span, allPlaced_of_forall h args⟩
  | .cube span _ => h span
  | .mesh span _ _ => h span
  | .material span properties => ⟨h span, propertiesPlaced_of_forall h properties⟩
  | .modifier span _ properties => ⟨h span, propertiesPlaced_of_forall h properties⟩
  | .group span _ => h span
theorem allPlaced_of_forall (h : ∀ s, P s) : ∀ es : List Expr, AllPlaced P es
  | [] => trivial
  | first :: more => ⟨first.placed_of_forall h, allPlaced_of_forall h more⟩
theorem propertyPlaced_of_forall (h : ∀ s, P s) :
    ∀ p : Property Expr, PropertyPlaced P p
  | .single _ value => value.placed_of_forall h
  | .list _ values => allPlaced_of_forall h values
theorem propertiesPlaced_of_forall (h : ∀ s, P s) :
    ∀ ps : List (Property Expr), PropertiesPlaced P ps
  | [] => trivial
  | first :: more => ⟨propertyPlaced_of_forall h first, propertiesPlaced_of_forall h more⟩
end

end Expr

theorem Property.placed_of_has {P : Span → Prop} {p : Property Expr} (h : p.Has (Expr.Placed P)) :
    Expr.PropertyPlaced P p := by
  cases p with
  | single key value => exact h
  | list key values => exact Expr.allPlaced_iff.2 h.2

theorem AssignedValue.has_of_forall {Q : Expr → Prop} (h : ∀ e, Q e) (value : AssignedValue) :
    value.Has Q := by
  have hcoords (coords : Triple) : coords.Has Q := ⟨h _, h _, h _⟩
  cases value with
  | expr e => exact h e
  | triple coords => exact hcoords coords
  | relative anchor offset => exact fun coords _ => hcoords coords

namespace Stmt

mutual
def Placed (P : Span → Prop) : Stmt → Prop
  | .imports declaration => P declaration.span
  | .assign span _ _ value => P span ∧ value.Placed P
  | .setProperty span _ _ _ value => P span ∧ value.Has (Expr.Placed P)
  | .callMethod span _ _ args _ => P span ∧ ∀ arg ∈ args, arg.Placed P
  | .print span value => P span ∧ value.Placed P
  | .branch span condition thenBlock elseBlock =>
    P span ∧ condition.Placed P ∧ AllPlaced P thenBlock ∧ ElsePlaced P elseBlock
  | .whileLoop span condition body => P span ∧ condition.Placed P ∧ AllPlaced P body
  | .forLoop span _ start stop step body =>
    P span ∧ start.Placed P ∧ stop.Placed P ∧ (∀ e ∈ step, e.Placed P) ∧ AllPlaced P body
def AllPlaced (P : Span → Prop) : List Stmt → Prop
  | [] => True
  | first :: more => first.Placed P ∧ AllPlaced P more
def ElsePlaced (P : Span → Prop) : Option (List Stmt) → Prop
  | none => True
  | some block => AllPlaced P block
end

variable {P : Span → Prop}

theorem Placed.span {s : Stmt} (h : s.Placed P) : P s.span := by
  cases s with
  | imports => exact h
  | _ => exact h.1

theorem allPlaced_iff {block : List Stmt} : AllPlaced P block ↔ ∀ s ∈ block, s.Placed P := by
  induction block with
  | nil => simp [AllPlaced]
  | cons first more ih => rw [AllPlaced, ih, List.forall_mem_cons]

mutual
theorem placed_of_forall (h : ∀ s, P s) : ∀ s : Stmt, s.Placed P
  | .imports _ => h _
  | .assign span _ _ value => ⟨h span, value.placed_of_forall h⟩
  | .setProperty span _ _ _ _ => ⟨h span, AssignedValue.has_of_forall (Expr.placed_of_forall h) _⟩
  | .callMethod span _ _ _ _ => ⟨h span, fun arg _ => arg.placed_of_forall h⟩
  | .print span value => ⟨h span, value.placed_of_forall h⟩
  | .branch span condition thenBlock elseBlock =>
    ⟨h span, condition.placed_of_forall h, allPlaced_of_forall h thenBlock,
      elsePlaced_of_forall h elseBlock⟩
  | .whileLoop span condition body =>
    ⟨h span, condition.placed_of_forall h, allPlaced_of_forall h body⟩
  | .forLoop span _ start stop _ body =>
    ⟨h span, start.placed_of_forall h, stop.placed_of_forall h, fun e _ => e.placed_of_forall h,
      allPlaced_of_forall h body⟩
theorem allPlaced_of_forall (h : ∀ s, P s) : ∀ block : List Stmt, AllPlaced P block
  | [] => trivial
  | first :: more => ⟨first.placed_of_forall h, allPlaced_of_forall h more⟩
theorem elsePlaced_of_forall (h : ∀ s, P s) :
    ∀ elseBlock : Option (List Stmt), ElsePlaced P elseBlock
  | none => trivial
  | some block => allPlaced_of_forall h block
end

end Stmt

/-- A property of places, as what is read of tokens at such places inherits it. An operation stands
where its operands do. -/
def Trait.places (P : Span → Prop) (hjoin : ∀ a b : Span, P a → P (a.join b)) : Trait where
  token t := P t.span
  span := P
  member _ _ := True
  expr := Expr.Placed P
  stmt := Stmt.Placed P
  span_of_token := id
  member_of_token _ _ _ := trivial
  number hspan := hspan
  string hspan := hspan
  reference hspan := hspan
  negation hspan he := ⟨hspan, hspan, he⟩
  operation _ hleft hright := ⟨hjoin _ _ hleft.span, hleft, hright⟩
  call hspan hargs := ⟨hspan, Expr.allPlaced_iff.2 hargs⟩
  cube _ hspan := hspan
  mesh hspan _ := hspan
  material hspan hall :=
    ⟨hspan, Expr.propertiesPlaced_iff.2 fun p hp => Property.placed_of_has (hall p hp)⟩
  modifier hspan hall :=
    ⟨hspan, Expr.propertiesPlaced_iff.2 fun p hp => Property.placed_of_has (hall p hp)⟩
  group hspan := hspan
  imports hspan := hspan
  assign hspan he := ⟨hspan, he⟩
  setProperty hspan _ hvalue := ⟨hspan, hvalue⟩
  callMethod hspan _ hargs := ⟨hspan, hargs⟩
  print hspan he := ⟨hspan, he⟩
  branch {_ _ _ elseBlock} hspan hcondition hthen helse := by
    refine ⟨hspan, hcondition, Stmt.allPlaced_iff.2 hthen, ?_⟩
    cases elseBlock with
    | none => trivial
    | some block => exact Stmt.allPlaced_iff.2 (helse block rfl)
  whileLoop hspan hcondition hbody := ⟨hspan, hcondition, Stmt.allPlaced_iff.2 hbody⟩
  forLoop hspan hstart hstop hstep hbody :=
    ⟨hspan, hstart, hstop, hstep, Stmt.allPlaced_iff.2 hbody⟩

def Span.BeginsIn (tokens : List Token) (s : Span) : Prop :=
  ∃ t ∈ tokens, t.span.line = s.line ∧ t.span.column = s.column

/-- A statement is placed by the tokens that it was read from, whatever follows them. -/
theorem Stmt.placed_of_read {front rest : List Token} {s : Stmt}
    (h : read (front ++ rest) = .ok (s, rest)) : s.Placed (·.BeginsIn front) := by
  have hjoin (a b : Span) (ha : a.BeginsIn front) : (a.join b).BeginsIn front := ha
  obtain ⟨taken, htaken, hplaced⟩ := yields_read (l := .places _ hjoin) _ _ _ h
  obtain rfl : front = taken := List.append_cancel_right htaken
  exact hplaced fun t ht => ⟨t, ht, rfl, rfl⟩

/-- Tokens cut into the pieces that statements are read from, but for semicolons between them. -/
inductive Program.Cuts : List Token → List (Stmt × List Token) → Prop
  | nil : Cuts [] []
  | semicolon {t : Token} {rest : List Token} {parts : List (Stmt × List Token)} :
    t.is .semicolon = true → Cuts rest parts → Cuts (t :: rest) parts
  | statement {s : Stmt} {front rest : List Token} {parts : List (Stmt × List Token)} :
    Stmt.read (front ++ rest) = .ok (s, rest) → Cuts rest parts →
      Cuts (front ++ rest) ((s, front) :: parts)

namespace Program
variable {tokens : List Token}

theorem Items.exists_cuts {items : List (Option Stmt)} (h : Items tokens items) :
    ∃ parts, Cuts tokens parts ∧ items.reduceOption = parts.map Prod.fst := by
  induction h with
  | nil => exact ⟨[], .nil, rfl⟩
  | @cons tokens rest item items hitem _ ih =>
    obtain ⟨parts, hparts, hstatements⟩ := ih
    obtain ⟨t, others, rfl, hsuffix⟩ := exists_of_readItem hitem
    rcases Stmt.readItem_eq_ok hitem with ⟨sign, heq, hsign, rfl⟩ | ⟨s, rfl, hread, -⟩
    · cases heq
      exact ⟨parts, .semicolon hsign hparts, by rwa [List.reduceOption_cons_of_none]⟩
    · obtain ⟨front, hfront⟩ := hsuffix.trans (List.suffix_cons t others)
      rw [← hfront] at hread ⊢
      refine ⟨(s, front) :: parts, .statement hread hparts, ?_⟩
      rw [List.reduceOption_cons_of_some, hstatements, List.map_cons]

/-- The statements of a program were each read from a piece of its tokens. -/
theorem exists_cuts_of_ofTokens {p : Program} (h : ofTokens tokens = .ok p) :
    ∃ parts, Cuts (body tokens) parts ∧ p.statements = parts.map Prod.fst := by
  unfold ofTokens runReader at h
  split at h
  next p' rest hread =>
    cases h
    obtain ⟨-, items, hitems, rfl⟩ := read_eq_ok_iff.1 hread
    exact hitems.exists_cuts
  next => cases h

/-- Each of them is placed by its piece. -/
theorem Cuts.placed {parts : List (Stmt × List Token)} (h : Cuts tokens parts) :
    ∀ part ∈ parts, part.1.Placed (·.BeginsIn part.2) := by
  induction h with
  | nil => nofun
  | semicolon _ _ ih => exact ih
  | statement hread _ ih => exact List.forall_mem_cons.2 ⟨Stmt.placed_of_read hread, ih⟩

end Program
end SceneScript
