import Mathlib.Data.List.Forall2
import Mathlib.Data.Option.Basic
import SceneScript.Proofs.Program.Reading
import SceneScript.Program.Read

namespace SceneScript
open Reader

theorem eq_of_forall₂ {α : Type} {as bs : List α} (h : List.Forall₂ Eq as bs) : as = bs := by
  rwa [List.forall₂_eq_eq_eq] at h

/-- Properties with alike values under the same keys. -/
inductive Property.Rel {α : Type} (R : α → α → Prop) : Property α → Property α → Prop
  | single {key : String} {a b : α} : R a b → Rel R (.single key a) (.single key b)
  | list {key : String} {as bs : List α} : List.Forall₂ R as bs →
    Rel R (.list key as) (.list key bs)

structure Triple.Rel (R : Expr → Expr → Prop) (a b : Triple) : Prop where
  x : R a.x b.x
  y : R a.y b.y
  z : R a.z b.z

inductive AssignedValue.Rel (R : Expr → Expr → Prop) : AssignedValue → AssignedValue → Prop
  | expr {a b : Expr} : R a b → Rel R (.expr a) (.expr b)
  | triple {a b : Triple} : Triple.Rel R a b → Rel R (.triple a) (.triple b)
  | relative {anchor : String} {a b : Option Triple} : Option.Rel (Triple.Rel R) a b →
      Rel R (.relative anchor a) (.relative anchor b)

/-- Which places are alike, and which expressions and statements: those of one form are if their
parts are. -/
structure Likeness where
  span : Span → Span → Prop
  expr : Expr → Expr → Prop
  stmt : Stmt → Stmt → Prop
  number {s s' : Span} (x : Float) : span s s' → expr (.number s x) (.number s' x)
  string {s s' : Span} (text : String) : span s s' → expr (.string s text) (.string s' text)
  reference {s s' : Span} (name : String) (members : List String) : span s s' →
    expr (.reference s name members) (.reference s' name members)
  negation {s s' : Span} {a b : Expr} : span s s' → expr a b →
    expr (.negation s a) (.negation s' b)
  operation {a b a' b' : Expr} (op : BinaryOp) : expr a a' → expr b b' →
    expr (a.operation op b) (a'.operation op b')
  call {s s' : Span} {args args' : List Expr} (receiver : Option String) (callee : String) :
    span s s' → List.Forall₂ expr args args' →
    expr (.call s receiver callee args) (.call s' receiver callee args')
  cube {s s' : Span} (vertices : List String) : span s s' →
    expr (.cube s vertices) (.cube s' vertices)
  mesh {s s' : Span} (vertices : List Vector3) (faces : List FaceLiteral) : span s s' →
    expr (.mesh s vertices faces) (.mesh s' vertices faces)
  material {s s' : Span} {ps ps' : List (Property Expr)} : span s s' →
    List.Forall₂ (Property.Rel expr) ps ps' → expr (.material s ps) (.material s' ps')
  modifier {s s' : Span} {ps ps' : List (Property Expr)} (kind : String) : span s s' →
    List.Forall₂ (Property.Rel expr) ps ps' → expr (.modifier s kind ps) (.modifier s' kind ps')
  group {s s' : Span} (children : List String) : span s s' →
    expr (.group s children) (.group s' children)
  imports {s s' : Span} (names : List String) (source : String) (boundAs : Option String) :
    span s s' → stmt (.imports ⟨s, names, source, boundAs⟩) (.imports ⟨s', names, source, boundAs⟩)
  assign {s s' : Span} {a b : Expr} (name : String) (confined : Bool) : span s s' → expr a b →
    stmt (.assign s name confined a) (.assign s' name confined b)
  setProperty {s s' : Span} {a b : AssignedValue} (target : String) (child : Option String)
    (property : String) : span s s' → AssignedValue.Rel expr a b →
    stmt (.setProperty s target child property a) (.setProperty s' target child property b)
  callMethod {s s' : Span} {args args' : List Expr} (target method : String)
    (excluded : Option String) : span s s' → List.Forall₂ expr args args' →
    stmt (.callMethod s target method args excluded) (.callMethod s' target method args' excluded)
  print {s s' : Span} {a b : Expr} : span s s' → expr a b → stmt (.print s a) (.print s' b)
  branch {s s' : Span} {c c' : Expr} {block block' : List Stmt}
    {other other' : Option (List Stmt)} :
    span s s' → expr c c' → List.Forall₂ stmt block block' →
    Option.Rel (List.Forall₂ stmt) other other' →
    stmt (.branch s c block other) (.branch s' c' block' other')
  whileLoop {s s' : Span} {c c' : Expr} {body body' : List Stmt} : span s s' → expr c c' →
    List.Forall₂ stmt body body' → stmt (.whileLoop s c body) (.whileLoop s' c' body')
  forLoop {s s' : Span} {a b a' b' : Expr} {step step' : Option Expr} {body body' : List Stmt}
    (counter : String) : span s s' → expr a a' → expr b b' → Option.Rel expr step step' →
    List.Forall₂ stmt body body' →
    stmt (.forLoop s counter a b step body) (.forLoop s' counter a' b' step' body')

structure Likeness.Token (l : Likeness) (t u : SceneScript.Token) : Prop where
  kind_eq : t.kind = u.kind
  lexeme_eq : t.lexeme = u.lexeme
  span : l.span t.span u.span

namespace Likeness.Token
variable {l : Likeness} {t u : SceneScript.Token} (h : l.Token t u)
include h

theorem is_eq (sign : Symbol) : t.is sign = u.is sign := by
  unfold SceneScript.Token.is
  rw [h.kind_eq]

theorem isWord_eq (word : Keyword) : t.isWord word = u.isWord word := by
  unfold SceneScript.Token.isWord
  rw [h.kind_eq]

theorem ident?_eq : t.ident? = u.ident? := by
  unfold SceneScript.Token.ident?
  rw [h.kind_eq]

theorem name?_eq : t.name? = u.name? := by
  unfold SceneScript.Token.name?
  rw [h.kind_eq, h.lexeme_eq]

theorem rawText_eq : t.rawText = u.rawText := by
  unfold SceneScript.Token.rawText
  rw [h.kind_eq, h.lexeme_eq]

end Likeness.Token

namespace Reader
variable {l : Likeness} {α β γ δ : Type} {R : α → β → Prop} {S : γ → δ → Prop}
  {ts us rest rest' : List Token} {n least : Nat}

/-- Two ends of a reading that took `least` tokens at least: alike values and alike tokens left
over, or one cause at alike places. -/
inductive Agree (l : Likeness) (R : α → β → Prop) (least : Nat) (ts : List Token) :
    Except Diagnostic (α × List Token) → Except Diagnostic (β × List Token) → Prop
  | ok {a : α} {b : β} {front rest rest' : List Token} : R a b → ts = front ++ rest →
      least ≤ front.length → List.Forall₂ l.Token rest rest' →
      Agree l R least ts (.ok (a, rest)) (.ok (b, rest'))
  | error {cause : Cause} {s s' : Option Span} : Option.Rel l.span s s' →
      Agree l R least ts (.error ⟨cause, s, none⟩) (.error ⟨cause, s', none⟩)

/-- Readers that agree on any tokens that are alike, if those are less than `n`. -/
def InStep (l : Likeness) (n least : Nat) (R : α → β → Prop) (x : Reader α) (y : Reader β) : Prop :=
  ∀ ts us, List.Forall₂ l.Token ts us → ts.length < n → Agree l R least ts (x ts) (y us)

/-! ### Laws -/

section Laws
variable {x : Reader α} {y : Reader β} {f : α → Reader γ} {g : β → Reader δ}

theorem bind_of_error {d : Diagnostic} (f : α → Reader γ) (h : x ts = .error d) :
    (x >>= f) ts = .error d := by
  simp only [bind, StateT.bind, h, Except.bind]

/-- Nothing was taken. -/
theorem Agree.done {a : α} {b : β} (h : R a b) (hrest : List.Forall₂ l.Token rest rest') :
    Agree l R 0 rest (.ok (a, rest)) (.ok (b, rest')) :=
  .ok h (List.nil_append rest).symm (Nat.zero_le _) hrest

theorem Agree.mono {more : Nat} {r : Except Diagnostic (α × List Token)}
    {r' : Except Diagnostic (β × List Token)} (h : Agree l R more ts r r') (hle : least ≤ more) :
    Agree l R least ts r r' := by
  cases h with
  | ok hR hts hleast hrest => exact .ok hR hts (Nat.le_trans hle hleast) hrest
  | error hspan => exact .error hspan

theorem Agree.weaken {r : Except Diagnostic (α × List Token)}
    {r' : Except Diagnostic (β × List Token)} (h : Agree l R least ts r r') : Agree l R 0 ts r r' :=
  h.mono (Nat.zero_le least)

theorem Agree.imp {S : α → β → Prop} {r : Except Diagnostic (α × List Token)}
    {r' : Except Diagnostic (β × List Token)} (h : Agree l R least ts r r')
    (hRS : ∀ a b, R a b → S a b) : Agree l S least ts r r' := by
  cases h with
  | ok hR hts hleast hrest => exact .ok (hRS _ _ hR) hts hleast hrest
  | error hspan => exact .error hspan

theorem Agree.behind {r : Except Diagnostic (α × List Token)}
    {r' : Except Diagnostic (β × List Token)} (front : List Token) (h : Agree l R least rest r r') :
    Agree l R (front.length + least) (front ++ rest) r r' := by
  cases h with
  | @ok a b taken rest rest' hR hts hleast hrest =>
    subst hts
    exact .ok hR (List.append_assoc ..).symm (by simpa using hleast) hrest
  | error hspan => exact .error hspan

/-- What comes after a reading is read of alike tokens, and of as many less as were taken. -/
theorem Agree.bind {k m : Nat} (hx : Agree l R k ts (x ts) (y us))
    (hf : ∀ a b rest rest', R a b → List.Forall₂ l.Token rest rest' →
      rest.length + k ≤ ts.length → Agree l S m rest (f a rest) (g b rest')) :
    Agree l S (k + m) ts ((x >>= f) ts) ((y >>= g) us) := by
  generalize hr : x ts = r at hx
  generalize hr' : y us = r' at hx
  cases hx with
  | error hspan =>
    rw [bind_of_error f hr, bind_of_error g hr']
    exact .error hspan
  | @ok a b front rest rest' hR hts hleast hrest =>
    subst hts
    rw [bind_of_ok f hr, bind_of_ok g hr']
    have hnext := (hf a b rest rest' hR hrest (by simp; omega)).behind front
    exact hnext.mono (Nat.add_le_add_right hleast m)

theorem InStep.mono {more : Nat} (h : InStep l n more R x y) (hle : least ≤ more) :
    InStep l n least R x y := fun ts us hts hn => (h ts us hts hn).mono hle

theorem InStep.weaken (h : InStep l n least R x y) :
    InStep l n 0 R x y := h.mono (Nat.zero_le least)

theorem InStep.smaller {m : Nat} (h : InStep l n least R x y) (hle : m ≤ n) :
    InStep l m least R x y := fun ts us hts hn => h ts us hts (Nat.lt_of_lt_of_le hn hle)

theorem InStep.imp {S : α → β → Prop} (h : InStep l n least R x y) (hRS : ∀ a b, R a b → S a b) :
    InStep l n least S x y := fun ts us hts hn => (h ts us hts hn).imp hRS

theorem InStep.pure {a : α} {b : β} (h : R a b) :
    InStep l n 0 R (pure a : Reader α) (pure b : Reader β) :=
  fun _ _ hts _ => .done h hts

theorem InStep.bind (hx : InStep l n least R x y)
    (hf : ∀ a b, R a b → InStep l n 0 S (f a) (g b)) :
    InStep l n least S (x >>= f) (y >>= g) := by
  intro ts us hts hn
  exact (hx ts us hts hn).bind fun a b rest rest' hR hrest hle =>
    hf a b hR rest rest' hrest (by omega)

/-- Where both come to the same value. -/
theorem InStep.bind_eq {x y : Reader α} {f : α → Reader γ} {g : α → Reader δ}
    (hx : InStep l n least Eq x y) (hf : ∀ a, InStep l n 0 S (f a) (g a)) :
    InStep l n least S (x >>= f) (y >>= g) :=
  hx.bind fun a _ h => h ▸ hf a

/-- The tokens may be taken by what comes next. -/
theorem InStep.bind_next (hx : InStep l n 0 R x y)
    (hf : ∀ a b, R a b → InStep l n least S (f a) (g b)) :
    InStep l n least S (x >>= f) (y >>= g) := by
  intro ts us hts hn
  have hends := (hx ts us hts hn).bind fun a b rest rest' hR hrest hle =>
    hf a b hR rest rest' hrest (by omega)
  exact hends.mono (by omega)

/-- Behind a token there are less of them. -/
theorem InStep.bind_taken (hx : InStep l (n + 1) 1 R x y)
    (hf : ∀ a b, R a b → InStep l n 0 S (f a) (g b)) :
    InStep l (n + 1) 1 S (x >>= f) (y >>= g) := by
  intro ts us hts hn
  exact (hx ts us hts hn).bind fun a b rest rest' hR hrest hle =>
    hf a b hR rest rest' hrest (by omega)

theorem InStep.map {h : α → γ} {k : β → δ} (hx : InStep l n least R x y)
    (hS : ∀ a b, R a b → S (h a) (k b)) : InStep l n least S (h <$> x) (k <$> y) := by
  rw [map_eq_pure_bind, map_eq_pure_bind]
  exact hx.bind fun a b hR => .pure (hS a b hR)

theorem InStep.map_eq {x y : Reader α} (h : α → γ) (hx : InStep l n least Eq x y) :
    InStep l n least Eq (h <$> x) (h <$> y) := hx.map fun _ _ => congrArg h

theorem InStep.of_forall₂ {x y : Reader (List α)} (h : InStep l n least (List.Forall₂ Eq) x y) :
    InStep l n least Eq x y := h.imp fun _ _ => eq_of_forall₂

theorem InStep.ite {c : Prop} [Decidable c] {x' : Reader α} {y' : Reader β}
    (hx : InStep l n least R x y) (hx' : InStep l n least R x' y') :
    InStep l n least R (if c then x else x') (if c then y else y') := by
  split
  · exact hx
  · exact hx'

/-- Two ways to go on alike. -/
theorem InStep.either {c : Prop} [Decidable c] {x' : Reader α} {y' : Reader β}
    (hx : InStep l n 0 R x y) (hx' : InStep l n 0 R x' y')
    (hf : ∀ a b, R a b → InStep l n 0 S (f a) (g b)) :
    InStep l n 0 S (if c then x >>= f else x' >>= f) (if c then y >>= g else y' >>= g) :=
  .ite (hx.bind hf) (hx'.bind hf)

theorem inStep_drop {x : Reader α} {y : Reader β} (k : Nat) (h : InStep l n 0 R x y) :
    InStep l n 0 R (modify (·.drop k) >>= fun _ => x) (modify (·.drop k) >>= fun _ => y) := by
  intro ts us hts hn
  have hends := (h _ _ (List.forall₂_drop k hts) (by simp; omega)).behind (ts.take k)
  rw [List.take_append_drop] at hends
  exact hends.weaken

end Laws

/-! ### Single tokens -/

theorem head?_rel (h : List.Forall₂ l.Token ts us) : Option.Rel l.Token ts.head? us.head? := by
  cases h with
  | nil => exact .none
  | cons ht _ => exact .some ht

theorem span_rel {found found' : Option Token} (h : Option.Rel l.Token found found') :
    Option.Rel l.span (found.map (·.span)) (found'.map (·.span)) := by
  cases h with
  | none => exact .none
  | some ht => exact .some ht.span

theorem inStep_error (cause : Cause) {s s' : Option Span} (h : Option.Rel l.span s s') :
    InStep l n least R (fun _ => .error ⟨cause, s, none⟩) (fun _ => .error ⟨cause, s', none⟩) :=
  fun _ _ _ _ => .error h

theorem inStep_failAt (cause : Cause) {s s' : Span} (h : l.span s s') :
    InStep l n least R (failAt cause s) (failAt cause s') := inStep_error cause (.some h)

theorem inStep_fail (cause : Cause) : InStep l n least R (fail cause) (fail cause) :=
  fun _ _ hts _ => .error (span_rel (head?_rel hts))

theorem describeNext_eq (h : List.Forall₂ l.Token ts us) : describeNext ts = describeNext us := by
  cases h with
  | nil => rfl
  | cons ht _ => exact congrArg TokenKind.describe ht.kind_eq

theorem inStep_failExpected (wanted : String) :
    InStep l n least R (failExpected wanted) (failExpected wanted) := by
  intro ts us hts hn
  rw [failExpected, failExpected, describeNext_eq hts]
  exact inStep_fail _ ts us hts hn

theorem inStep_peek? : InStep l n 0 (Option.Rel l.Token) peek? peek? :=
  fun _ _ hts _ => .done (head?_rel hts) hts

theorem inStep_nextIs (sign : Symbol) : InStep l n 0 Eq (nextIs sign) (nextIs sign) := by
  intro ts us hts _
  refine .done ?_ hts
  cases hts with
  | nil => rfl
  | cons ht _ => exact ht.is_eq sign

def Respects (l : Likeness) (test : Token → Bool) : Prop := ∀ t u, l.Token t u → test t = test u

theorem takeIf_cases {test : Token → Bool} (htest : Respects l test)
    (h : List.Forall₂ l.Token ts us) :
    (∃ t u more more', ts = t :: more ∧ us = u :: more' ∧ l.Token t u ∧
      List.Forall₂ l.Token more more' ∧ takeIf test ts = .ok (some t, more) ∧
      takeIf test us = .ok (some u, more')) ∨
    (takeIf test ts = .ok (none, ts) ∧ takeIf test us = .ok (none, us)) := by
  cases h with
  | nil => exact .inr ⟨rfl, rfl⟩
  | @cons t u more more' ht hmore =>
    cases htaken : test t with
    | true =>
      exact .inl ⟨t, u, more, more', rfl, rfl, ht, hmore, takeIf_cons_of_pos htaken _,
        takeIf_cons_of_pos (htest t u ht ▸ htaken) _⟩
    | false =>
      exact .inr ⟨takeIf_of_head? (by simpa using htaken),
        takeIf_of_head? (by simpa using htest t u ht ▸ htaken)⟩

/-- Behind a token that was taken there is one less; where none was, there are as many as before. -/
theorem inStep_takeIf_bind {test : Token → Bool} {f : Option Token → Reader γ}
    {g : Option Token → Reader δ} (htest : Respects l test)
    (hsome : ∀ t u, l.Token t u → InStep l (n - 1) 0 S (f (some t)) (g (some u)))
    (hnone : InStep l n least S (f none) (g none)) (hleast : least ≤ 1) :
    InStep l n least S (takeIf test >>= f) (takeIf test >>= g) := by
  intro ts us hts hn
  rcases takeIf_cases htest hts with ⟨t, u, more, more', rfl, rfl, ht, hmore, htake, htake'⟩ |
    ⟨htake, htake'⟩
  · rw [bind_of_ok _ htake, bind_of_ok _ htake']
    have hends := (hsome t u ht more more' hmore (by simp at hn; omega)).behind [t]
    exact hends.mono hleast
  · rw [bind_of_ok _ htake, bind_of_ok _ htake']
    exact hnone ts us hts hn

theorem respects_is (sign : Symbol) : Respects l (·.is sign) := fun _ _ ht => ht.is_eq sign

theorem respects_isWord (word : Keyword) : Respects l (·.isWord word) :=
  fun _ _ ht => ht.isWord_eq word

theorem respects_isNot (sign : Symbol) : Respects l (!·.is sign) :=
  fun _ _ ht => congrArg not (ht.is_eq sign)

theorem respects_isOneOf (sign other : Symbol) :
    Respects l fun token => token.is sign || token.is other :=
  fun _ _ ht => congrArg₂ or (ht.is_eq sign) (ht.is_eq other)

/-- Behind a sign that was accepted, and where there is none. -/
theorem inStep_accept_bind {f : Bool → Reader γ} {g : Bool → Reader δ} (sign : Symbol)
    (htrue : InStep l (n - 1) 0 S (f true) (g true))
      (hfalse : InStep l n least S (f false) (g false))
    (hleast : least ≤ 1) : InStep l n least S (accept sign >>= f) (accept sign >>= g) := by
  rw [accept, bind_assoc, bind_assoc]
  exact inStep_takeIf_bind (respects_is sign) (fun _ _ _ => htrue) hfalse hleast

theorem inStep_acceptWord_bind {f : Bool → Reader γ} {g : Bool → Reader δ} (word : Keyword)
    (htrue : InStep l (n - 1) 0 S (f true) (g true))
      (hfalse : InStep l n least S (f false) (g false))
    (hleast : least ≤ 1) : InStep l n least S (acceptWord word >>= f) (acceptWord word >>= g) := by
  rw [acceptWord, bind_assoc, bind_assoc]
  exact inStep_takeIf_bind (respects_isWord word) (fun _ _ _ => htrue) hfalse hleast

theorem inStep_takeIf {test : Token → Bool} (htest : Respects l test) :
    InStep l n 0 (Option.Rel l.Token) (takeIf test) (takeIf test) := by
  rw [← bind_pure (takeIf test)]
  exact inStep_takeIf_bind htest (fun _ _ ht => .pure (.some ht)) (.pure .none) (Nat.zero_le 1)

theorem isSome_eq {found found' : Option Token} (h : Option.Rel l.Token found found') :
    found.isSome = found'.isSome := by
  cases h <;> rfl

theorem inStep_accept (sign : Symbol) : InStep l n 0 Eq (accept sign) (accept sign) :=
  (inStep_takeIf (respects_is sign)).bind fun _ _ h => .pure (isSome_eq h)

theorem inStep_acceptWord (word : Keyword) : InStep l n 0 Eq (acceptWord word) (acceptWord word) :=
  (inStep_takeIf (respects_isWord word)).bind fun _ _ h => .pure (isSome_eq h)

theorem inStep_expect (sign : Symbol) (wanted : String) :
    InStep l n 1 Eq (expect sign wanted) (expect sign wanted) :=
  inStep_accept_bind sign (.pure rfl) (inStep_failExpected wanted) (Nat.le_refl 1)

theorem inStep_expectWord (word : Keyword) (wanted : String) :
    InStep l n 1 Eq (expectWord word wanted) (expectWord word wanted) :=
  inStep_acceptWord_bind word (.pure rfl) (inStep_failExpected wanted) (Nat.le_refl 1)

theorem inStep_expectSome {select : Token → Option α}
    (hselect : ∀ t u, l.Token t u → select t = select u) (wanted : String) :
    InStep l n 1 Eq (expectSome select wanted) (expectSome select wanted) := by
  intro ts us hts hn
  have hfail : Agree l (@Eq α) 1 ts (failExpected wanted ts) (failExpected wanted us) :=
    inStep_failExpected wanted ts us hts hn
  cases hts with
  | nil => exact hfail
  | @cons t u more more' ht hmore =>
    unfold expectSome
    dsimp only
    rw [← hselect t u ht]
    cases select t with
    | none => exact hfail
    | some a => exact (Agree.done rfl hmore).behind [t]

theorem inStep_ident (wanted : String) : InStep l n 1 Eq (ident wanted) (ident wanted) :=
  inStep_expectSome (fun _ _ ht => ht.ident?_eq) wanted

theorem inStep_name (wanted : String) : InStep l n 1 Eq (name wanted) (name wanted) :=
  inStep_expectSome (fun _ _ ht => ht.name?_eq) wanted

/-! ### Loops -/

/-- Loops that agree whatever their bounds, if those are no less than the number of tokens. -/
def LoopsInStep (l : Likeness) (n : Nat) (R : α → β → Prop) (loop : Nat → Reader α)
    (loop' : Nat → Reader β) : Prop :=
  ∀ m m' ts us, List.Forall₂ l.Token ts us → ts.length < n → ts.length ≤ m → ts.length ≤ m' →
    Agree l R 0 ts (loop m ts) (loop' m' us)

section Loops
variable {loop : Nat → Reader α} {loop' : Nat → Reader β} {f : α → Reader γ} {g : β → Reader δ}
  {item : Reader α} {item' : Reader β}

theorem LoopsInStep.inStep (h : LoopsInStep l n R loop loop') :
    InStep l n 0 R (get >>= fun tokens => loop tokens.length)
      (get >>= fun tokens => loop' tokens.length) :=
  fun ts us hts hn => h _ _ ts us hts hn (Nat.le_refl _) (Nat.le_of_eq hts.length_eq)

theorem LoopsInStep.bind (h : LoopsInStep l n R loop loop')
    (hf : ∀ a b, R a b → InStep l n 0 S (f a) (g b)) :
    InStep l n 0 S (get >>= fun tokens => loop tokens.length >>= f)
      (get >>= fun tokens => loop' tokens.length >>= g) := by
  simpa only [bind_assoc] using h.inStep.bind hf

theorem LoopsInStep.bind_eq {loop loop' : Nat → Reader α} {g : α → Reader δ}
    (h : LoopsInStep l n Eq loop loop') (hf : ∀ a, InStep l n 0 S (f a) (g a)) :
    InStep l n 0 S (get >>= fun tokens => loop tokens.length >>= f)
      (get >>= fun tokens => loop' tokens.length >>= g) :=
  h.bind fun a _ heq => heq ▸ hf a

/-- Loops that begin with alike values go on with one round less, and with a token less at least. -/
theorem LoopsInStep.of_steps {σ τ : Type} {p : σ → Nat → Reader α} {q : τ → Nat → Reader β}
    {P : σ → τ → Prop}
    (hnil : ∀ a b m m', P a b → Agree l R 0 [] (p a m []) (q b m' []))
    (hstep : ∀ k m m', k + 1 ≤ n → (∀ a b, P a b → InStep l k 0 R (p a m) (q b m')) →
      ∀ a b, P a b → InStep l (k + 1) 0 R (p a (m + 1)) (q b (m' + 1)))
    {a : σ} {b : τ} (h : P a b) : LoopsInStep l n R (p a) (q b) := by
  have hall (k : Nat) (hk : k ≤ n) (m m' : Nat) (hm : k ≤ m + 1) (hm' : k ≤ m' + 1) (a : σ) (b : τ)
      (h : P a b) : InStep l k 0 R (p a m) (q b m') := by
    induction k generalizing m m' a b with
    | zero => exact fun ts us _ hn => absurd hn (Nat.not_lt_zero _)
    | succ k ih =>
      intro ts us hts hn
      cases hts with
      | nil => exact hnil a b m m' h
      | @cons t u more more' ht hmore =>
        simp only [List.length_cons] at hn
        obtain ⟨m, rfl⟩ : ∃ i, m = i + 1 := ⟨m - 1, by omega⟩
        obtain ⟨m', rfl⟩ : ∃ i, m' = i + 1 := ⟨m' - 1, by omega⟩
        have hless := ih (by omega) m m' (by omega) (by omega)
        exact hstep k m m' hk hless a b h _ _ (.cons ht hmore) (by simpa using hn)
  intro m m' ts us hts hn hm hm'
  exact hall (ts.length + 1) hn m m' (by omega) (by omega) a b h ts us hts (Nat.lt_succ_self _)

theorem LoopsInStep.of_step (hnil : ∀ m m', Agree l R 0 [] (loop m []) (loop' m' []))
    (hstep : ∀ k m m', k + 1 ≤ n → InStep l k 0 R (loop m) (loop' m') →
      InStep l (k + 1) 0 R (loop (m + 1)) (loop' (m' + 1))) : LoopsInStep l n R loop loop' :=
  .of_steps (a := ()) (b := ()) (fun _ _ m m' _ => hnil m m')
    (fun k m m' hk hless _ _ _ => hstep k m m' hk (hless () () rfl)) (rfl : () = ())

theorem loopsInStep_afterCommas (hitem : InStep l n 0 R item item') :
    LoopsInStep l n (List.Forall₂ R) (afterCommas item) (afterCommas item') := by
  refine .of_step (fun m m' => ?_) fun k m m' hk hless => ?_
  · rw [afterCommas_of_head? item m (by simp), afterCommas_of_head? item' m' (by simp)]
    exact .done .nil .nil
  · refine inStep_accept_bind _ ?_ (.pure .nil) (Nat.zero_le 1)
    have hfirst : InStep l k 0 R item item' := hitem.smaller (by omega)
    exact hfirst.bind fun a b hR => hless.bind fun as bs hRs => .pure (.cons hR hRs)

theorem inStep_moreAfterCommas (hitem : InStep l n 0 R item item') :
    InStep l n 0 (List.Forall₂ R) (moreAfterCommas item) (moreAfterCommas item') :=
  (loopsInStep_afterCommas hitem).inStep

/-- A loop whose rounds take a token each. -/
theorem loopsInStep_repeatWhile {continues : Token → Bool} (hcontinues : Respects l continues)
    (hitem : InStep l n 1 R item item') :
    LoopsInStep l n (List.Forall₂ R) (repeatWhile continues item)
      (repeatWhile continues item') := by
  refine .of_step (fun m m' => ?_) fun k m m' hk hless ts us hts hn => ?_
  · rw [repeatWhile_nil, repeatWhile_nil]
    exact .done .nil .nil
  · have hround := ((hitem.smaller hk).bind_taken fun a b hR =>
      hless.bind fun as bs hRs => .pure (List.Forall₂.cons hR hRs)).weaken ts us hts hn
    rw [repeatWhile, repeatWhile, peek?_bind_apply, peek?_bind_apply]
    cases hts with
    | nil => exact .done .nil .nil
    | @cons t u more more' ht hmore =>
      dsimp only [List.head?_cons]
      rw [← hcontinues t u ht]
      split
      · exact hround
      · exact .done .nil (.cons ht hmore)

theorem inStep_untilClosed (closing : Symbol) (hitem : InStep l n 1 R item item') :
    InStep l n 0 (List.Forall₂ R) (untilClosed closing item) (untilClosed closing item') :=
  (loopsInStep_repeatWhile (respects_isNot _) hitem).inStep

end Loops

end Reader
end SceneScript
