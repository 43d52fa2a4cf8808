import SceneScript.Proofs.Program.Append

namespace SceneScript
open Reader

/-! ### Traits -/

def Property.Has {α : Type} (P : α → Prop) : Property α → Prop
  | .single _ value => P value
  | .list _ values => 2 ≤ values.length ∧ ∀ value ∈ values, P value

structure Triple.Has (P : Expr → Prop) (coords : Triple) : Prop where
  x : P coords.x
  y : P coords.y
  z : P coords.z

def AssignedValue.Has (P : Expr → Prop) : AssignedValue → Prop
  | expr value => P value
  | triple coords => coords.Has P
  | relative _ offset => ∀ coords ∈ offset, coords.Has P

def MethodArgument.Has (P : Expr → Prop) : MethodArgument → Prop
  | .value argument => P argument
  | .excluded _ => True

/-- Properties of what is read that follow from a property of tokens, form by form. `member` is
about the names of a target and of a member of it that do not make a print together. -/
structure Trait where
  token : Token → Prop
  span : Span → Prop
  member : String → String → Prop
  expr : Expr → Prop
  stmt : Stmt → Prop
  span_of_token {t : Token} : token t → span t.span
  member_of_token {t : Token} {target name : String} : token t → t.name? = some name →
    ¬(target = "console" ∧ t.ident? = some "print") → member target name
  number {s : Span} {x : Float} : span s → expr (.number s x)
  string {s : Span} {text : String} : span s → expr (.string s text)
  reference {s : Span} {name : String} {members : List String} : span s →
    expr (.reference s name members)
  negation {s : Span} {e : Expr} : span s → expr e → expr (.negation s e)
  operation {left right : Expr} (op : BinaryOp) : expr left → expr right →
    expr (left.operation op right)
  call {s : Span} {receiver : Option String} {callee : String} {args : List Expr} : span s →
    (∀ arg ∈ args, expr arg) → expr (.call s receiver callee args)
  cube {s : Span} (text : String) : span s → expr (.cube s (Expr.cubeVertices text))
  mesh {s : Span} {vertices : List Vector3} {faces : List FaceLiteral} : span s →
    (∀ face ∈ faces, 3 ≤ face.indices.length ∧
      ∀ index ∈ face.indices, ∃ x, Expr.index? x = some index) → expr (.mesh s vertices faces)
  material {s : Span} {properties : List (Property Expr)} : span s →
    (∀ p ∈ properties, p.Has expr) → expr (.material s properties)
  modifier {s : Span} {kind : String} {properties : List (Property Expr)} : span s →
    (∀ p ∈ properties, p.Has expr) → expr (.modifier s kind properties)
  group {s : Span} {children : List String} : span s → expr (.group s children)
  imports {declaration : Import} : span declaration.span → stmt (.imports declaration)
  assign {s : Span} {name : String} {confined : Bool} {value : Expr} : span s → expr value →
    stmt (.assign s name confined value)
  setProperty {s : Span} {target property : String} {child : Option String}
    {value : AssignedValue} :
    span s → (child = none → member target property) → value.Has expr →
    stmt (.setProperty s target child property value)
  callMethod {s : Span} {target method : String} {args : List Expr} {excluded : Option String} :
    span s → member target method → (∀ arg ∈ args, expr arg) →
    stmt (.callMethod s target method args excluded)
  print {s : Span} {value : Expr} : span s → expr value → stmt (.print s value)
  branch {s : Span} {condition : Expr} {thenBlock : List Stmt} {elseBlock : Option (List Stmt)} :
    span s → expr condition → (∀ s ∈ thenBlock, stmt s) →
    (∀ block ∈ elseBlock, ∀ s ∈ block, stmt s) → stmt (.branch s condition thenBlock elseBlock)
  whileLoop {s : Span} {condition : Expr} {body : List Stmt} : span s → expr condition →
    (∀ s ∈ body, stmt s) → stmt (.whileLoop s condition body)
  forLoop {s : Span} {counter : String} {start stop : Expr} {step : Option Expr}
    {body : List Stmt} :
    span s → expr start → expr stop → (∀ e ∈ step, expr e) → (∀ s ∈ body, stmt s) →
    stmt (.forLoop s counter start stop step body)

namespace Reader
variable {α β : Type} {T : Token → Prop} {tokens between rest : List Token} {t : Token} {p q : Prop}

def Inherits (T : Token → Prop) (tokens rest : List Token) (p : Prop) : Prop :=
  ∃ front, tokens = front ++ rest ∧ ((∀ t ∈ front, T t) → p)

theorem Inherits.done (h : p) : Inherits T rest rest p := ⟨[], rfl, fun _ => h⟩

theorem Inherits.imp (h : Inherits T tokens rest p) (hpq : p → q) : Inherits T tokens rest q := by
  obtain ⟨front, rfl, hp⟩ := h
  exact ⟨front, rfl, fun hfront => hpq (hp hfront)⟩

theorem Inherits.trans (h : Inherits T tokens between p) (h' : Inherits T between rest (p → q)) :
    Inherits T tokens rest q := by
  obtain ⟨front, rfl, hp⟩ := h
  obtain ⟨middle, rfl, hq⟩ := h'
  refine ⟨front ++ middle, (List.append_assoc ..).symm, fun hall => ?_⟩
  obtain ⟨hfront, hmiddle⟩ := List.forall_mem_append.1 hall
  exact hq hmiddle (hp hfront)

theorem Inherits.cons (h : Inherits T tokens rest (T t → p)) : Inherits T (t :: tokens) rest p := by
  obtain ⟨front, rfl, hp⟩ := h
  exact ⟨t :: front, rfl, fun hall =>
    hp (List.forall_mem_cons.1 hall).2 (List.forall_mem_cons.1 hall).1⟩

theorem Inherits.of_suffix (h : rest <:+ tokens) (hp : p) : Inherits T tokens rest p := by
  obtain ⟨front, rfl⟩ := h
  exact ⟨front, rfl, fun _ => hp⟩

/-- What `x` makes of these tokens has the property if the tokens that it took have theirs. -/
def YieldsAt (T : Token → Prop) (P : α → Prop) (x : Reader α) (tokens : List Token) : Prop :=
  ∀ a rest, x tokens = .ok (a, rest) → Inherits T tokens rest (P a)

def Yields (T : Token → Prop) (P : α → Prop) (x : Reader α) :
    Prop := ∀ tokens, YieldsAt T P x tokens

section Laws
variable {P : α → Prop} {Q : β → Prop} {x : Reader α} {f : α → Reader β}

theorem YieldsAt.get {next : List Token → Reader α} (h : YieldsAt T P (next tokens) tokens) :
    YieldsAt T P (get >>= next) tokens := h

/-- The first token is taken. -/
theorem YieldsAt.set (hx : Yields T (fun a => T t → P a) x) :
    YieldsAt T P (set rest >>= fun _ => x) (t :: rest) :=
  fun _ _ h => .cons (hx _ _ _ h)

theorem Yields.pure {a : α} (h : P a) : Yields T P (pure a : Reader α) := by
  intro tokens _ _ hread
  cases hread
  exact .done h

theorem Yields.bind (hx : Yields T P x) (hf : ∀ a, Yields T (fun b => P a → Q b) (f a)) :
    Yields T Q (x >>= f) := by
  intro tokens b rest h
  obtain ⟨a, between, hread, hnext⟩ := exists_of_bind_eq_ok h
  exact (hx _ _ _ hread).trans (hf a _ _ _ hnext)

theorem Yields.imp {R : α → Prop} (hx : Yields T P x) (h : ∀ a, P a → R a) : Yields T R x :=
  fun tokens a rest hread => (hx tokens a rest hread).imp (h a)

theorem Yields.map {g : α → β} (hx : Yields T P x) (hg : ∀ a, P a → Q (g a)) :
    Yields T Q (g <$> x) := by
  rw [map_eq_pure_bind]
  exact hx.bind fun a => .pure (hg a)

theorem Yields.ite {c : Prop} [Decidable c] {y : Reader α} (hx : Yields T P x) (hy : Yields T P y) :
    Yields T P (if c then x else y) := by
  split
  · exact hx
  · exact hy

/-- Two ways to go on alike. -/
theorem Yields.either {c : Prop} [Decidable c] {y : Reader α} (hx : Yields T P x)
    (hy : Yields T P y) (hf : ∀ a, Yields T (fun b => P a → Q b) (f a)) :
    Yields T Q (if c then x >>= f else y >>= f) :=
  .ite (hx.bind hf) (hy.bind hf)

theorem Yields.of_ne_ok (h : ∀ tokens a rest, x tokens ≠ .ok (a, rest)) : Yields T P x :=
  fun tokens a rest hread => absurd hread (h tokens a rest)

/-- The length of the tokens, which bounds a loop, does not count. -/
theorem Yields.sized {loop : Nat → Reader β} (h : ∀ n, Yields T Q (loop n)) :
    Yields T Q (get >>= fun tokens => loop tokens.length) :=
  fun _ _ _ hread => h _ _ _ _ hread

theorem Yields.peek {next : Option Token → Reader β} (h : ∀ found, Yields T Q (next found)) :
    Yields T Q (peek? >>= next) :=
  fun _ _ _ hread => h _ _ _ _ hread

/-- A reader of which only that it takes tokens off the front is used. -/
theorem Extends.next (hx : Extends true [] x x) (hf : ∀ a, Yields T Q (f a)) :
    Yields T Q (x >>= f) := by
  intro tokens b rest h
  obtain ⟨a, between, hread, hnext⟩ := exists_of_bind_eq_ok h
  exact (Inherits.of_suffix (hx _ _ _ hread).1 trivial).trans
    ((hf a _ _ _ hnext).imp fun hb _ => hb)

/-- A loop of which only that is used, with the length of the tokens as its bound. -/
theorem ExtendsSized.next {loop : Nat → Reader α} (hloop : ExtendsSized true [] loop loop)
    (hf : ∀ a, Yields T Q (f a)) : Yields T Q (get >>= fun tokens => loop tokens.length >>= f) := by
  have hreads := hloop.extends.next hf
  rwa [bind_assoc] at hreads

theorem Extends.yields (hx : Extends true [] x x) (h : ∀ a, P a) : Yields T P x :=
  fun tokens a rest hread => .of_suffix (hx tokens a rest hread).1 (h a)

end Laws

variable {P : α → Prop}

/-- A token that is taken has the property. -/
theorem yields_takeIf (test : Token → Bool) : Yields T (∀ t ∈ ·, T t) (takeIf test) := by
  intro tokens found rest h
  rcases takeIf_eq_ok h with ⟨t, rfl, -, rfl⟩ | ⟨rfl, rfl, -⟩
  · exact .cons (.done fun ht => by simpa using ht)
  · exact .done nofun

theorem yields_repeatWhile (continues : Token → Bool) {step : Reader α} (hstep : Yields T P step)
    (n : Nat) : Yields T (∀ a ∈ ·, P a) (repeatWhile continues step n) := by
  induction n with
  | zero => exact .pure nofun
  | succ n ih =>
    intro tokens as rest h
    rcases repeatWhile_eq_ok h with ⟨rfl, rfl, -⟩ |
      ⟨t, more, a, later, between, rfl, -, hread, hlater, rfl⟩
    · exact .done nofun
    · exact (hstep _ _ _ hread).trans ((ih _ _ _ hlater).imp fun hmore ha =>
        List.forall_mem_cons.2 ⟨ha, hmore⟩)

theorem yields_untilClosed (closing : Symbol) {step : Reader α} (hstep : Yields T P step) :
    Yields T (∀ a ∈ ·, P a) (untilClosed closing step) :=
  .sized (yields_repeatWhile _ hstep)

theorem yields_afterCommas {item : Reader α} (hitem : Yields T P item) (n : Nat) :
    Yields T (∀ a ∈ ·, P a) (afterCommas item n) := by
  induction n with
  | zero => exact .pure nofun
  | succ n ih =>
    intro tokens as rest h
    rcases afterCommas_eq_ok h with ⟨rfl, rfl, -⟩ |
      ⟨comma, more, a, later, between, rfl, -, hread, hlater, rfl⟩
    · exact .done nofun
    · have hall := (hitem _ _ _ hread).trans ((ih _ _ _ hlater).imp fun hmore ha =>
        List.forall_mem_cons.2 ⟨ha, hmore⟩)
      exact .cons (hall.imp fun h _ => h)

theorem yields_moreAfterCommas {item : Reader α} (hitem : Yields T P item) :
    Yields T (∀ a ∈ ·, P a) (moreAfterCommas item) :=
  .sized (yields_afterCommas hitem)

end Reader

/-! ### Expressions -/

section
variable {l : Trait} {value : Reader Expr}

namespace Expr

theorem yields_readCube (span : Span) :
    Yields l.token (fun e => l.span span → l.expr e) (readCube span) := by
  refine (extends_expect _ _).next fun _ => ?_
  intro tokens e rest h
  rw [get_bind_apply] at h
  cases hsplit : splitCube 0 tokens with
  | none =>
    simp only [hsplit] at h
    cases h
  | some parts =>
    obtain ⟨inside, after⟩ := parts
    simp only [hsplit, set_bind_apply, pure_apply] at h
    cases h
    exact .of_suffix (splitCube_append [] hsplit).1 fun hspan => l.cube _ hspan

theorem yields_readIndex (T : Token → Prop) :
    Yields T (fun index => ∃ x, index? x = some index) readIndex := by
  intro tokens index rest h
  obtain ⟨t, x, rfl, -, hx⟩ := readIndex_eq_ok h
  exact .cons (.done fun _ => ⟨x, hx⟩)

abbrev IsFace (face : FaceLiteral) : Prop :=
  3 ≤ face.indices.length ∧ ∀ index ∈ face.indices, ∃ x, index? x = some index

theorem yields_readFace (T : Token → Prop) : Yields T IsFace readFace := by
  refine .peek fun start => (yields_readIndex T).bind fun first => ?_
  refine (yields_moreAfterCommas (yields_readIndex T)).bind fun more => ?_
  dsimp only
  split
  · exact .of_ne_ok fun _ _ _ h => nomatch h
  next hcount =>
    refine (extends_accept (by decide)).next fun _ => ?_
    have hend (material : Option MaterialRef) : Yields T
        (fun face => (∀ index ∈ more, ∃ x, index? x = some index) →
          (∃ x, index? x = some first) → IsFace face) (do
        expectItemEnd "expected ';' after face"
        return (⟨first :: more, material⟩ : FaceLiteral)) :=
      (extends_expectItemEnd _).next fun _ => .pure fun hmore hfirst =>
        ⟨Nat.not_lt.1 hcount, List.forall_mem_cons.2 ⟨hfirst, hmore⟩⟩
    exact .ite ((extends_readMaterialRef.map some).next hend) ((Extends.pure none).next hend)

def MeshSection.HasFaces : MeshSection → Prop
  | .separator => True
  | .vertices _ => True
  | .faces list => ∀ face ∈ list, IsFace face

theorem yields_readMeshSection (T : Token → Prop) :
    Yields T MeshSection.HasFaces readMeshSection := by
  refine (extends_accept_inside _).next fun _ => .ite (.pure trivial) ?_
  refine (extends_accept (by decide)).next fun _ => .ite (.pure trivial) ?_
  refine .peek fun start => (extends_ident _).next fun heading => ?_
  refine (extends_expect _ _).next fun _ => (extends_expect _ _).next fun _ => ?_
  have hclose (part : MeshSection) :
      Yields T (fun closed => part.HasFaces → closed.HasFaces) (do
        expect .rightBracket "expected ']' to close mesh section"
        return part) := (extends_expect _ _).next fun _ => .pure id
  dsimp only
  split
  · refine Yields.bind ?_ hclose
    exact (yields_untilClosed _ (extends_readVertex.yields fun _ => trivial)).map fun _ _ => trivial
  · refine Yields.bind ?_ hclose
    exact (yields_untilClosed _ (yields_readFace T)).map fun _ hfaces => hfaces
  · exact .of_ne_ok fun _ _ _ h => nomatch h

theorem exists_ofSections_eq (span : Span) {sections : List MeshSection}
    (h : ∀ part ∈ sections, MeshSection.HasFaces part) :
    ∃ vertices faces, ofSections span sections = .mesh span vertices faces ∧
      ∀ face ∈ faces, IsFace face := by
  refine ⟨_, _, rfl, ?_⟩
  refine List.foldlRecOn (motive := fun acc : List Vector3 × List FaceLiteral =>
    ∀ face ∈ acc.2, IsFace face) sections _ nofun ?_
  intro acc hacc part hpart
  cases part with
  | separator => exact hacc
  | vertices list => exact hacc
  | faces list => exact h _ hpart

theorem yields_readMesh (span : Span) :
    Yields l.token (fun e => l.span span → l.expr e) (readMesh span) := by
  refine (extends_expect _ _).next fun _ => ?_
  refine (yields_untilClosed _ (yields_readMeshSection _)).bind fun sections => ?_
  refine (extends_expect _ _).next fun _ => .pure fun hsections hspan => ?_
  obtain ⟨vertices, faces, hmesh, hfaces⟩ := exists_ofSections_eq span hsections
  rw [hmesh]
  exact l.mesh hspan hfaces

theorem yields_readGroup (span : Span) :
    Yields l.token (fun e => l.span span → l.expr e) (readGroup span) := by
  refine (extends_expect _ _).next fun _ => ?_
  have hclose (children : List String) : Yields l.token (fun e => l.span span → l.expr e) (do
      expect .rightBracket "expected ']' after group children"
      return .group span children) := (extends_expect _ _).next fun _ => .pure l.group
  have hchildren := extendsSized_readChildren.extends.next hclose
  rw [bind_assoc] at hchildren
  exact hchildren

section
variable (hvalue : Yields l.token l.expr value)
include hvalue

theorem yields_moreValues (accepted : List String) (n : Nat) :
    Yields l.token (∀ e ∈ ·, l.expr e) (moreValues accepted value n) := by
  induction n with
  | zero => exact .pure nofun
  | succ n ih =>
    have hmore : Yields l.token (∀ e ∈ ·, l.expr e) (do
        let first ← value
        return first :: (← moreValues accepted value n)) :=
      hvalue.bind fun first => ih.bind fun more => .pure fun hmore hfirst =>
        List.forall_mem_cons.2 ⟨hfirst, hmore⟩
    intro tokens
    refine .get ?_
    rcases tokens with _ | ⟨comma, others⟩
    · exact Yields.pure nofun _
    · dsimp only
      split
      · exact .set (hmore.imp fun _ hall _ => hall)
      · exact Yields.pure nofun _

omit hvalue in
theorem yields_pairEntry (T : Token → Prop) (span : Option Span) (keys : List String)
    {values : List Expr} (P : Expr → Prop) (hvalues : values ≠ []) :
    Yields T (fun entry => (∀ e ∈ values, P e) → ∀ p ∈ entry, p.Has P)
      (pairEntry span keys values) := by
  unfold pairEntry
  split
  next =>
    refine .pure fun h p hp => ?_
    obtain ⟨i, hi, rfl⟩ := List.mem_iff_getElem.1 hp
    rw [List.getElem_zipWith]
    exact h _ (List.getElem_mem _)
  next hne =>
    split
    next key =>
      refine .pure fun h p hp => ?_
      rw [List.mem_singleton.1 hp]
      have hpos := List.length_pos_iff.2 hvalues
      rw [List.length_singleton] at hne
      exact ⟨by omega, h⟩
    next => exact .of_ne_ok nofun

theorem yields_readEntry (accepted : List String) :
    Yields l.token (∀ p ∈ ·, p.Has l.expr) (readEntry accepted value) := by
  refine (extends_accept (by decide)).next fun _ => .ite (.pure nofun) ?_
  refine (extends_accept_inside _).next fun _ => .ite (.pure nofun) ?_
  refine .peek fun start => (extends_name _).next fun key => ?_
  refine (extends_moreAfterCommas (extends_name _)).next fun keys => ?_
  refine (extends_expect _ _).next fun _ => hvalue.bind fun first => ?_
  have hpaired (more : List Expr) :=
    (yields_pairEntry l.token (start.map (·.span)) (key :: keys) l.expr
    (List.cons_ne_nil first more)).imp fun entry hentry (hmore : ∀ e ∈ more, l.expr e)
      (hfirst : l.expr first) => hentry (List.forall_mem_cons.2 ⟨hfirst, hmore⟩)
  have hentry := fun n => (yields_moreValues hvalue accepted n).bind hpaired
  exact .sized hentry

theorem yields_readProperties (accepted : List String) :
    Yields l.token (∀ p ∈ ·, p.Has l.expr) (readProperties accepted value) := by
  refine (extends_expect _ _).next fun _ => ?_
  refine (yields_untilClosed _ (yields_readEntry hvalue accepted)).bind fun entries => ?_
  refine (extends_expect _ _).next fun _ => .pure fun hentries p hp => ?_
  obtain ⟨entry, hentry, hmem⟩ := List.mem_flatten.1 hp
  exact hentries entry hentry p hmem

theorem yields_readArguments : Yields l.token (∀ arg ∈ ·, l.expr arg) (readArguments value) := by
  have hclose (args : List Expr) : Yields l.token
      (fun closed => (∀ arg ∈ args, l.expr arg) → ∀ arg ∈ closed, l.expr arg) (do
        expect .rightParen "expected ')' after arguments"
        return args) := (extends_expect _ _).next fun _ => .pure id
  refine (extends_nextIs (by decide)).next fun _ => .ite ?_ ?_
  · exact Yields.bind (.pure nofun) hclose
  · refine hvalue.bind fun first => (yields_moreAfterCommas hvalue).bind fun more => ?_
    exact (hclose (first :: more)).imp fun _ hclosed hmore hfirst =>
      hclosed (List.forall_mem_cons.2 ⟨hfirst, hmore⟩)

theorem yields_readReference (span : Span) (head : String) :
    Yields l.token (fun e => l.span span → l.expr e) (readReference value span head) := by
  have hcall (receiver : Option String) (callee : String) :
      Yields l.token (fun e => l.span span → l.expr e) (do
        return .call span receiver callee (← readArguments value)) :=
    (yields_readArguments hvalue).bind fun args => .pure fun hargs hspan => l.call hspan hargs
  refine extendsSized_readMembers.next fun members =>
    (extends_takeIf (.inl rfl)).next fun found => ?_
  cases found with
  | none => exact .pure l.reference
  | some paren =>
    rcases members with _ | ⟨member, _ | ⟨second, more⟩⟩
    · exact hcall none head
    · exact hcall (some head) member
    · exact .of_ne_ok nofun

theorem yields_readConversion (span : Span) (callee : String) :
    Yields l.token (fun e => l.span span → l.expr e) (readConversion value span callee) :=
  (extends_expect _ _).next fun _ => (yields_readArguments hvalue).bind
    fun _ => .pure fun hargs hspan => l.call hspan hargs

theorem yields_readModifier (span : Span) :
    Yields l.token (fun e => l.span span → l.expr e) (readModifier value span) :=
  (extends_expect _ _).next fun _ => (extends_ident _).next fun _ =>
    (yields_readProperties hvalue _).bind fun _ => .pure fun hall hspan => l.modifier hspan hall

theorem yields_readPrimary : Yields l.token l.expr (readPrimary value) := by
  intro tokens
  refine .get ?_
  rcases tokens with _ | ⟨token, others⟩
  · exact nofun
  -- What a token begins is read behind it, and has its place.
  have hplaced {x : Reader Expr} (hx : Yields l.token (fun e => l.span token.span → l.expr e) x) :
      YieldsAt l.token l.expr (set others >>= fun _ => x) (token :: others) :=
    .set (hx.imp fun _ he ht => he (l.span_of_token ht))
  dsimp only
  split
  · exact hplaced (.pure l.number)
  · exact hplaced (.pure l.string)
  · exact hplaced (yields_readReference hvalue _ _)
  · exact .set (hvalue.bind fun _ => (extends_expect _ _).next fun _ => .pure fun he _ => he)
  · exact hplaced (yields_readCube _)
  · exact hplaced (yields_readMesh _)
  · exact hplaced ((yields_readProperties hvalue _).bind fun _ => .pure fun hall hspan =>
      l.material hspan hall)
  · exact hplaced (yields_readModifier hvalue _)
  · exact hplaced (yields_readGroup _)
  · exact hplaced (yields_readConversion hvalue _ _)
  · exact hplaced (yields_readConversion hvalue _ _)
  · exact hplaced (yields_readConversion hvalue _ _)
  · exact hplaced (yields_readConversion hvalue _ _)
  · exact nofun

theorem yields_readUnary : Yields l.token l.expr (readUnary value) := by
  intro tokens e rest h
  rw [readUnary, get_bind_apply, set_bind_apply] at h
  obtain ⟨operand, between, hread, hdone⟩ := exists_of_bind_eq_ok h
  cases hdone
  have hsigns : tokens = tokens.takeWhile (·.is .minus) ++
      tokens.drop (tokens.takeWhile (·.is .minus)).length :=
    (List.prefix_iff_eq_append.1 (List.takeWhile_prefix _)).symm
  have hoperand := yields_readPrimary hvalue _ _ _ hread
  clear hread h
  generalize tokens.drop (tokens.takeWhile (·.is .minus)).length = others at hsigns hoperand
  generalize tokens.takeWhile (·.is .minus) = signs at hsigns
  subst hsigns
  induction signs with
  | nil => exact hoperand
  | cons sign signs ih =>
    exact .cons (ih.imp fun he ht => l.negation (l.span_of_token ht) he)

omit hvalue in
theorem yields_joinOperands (level : Nat) {operand : Reader Expr}
    (hoperand : Yields l.token l.expr operand) (n : Nat) (left : Expr) :
    Yields l.token (fun e => l.expr left → l.expr e) (joinOperands level operand n left) := by
  induction n generalizing left with
  | zero => exact .pure id
  | succ n ih =>
    intro tokens e rest h
    rw [joinOperands] at h
    obtain ⟨found, between, haccept, hnext⟩ := exists_of_bind_eq_ok h
    rcases acceptOperator_eq_ok haccept with ⟨t, op, rfl, rfl, -, -⟩ | ⟨rfl, rfl, -⟩
    · obtain ⟨right, after, hright, hlast⟩ := exists_of_bind_eq_ok hnext
      have hjoined := (hoperand _ _ _ hright).trans ((ih (left.operation op right) _ _ _ hlast).imp
        fun he hr hl => he (l.operation op hl hr))
      exact .cons (hjoined.imp fun he _ => he)
    · cases hnext
      exact .done id

theorem yields_readLevel (level : Nat) : Yields l.token l.expr (readLevel value level) := by
  induction level with
  | zero => exact yields_readUnary hvalue
  | succ level ih =>
    exact ih.bind fun first => .sized fun n => yields_joinOperands _ ih n first

omit hvalue in
theorem yields_readWithin (depth : Nat) : Yields l.token l.expr (readWithin depth) := by
  induction depth with
  | zero => exact .of_ne_ok fun _ _ _ => fail_ne_ok _
  | succ depth ih => exact yields_readLevel ih 4

omit hvalue in
theorem yields_read : Yields l.token l.expr read :=
  fun tokens e rest h => yields_readWithin _ tokens e rest h

end

end Expr

/-! ### Statements -/

theorem Triple.yields_read : Yields l.token (Triple.Has l.expr) read :=
  Expr.yields_read.bind fun _ => (extends_expect _ _).next fun _ =>
    Expr.yields_read.bind fun _ => (extends_expect _ _).next fun _ =>
    Expr.yields_read.bind fun _ => .pure fun hz hy hx => ⟨hx, hy, hz⟩

theorem AssignedValue.yields_read : Yields l.token (AssignedValue.Has l.expr) read := by
  intro tokens value rest h
  rw [read, peek?_bind_apply] at h
  cases hanchor : tokens.head?.bind anchor? with
  | some anchor =>
    rw [hanchor] at h
    obtain ⟨t, others, rfl⟩ : ∃ t others, tokens = t :: others := by
      rcases tokens with _ | ⟨t, others⟩
      · cases hanchor
      · exact ⟨t, others, rfl⟩
    have hoffset : Yields l.token (AssignedValue.Has l.expr) (do
        let joined ← takeIf fun token => token.is .plus || token.is .comma
        let offset ← if joined.isSome then some <$> Triple.read else pure none
        return .relative anchor offset) := by
      refine (extends_takeIf (.inl rfl)).next fun joined => ?_
      refine Yields.either (P := fun offset : Option Triple => ∀ coords ∈ offset,
        coords.Has l.expr) ?_
        (.pure (by simp)) fun offset => .pure id
      exact Triple.yields_read.map fun _ hcoords => by simpa using hcoords
    exact .cons ((hoffset _ _ _ h).imp fun hvalue _ => hvalue)
  | none =>
    rw [hanchor] at h
    have hfirst : Yields l.token (AssignedValue.Has l.expr) (do
        let first ← Expr.read
        if ← accept .comma then
          let second ← Expr.read
          expect .comma "expected ',' between coordinates"
          let third ← Expr.read
          return .triple ⟨first, second, third⟩
        else return .expr first) := by
      refine Expr.yields_read.bind fun first => (extends_accept (by decide)).next fun _ =>
        .ite ?_ (.pure id)
      exact Expr.yields_read.bind fun _ => (extends_expect _ _).next fun _ =>
        Expr.yields_read.bind fun _ => .pure fun hthird hsecond hfirst => ⟨hfirst, hsecond, hthird⟩
    exact hfirst _ _ _ h

theorem MethodArgument.yields_read : Yields l.token (MethodArgument.Has l.expr) read := by
  refine (extends_acceptWord (by decide)).next fun _ => ?_
  refine Yields.either (P := MethodArgument.Has l.expr) ?_ ?_ fun argument =>
    (extends_accept (by decide)).next fun _ => .pure id
  · exact ((extends_ident _).yields fun _ => trivial).map fun _ _ => trivial
  · exact Expr.yields_read.map fun _ he => he

theorem Import.yields_read (T : Token → Prop) (span : Span) :
    Yields T (·.span = span) (read span) := by
  have hend (names : List String) : Yields T (·.span = span) (do
      let source ← readSource
      let boundAs ← if ← acceptWord .aliasing then some <$> ident "expected alias name after 'as'"
        else pure none
      return (⟨span, names, source, boundAs⟩ : Import)) := by
    refine takes_readSource.extends.next fun _ => (extends_acceptWord (by decide)).next fun _ => ?_
    exact .ite (((extends_ident _).map some).next fun _ => .pure rfl)
      ((Extends.pure none).next fun _ => .pure rfl)
  intro tokens
  refine .get ?_
  split
  · exact ((extends_ident _).next fun _ => (extends_moreAfterCommas (extends_ident _)).next fun _ =>
      (extends_expectWord _ _).next fun _ => (Extends.pure _).next hend) tokens
  · exact (Extends.pure []).next hend tokens

namespace Stmt
variable {statement : Reader Stmt}

theorem yields_readConfined (span : Span) :
    Yields l.token (fun s => l.span span → l.stmt s) (readConfined span) :=
  (extends_ident _).next fun _ => (extends_expect _ _).next fun _ =>
    Expr.yields_read.bind fun _ => .pure fun he hspan => l.assign hspan he

theorem yields_readChildProperty (span : Span) (target : String) :
    Yields l.token (fun s => l.span span → l.stmt s) (readChildProperty span target) := by
  refine (extends_ident _).next fun child => (extends_expect _ _).next fun _ => ?_
  refine (extends_expect _ _).next fun _ => (extends_name _).next fun _ => ?_
  refine (extends_expect _ _).next fun _ => AssignedValue.yields_read.bind fun _ => ?_
  exact .pure fun hvalue hspan => l.setProperty hspan nofun hvalue

theorem yields_readMethodCall (span : Span) (target method : String) :
    Yields l.token (fun s => l.member target method → l.span span → l.stmt s)
      (readMethodCall span target method) := by
  refine (yields_untilClosed _ MethodArgument.yields_read).bind fun arguments => ?_
  refine (extends_expect _ _).next fun _ => .pure fun harguments hmember hspan => ?_
  refine l.callMethod hspan hmember fun arg harg => ?_
  obtain ⟨argument, hmem, hvalue⟩ := List.mem_filterMap.1 harg
  cases argument with
  | value e =>
    cases hvalue
    exact harguments _ hmem
  | excluded object => cases hvalue

theorem yields_readPrint (span : Span) :
    Yields l.token (fun s => l.span span → l.stmt s) (readPrint span) :=
  (extends_expect _ _).next fun _ => Expr.yields_read.bind fun _ =>
    (extends_expect _ _).next fun _ => .pure fun he hspan => l.print hspan he

theorem yields_readNamed (span : Span) (target : String) :
    Yields l.token (fun s => l.span span → l.stmt s) (readNamed span target) := by
  intro tokens s rest h
  obtain ⟨t, u, others, rfl⟩ := exists_of_readNamed h
  rw [readNamed, get_bind_apply] at h
  split at h
  next => exact .cons (.cons ((yields_readPrint span _ _ _ h).imp fun hs _ _ => hs))
  next hprint =>
    obtain ⟨found, between, hequal, hnext⟩ := exists_of_bind_eq_ok h
    rcases accept_eq_ok hequal with ⟨equal, heq, -, rfl⟩ | ⟨rfl, rfl, -⟩
    · cases heq
      rw [if_pos rfl] at hnext
      have hassign := Expr.yields_read.bind fun e =>
        Yields.pure (P := fun s => l.expr e → l.span span → l.stmt s)
          (a := assign span target false e)
          fun he hspan => l.assign hspan he
      exact .cons ((hassign _ _ _ hnext).imp fun hs _ => hs)
    rw [if_neg Bool.false_ne_true] at hnext
    obtain ⟨_, after, hexpect, hmember⟩ := exists_of_bind_eq_ok hnext
    obtain ⟨dot, heq, hdot⟩ := expect_eq_ok hexpect
    cases heq
    obtain ⟨found, between, hparen, hlast⟩ := exists_of_bind_eq_ok hmember
    rcases accept_eq_ok hparen with ⟨paren, heq, -, rfl⟩ | ⟨rfl, rfl, -⟩
    · cases heq
      exact .cons (.cons ((yields_readChildProperty span target _ _ _ hlast).imp fun hs _ _ => hs))
    rw [if_neg Bool.false_ne_true] at hlast
    obtain ⟨member, between, hname, hdone⟩ := exists_of_bind_eq_ok hlast
    obtain ⟨_, heq, hu⟩ := name_eq_ok hname
    cases heq
    -- A member `print` of `console` would have made it a print.
    have hnot : ¬(target = "console" ∧ u.ident? = some "print") := by
      rintro ⟨rfl, hident⟩
      exact hprint (by simp [beginsPrint, hdot, hident])
    have hrest : Yields l.token (fun s => l.member target member → l.span span → l.stmt s) (do
        if ← accept .leftParen then readMethodCall span target member
        else
          expect .equal "expected '=' or '(' after member name"
          return .setProperty span target none member (← AssignedValue.read)) := by
      refine (extends_accept (by decide)).next fun _ => .ite (yields_readMethodCall span _ _) ?_
      exact (extends_expect _ _).next fun _ => AssignedValue.yields_read.bind fun _ =>
        .pure fun hvalue hmember hspan => l.setProperty hspan (fun _ => hmember) hvalue
    exact .cons (.cons ((hrest _ _ _ hdone).imp fun hs ht _ => hs (l.member_of_token ht hu hnot)))

section
variable (hstatement : Yields l.token l.stmt statement)
include hstatement

theorem yields_readItem : Yields l.token (∀ s ∈ ·, l.stmt s) (readItem statement) :=
  (extends_accept_inside _).next fun _ =>
    .ite (.pure nofun) (hstatement.map fun _ hs => by simpa using hs)

theorem yields_readBlock : Yields l.token (∀ s ∈ ·, l.stmt s) (readBlock statement) := by
  refine (extends_expect _ _).next fun _ => ?_
  refine (yields_untilClosed _ (yields_readItem hstatement)).bind fun items => ?_
  refine (extends_expect _ _).next fun _ => .pure fun hitems s hs => ?_
  exact hitems _ (List.reduceOption_mem_iff.1 hs) s rfl

theorem yields_readBranch (n : Nat) (span : Span) :
    Yields l.token (fun s => l.span span → l.stmt s) (readBranch statement n span) := by
  induction n generalizing span with
  | zero => exact .of_ne_ok fun _ _ _ => fail_ne_ok _
  | succ n ih =>
    have hblock := yields_readBlock hstatement
    refine Expr.yields_read.bind fun condition => hblock.bind fun thenBlock => ?_
    refine (extends_acceptWord (by decide)).next fun _ => .ite ?_
      (.pure fun hthen hcondition hspan => l.branch hspan hcondition hthen nofun)
    refine (yields_takeIf _).bind fun word => ?_
    cases word with
    | none =>
      exact hblock.bind fun _ => .pure fun helse _ hthen hcondition hspan =>
        l.branch hspan hcondition hthen (by simpa using helse)
    | some word =>
      refine (ih word.span).bind fun alternative => .pure fun hs hword hthen hcondition hspan => ?_
      have halternative := hs (l.span_of_token (hword word rfl))
      exact l.branch hspan hcondition hthen (by simpa using halternative)

theorem yields_readWhile (span : Span) :
    Yields l.token (fun s => l.span span → l.stmt s) (readWhile statement span) :=
  Expr.yields_read.bind fun _ => (yields_readBlock hstatement).bind fun _ =>
    .pure fun hbody hcondition hspan => l.whileLoop hspan hcondition hbody

theorem yields_readFor (span : Span) :
    Yields l.token (fun s => l.span span → l.stmt s) (readFor statement span) := by
  refine (extends_ident _).next fun counter => (extends_expect _ _).next fun _ => ?_
  refine Expr.yields_read.bind fun start => (extends_expectWord _ _).next fun _ => ?_
  refine Expr.yields_read.bind fun stop => (extends_acceptWord (by decide)).next fun _ => ?_
  refine Yields.either (P := (∀ e ∈ ·, l.expr e)) ?_ (.pure nofun) fun step =>
    (yields_readBlock hstatement).bind fun _ => .pure fun hbody hstep hstop hstart hspan =>
      l.forLoop hspan hstart hstop hstep hbody
  exact Expr.yields_read.map fun _ he => by simpa using he

theorem yields_readForm : Yields l.token l.stmt (readForm statement) := by
  intro tokens
  refine .get ?_
  rcases tokens with _ | ⟨token, others⟩
  · exact nofun
  have hplaced {x : Reader Stmt} (hx : Yields l.token (fun s => l.span token.span → l.stmt s) x) :
      YieldsAt l.token l.stmt (set others >>= fun _ => x) (token :: others) :=
    .set (hx.imp fun _ hs ht => hs (l.span_of_token ht))
  dsimp only
  split
  · exact hplaced (yields_readNamed _ _)
  · exact hplaced ((Import.yields_read _ _).bind fun _ => .pure fun hsame hspan =>
      l.imports (by rwa [hsame]))
  · exact hplaced (yields_readConfined _)
  · exact hplaced (yields_readBranch hstatement _ _)
  · exact hplaced (yields_readWhile hstatement _)
  · exact hplaced (yields_readFor hstatement _)
  · exact nofun

end

theorem yields_readWithin (depth : Nat) : Yields l.token l.stmt (readWithin depth) := by
  induction depth with
  | zero => exact .of_ne_ok fun _ _ _ => fail_ne_ok _
  | succ depth ih =>
    exact (yields_readForm ih).bind fun _ => (extends_accept_inside _).next fun _ => .pure id

theorem yields_read : Yields l.token l.stmt read :=
  fun tokens s rest h => yields_readWithin _ tokens s rest h

end Stmt

theorem Program.yields_read : Yields l.token (∀ s ∈ ·.statements, l.stmt s) read :=
  fun tokens => .get (((yields_repeatWhile _ (Stmt.yields_readItem Stmt.yields_read) _).bind
    fun _ => .pure fun hitems s hs => hitems _ (List.reduceOption_mem_iff.1 hs) s rfl) tokens)

end

end SceneScript
