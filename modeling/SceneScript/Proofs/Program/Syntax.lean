import SceneScript.Program.Read

namespace SceneScript
open Reader

namespace Reader
variable {α β : Type}

def Syntactic (x : Reader α) : Prop := ∀ tokens d, x tokens = .error d → d.cause.isSyntax = true

section Laws
variable {x : Reader α} {f : α → Reader β}

theorem Syntactic.pure (a : α) : Syntactic (pure a : Reader α) := fun _ _ h => nomatch h

theorem Syntactic.bind (hx : Syntactic x) (hf : ∀ a, Syntactic (f a)) : Syntactic (x >>= f) := by
  intro tokens d h
  cases hread : x tokens with
  | error other =>
    simp only [Bind.bind, StateT.bind, hread, Except.bind, Except.error.injEq] at h
    exact h ▸ hx tokens other hread
  | ok read =>
    simp only [Bind.bind, StateT.bind, hread, Except.bind] at h
    exact hf read.1 read.2 d h

theorem Syntactic.map (g : α → β) (hx : Syntactic x) : Syntactic (g <$> x) := by
  rw [map_eq_pure_bind]
  exact hx.bind fun a => .pure (g a)

theorem Syntactic.ite {c : Prop} [Decidable c] {y : Reader α} (hx : Syntactic x)
    (hy : Syntactic y) : Syntactic (if c then x else y) := by
  split
  · exact hx
  · exact hy

/-- Two ways to go on alike. -/
theorem Syntactic.either {c : Prop} [Decidable c] {y : Reader α} (hx : Syntactic x)
    (hy : Syntactic y) (hf : ∀ a, Syntactic (f a)) :
    Syntactic (if c then x >>= f else y >>= f) := .ite (hx.bind hf) (hy.bind hf)

theorem Syntactic.get : Syntactic (get : Reader (List Token)) := fun _ _ h => nomatch h

theorem Syntactic.set (tokens : List Token) : Syntactic (set tokens : Reader PUnit) :=
  fun _ _ h => nomatch h

theorem Syntactic.modify (g : List Token → List Token) : Syntactic (modify g : Reader PUnit) :=
  fun _ _ h => nomatch h

theorem Syntactic.error {cause : Cause} (hcause : cause.isSyntax = true) (span : Option Span) :
    Syntactic (fun _ => .error ⟨cause, span, none⟩ : Reader α) := by
  intro tokens d h
  cases h
  exact hcause

theorem Syntactic.fail {cause : Cause} (hcause : cause.isSyntax = true) :
    Syntactic (fail cause : Reader α) := by
  intro tokens d h
  cases h
  exact hcause

theorem Syntactic.failAt {cause : Cause} (hcause : cause.isSyntax = true) (span : Span) :
    Syntactic (failAt cause span : Reader α) := .error hcause _

theorem Syntactic.failExpected (wanted : String) : Syntactic (failExpected wanted : Reader α) :=
  fun tokens d h => Syntactic.fail rfl tokens d h

end Laws

theorem syntactic_peek? : Syntactic peek? := fun _ _ h => nomatch h

theorem syntactic_nextIs (sign : Symbol) : Syntactic (nextIs sign) := fun _ _ h => nomatch h

theorem syntactic_takeIf (test : Token → Bool) : Syntactic (takeIf test) := by
  intro tokens d h
  unfold takeIf at h
  split at h
  · split at h <;> cases h
  · cases h

theorem syntactic_accept (sign : Symbol) : Syntactic (accept sign) :=
  (syntactic_takeIf _).bind fun _ => .pure _

theorem syntactic_acceptWord (word : Keyword) : Syntactic (acceptWord word) :=
  (syntactic_takeIf _).bind fun _ => .pure _

theorem syntactic_expect (sign : Symbol) (wanted : String) : Syntactic (expect sign wanted) :=
  (syntactic_accept sign).bind fun _ => .ite (.pure _) (.failExpected wanted)

theorem syntactic_expectWord (word : Keyword) (wanted : String) :
    Syntactic (expectWord word wanted) :=
  (syntactic_acceptWord word).bind fun _ => .ite (.pure _) (.failExpected wanted)

theorem syntactic_expectSome (select : Token → Option α) (wanted : String) :
    Syntactic (expectSome select wanted) := by
  intro tokens d h
  unfold expectSome at h
  split at h
  · split at h
    · cases h
    · exact Syntactic.failExpected wanted _ d h
  · exact Syntactic.failExpected wanted _ d h

theorem syntactic_ident (wanted : String) : Syntactic (ident wanted) :=
  syntactic_expectSome _ wanted

theorem syntactic_name (wanted : String) : Syntactic (name wanted) := syntactic_expectSome _ wanted

theorem syntactic_repeatWhile (continues : Token → Bool) {step : Reader α} (hstep : Syntactic step)
    (n : Nat) : Syntactic (repeatWhile continues step n) := by
  induction n with
  | zero => exact .pure []
  | succ n ih =>
    refine syntactic_peek?.bind fun next => ?_
    cases next with
    | none => exact .pure []
    | some token => exact .ite (hstep.bind fun _ => ih.bind fun _ => .pure _) (.pure [])

theorem syntactic_untilClosed (closing : Symbol) {step : Reader α} (hstep : Syntactic step) :
    Syntactic (untilClosed closing step) :=
  Syntactic.get.bind fun _ => syntactic_repeatWhile _ hstep _

theorem syntactic_afterCommas {item : Reader α} (hitem : Syntactic item) (n : Nat) :
    Syntactic (afterCommas item n) := by
  induction n with
  | zero => exact .pure []
  | succ n ih =>
    exact (syntactic_accept _).bind fun _ =>
      .ite (hitem.bind fun _ => ih.bind fun _ => .pure _) (.pure [])

theorem syntactic_moreAfterCommas {item : Reader α} (hitem : Syntactic item) :
    Syntactic (moreAfterCommas item) := Syntactic.get.bind fun _ => syntactic_afterCommas hitem _

end Reader

/-! ### Expressions -/

namespace Expr
variable {value : Reader Expr} (hvalue : Syntactic value)

theorem syntactic_pairEntry (span : Option Span) (keys : List String) (values : List Expr) :
    Syntactic (pairEntry span keys values) := by
  refine .ite (.pure _) ?_
  split
  · exact .pure _
  · exact .error rfl span

theorem syntactic_readCube (span : Span) : Syntactic (readCube span) := by
  refine (syntactic_expect _ _).bind fun _ => Syntactic.get.bind fun tokens => ?_
  split
  · exact (Syntactic.set _).bind fun _ => .pure _
  · exact (Syntactic.set _).bind fun _ => .failExpected _

theorem syntactic_readSignedNumber : Syntactic readSignedNumber :=
  (syntactic_accept _).bind fun _ => (syntactic_expectSome _ _).bind fun _ => .pure _

theorem syntactic_expectItemEnd (wanted : String) : Syntactic (expectItemEnd wanted) :=
  (syntactic_accept _).bind fun _ => .ite (.pure _)
    ((syntactic_nextIs _).bind fun _ => .ite (.pure _) (.failExpected wanted))

theorem syntactic_readVertex : Syntactic readVertex :=
  syntactic_readSignedNumber.bind fun _ => (syntactic_expect _ _).bind fun _ =>
    syntactic_readSignedNumber.bind fun _ => (syntactic_expect _ _).bind fun _ =>
    syntactic_readSignedNumber.bind fun _ => (syntactic_expectItemEnd _).bind fun _ => .pure _

theorem syntactic_readIndex : Syntactic readIndex := by
  refine syntactic_peek?.bind fun token => ?_
  cases token.bind number? with
  | some value =>
    refine (Syntactic.pure value).bind fun value => ?_
    dsimp only
    cases index? value with
    | some index => exact (Syntactic.modify _).bind fun _ => .pure _
    | none => exact .fail rfl
  | none =>
    refine (Syntactic.failExpected _).bind fun value => ?_
    dsimp only
    cases index? value with
    | some index => exact (Syntactic.modify _).bind fun _ => .pure _
    | none => exact .fail rfl

theorem syntactic_readMaterialRef : Syntactic readMaterialRef :=
  (syntactic_ident _).bind fun _ => (syntactic_accept _).bind fun _ =>
    .ite ((syntactic_name _).bind fun _ => .pure _) (.pure _)

theorem syntactic_readFace : Syntactic readFace := by
  have hrest : ∀ indices : List Nat, Syntactic (do
      let material ← if ← accept .colon then some <$> readMaterialRef else pure none
      expectItemEnd "expected ';' after face"
      return (⟨indices, material⟩ : FaceLiteral)) := fun indices =>
    (syntactic_accept _).bind fun _ =>
      .either (syntactic_readMaterialRef.map _) (.pure none) fun _ =>
        (syntactic_expectItemEnd _).bind fun _ => .pure _
  refine syntactic_peek?.bind fun start => syntactic_readIndex.bind fun first =>
    (syntactic_moreAfterCommas syntactic_readIndex).bind fun more => ?_
  exact .ite ((Syntactic.error rfl _).bind fun _ => hrest _) ((Syntactic.pure _).bind
    fun _ => hrest _)

theorem syntactic_readMeshSection : Syntactic readMeshSection := by
  refine (syntactic_accept _).bind fun _ => .ite (.pure _) ?_
  refine (syntactic_accept _).bind fun _ => .ite (.pure _) ?_
  refine syntactic_peek?.bind fun start => (syntactic_ident _).bind fun heading => ?_
  refine (syntactic_expect _ _).bind fun _ => (syntactic_expect _ _).bind fun _ => ?_
  have hclose : ∀ part : MeshSection, Syntactic (do
      expect .rightBracket "expected ']' to close mesh section"
      return part) := fun _ => (syntactic_expect _ _).bind fun _ => .pure _
  dsimp only
  split
  · exact ((syntactic_untilClosed _ syntactic_readVertex).map _).bind hclose
  · exact ((syntactic_untilClosed _ syntactic_readFace).map _).bind hclose
  · exact (Syntactic.error rfl _).bind hclose

theorem syntactic_readMesh (span : Span) : Syntactic (readMesh span) :=
  (syntactic_expect _ _).bind fun _ => (syntactic_untilClosed _ syntactic_readMeshSection).bind
    fun _ => (syntactic_expect _ _).bind fun _ => .pure _

theorem syntactic_readChildren (n : Nat) : Syntactic (readChildren n) := by
  induction n with
  | zero => exact .pure []
  | succ n ih =>
    refine syntactic_peek?.bind fun next => .ite (.pure []) ?_
    exact (syntactic_ident _).bind fun child => (syntactic_accept _).bind fun _ =>
      .ite (ih.bind fun _ => .pure _) (.pure _)

theorem syntactic_readGroup (span : Span) : Syntactic (readGroup span) :=
  (syntactic_expect _ _).bind fun _ => Syntactic.get.bind fun _ =>
    (syntactic_readChildren _).bind fun _ => (syntactic_expect _ _).bind fun _ => .pure _

theorem syntactic_readMembers (n : Nat) : Syntactic (readMembers n) := by
  induction n with
  | zero => exact .pure []
  | succ n ih =>
    exact (syntactic_accept _).bind fun _ =>
      .ite ((syntactic_name _).bind fun _ => ih.bind fun _ => .pure _) (.pure [])

theorem syntactic_acceptOperator (level : Nat) : Syntactic (acceptOperator level) := by
  intro tokens d h
  unfold acceptOperator at h
  split at h
  · split at h
    · split at h <;> cases h
    · cases h
  · cases h

include hvalue

theorem syntactic_moreValues (accepted : List String) (n : Nat) :
    Syntactic (moreValues accepted value n) := by
  induction n with
  | zero => exact .pure []
  | succ n ih =>
    refine Syntactic.get.bind fun tokens => ?_
    cases tokens with
    | nil => exact .pure []
    | cons comma rest =>
      exact .ite ((Syntactic.set _).bind fun _ => hvalue.bind fun _ => ih.bind fun _ => .pure _)
        (.pure [])

theorem syntactic_readEntry (accepted : List String) : Syntactic (readEntry accepted value) := by
  refine (syntactic_accept _).bind fun _ => .ite (.pure _) ?_
  refine (syntactic_accept _).bind fun _ => .ite (.pure _) ?_
  refine syntactic_peek?.bind fun start => (syntactic_name _).bind fun key => ?_
  refine (syntactic_moreAfterCommas (syntactic_name _)).bind fun keys => ?_
  exact (syntactic_expect _ _).bind fun _ => hvalue.bind fun first => Syntactic.get.bind fun _ =>
    (syntactic_moreValues hvalue accepted _).bind fun _ => syntactic_pairEntry _ _ _

theorem syntactic_readProperties (accepted : List String) :
    Syntactic (readProperties accepted value) :=
  (syntactic_expect _ _).bind fun _ =>
    (syntactic_untilClosed _ (syntactic_readEntry hvalue accepted)).bind fun _ =>
      (syntactic_expect _ _).bind fun _ => .pure _

theorem syntactic_readArguments : Syntactic (readArguments value) := by
  have hclose : ∀ args : List Expr, Syntactic (do
      expect .rightParen "expected ')' after arguments"
      return args) := fun _ => (syntactic_expect _ _).bind fun _ => .pure _
  refine (syntactic_nextIs _).bind fun _ => .ite ((Syntactic.pure []).bind hclose) ?_
  exact hvalue.bind fun _ => (syntactic_moreAfterCommas hvalue).bind fun _ =>
    (Syntactic.pure _).bind hclose

theorem syntactic_readReference (span : Span) (head : String) :
    Syntactic (readReference value span head) := by
  refine Syntactic.get.bind fun _ => (syntactic_readMembers _).bind fun members => ?_
  refine (syntactic_takeIf _).bind fun next => ?_
  cases next with
  | none => exact .pure _
  | some paren =>
    have hargs := syntactic_readArguments hvalue
    rcases members with _ | ⟨member, _ | ⟨second, more⟩⟩
    · exact hargs.bind fun _ => .pure _
    · exact hargs.bind fun _ => .pure _
    · exact .failAt rfl _

theorem syntactic_readConversion (span : Span) (callee : String) :
    Syntactic (readConversion value span callee) :=
  (syntactic_expect _ _).bind fun _ => (syntactic_readArguments hvalue).bind fun _ => .pure _

theorem syntactic_readModifier (span : Span) : Syntactic (readModifier value span) :=
  (syntactic_expect _ _).bind fun _ => (syntactic_ident _).bind fun _ =>
    (syntactic_readProperties hvalue _).bind fun _ => .pure _

theorem syntactic_readPrimary : Syntactic (readPrimary value) := by
  refine Syntactic.get.bind fun tokens => ?_
  cases tokens with
  | nil => exact .fail rfl
  | cons token rest =>
    dsimp only
    split
    · exact (Syntactic.set rest).bind fun _ => .pure _
    · exact (Syntactic.set rest).bind fun _ => .pure _
    · exact (Syntactic.set rest).bind fun _ => syntactic_readReference hvalue _ _
    · exact (Syntactic.set rest).bind fun _ => hvalue.bind fun _ => (syntactic_expect _ _).bind
        fun _ => .pure _
    · exact (Syntactic.set rest).bind fun _ => syntactic_readCube _
    · exact (Syntactic.set rest).bind fun _ => syntactic_readMesh _
    · exact (Syntactic.set rest).bind fun _ => (syntactic_readProperties hvalue _).bind
        fun _ => .pure _
    · exact (Syntactic.set rest).bind fun _ => syntactic_readModifier hvalue _
    · exact (Syntactic.set rest).bind fun _ => syntactic_readGroup _
    · exact (Syntactic.set rest).bind fun _ => syntactic_readConversion hvalue _ _
    · exact (Syntactic.set rest).bind fun _ => syntactic_readConversion hvalue _ _
    · exact (Syntactic.set rest).bind fun _ => syntactic_readConversion hvalue _ _
    · exact (Syntactic.set rest).bind fun _ => syntactic_readConversion hvalue _ _
    · exact .fail rfl

theorem syntactic_readUnary : Syntactic (readUnary value) :=
  Syntactic.get.bind fun _ => (Syntactic.set _).bind fun _ =>
    (syntactic_readPrimary hvalue).bind fun _ => .pure _

omit hvalue in
theorem syntactic_joinOperands (level : Nat) {operand : Reader Expr} (hoperand : Syntactic operand)
    (n : Nat) (left : Expr) : Syntactic (joinOperands level operand n left) := by
  induction n generalizing left with
  | zero => exact .pure left
  | succ n ih =>
    refine (syntactic_acceptOperator level).bind fun found => ?_
    cases found with
    | none => exact .pure left
    | some op => exact hoperand.bind fun right => ih _

theorem syntactic_readLevel (level : Nat) : Syntactic (readLevel value level) := by
  induction level with
  | zero => exact syntactic_readUnary hvalue
  | succ level ih =>
    exact ih.bind fun first => Syntactic.get.bind fun _ => syntactic_joinOperands _ ih _ first

omit hvalue in
theorem syntactic_readWithin (depth : Nat) : Syntactic (readWithin depth) := by
  induction depth with
  | zero => exact .fail rfl
  | succ depth ih => exact syntactic_readLevel ih 4

omit hvalue in
theorem syntactic_read : Syntactic read := fun tokens d h => syntactic_readWithin _ tokens d h

end Expr

/-! ### Statements -/

theorem Import.syntactic_readSegments (n : Nat) : Syntactic (readSegments n) := by
  induction n with
  | zero => exact .pure ""
  | succ n ih =>
    refine (syntactic_takeIf _).bind fun separator => ?_
    cases separator with
    | none => exact .pure ""
    | some token => exact (syntactic_ident _).bind fun _ => ih.bind fun _ => .pure _

theorem Import.syntactic_readSource : Syntactic readSource := by
  refine syntactic_peek?.bind fun next => ?_
  split
  · exact (Syntactic.modify _).bind fun _ => .pure _
  · exact (syntactic_ident _).bind fun _ => Syntactic.get.bind fun _ =>
      (syntactic_readSegments _).bind fun _ => .pure _

theorem Import.syntactic_read (span : Span) : Syntactic (read span) := by
  have hrest : ∀ names : List String, Syntactic (do
      let source ← readSource
      let boundAs ← if ← acceptWord .aliasing then some <$> ident "expected alias name after 'as'"
        else pure none
      return (⟨span, names, source, boundAs⟩ : Import)) := fun names =>
    syntactic_readSource.bind fun _ => (syntactic_acceptWord _).bind fun _ =>
      .either ((syntactic_ident _).map _) (.pure none) fun _ => .pure _
  refine Syntactic.get.bind fun tokens => .ite ?_ ((Syntactic.pure []).bind hrest)
  exact (syntactic_ident _).bind fun _ =>
    (syntactic_moreAfterCommas (syntactic_ident _)).bind fun _ =>
    (syntactic_expectWord _ _).bind fun _ => (Syntactic.pure _).bind hrest

theorem Triple.syntactic_read : Syntactic read :=
  Expr.syntactic_read.bind fun _ => (syntactic_expect _ _).bind fun _ =>
    Expr.syntactic_read.bind fun _ => (syntactic_expect _ _).bind fun _ =>
    Expr.syntactic_read.bind fun _ => .pure _

theorem AssignedValue.syntactic_read : Syntactic read := by
  refine syntactic_peek?.bind fun next => ?_
  split
  · exact (Syntactic.modify _).bind fun _ => (syntactic_takeIf _).bind fun _ =>
      .either (Triple.syntactic_read.map _) (.pure none) fun _ => .pure _
  · exact Expr.syntactic_read.bind fun _ => (syntactic_accept _).bind fun _ =>
      .ite (Expr.syntactic_read.bind fun _ => (syntactic_expect _ _).bind fun _ =>
        Expr.syntactic_read.bind fun _ => .pure _) (.pure _)

theorem MethodArgument.syntactic_read : Syntactic read :=
  (syntactic_acceptWord _).bind fun _ =>
    .either ((syntactic_ident _).map _) (Expr.syntactic_read.map _) fun _ =>
      (syntactic_accept _).bind fun _ => .pure _

namespace Stmt
variable {statement : Reader Stmt} (hstatement : Syntactic statement)

theorem syntactic_readConfined (span : Span) : Syntactic (readConfined span) :=
  (syntactic_ident _).bind fun _ => (syntactic_expect _ _).bind fun _ =>
    Expr.syntactic_read.bind fun _ => .pure _

theorem syntactic_readChildProperty (span : Span) (target : String) :
    Syntactic (readChildProperty span target) :=
  (syntactic_ident _).bind fun _ => (syntactic_expect _ _).bind fun _ =>
    (syntactic_expect _ _).bind fun _ => (syntactic_name _).bind fun _ =>
    (syntactic_expect _ _).bind fun _ => AssignedValue.syntactic_read.bind fun _ => .pure _

theorem syntactic_readMethodCall (span : Span) (target method : String) :
    Syntactic (readMethodCall span target method) :=
  (syntactic_untilClosed _ MethodArgument.syntactic_read).bind fun _ =>
    (syntactic_expect _ _).bind fun _ => .pure _

theorem syntactic_readPrint (span : Span) : Syntactic (readPrint span) :=
  (syntactic_expect _ _).bind fun _ => Expr.syntactic_read.bind fun _ =>
    (syntactic_expect _ _).bind fun _ => .pure _

theorem syntactic_readNamed (span : Span) (target : String) :
    Syntactic (readNamed span target) := by
  have hproperty : ∀ member, Syntactic (do
      expect .equal "expected '=' or '(' after member name"
      return Stmt.setProperty span target none member (← AssignedValue.read)) := fun _ =>
    (syntactic_expect _ _).bind fun _ => AssignedValue.syntactic_read.bind fun _ => .pure _
  refine Syntactic.get.bind fun tokens => .ite ?_ ?_
  · exact (Syntactic.modify _).bind fun _ => syntactic_readPrint span
  refine (syntactic_accept _).bind fun _ => .ite ?_ ?_
  · exact Expr.syntactic_read.bind fun _ => .pure _
  refine (syntactic_expect _ _).bind fun _ => (syntactic_accept _).bind fun _ => .ite ?_ ?_
  · exact syntactic_readChildProperty span target
  · exact (syntactic_name _).bind fun member => (syntactic_accept _).bind fun _ =>
      .ite (syntactic_readMethodCall span target member) (hproperty member)

include hstatement

theorem syntactic_readItem : Syntactic (readItem statement) :=
  (syntactic_accept _).bind fun _ => .ite (.pure none) (hstatement.map some)

theorem syntactic_readBlock : Syntactic (readBlock statement) :=
  (syntactic_expect _ _).bind fun _ =>
    (syntactic_untilClosed _ (syntactic_readItem hstatement)).bind
    fun _ => (syntactic_expect _ _).bind fun _ => .pure _

theorem syntactic_readBranch (n : Nat) (span : Span) : Syntactic (readBranch statement n span) := by
  induction n generalizing span with
  | zero => exact .fail rfl
  | succ n ih =>
    refine Expr.syntactic_read.bind fun condition =>
      (syntactic_readBlock hstatement).bind fun _ => ?_
    refine (syntactic_acceptWord _).bind fun _ => .ite ?_ (.pure _)
    refine (syntactic_takeIf _).bind fun word => ?_
    cases word with
    | none => exact (syntactic_readBlock hstatement).bind fun _ => .pure _
    | some word => exact (ih word.span).bind fun _ => .pure _

theorem syntactic_readWhile (span : Span) : Syntactic (readWhile statement span) :=
  Expr.syntactic_read.bind fun _ => (syntactic_readBlock hstatement).bind fun _ => .pure _

theorem syntactic_readFor (span : Span) : Syntactic (readFor statement span) :=
  (syntactic_ident _).bind fun _ => (syntactic_expect _ _).bind fun _ =>
    Expr.syntactic_read.bind fun _ => (syntactic_expectWord _ _).bind fun _ =>
    Expr.syntactic_read.bind fun _ => (syntactic_acceptWord _).bind fun _ =>
      .either (Expr.syntactic_read.map _) (.pure none) fun _ =>
        (syntactic_readBlock hstatement).bind fun _ => .pure _

theorem syntactic_readForm : Syntactic (readForm statement) := by
  refine Syntactic.get.bind fun tokens => ?_
  cases tokens with
  | nil => exact .fail rfl
  | cons token rest =>
    dsimp only
    split
    · exact (Syntactic.set rest).bind fun _ => syntactic_readNamed _ _
    · exact (Syntactic.set rest).bind fun _ => (Import.syntactic_read _).bind fun _ => .pure _
    · exact (Syntactic.set rest).bind fun _ => syntactic_readConfined _
    · exact (Syntactic.set rest).bind fun _ => syntactic_readBranch hstatement _ _
    · exact (Syntactic.set rest).bind fun _ => syntactic_readWhile hstatement _
    · exact (Syntactic.set rest).bind fun _ => syntactic_readFor hstatement _
    · exact .fail rfl

omit hstatement

theorem syntactic_readWithin (depth : Nat) : Syntactic (readWithin depth) := by
  induction depth with
  | zero => exact .fail rfl
  | succ depth ih =>
    exact (syntactic_readForm ih).bind fun _ => (syntactic_accept _).bind fun _ => .pure _

theorem syntactic_read : Syntactic read := fun tokens d h => syntactic_readWithin _ tokens d h

end Stmt

theorem Program.syntactic_read : Syntactic read :=
  Syntactic.get.bind fun _ =>
    (syntactic_repeatWhile _ (Stmt.syntactic_readItem Stmt.syntactic_read) _).bind fun _ => .pure _

theorem Program.isSyntax_of_ofTokens {tokens : List Token} {d : Diagnostic}
    (h : ofTokens tokens = .error d) : d.cause.isSyntax = true := by
  unfold ofTokens runReader at h
  split at h
  next => cases h
  next d' hread =>
    cases h
    exact syntactic_read _ d' hread

/-- Only its syntax keeps a source from being a program. -/
theorem Program.isSyntax_of_ofSource {source : String} {d : Diagnostic}
    (h : ofSource source = .error d) : d.cause.isSyntax = true := isSyntax_of_ofTokens h

end SceneScript
