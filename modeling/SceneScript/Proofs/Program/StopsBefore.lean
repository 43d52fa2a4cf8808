import SceneScript.Proofs.Program.ExtendsExpr

namespace SceneScript
open Reader

namespace Reader
variable {α β : Type} {i : Bool} {more rest tokens : List Token}

/-- Where `x` comes to a value, `y` comes to the same value with more behind, and leaves all of
that. -/
def StopsBefore (more : List Token) (x y : Reader α) : Prop :=
  ∀ tokens a rest, x tokens = .ok (a, rest) → y (tokens ++ more) = .ok (a, rest ++ more)

section Laws
variable {x y : Reader α} {f g : α → Reader β}

theorem StopsBefore.pure (a : α) : StopsBefore more (pure a : Reader α) (pure a) := by
  intro tokens _ _ h
  cases h
  rfl

theorem StopsBefore.bind (hx : StopsBefore more x y) (hf : ∀ a, StopsBefore more (f a) (g a)) :
    StopsBefore more (x >>= f) (y >>= g) := by
  intro tokens b rest h
  obtain ⟨a, between, hread, hnext⟩ := exists_of_bind_eq_ok h
  rw [bind_of_ok g (hx _ _ _ hread)]
  exact hf a _ _ _ hnext

theorem StopsBefore.ite {c : Prop} [Decidable c] {x' y' : Reader α} (hx : StopsBefore more x y)
    (hx' : StopsBefore more x' y') :
    StopsBefore more (if c then x else x') (if c then y else y') := by
  split
  · exact hx
  · exact hx'

theorem StopsBefore.of_ne_ok (h : ∀ tokens a rest, x tokens ≠ .ok (a, rest)) :
    StopsBefore more x y :=
  fun tokens a rest hread => absurd hread (h tokens a rest)

/-- A bracket that is closed later on is read the same, whatever is put behind. -/
theorem StopsBefore.closed (hx : Extends true more x y) (hf : ∀ a, StopsBefore more (f a) (g a))
    (hcloses : ∀ a, Closes (f a)) : StopsBefore more (x >>= f) (y >>= g) := by
  intro tokens b rest h
  obtain ⟨a, between, hread, hnext⟩ := exists_of_bind_eq_ok h
  obtain ⟨t, ht, hclosing⟩ := hcloses a _ _ _ hnext
  rw [bind_of_ok g ((hx _ _ _ hread).2 (open_of_closes ht hclosing))]
  exact hf a _ _ _ hnext

theorem Closes.bind (hx : Extends i more x y) (hf : ∀ a, Closes (f a)) : Closes (x >>= f) := by
  intro tokens b rest h
  obtain ⟨a, between, hread, hnext⟩ := exists_of_bind_eq_ok h
  obtain ⟨t, ht, hclosing⟩ := hf a _ _ _ hnext
  exact ⟨t, (hx _ _ _ hread).1.subset ht, hclosing⟩

end Laws

theorem stopsBefore_takeIf {test : Token → Bool} (htest : ∀ t ∈ more.head?, test t = false) :
    StopsBefore more (takeIf test) (takeIf test) := by
  intro tokens found rest h
  rcases takeIf_eq_ok h with ⟨t, rfl, ht, rfl⟩ | ⟨rfl, rfl, hnone⟩
  · exact takeIf_cons_of_pos ht _
  · refine takeIf_of_head? ?_
    cases rest with
    | nil => exact htest
    | cons t others => exact hnone

theorem stopsBefore_expect (sign : Symbol) (wanted : String) :
    StopsBefore more (expect sign wanted) (expect sign wanted) := by
  intro tokens _ rest h
  obtain ⟨t, rfl, ht⟩ := expect_eq_ok h
  exact expect_cons_of_is wanted ht _

theorem stopsBefore_ident (wanted : String) : StopsBefore more (ident wanted) (ident wanted) := by
  intro tokens name rest h
  obtain ⟨t, rfl, ht⟩ := ident_eq_ok h
  exact expectSome_cons wanted ht _

/-- A loop up to a closing sign, with the sign. -/
theorem ExtendsUpTo.stopsBefore {closing : Symbol} {x y : Reader α} {f g : α → Unit → Reader β}
    {wanted : String} (hx : ExtendsUpTo closing more x y)
    (hf : ∀ a u, StopsBefore more (f a u) (g a u)) :
    StopsBefore more (x >>= fun a => Reader.expect closing wanted >>= f a)
      (y >>= fun a => Reader.expect closing wanted >>= g a) := by
  intro tokens b rest h
  obtain ⟨a, between, hread, hnext⟩ := exists_of_bind_eq_ok h
  obtain ⟨u, after, hexpect, hlast⟩ := exists_of_bind_eq_ok hnext
  obtain ⟨t, rfl, ht⟩ := expect_eq_ok hexpect
  rw [bind_of_ok _ ((hx _ _ _ hread).2 ⟨t, rfl, ht⟩), List.cons_append,
    bind_of_ok _ (expect_cons_of_is wanted ht _)]
  exact hf a u _ _ _ hlast

/-- A loop whose bound is no less than the number of tokens stops before more of them with any
larger bound. -/
def StopsSized (more : List Token) (loop loop' : Nat → Reader α) : Prop :=
  ∀ n tokens a rest, tokens.length ≤ n → loop n tokens = .ok (a, rest) → ∀ m, n ≤ m →
    loop' m (tokens ++ more) = .ok (a, rest ++ more)

theorem StopsSized.stopsBefore {loop loop' : Nat → Reader α} (h : StopsSized more loop loop') :
    StopsBefore more (get >>= fun tokens => loop tokens.length)
      (get >>= fun tokens => loop' tokens.length) := by
  intro tokens a rest hread
  rw [get_bind_apply] at hread ⊢
  exact h _ _ _ _ (Nat.le_refl _) hread _ (by simp)

theorem StopsSized.bind {loop loop' : Nat → Reader α} {f g : α → Reader β}
    (h : StopsSized more loop loop') (hf : ∀ a, StopsBefore more (f a) (g a)) :
    StopsBefore more (get >>= fun tokens => loop tokens.length >>= f)
      (get >>= fun tokens => loop' tokens.length >>= g) := by
  simpa only [bind_assoc] using h.stopsBefore.bind hf

end Reader

namespace Expr
variable {more rest tokens : List Token} {n m level : Nat}

section
variable {value value' : Reader Expr} (hvalue : Extends false more value value')
include hvalue

theorem stopsBefore_readProperties (accepted : List String) :
    StopsBefore more (readProperties accepted value) (readProperties accepted value') :=
  (stopsBefore_expect _ _).bind fun _ =>
    (extendsUpTo_untilClosed (by decide) (extends_readEntry hvalue accepted)).stopsBefore
      fun _ _ => .pure _

theorem stopsBefore_readArguments :
    StopsBefore more (readArguments value) (readArguments value') := by
  have hclose (args : List Expr) : StopsBefore more
      (expect .rightParen "expected ')' after arguments" >>= fun _ => pure args)
      (expect .rightParen "expected ')' after arguments" >>= fun _ => pure args) :=
    (stopsBefore_expect _ _).bind fun _ => .pure _
  have hcloses (args : List Expr) : Closes
      (expect .rightParen "expected ')' after arguments" >>= fun _ => pure args) :=
    closes_expect_bind (by decide) _ _
  have hinner (args : List Expr) : Closes (pure args >>= fun args =>
      expect .rightParen "expected ')' after arguments" >>= fun _ => pure args) := hcloses args
  have hafter := extends_moreAfterCommas (i := true) hvalue.weaken
  refine .closed (extends_nextIs_inside _) (fun found => .ite ?_ ?_) fun found => ?_
  · exact (StopsBefore.pure []).bind hclose
  · refine .closed hvalue.weaken (fun first => ?_) fun first => ?_
    · exact .closed hafter (fun others => (StopsBefore.pure _).bind hclose) fun others => hinner _
    · exact .bind hafter fun others => hinner _
  · split
    · exact hinner []
    · exact .bind hvalue fun first => .bind hafter fun others => hinner _

end

theorem stopsBefore_readCube (span : Span) : StopsBefore more (readCube span) (readCube span) := by
  refine (stopsBefore_expect _ _).bind fun _ => ?_
  intro tokens e rest h
  rw [get_bind_apply] at h ⊢
  cases hsplit : splitCube 0 tokens with
  | none =>
    simp only [hsplit] at h
    cases h
  | some parts =>
    obtain ⟨inside, after⟩ := parts
    simp only [hsplit, set_bind_apply, pure_apply] at h
    cases h
    simp only [(splitCube_append more hsplit).2, set_bind_apply, pure_apply]

theorem stopsBefore_readMesh (span : Span) : StopsBefore more (readMesh span) (readMesh span) :=
  (stopsBefore_expect _ _).bind fun _ =>
    (extendsUpTo_untilClosed (by decide) extends_readMeshSection).stopsBefore fun _ _ => .pure _

theorem stopsBefore_readGroup (span : Span) :
    StopsBefore more (readGroup span) (readGroup span) := by
  have hchildren : Extends true more (get >>= fun tokens => readChildren tokens.length)
      (get >>= fun tokens => readChildren tokens.length) := extendsSized_readChildren.extends
  have hclosed := StopsBefore.closed (f := fun children =>
    expect .rightBracket "expected ']' after group children" >>= fun _ =>
      pure (Expr.group span children)) hchildren
    (fun children => (stopsBefore_expect _ _).bind fun _ => .pure _)
    fun children => closes_expect_bind (by decide) _ _
  refine (stopsBefore_expect _ _).bind fun _ => ?_
  simpa only [bind_assoc] using hclosed

theorem stopsSized_readMembers (hmore : EndsBefore 0 more) :
    StopsSized more readMembers readMembers := by
  have hdot (t : Token) (ht : t ∈ more.head?) : t.is .dot = false := (hmore t ht).1
  intro n
  induction n with
  | zero =>
    intro tokens members rest hn h m _
    cases h
    obtain rfl := List.eq_nil_of_length_eq_zero (Nat.le_zero.1 hn)
    exact readMembers_of_head? m hdot
  | succ n ih =>
    intro tokens members rest hn h m hm
    rcases readMembers_eq_ok h with ⟨rfl, rfl, hnone⟩ |
      ⟨dot, t, member, between, later, rfl, hsign, ht, hlater, rfl⟩
    · refine readMembers_of_head? m ?_
      cases rest with
      | nil => exact hdot
      | cons t others => exact hnone
    · obtain ⟨m, rfl⟩ : ∃ k, m = k + 1 := ⟨m - 1, by omega⟩
      exact readMembers_cons hsign ht (ih _ _ _ (by simp at hn; omega) hlater m (by omega))

section
variable {value value' : Reader Expr} (hvalue : Extends false more value value')
  (hmore : EndsBefore 0 more)
include hvalue

theorem stopsBefore_readConversion (span : Span) (callee : String) :
    StopsBefore more (readConversion value span callee) (readConversion value' span callee) :=
  (stopsBefore_expect _ _).bind fun _ => (stopsBefore_readArguments hvalue).bind fun _ => .pure _

theorem stopsBefore_readModifier (span : Span) :
    StopsBefore more (readModifier value span) (readModifier value' span) :=
  (stopsBefore_expect _ _).bind fun _ => (stopsBefore_ident _).bind fun _ =>
    (stopsBefore_readProperties hvalue _).bind fun _ => .pure _

include hmore

theorem stopsBefore_readReference (span : Span) (head : String) :
    StopsBefore more (readReference value span head) (readReference value' span head) := by
  refine (stopsSized_readMembers hmore).bind fun members => ?_
  refine (stopsBefore_takeIf fun t ht => (hmore t ht).2.1).bind fun found => ?_
  cases found with
  | none => exact .pure _
  | some paren =>
    rcases members with _ | ⟨member, _ | ⟨second, others⟩⟩
    · exact (stopsBefore_readArguments hvalue).bind fun _ => .pure _
    · exact (stopsBefore_readArguments hvalue).bind fun _ => .pure _
    · exact .of_ne_ok nofun

theorem stopsBefore_readPrimary : StopsBefore more (readPrimary value) (readPrimary value') := by
  -- By the first token, which decides on the form of the primary.
  intro tokens e rest h
  rw [readPrimary, get_bind_apply] at h
  rcases tokens with _ | ⟨t, others⟩
  · cases h
  rw [readPrimary, get_bind_apply, List.cons_append]
  have hparen : StopsBefore more
      (value >>= fun inner => expect .rightParen "expected ')' after expression" >>=
        fun _ => pure inner)
      (value' >>= fun inner => expect .rightParen "expected ')' after expression" >>= fun _ =>
        pure inner) :=
    .closed hvalue.weaken (fun _ => (stopsBefore_expect _ _).bind fun _ => .pure _)
      fun _ => closes_expect_bind (by decide) _ _
  dsimp only at h ⊢
  cases hkind : t.kind with
  | number x =>
    simp only [hkind, set_bind_apply] at h ⊢
    exact StopsBefore.pure _ _ _ _ h
  | string text =>
    simp only [hkind, set_bind_apply] at h ⊢
    exact StopsBefore.pure _ _ _ _ h
  | ident head =>
    simp only [hkind, set_bind_apply] at h ⊢
    exact stopsBefore_readReference hvalue hmore _ _ _ _ _ h
  | symbol sign =>
    simp only [hkind] at h ⊢
    cases sign with
    | leftParen => exact hparen _ _ _ h
    | _ => cases h
  | keyword word =>
    simp only [hkind] at h ⊢
    cases word with
    | cube => exact stopsBefore_readCube _ _ _ _ h
    | mesh => exact stopsBefore_readMesh _ _ _ _ h
    | material => exact ((stopsBefore_readProperties hvalue _).bind fun _ => .pure _) _ _ _ h
    | modifier => exact stopsBefore_readModifier hvalue _ _ _ _ h
    | group => exact stopsBefore_readGroup _ _ _ _ h
    | int | float | string | bool => exact stopsBefore_readConversion hvalue _ _ _ _ _ h
    | _ => cases h
  | eof =>
    simp only [hkind] at h
    cases h

theorem stopsBefore_readUnary : StopsBefore more (readUnary value) (readUnary value') := by
  intro tokens
  induction tokens with
  | nil =>
    intro e rest h
    rw [readUnary_of_head? (by simp)] at h
    exact absurd h (fail_ne_ok _)
  | cons t others ih =>
    intro e rest h
    rcases readUnary_cases h with ⟨t', others', inner, heq, hminus, rfl, hinner⟩ | ⟨hprimary, hhead⟩
    · cases heq
      exact readUnary_cons_of_minus hminus (ih _ _ hinner)
    · have hminus : ∀ t' ∈ (t :: others ++ more).head?, t'.is .minus = false := by simpa using hhead
      rw [readUnary_of_head? hminus]
      exact stopsBefore_readPrimary hvalue hmore _ _ _ hprimary

end

theorem stopsSized_joinOperands {operand operand' : Reader Expr} (level : Nat) (left : Expr)
    (hsuffix : Extends false more operand operand') (hoperand : StopsBefore more operand operand')
    (hmore : EndsBefore level more) :
    StopsSized more (fun n => joinOperands level operand n left)
      (fun n => joinOperands level operand' n left) := by
  intro n
  induction n generalizing left with
  | zero =>
    intro tokens e rest hn h m _
    cases h
    obtain rfl := List.eq_nil_of_length_eq_zero (Nat.le_zero.1 hn)
    exact joinOperands_of_endsBefore operand' m left hmore
  | succ n ih =>
    intro tokens e rest hn h m hm
    dsimp only at h ⊢
    rw [joinOperands] at h
    obtain ⟨found, between, haccept, hnext⟩ := exists_of_bind_eq_ok h
    rcases acceptOperator_eq_ok haccept with ⟨t, op, rfl, rfl, rfl, hop⟩ | ⟨rfl, rfl, hnone⟩
    · obtain ⟨right, after, hright, hlast⟩ := exists_of_bind_eq_ok hnext
      have hshort := (hsuffix _ _ _ hright).1.length_le
      obtain ⟨m, rfl⟩ : ∃ k, m = k + 1 := ⟨m - 1, by omega⟩
      rw [List.cons_append, joinOperands_succ m left hop (hoperand _ _ _ hright)]
      exact ih _ _ _ _ (by simp at hn; omega) hlast m (by omega)
    · cases hnext
      refine joinOperands_of_head? operand' m left ?_
      cases rest with
      | nil => exact fun t ht op hlevel => (hmore t ht).2.2 op (Nat.le_of_eq hlevel)
      | cons t others => exact hnone

theorem stopsBefore_readLevel {value value' : Reader Expr}
    (hvalue : Extends false more value value') (hmore : EndsBefore level more) :
    StopsBefore more (readLevel value level) (readLevel value' level) := by
  induction level with
  | zero => exact stopsBefore_readUnary hvalue hmore
  | succ level ih =>
    have hoperand := ih (hmore.mono (Nat.le_succ level))
    exact hoperand.bind fun first =>
      (stopsSized_joinOperands (level + 1) first (extends_readLevel hvalue level) hoperand
        hmore).stopsBefore

/-- Tokens that are an expression as a whole are read as that expression, whatever does not go on
with it behind them. -/
theorem reads_of_read {e : Expr} (h : Expr.read tokens = .ok (e, [])) :
    Reads (EndsBefore 4) Expr.read tokens e := by
  intro rest hends
  have hbound : tokens.length ≤ (tokens ++ rest).length := by simp
  exact stopsBefore_readLevel (extends_readWithin hbound) hends _ _ _ h

end Expr
end SceneScript
