import SceneScript.Proofs.Program.InStep
import SceneScript.Proofs.Program.Levels

namespace SceneScript.Expr
open Reader

variable {l : Likeness} {ts us : List Token} {n : Nat}

/-! ### Property blocks -/

theorem entryNames?_eq (h : List.Forall₂ l.Token ts us) : entryNames? ts = entryNames? us := by
  induction ts using entryNames?.induct generalizing us with
  | case1 first next rest name hname hequal =>
    obtain ⟨first', _, hfirst, hmore, rfl⟩ := List.forall₂_cons_left_iff.1 h
    obtain ⟨next', _, hnext, -, rfl⟩ := List.forall₂_cons_left_iff.1 hmore
    simp only [entryNames?, ← hfirst.name?_eq, ← hnext.is_eq, hname, hequal, if_true]
  | case2 first next rest name hname hequal hcomma ih =>
    obtain ⟨first', _, hfirst, hmore, rfl⟩ := List.forall₂_cons_left_iff.1 h
    obtain ⟨next', _, hnext, hrest, rfl⟩ := List.forall₂_cons_left_iff.1 hmore
    simp only [entryNames?, ← hfirst.name?_eq, ← hnext.is_eq, hname, ih hrest]
  | case3 first next rest name hname hequal hcomma =>
    obtain ⟨first', _, hfirst, hmore, rfl⟩ := List.forall₂_cons_left_iff.1 h
    obtain ⟨next', _, hnext, -, rfl⟩ := List.forall₂_cons_left_iff.1 hmore
    simp only [entryNames?, ← hfirst.name?_eq, ← hnext.is_eq, hname, hequal, hcomma, if_false,
      Bool.false_eq_true]
  | case4 first next rest hname =>
    obtain ⟨first', _, hfirst, hmore, rfl⟩ := List.forall₂_cons_left_iff.1 h
    obtain ⟨next', _, -, -, rfl⟩ := List.forall₂_cons_left_iff.1 hmore
    simp only [entryNames?, ← hfirst.name?_eq, hname]
  | case5 tokens hshort =>
    cases h with
    | nil => rfl
    | cons hfirst hmore =>
      cases hmore with
      | nil => rfl
      | cons => exact absurd rfl (hshort _ _ _)

theorem beginsEntry_eq (accepted : List String) (h : List.Forall₂ l.Token ts us) :
    beginsEntry accepted ts = beginsEntry accepted us := by
  rw [beginsEntry, beginsEntry, entryNames?_eq h]

theorem inStep_pairEntry {s s' : Option Span} (keys : List String) {values values' : List Expr}
    (hspan : Option.Rel l.span s s') (hvalues : List.Forall₂ l.expr values values') :
    InStep l n 0 (List.Forall₂ (Property.Rel l.expr)) (pairEntry s keys values)
      (pairEntry s' keys values') := by
  unfold pairEntry
  rw [hvalues.length_eq]
  refine .ite (.pure ?_) ?_
  · induction hvalues generalizing keys with
    | nil => cases keys <;> exact .nil
    | cons hvalue _ ih =>
      cases keys with
      | nil => exact .nil
      | cons key keys => exact .cons (.single hvalue) (ih keys)
  · split
    · exact .pure (.cons (.list hvalues) .nil)
    · exact inStep_error _ hspan

section
variable {value value' : Reader Expr} (hvalue : InStep l n 0 l.expr value value')
include hvalue

theorem loopsInStep_moreValues (accepted : List String) :
    LoopsInStep l n (List.Forall₂ l.expr) (moreValues accepted value)
      (moreValues accepted value') := by
  refine .of_step (fun m m' => ?_) fun k m m' hk hless ts us hts hn => ?_
  · cases m <;> cases m' <;> exact .done .nil .nil
  · rw [moreValues, moreValues, get_bind_apply, get_bind_apply]
    cases hts with
    | nil => exact .done .nil .nil
    | @cons comma comma' more more' ht hmore =>
      dsimp only
      rw [← ht.is_eq, ← beginsEntry_eq accepted hmore]
      split
      · have hfirst : InStep l k 0 l.expr value value' := hvalue.smaller (by omega)
        have hends := (hfirst.bind fun a b hR => hless.bind fun as bs hRs =>
          .pure (List.Forall₂.cons hR hRs)) more more' hmore (by simpa using hn)
        exact (hends.behind [comma]).weaken
      · exact .done .nil (.cons ht hmore)

theorem inStep_readEntry (accepted : List String) :
    InStep l n 1 (List.Forall₂ (Property.Rel l.expr)) (readEntry accepted value)
      (readEntry accepted value') := by
  refine inStep_accept_bind _ (.pure .nil) ?_ (Nat.le_refl 1)
  refine inStep_accept_bind _ (.pure .nil) ?_ (Nat.le_refl 1)
  refine inStep_peek?.bind_next fun start start' hstart => (inStep_name _).bind_eq fun key => ?_
  refine (inStep_moreAfterCommas (inStep_name _).weaken).of_forall₂.bind_eq fun keys => ?_
  refine (inStep_expect _ _).weaken.bind_eq fun _ => ?_
  refine hvalue.bind fun first first' hfirst => ?_
  refine (loopsInStep_moreValues hvalue accepted).bind fun more more' hmore => ?_
  exact inStep_pairEntry _ (span_rel hstart) (.cons hfirst hmore)

theorem inStep_readProperties (accepted : List String) :
    InStep l n 0 (List.Forall₂ (Property.Rel l.expr)) (readProperties accepted value)
      (readProperties accepted value') := by
  refine (inStep_expect _ _).weaken.bind_eq fun _ => ?_
  refine (inStep_untilClosed _ (inStep_readEntry hvalue accepted)).bind fun es es' hes => ?_
  exact (inStep_expect _ _).weaken.bind_eq fun _ => .pure (List.rel_flatten hes)

end

/-! ### Geometry -/

theorem splitCube_cases (depth : Nat) (h : List.Forall₂ l.Token ts us) :
    (∃ front inside inside' after after', splitCube depth ts = some (inside, after) ∧
      splitCube depth us = some (inside', after') ∧ ts = front ++ after ∧
      List.Forall₂ l.Token inside inside' ∧ List.Forall₂ l.Token after after') ∨
    (splitCube depth ts = none ∧ splitCube depth us = none) := by
  induction h generalizing depth with
  | nil => exact .inr ⟨rfl, rfl⟩
  | @cons t u more more' ht hmore ih =>
    have hgo (d : Nat) (f g : List Token × List Token → List Token × List Token)
        (hf : ∀ inside after, f (inside, after) = (t :: inside, after))
        (hg : ∀ inside after, g (inside, after) = (u :: inside, after)) :
        (∃ front inside inside' after after', (splitCube d more).map f = some (inside, after) ∧
          (splitCube d more').map g = some (inside', after') ∧ t :: more = front ++ after ∧
          List.Forall₂ l.Token inside inside' ∧ List.Forall₂ l.Token after after') ∨
        ((splitCube d more).map f = none ∧ (splitCube d more').map g = none) := by
      rcases ih d with ⟨front, inside, inside', after, after', hx, hy, rfl, hin, hafter⟩ | ⟨hx, hy⟩
      · exact .inl ⟨t :: front, t :: inside, u :: inside', after, after',
          by rw [hx, Option.map_some, hf], by rw [hy, Option.map_some, hg], rfl,
            .cons ht hin, hafter⟩
      · exact .inr ⟨by rw [hx, Option.map_none], by rw [hy, Option.map_none]⟩
    unfold splitCube
    rw [← ht.is_eq, ← ht.is_eq]
    split
    · cases depth with
      | zero => exact .inl ⟨[t], [], [], more, more', rfl, rfl, rfl, .nil, hmore⟩
      | succ depth => exact hgo depth _ _ (fun _ _ => rfl) fun _ _ => rfl
    · exact hgo _ _ _ (fun _ _ => rfl) fun _ _ => rfl

theorem rawTexts_eq (h : List.Forall₂ l.Token ts us) :
    ts.map Token.rawText = us.map Token.rawText := by
  induction h with
  | nil => rfl
  | cons ht _ ih => rw [List.map_cons, List.map_cons, ht.rawText_eq, ih]

theorem inStep_readCube {s s' : Span} (hspan : l.span s s') :
    InStep l n 0 l.expr (readCube s) (readCube s') := by
  refine (inStep_expect _ _).weaken.bind_eq fun _ => ?_
  intro ts us hts hn
  rw [get_bind_apply, get_bind_apply]
  rcases splitCube_cases 0 hts with
    ⟨front, inside, inside', after, after', hx, hy, rfl, hin, hafter⟩ | ⟨hx, hy⟩
  · simp only [hx, hy, set_bind_apply, pure_apply, rawTexts_eq hin]
    exact .ok (l.cube _ hspan) rfl (Nat.zero_le _) hafter
  · simp only [hx, hy, set_bind_apply]
    exact .error .none

theorem inStep_readSignedNumber : InStep l n 1 Eq readSignedNumber readSignedNumber := by
  refine (inStep_accept _).bind_next ?_
  rintro negative _ rfl
  refine (inStep_expectSome (fun t u ht => ?_) _).bind_eq fun value => .pure rfl
  rw [number?, number?, ht.kind_eq]

theorem inStep_expectItemEnd (wanted : String) :
    InStep l n 0 Eq (expectItemEnd wanted) (expectItemEnd wanted) := by
  refine inStep_accept_bind _ (.pure rfl) ?_ (Nat.zero_le 1)
  refine (inStep_nextIs _).bind_eq fun found => ?_
  exact .ite (.pure rfl) (inStep_failExpected wanted)

theorem inStep_readVertex : InStep l n 1 Eq readVertex readVertex := by
  refine inStep_readSignedNumber.bind_eq fun x => ?_
  refine (inStep_expect _ _).weaken.bind_eq fun _ => ?_
  refine inStep_readSignedNumber.weaken.bind_eq fun y => ?_
  refine (inStep_expect _ _).weaken.bind_eq fun _ => ?_
  refine inStep_readSignedNumber.weaken.bind_eq fun z => ?_
  exact (inStep_expectItemEnd _).bind_eq fun _ => .pure rfl

theorem inStep_readIndex : InStep l n 1 Eq readIndex readIndex := by
  intro ts us hts hn
  rw [readIndex, peek?_bind_apply, peek?_bind_apply]
  cases hts with
  | nil => exact .error .none
  | @cons t u more more' ht hmore =>
    have hnumber : number? t = number? u := by rw [number?, number?, ht.kind_eq]
    dsimp only [List.head?_cons, Option.bind_some]
    rw [← hnumber]
    cases number? t with
    | none => exact inStep_failExpected _ _ _ (.cons ht hmore) hn
    | some value =>
      dsimp only
      rw [bind_of_ok _ (pure_apply value _), bind_of_ok _ (pure_apply value _)]
      cases index? value with
      | none => exact inStep_fail _ _ _ (.cons ht hmore) hn
      | some index => exact (Agree.done rfl hmore).behind [t]

theorem inStep_readMaterialRef : InStep l n 1 Eq readMaterialRef readMaterialRef := by
  refine (inStep_ident _).bind_eq fun owner => ?_
  refine (inStep_accept _).bind_eq fun found => ?_
  exact .ite ((inStep_name _).weaken.bind_eq fun item => .pure rfl) (.pure rfl)

theorem inStep_readFace : InStep l n 1 Eq readFace readFace := by
  refine inStep_peek?.bind_next fun start start' hstart => inStep_readIndex.bind_eq fun first => ?_
  refine (inStep_moreAfterCommas inStep_readIndex.weaken).of_forall₂.bind_eq fun more => ?_
  refine .ite (inStep_error _ (span_rel hstart)) ?_
  dsimp only
  refine (inStep_accept _).bind_eq fun found => ?_
  have hdone (material : Option MaterialRef) :
      InStep l n 0 Eq (expectItemEnd "expected ';' after face" >>= fun _ =>
        pure (⟨first :: more, material⟩ : FaceLiteral)) (expectItemEnd "expected ';' after face" >>=
          fun _ => pure (⟨first :: more, material⟩ : FaceLiteral)) :=
    (inStep_expectItemEnd _).bind_eq fun _ => .pure rfl
  refine .either (inStep_readMaterialRef.weaken.map_eq some) (.pure rfl) ?_
  rintro material _ rfl
  exact hdone material

theorem inStep_readMeshSection : InStep l n 1 Eq readMeshSection readMeshSection := by
  refine inStep_accept_bind _ (.pure rfl) ?_ (Nat.le_refl 1)
  refine inStep_accept_bind _ (.pure rfl) ?_ (Nat.le_refl 1)
  refine inStep_peek?.bind_next fun start start' hstart =>
    (inStep_ident _).bind_eq fun heading => ?_
  refine (inStep_expect _ _).weaken.bind_eq fun _ => ?_
  refine (inStep_expect _ _).weaken.bind_eq fun _ => ?_
  have hclose (part : MeshSection) : InStep l n 0 Eq
      (expect .rightBracket "expected ']' to close mesh section" >>= fun _ => pure part)
      (expect .rightBracket "expected ']' to close mesh section" >>= fun _ => pure part) :=
    (inStep_expect _ _).weaken.bind_eq fun _ => .pure rfl
  dsimp only
  split
  · exact ((inStep_untilClosed _ inStep_readVertex).of_forall₂.map_eq _).bind_eq hclose
  · exact ((inStep_untilClosed _ inStep_readFace).of_forall₂.map_eq _).bind_eq hclose
  · exact (inStep_error _ (span_rel hstart)).bind_eq hclose

theorem inStep_readMesh {s s' : Span} (hspan : l.span s s') :
    InStep l n 0 l.expr (readMesh s) (readMesh s') := by
  refine (inStep_expect _ _).weaken.bind_eq fun _ => ?_
  refine (inStep_untilClosed _ inStep_readMeshSection).of_forall₂.bind_eq fun sections => ?_
  exact (inStep_expect _ _).weaken.bind_eq fun _ => .pure (l.mesh _ _ hspan)

theorem loopsInStep_readChildren : LoopsInStep l n Eq readChildren readChildren := by
  refine .of_step (fun m m' => ?_) fun k m m' hk hless => ?_
  · cases m <;> cases m' <;> exact .done rfl .nil
  · refine inStep_peek?.bind_next fun found found' hfound => ?_
    have hsame : found.all (·.is .rightBracket) = found'.all (·.is .rightBracket) := by
      cases hfound with
      | none => rfl
      | some ht => exact ht.is_eq _
    rw [hsame]
    refine .ite (.pure rfl) ((inStep_ident _).bind_taken ?_).weaken
    rintro child _ rfl
    refine (inStep_accept _).bind_eq fun comma => ?_
    exact .ite (hless.bind_eq fun later => .pure rfl) (.pure rfl)

theorem inStep_readGroup {s s' : Span} (hspan : l.span s s') :
    InStep l n 0 l.expr (readGroup s) (readGroup s') := by
  refine (inStep_expect _ _).weaken.bind_eq fun _ => ?_
  refine loopsInStep_readChildren.bind_eq fun children => ?_
  exact (inStep_expect _ _).weaken.bind_eq fun _ => .pure (l.group _ hspan)

/-! ### Primaries and operators -/

theorem loopsInStep_readMembers : LoopsInStep l n Eq readMembers readMembers := by
  refine .of_step (fun m m' => ?_) fun k m m' hk hless => ?_
  · cases m <;> cases m' <;> exact .done rfl .nil
  · refine inStep_accept_bind _ ?_ (.pure rfl) (Nat.zero_le 1)
    refine (inStep_name _).weaken.bind_eq fun member => ?_
    exact hless.bind_eq fun later => .pure rfl

section
variable {value value' : Reader Expr} (hvalue : InStep l n 0 l.expr value value')
include hvalue

theorem inStep_readArguments :
    InStep l n 0 (List.Forall₂ l.expr) (readArguments value) (readArguments value') := by
  have hclose (args args' : List Expr) (h : List.Forall₂ l.expr args args') :
      InStep l n 0 (List.Forall₂ l.expr)
        (expect .rightParen "expected ')' after arguments" >>= fun _ => pure args)
        (expect .rightParen "expected ')' after arguments" >>= fun _ => pure args') :=
    (inStep_expect _ _).weaken.bind_eq fun _ => .pure h
  refine (inStep_nextIs _).bind_eq fun found => ?_
  refine .ite ((InStep.pure .nil).bind hclose) ?_
  exact hvalue.bind fun first first' hfirst => (inStep_moreAfterCommas hvalue).bind
    fun more more' hmore => (InStep.pure (.cons hfirst hmore)).bind hclose

theorem inStep_readReference {s s' : Span} (hspan : l.span s s') (head : String) :
    InStep l n 0 l.expr (readReference value s head) (readReference value' s' head) := by
  refine loopsInStep_readMembers.bind_eq fun members => ?_
  refine inStep_takeIf_bind (respects_is _) (fun t u ht => ?_) (.pure (l.reference _ _ hspan))
    (Nat.zero_le 1)
  have hargs := inStep_readArguments (hvalue.smaller (Nat.sub_le n 1))
  rcases members with _ | ⟨member, _ | ⟨second, more⟩⟩
  · exact hargs.bind fun _ _ h => .pure (l.call _ _ hspan h)
  · exact hargs.bind fun _ _ h => .pure (l.call _ _ hspan h)
  · exact inStep_failAt _ ht.span

theorem inStep_readConversion {s s' : Span} (hspan : l.span s s') (callee : String) :
    InStep l n 0 l.expr (readConversion value s callee) (readConversion value' s' callee) := by
  refine (inStep_expect _ _).weaken.bind_eq fun _ => ?_
  exact (inStep_readArguments hvalue).bind fun _ _ h => .pure (l.call _ _ hspan h)

theorem inStep_readModifier {s s' : Span} (hspan : l.span s s') :
    InStep l n 0 l.expr (readModifier value s) (readModifier value' s') := by
  refine (inStep_expect _ _).weaken.bind_eq fun _ => ?_
  refine (inStep_ident _).weaken.bind_eq fun kind => ?_
  exact (inStep_readProperties hvalue _).bind fun _ _ h => .pure (l.modifier _ hspan h)

end

theorem forall₂_takeWhile_drop {test : Token → Bool} (htest : Respects l test)
    (h : List.Forall₂ l.Token ts us) :
    List.Forall₂ l.Token (ts.takeWhile test) (us.takeWhile test) ∧
      List.Forall₂ l.Token (ts.drop (ts.takeWhile test).length)
        (us.drop (us.takeWhile test).length) := by
  induction h with
  | nil => exact ⟨.nil, .nil⟩
  | @cons t u more more' ht hmore ih =>
    rw [List.takeWhile_cons, List.takeWhile_cons, ← htest t u ht]
    split
    · exact ⟨.cons ht ih.1, ih.2⟩
    · exact ⟨.nil, .cons ht hmore⟩

theorem expr_foldr_negation {e e' : Expr} (h : List.Forall₂ l.Token ts us) (he : l.expr e e') :
    l.expr (ts.foldr (fun sign inner => .negation sign.span inner) e)
      (us.foldr (fun sign inner => .negation sign.span inner) e') := by
  induction h with
  | nil => exact he
  | cons ht _ ih => exact l.negation ht.span ih

section
variable {value value' : Reader Expr} (hvalue : InStep l n 0 l.expr value value')
include hvalue

/-- What stands inside a primary is shorter than it. -/
theorem inStep_readPrimary :
    InStep l (n + 1) 1 l.expr (readPrimary value) (readPrimary value') := by
  intro ts us hts hn
  rw [readPrimary, readPrimary, get_bind_apply, get_bind_apply]
  cases hts with
  | nil => exact .error .none
  | @cons t u more more' ht hmore =>
    have hshort : more.length < n := by simpa using hn
    have hafter {x y : Reader Expr} (hxy : InStep l n 0 l.expr x y) :
        Agree l l.expr 1 (t :: more) (x more) (y more') :=
      (hxy more more' hmore hshort).behind [t]
    have hfail : Agree l l.expr 1 (t :: more) (fail .expectedExpression (t :: more))
        (fail .expectedExpression (u :: more')) :=
      inStep_fail _ _ _ (.cons ht hmore) hn
    dsimp only
    rw [← ht.kind_eq, ← ht.lexeme_eq]
    cases hkind : t.kind with
    | number x => exact hafter (.pure (l.number x ht.span))
    | string text => exact hafter (.pure (l.string text ht.span))
    | ident head => exact hafter (inStep_readReference hvalue ht.span head)
    | symbol sign =>
      cases sign with
      | leftParen =>
        exact hafter (hvalue.bind fun inner inner' h =>
          (inStep_expect _ _).weaken.bind_eq fun _ => .pure h)
      | _ => exact hfail
    | keyword word =>
      cases word with
      | cube => exact hafter (inStep_readCube ht.span)
      | mesh => exact hafter (inStep_readMesh ht.span)
      | material =>
        exact hafter ((inStep_readProperties hvalue _).bind
          fun _ _ h => .pure (l.material ht.span h))
      | modifier => exact hafter (inStep_readModifier hvalue ht.span)
      | group => exact hafter (inStep_readGroup ht.span)
      | int | float | string | bool => exact hafter (inStep_readConversion hvalue ht.span _)
      | _ => exact hfail
    | eof => exact hfail

theorem inStep_readUnary : InStep l (n + 1) 1 l.expr (readUnary value) (readUnary value') := by
  intro ts us hts hn
  rw [readUnary, readUnary, get_bind_apply, get_bind_apply, set_bind_apply, set_bind_apply]
  obtain ⟨hsigns, hdrop⟩ := forall₂_takeWhile_drop (respects_is (l := l) .minus) hts
  have hends := ((inStep_readPrimary hvalue).bind fun e e' he =>
    .pure (expr_foldr_negation hsigns he)) _ _ hdrop (by simp; omega)
  have hall := hends.behind (ts.takeWhile (·.is .minus))
  rw [List.prefix_iff_eq_append.1 (List.takeWhile_prefix _)] at hall
  exact hall.mono (Nat.le_add_left ..)

end

theorem acceptOperator_cases (level : Nat) (h : List.Forall₂ l.Token ts us) :
    (∃ t op more more', ts = t :: more ∧ List.Forall₂ l.Token more more' ∧
      acceptOperator level ts = .ok (some op, more) ∧
      acceptOperator level us = .ok (some op, more')) ∨
    (acceptOperator level ts = .ok (none, ts) ∧ acceptOperator level us = .ok (none, us)) := by
  cases h with
  | nil => exact .inr ⟨rfl, rfl⟩
  | @cons t u more more' ht hmore =>
    unfold acceptOperator
    dsimp only
    rw [← ht.kind_eq]
    split
    next sign hkind =>
      split
      next op hop => exact .inl ⟨t, op, more, more', rfl, hmore, rfl, rfl⟩
      next => exact .inr ⟨rfl, rfl⟩
    next => exact .inr ⟨rfl, rfl⟩

theorem loopsInStep_joinOperands {operand operand' : Reader Expr} (level : Nat) {left left' : Expr}
    (hoperand : InStep l n 0 l.expr operand operand') (hleft : l.expr left left') :
    LoopsInStep l n l.expr (fun m => joinOperands level operand m left)
      (fun m => joinOperands level operand' m left') := by
  refine LoopsInStep.of_steps (p := fun left m => joinOperands level operand m left)
    (q := fun left m => joinOperands level operand' m left) (fun a b m m' h => ?_)
    (fun k m m' hk hless a b h => ?_) hleft
  · rw [joinOperands_of_head? _ m _ (by simp), joinOperands_of_head? _ m' _ (by simp)]
    exact .done h .nil
  · intro ts us hts hn
    rw [joinOperands, joinOperands]
    rcases acceptOperator_cases level hts with ⟨t, op, more, more', rfl, hmore, htake, htake'⟩ |
      ⟨htake, htake'⟩
    · rw [bind_of_ok _ htake, bind_of_ok _ htake']
      have hright : InStep l k 0 l.expr operand operand' := hoperand.smaller (by omega)
      have hends := (hright.bind fun c d hc => hless _ _ (l.operation op h hc)) more more' hmore
        (by simpa using hn)
      exact (hends.behind [t]).weaken
    · rw [bind_of_ok _ htake, bind_of_ok _ htake']
      exact .done h hts

theorem inStep_readLevel {value value' : Reader Expr} (hvalue : InStep l n 0 l.expr value value')
    (level : Nat) :
    InStep l (n + 1) 1 l.expr (readLevel value level) (readLevel value' level) := by
  induction level with
  | zero => exact inStep_readUnary hvalue
  | succ level ih =>
    exact ih.bind fun left left' h =>
      (loopsInStep_joinOperands (level + 1) ih.weaken h).inStep

/-- Any two bounds on the depth of nesting are as good as each other, if they are no less than the
number of tokens. -/
theorem inStep_readWithin {m m' : Nat} (hm : n ≤ m) (hm' : n ≤ m') :
    InStep l n 1 l.expr (readWithin m) (readWithin m') := by
  induction n generalizing m m' with
  | zero => exact fun ts us _ hn => absurd hn (Nat.not_lt_zero _)
  | succ n ih =>
    obtain ⟨m, rfl⟩ : ∃ k, m = k + 1 := ⟨m - 1, by omega⟩
    obtain ⟨m', rfl⟩ : ∃ k, m' = k + 1 := ⟨m' - 1, by omega⟩
    exact inStep_readLevel (ih (by omega) (by omega)).weaken 4

theorem inStep_read : InStep l n 1 l.expr Expr.read Expr.read := by
  intro ts us hts _
  have hlength : us.length + 1 = ts.length + 1 := by rw [hts.length_eq]
  rw [Expr.read, Expr.read, hlength]
  exact inStep_readWithin (Nat.le_refl _) (Nat.le_refl _) ts us hts (Nat.lt_succ_self _)

end SceneScript.Expr
