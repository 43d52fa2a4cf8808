import SceneScript.Proofs.Program.InStepExpr

namespace SceneScript
open Reader

variable {l : Likeness} {ts us : List Token} {n : Nat} {s s' : Span}

/-! ### Imports -/

namespace Import

theorem loopsInStep_readSegments : LoopsInStep l n Eq readSegments readSegments := by
  refine .of_step (fun m m' => ?_) fun k m m' hk hless => ?_
  · cases m <;> cases m' <;> exact .done rfl .nil
  · refine inStep_takeIf_bind (respects_isOneOf _ _) (fun t u ht => ?_) (.pure rfl) (Nat.zero_le 1)
    dsimp only
    rw [ht.kind_eq]
    refine (inStep_ident _).weaken.bind_eq fun segment => ?_
    exact hless.bind_eq fun later => .pure rfl

theorem string?_eq {t u : Token} (h : l.Token t u) : string? t = string? u := by
  rw [string?, string?, h.kind_eq]

theorem inStep_readSource : InStep l n 0 Eq readSource readSource := by
  have hnamed : InStep l n 0 Eq
      (ident "expected module name or path" >>= fun first => get >>= fun tokens =>
        readSegments tokens.length >>= fun more => pure (first ++ more))
      (ident "expected module name or path" >>= fun first => get >>= fun tokens =>
        readSegments tokens.length >>= fun more => pure (first ++ more)) := by
    refine (inStep_ident _).weaken.bind_eq fun first => ?_
    exact loopsInStep_readSegments.bind_eq fun more => .pure rfl
  intro ts us hts hn
  rw [readSource, peek?_bind_apply, peek?_bind_apply]
  cases hts with
  | nil => exact hnamed _ _ .nil hn
  | @cons t u more more' ht hmore =>
    dsimp only [List.head?_cons, Option.bind_some]
    rw [← string?_eq ht]
    cases string? t with
    | none => exact hnamed _ _ (.cons ht hmore) hn
    | some path => exact ((Agree.done rfl hmore).behind [t]).weaken

theorem beginsNames_eq (h : List.Forall₂ l.Token ts us) : beginsNames ts = beginsNames us := by
  cases h with
  | nil => rfl
  | cons ht hmore =>
    cases hmore with
    | nil => rfl
    | cons ht' _ => simp only [beginsNames, ht.ident?_eq, ht'.is_eq, ht'.isWord_eq]

theorem inStep_read (hspan : l.span s s') :
    InStep l n 0 (fun a b => l.stmt (.imports a) (.imports b)) (read s) (read s') := by
  have hrest (names : List String) : InStep l n 0 (fun a b => l.stmt (.imports a) (.imports b))
      (readSource >>= fun source => acceptWord .aliasing >>= fun found =>
        if found then (some <$> ident "expected alias name after 'as'") >>= fun boundAs =>
          pure ⟨s, names, source, boundAs⟩
        else pure none >>= fun boundAs => pure ⟨s, names, source, boundAs⟩)
      (readSource >>= fun source => acceptWord .aliasing >>= fun found =>
        if found then (some <$> ident "expected alias name after 'as'") >>= fun boundAs =>
          pure ⟨s', names, source, boundAs⟩
        else pure none >>= fun boundAs => pure ⟨s', names, source, boundAs⟩) := by
    refine inStep_readSource.bind_eq fun source => ?_
    refine (inStep_acceptWord _).bind_eq fun found => ?_
    refine .either ((inStep_ident _).weaken.map_eq some) (.pure rfl) ?_
    rintro boundAs _ rfl
    exact .pure (l.imports _ _ _ hspan)
  intro ts us hts hn
  rw [read, read, get_bind_apply, get_bind_apply, ← beginsNames_eq hts]
  refine InStep.ite ?_ (hrest []) ts us hts hn
  refine (inStep_ident _).weaken.bind_eq fun first => ?_
  refine (inStep_moreAfterCommas (inStep_ident _).weaken).of_forall₂.bind_eq fun more => ?_
  exact (inStep_expectWord _ _).weaken.bind_eq fun _ => hrest (first :: more)

end Import

/-! ### Assignments and calls -/

theorem Triple.inStep_read : InStep l n 0 (Triple.Rel l.expr) Triple.read Triple.read := by
  have hcoordinate : InStep l n 0 l.expr Expr.read Expr.read := Expr.inStep_read.weaken
  refine hcoordinate.bind fun x x' hx => ?_
  refine (inStep_expect _ _).weaken.bind_eq fun _ => ?_
  refine hcoordinate.bind fun y y' hy => ?_
  refine (inStep_expect _ _).weaken.bind_eq fun _ => ?_
  exact hcoordinate.bind fun z z' hz => .pure ⟨hx, hy, hz⟩

namespace AssignedValue

theorem anchor?_eq {t u : Token} (h : l.Token t u) : anchor? t = anchor? u := by
  rw [anchor?, anchor?, h.ident?_eq]

/-- An expression alone, or the first of three coordinates. -/
theorem inStep_readFromExpr : InStep l n 0 (Rel l.expr)
    (Expr.read >>= fun first => accept .comma >>= fun found =>
      if found then do
        let second ← Expr.read
        expect .comma "expected ',' between coordinates"
        let third ← Expr.read
        return .triple ⟨first, second, third⟩
      else return .expr first)
    (Expr.read >>= fun first => accept .comma >>= fun found =>
      if found then do
        let second ← Expr.read
        expect .comma "expected ',' between coordinates"
        let third ← Expr.read
        return .triple ⟨first, second, third⟩
      else return .expr first) := by
  have hcoordinate : InStep l n 0 l.expr Expr.read Expr.read := Expr.inStep_read.weaken
  refine hcoordinate.bind fun x x' hx => (inStep_accept _).bind_eq fun found => ?_
  refine .ite ?_ (.pure (.expr hx))
  refine hcoordinate.bind fun y y' hy => ?_
  refine (inStep_expect _ _).weaken.bind_eq fun _ => ?_
  exact hcoordinate.bind fun z z' hz => .pure (.triple ⟨hx, hy, hz⟩)

/-- An offset behind the name of a relative position. -/
theorem inStep_readOffset (anchor : String) : InStep l n 0 (Rel l.expr)
    (takeIf (fun token => token.is .plus || token.is .comma) >>= fun joined =>
      if joined.isSome then (some <$> Triple.read) >>= fun offset => pure (.relative anchor offset)
      else pure none >>= fun offset => pure (.relative anchor offset))
    (takeIf (fun token => token.is .plus || token.is .comma) >>= fun joined =>
      if joined.isSome then (some <$> Triple.read) >>= fun offset => pure (.relative anchor offset)
      else pure none >>= fun offset => pure (.relative anchor offset)) := by
  refine (inStep_takeIf (respects_isOneOf _ _)).bind fun joined joined' h => ?_
  rw [isSome_eq h]
  have hoffset : InStep l n 0 (Option.Rel (Triple.Rel l.expr)) (some <$> Triple.read)
      (some <$> Triple.read) := Triple.inStep_read.map fun _ _ h => .some h
  exact .either hoffset (.pure .none) fun _ _ hrel => .pure (.relative hrel)

theorem inStep_read : InStep l n 0 (Rel l.expr) read read := by
  intro ts us hts hn
  rw [read, peek?_bind_apply, peek?_bind_apply]
  cases hts with
  | nil => exact inStep_readFromExpr _ _ .nil hn
  | @cons t u more more' ht hmore =>
    dsimp only [List.head?_cons, Option.bind_some]
    rw [← anchor?_eq ht]
    cases anchor? t with
    | none => exact inStep_readFromExpr _ _ (.cons ht hmore) hn
    | some anchor =>
      exact ((inStep_readOffset anchor more more' hmore (Nat.lt_of_succ_lt hn)).behind
        [t]).weaken

end AssignedValue

inductive MethodArgument.Rel (R : Expr → Expr → Prop) : MethodArgument → MethodArgument → Prop
  | value {a b : Expr} : R a b → Rel R (.value a) (.value b)
  | excluded (name : String) : Rel R (.excluded name) (.excluded name)

theorem MethodArgument.inStep_read : InStep l n 1 (Rel l.expr) read read := by
  have hcomma {k : Nat} (a b : MethodArgument) (h : Rel l.expr a b) : InStep l k 0 (Rel l.expr)
      (accept .comma >>= fun _ => pure a) (accept .comma >>= fun _ => pure b) :=
    (inStep_accept _).bind fun _ _ _ => .pure h
  refine inStep_acceptWord_bind _ ?_ ?_ (Nat.le_refl 1)
  · refine ((inStep_ident _).weaken.map (S := Rel l.expr) fun name _ h => ?_).bind
      hcomma
    exact h ▸ .excluded name
  · exact (Expr.inStep_read.map (S := Rel l.expr) fun _ _ h => .value h).bind hcomma

/-- What a call leaves out does not depend on the values. -/
theorem MethodArgument.filterMap_eq {α : Type} {R : Expr → Expr → Prop}
    {args args' : List MethodArgument} {f : MethodArgument → Option α}
    (h : List.Forall₂ (Rel R) args args') (hf : ∀ a b, Rel R a b → f a = f b) :
    args.filterMap f = args'.filterMap f := by
  induction h with
  | nil => rfl
  | cons hab _ ih => rw [List.filterMap_cons, List.filterMap_cons, hf _ _ hab, ih]

namespace Stmt
variable {statement statement' : Reader Stmt}

theorem inStep_readConfined (hspan : l.span s s') :
    InStep l n 0 l.stmt (readConfined s) (readConfined s') := by
  refine (inStep_ident _).weaken.bind_eq fun target => ?_
  refine (inStep_expect _ _).weaken.bind_eq fun _ => ?_
  exact Expr.inStep_read.weaken.bind fun _ _ h => .pure (l.assign _ _ hspan h)

theorem inStep_readChildProperty (hspan : l.span s s') (target : String) :
    InStep l n 0 l.stmt (readChildProperty s target) (readChildProperty s' target) := by
  refine (inStep_ident _).weaken.bind_eq fun child => ?_
  refine (inStep_expect _ _).weaken.bind_eq fun _ => ?_
  refine (inStep_expect _ _).weaken.bind_eq fun _ => ?_
  refine (inStep_name _).weaken.bind_eq fun property => ?_
  refine (inStep_expect _ _).weaken.bind_eq fun _ => ?_
  exact AssignedValue.inStep_read.bind fun _ _ h => .pure (l.setProperty _ _ _ hspan h)

theorem inStep_readMethodCall (hspan : l.span s s') (target method : String) :
    InStep l n 0 l.stmt (readMethodCall s target method) (readMethodCall s' target method) := by
  refine (inStep_untilClosed _ MethodArgument.inStep_read).bind fun args args' hargs => ?_
  refine (inStep_expect _ _).weaken.bind_eq fun _ => ?_
  rw [MethodArgument.filterMap_eq (α := String) hargs fun a b h => by cases h <;> rfl]
  refine .pure (l.callMethod _ _ _ hspan (List.rel_filterMap (fun a b h => ?_) hargs))
  cases h with
  | value h => exact .some h
  | excluded => exact .none

theorem inStep_readPrint (hspan : l.span s s') :
    InStep l n 0 l.stmt (readPrint s) (readPrint s') := by
  refine (inStep_expect _ _).weaken.bind_eq fun _ => ?_
  refine Expr.inStep_read.weaken.bind fun _ _ h => ?_
  exact (inStep_expect _ _).weaken.bind_eq fun _ => .pure (l.print hspan h)

theorem beginsPrint_eq (h : List.Forall₂ l.Token ts us) : beginsPrint ts = beginsPrint us := by
  cases h with
  | nil => rfl
  | cons ht hmore =>
    cases hmore with
    | nil => rfl
    | cons ht' _ => simp only [beginsPrint, ht.is_eq, ht'.ident?_eq]

theorem inStep_readNamed (hspan : l.span s s') (target : String) :
    InStep l n 0 l.stmt (readNamed s target) (readNamed s' target) := by
  intro ts us hts hn
  rw [readNamed, readNamed, get_bind_apply, get_bind_apply, ← beginsPrint_eq hts]
  refine InStep.ite (inStep_drop 2 (inStep_readPrint hspan)) ?_ ts us hts hn
  refine inStep_accept_bind _ ?_ ?_ (Nat.zero_le 1)
  · exact Expr.inStep_read.weaken.bind fun _ _ h => .pure (l.assign _ _ hspan h)
  refine (inStep_expect _ _).weaken.bind_eq fun _ => ?_
  refine inStep_accept_bind _ (inStep_readChildProperty hspan target) ?_ (Nat.zero_le 1)
  refine (inStep_name _).weaken.bind_eq fun member => ?_
  refine inStep_accept_bind _ (inStep_readMethodCall hspan target member) ?_ (Nat.zero_le 1)
  refine (inStep_expect _ _).weaken.bind_eq fun _ => ?_
  exact AssignedValue.inStep_read.bind fun _ _ h => .pure (l.setProperty _ _ _ hspan h)

/-! ### Blocks -/

section
variable (hstatement : InStep l n 1 l.stmt statement statement')
include hstatement

theorem inStep_readItem :
    InStep l n 1 (Option.Rel l.stmt) (readItem statement) (readItem statement') :=
  inStep_accept_bind _ (.pure .none) (hstatement.map fun _ _ h => .some h) (Nat.le_refl 1)

theorem inStep_readBlock :
    InStep l n 0 (List.Forall₂ l.stmt) (readBlock statement) (readBlock statement') := by
  refine (inStep_expect _ _).weaken.bind_eq fun _ => ?_
  refine (inStep_untilClosed _ (inStep_readItem hstatement)).bind fun items items' hitems => ?_
  refine (inStep_expect _ _).weaken.bind_eq fun _ => .pure ?_
  exact List.rel_filterMap (fun _ _ h => h) hitems

theorem loopsInStep_readBranch (hspan : l.span s s') :
    LoopsInStep l n l.stmt (fun m => readBranch statement m s)
      (fun m => readBranch statement' m s') := by
  refine LoopsInStep.of_steps (p := fun s m => readBranch statement m s)
    (q := fun s m => readBranch statement' m s) (fun s s' m m' hspan => ?_)
    (fun k m m' hk hless s s' hspan => ?_) hspan
  · cases m <;> cases m' <;> exact .error .none
  · have hblock : InStep l k 0 (List.Forall₂ l.stmt) (readBlock statement) (readBlock statement') :=
      inStep_readBlock (hstatement.smaller (Nat.le_of_succ_le hk))
    refine (Expr.inStep_read.bind_taken fun c c' hc => ?_).weaken
    refine hblock.bind fun block block' hthen => ?_
    refine (inStep_acceptWord _).bind_eq fun found => ?_
    refine .ite ?_ (.pure (l.branch hspan hc hthen .none))
    refine inStep_takeIf_bind (respects_isWord _) (fun t u ht => ?_) ?_ (Nat.zero_le 1)
    · exact ((hless _ _ ht.span).smaller (Nat.sub_le k 1)).bind fun other other' hother =>
        .pure (l.branch hspan hc hthen (.some (.cons hother .nil)))
    · exact hblock.bind fun other other' hother => .pure (l.branch hspan hc hthen (.some hother))

theorem inStep_readWhile (hspan : l.span s s') :
    InStep l n 0 l.stmt (readWhile statement s) (readWhile statement' s') :=
  Expr.inStep_read.weaken.bind fun _ _ hc =>
    (inStep_readBlock hstatement).bind fun _ _ hbody => .pure (l.whileLoop hspan hc hbody)

theorem inStep_readFor (hspan : l.span s s') :
    InStep l n 0 l.stmt (readFor statement s) (readFor statement' s') := by
  have hexpr : InStep l n 0 l.expr Expr.read Expr.read := Expr.inStep_read.weaken
  refine (inStep_ident _).weaken.bind_eq fun counter => ?_
  refine (inStep_expect _ _).weaken.bind_eq fun _ => ?_
  refine hexpr.bind fun start start' hstart => ?_
  refine (inStep_expectWord _ _).weaken.bind_eq fun _ => ?_
  refine hexpr.bind fun stop stop' hstop => (inStep_acceptWord _).bind_eq fun found => ?_
  refine .either (R := Option.Rel l.expr) (hexpr.map fun _ _ h => .some h) (.pure .none) ?_
  intro step step' hstep
  exact (inStep_readBlock hstatement).bind fun _ _ hbody =>
    .pure (l.forLoop _ hspan hstart hstop hstep hbody)

/-- What follows the first token of a statement is shorter than it. -/
theorem inStep_readForm :
    InStep l (n + 1) 1 l.stmt (readForm statement) (readForm statement') := by
  intro ts us hts hn
  rw [readForm, readForm, get_bind_apply, get_bind_apply]
  cases hts with
  | nil => exact .error .none
  | @cons t u more more' ht hmore =>
    have hshort : more.length < n := by simpa using hn
    have hafter {x y : Reader Stmt} (hxy : InStep l n 0 l.stmt x y) :
        Agree l l.stmt 1 (t :: more) (x more) (y more') :=
      (hxy more more' hmore hshort).behind [t]
    have hfail (kind : TokenKind) : Agree l l.stmt 1 (t :: more)
        (fail (.unexpectedToken kind.describe) (t :: more))
        (fail (.unexpectedToken kind.describe) (u :: more')) :=
      inStep_fail _ _ _ (.cons ht hmore) hn
    dsimp only
    rw [← ht.kind_eq, ← hmore.length_eq]
    cases hkind : t.kind with
    | ident target =>
      have hnamed := hafter (inStep_readNamed ht.span target)
      exact hnamed
    | keyword word =>
      cases word with
      | importing => exact hafter ((Import.inStep_read ht.span).bind fun _ _ h => .pure h)
      | confining => exact hafter (inStep_readConfined ht.span)
      | conditional =>
        have hbranch := loopsInStep_readBranch hstatement ht.span (more.length + 1)
          (more.length + 1) more more' hmore hshort (Nat.le_succ _) (Nat.le_succ _)
        exact hbranch.behind [t]
      | whileLoop => exact hafter (inStep_readWhile hstatement ht.span)
      | forLoop => exact hafter (inStep_readFor hstatement ht.span)
      | _ => exact hfail _
    | _ => exact hfail _

end

/-- Any two bounds on the depth of blocks are as good as each other, if they are no less than the
number of tokens. -/
theorem inStep_readWithin {m m' : Nat} (hm : n ≤ m) (hm' : n ≤ m') :
    InStep l n 1 l.stmt (readWithin m) (readWithin m') := by
  induction n generalizing m m' with
  | zero => exact fun ts us _ hn => absurd hn (Nat.not_lt_zero _)
  | succ n ih =>
    obtain ⟨m, rfl⟩ : ∃ k, m = k + 1 := ⟨m - 1, by omega⟩
    obtain ⟨m', rfl⟩ : ∃ k, m' = k + 1 := ⟨m' - 1, by omega⟩
    exact (inStep_readForm (ih (by omega) (by omega))).bind fun _ _ h =>
      (inStep_accept _).bind fun _ _ _ => .pure h

theorem inStep_read : InStep l n 1 l.stmt Stmt.read Stmt.read := by
  intro ts us hts _
  have hlength : us.length + 1 = ts.length + 1 := by rw [hts.length_eq]
  rw [Stmt.read, Stmt.read, hlength]
  exact inStep_readWithin (Nat.le_refl _) (Nat.le_refl _) ts us hts (Nat.lt_succ_self _)

end Stmt

def Program.Rel (R : Stmt → Stmt → Prop) (p q : Program) : Prop :=
  List.Forall₂ R p.statements q.statements

theorem Program.inStep_read : InStep l n 0 (Program.Rel l.stmt) Program.read Program.read := by
  refine (loopsInStep_repeatWhile (fun _ _ _ => rfl)
    (Stmt.inStep_readItem Stmt.inStep_read)).bind fun items items' hitems => .pure ?_
  exact List.rel_filterMap (fun _ _ h => h) hitems

namespace Program

/-- Two outcomes of a parse: alike values, or one cause at alike places. -/
inductive Ends {α β : Type} (l : Likeness) (R : α → β → Prop) :
    Except Diagnostic α → Except Diagnostic β → Prop
  | ok {a : α} {b : β} : R a b → Ends l R (.ok a) (.ok b)
  | error {s s' : Span} (cause : Cause) : l.span s s' →
      Ends l R (.error (.placed cause s)) (.error (.placed cause s'))

theorem forall₂_body (h : List.Forall₂ l.Token ts us) :
    List.Forall₂ l.Token (body ts) (body us) :=
  (Expr.forall₂_takeWhile_drop (fun _ _ ht => by rw [ht.kind_eq]) h).1

theorem find?_rel {test : Token → Bool} (htest : Respects l test) (h : List.Forall₂ l.Token ts us) :
    Option.Rel l.Token (ts.find? test) (us.find? test) := by
  induction h with
  | nil => exact .none
  | @cons t u more more' ht _ ih =>
    rw [List.find?_cons, List.find?_cons, ← htest t u ht]
    split
    · exact .some ht
    · exact ih

/-- Alike tokens end at alike places, if there are any. -/
theorem span_stop (h : List.Forall₂ l.Token ts us) (hne : ts ≠ []) :
    l.span (stop ts) (stop us) := by
  have hisEof : Respects l fun t => t.kind.isEof :=
    fun _ _ ht => congrArg TokenKind.isEof ht.kind_eq
  have hmarker := find?_rel hisEof h
  have hlast : Option.Rel l.Token ts.getLast? us.getLast? := by
    rw [List.getLast?_eq_head?_reverse, List.getLast?_eq_head?_reverse]
    exact head?_rel (List.rel_reverse h)
  rw [List.getLast?_eq_some_getLast hne] at hlast
  unfold stop
  generalize ts.find? (·.kind.isEof) = marker at hmarker
  generalize us.find? (·.kind.isEof) = marker' at hmarker
  generalize us.getLast? = last' at hlast
  cases hmarker with
  | some ht => exact ht.span
  | none =>
    cases hlast with
    | some ht =>
      rw [List.getLast?_eq_some_getLast hne]
      exact ht.span

/-- Readers in step come to outcomes that are alike. -/
theorem ends_runReader {α β : Type} {R : α → β → Prop} {x : Reader α} {y : Reader β}
    (h : List.Forall₂ l.Token ts us) (hstop : l.span (stop ts) (stop us))
    (hstep : ∀ n, InStep l n 0 R x y) : Ends l R (runReader x ts) (runReader y us) := by
  have hends := hstep _ _ _ (forall₂_body h) (Nat.lt_succ_self _)
  unfold runReader
  revert hends
  generalize x (body ts) = r
  generalize y (body us) = r'
  intro hends
  cases hends with
  | ok hR _ _ _ => exact .ok hR
  | error hspan =>
    cases hspan with
    | none => exact .error _ hstop
    | some hspan => exact .error _ hspan

end Program

end SceneScript
