import Mathlib.Data.List.Forall2
import Mathlib.Data.List.Induction
import SceneScript.Proofs.Run.Blocks

namespace SceneScript
namespace Run
variable {α β : Type}

/-! ### Visits -/

/-- Executing a statement comes to the beginning of one of its blocks. A loop does so once in every
round. -/
inductive Enters : Stmt → Machine → List Stmt → Machine → Prop
  | thenBlock {span : Span} {condition : Expr} {thenBlock : List Stmt}
    {elseBlock : Option (List Stmt)} {m tested : Machine} {value : Value} :
    placing span (evaluate condition) m = (.ok value, tested) → value.isTrue = true →
      Enters (.branch span condition thenBlock elseBlock) m thenBlock tested.entered
  | elseBlock {span : Span} {condition : Expr} {thenBlock elseBlock : List Stmt}
    {m tested : Machine} {value : Value} :
    placing span (evaluate condition) m = (.ok value, tested) → value.isTrue = false →
      Enters (.branch span condition thenBlock (some elseBlock)) m elseBlock tested.entered
  | whileLoop {span : Span} {condition : Expr} {body : List Stmt} {m between tested : Machine}
    {k : Nat} :
    RoundsTo (conditionHolds? span condition) (fun _ => inBlock (executeAll body)) m k between →
      k < maxIterations → conditionHolds? span condition between = (.ok (some ()), tested) →
      Enters (.whileLoop span condition body) m body tested.entered
  | forLoop {span : Span} {counter : String} {start stop : Expr} {step : Option Expr}
    {body : List Stmt} {m started between tested : Machine} {first size : Float} {k : Nat} :
    placing span (evaluateNumber start) m = (.ok first, started) →
      RoundsTo (nextStep? span counter stop step) (countedRound span counter body)
        (started.counted counter first) k between →
      k < maxIterations → nextStep? span counter stop step between = (.ok (some size), tested) →
      Enters (.forLoop span counter start stop step body) m body tested.entered

/-- Executing the first statement on the first machine comes to executing the second statement on
the second machine. -/
inductive Visits : Stmt → Machine → Stmt → Machine → Prop
  | here (s : Stmt) (m : Machine) : Visits s m s m
  | inside {s t first : Stmt} {m inner between k : Machine} {block done rest : List Stmt} :
    Enters s m block inner → block = done ++ first :: rest →
      executeAll done inner = (.ok (), between) → Visits first between t k → Visits s m t k

def VisitsIn (block : List Stmt) (m : Machine) (t : Stmt) (k : Machine) : Prop :=
  ∃ done first rest between, block = done ++ first :: rest ∧
    executeAll done m = (.ok (), between) ∧ Visits first between t k

theorem VisitsIn.inside {s t : Stmt} {m inner k : Machine} {block : List Stmt}
    (henters : Enters s m block inner) (h : VisitsIn block inner t k) : Visits s m t k := by
  obtain ⟨done, first, rest, between, hblock, hdone, hvisits⟩ := h
  exact .inside henters hblock hdone hvisits

theorem VisitsIn.first {t first : Stmt} {m k : Machine} {more : List Stmt}
    (h : Visits first m t k) : VisitsIn (first :: more) m t k :=
  ⟨[], first, more, m, rfl, rfl, h⟩

theorem VisitsIn.more {t first : Stmt} {m between k : Machine} {more : List Stmt}
    (hfirst : execute first m = (.ok (), between)) (h : VisitsIn more between t k) :
    VisitsIn (first :: more) m t k := by
  obtain ⟨done, next, rest, last, rfl, hdone, hvisits⟩ := h
  refine ⟨first :: done, next, rest, last, rfl, ?_, hvisits⟩
  have hplaced : placing first.span (execute first) m = (.ok (), between) := by
    rw [placing_apply, hfirst]
    rfl
  rw [executeAll, bind_apply_of_ok _ hplaced]
  exact hdone

end Run

/-! ### Names of blocks -/

def Frame.Retains (f g : Frame) : Prop := ∀ name, (f.get? name).isSome → (g.get? name).isSome

/-- As many frames as before, each of which still holds the names that it held. -/
abbrev Frame.AllRetain (blocks after : List Frame) : Prop := List.Forall₂ Frame.Retains blocks after

/-- There are as many blocks as before, and each still holds the names that it held. -/
def Scope.Retains (s t : Scope) : Prop := Frame.AllRetain s.blocks t.blocks

def Machine.Retains (m after : Machine) : Prop := m.scope.Retains after.scope

namespace Scope
variable {s t u : Scope} {name : String}

theorem allRetain_refl (blocks : List Frame) : Frame.AllRetain blocks blocks :=
  List.forall₂_same.2 fun _ _ _ h => h

theorem allRetain_trans {a b c : List Frame} (h : Frame.AllRetain a b) (h' : Frame.AllRetain b c) :
    Frame.AllRetain a c := by
  induction h generalizing c with
  | nil => exact h'
  | cons hfg _ ih =>
    cases h' with
    | cons hgh hmore => exact .cons (fun name hname => hgh name (hfg name hname)) (ih hmore)

theorem all_isNone_of_allRetain {a b : List Frame} (h : Frame.AllRetain a b)
    (hnone : b.all fun frame => (frame.get? name).isNone) :
    a.all fun frame => (frame.get? name).isNone := by
  induction h with
  | nil => rfl
  | @cons f g _ _ hfg _ ih =>
    rw [List.all_cons, Bool.and_eq_true] at hnone ⊢
    refine ⟨?_, ih hnone.2⟩
    cases hf : f.get? name with
    | none => rfl
    | some b =>
      have hg := hfg name (by rw [hf]; rfl)
      rw [← Option.not_isNone, hnone.1] at hg
      cases hg

theorem Retains.refl (s : Scope) : s.Retains s := allRetain_refl s.blocks

theorem Retains.trans (h : s.Retains t) (h' : t.Retains u) : s.Retains u := allRetain_trans h h'

theorem Retains.length_eq (h : s.Retains t) : s.blocks.length = t.blocks.length :=
  List.Forall₂.length_eq h

/-- What restores a scope takes no name from its blocks. -/
theorem Restores.allRetain {names : List String} (h : s.Restores names t) : s.Retains t := by
  refine List.forall₂_iff_get.2 ⟨h.length_eq.symm, fun depth hs ht name hname => ?_⟩
  have hretains := h.retains depth name
  rw [binding?_of_lt hs, binding?_of_lt ht] at hretains
  exact hretains hname

/-- A name that no block holds was held by none before. -/
theorem Retains.reachesFile (h : s.Retains t) (hreaches : t.reachesFile name false = true) :
    s.reachesFile name false = true := by
  rw [Scope.reachesFile, if_neg Bool.false_ne_true] at hreaches ⊢
  exact all_isNone_of_allRetain h hreaches

end Scope

instance : IsPreorder Machine Machine.Retains where
  refl m := .refl m.scope
  trans _ _ _ := .trans

namespace Run
variable {α β : Type}

/-! ### What visited statements keep -/

theorem Keeps.allRetain {names : List String} {x : Run α} (h : Keeps (Machine.Restores names) x) :
    Keeps Machine.Retains x := h.imp Scope.Restores.allRetain

theorem Keeps.retains {x : Run α} (h : Keeps Machine.SameScope x) : Keeps Machine.Retains x :=
  (h.restores []).allRetain

theorem retains_executeAll (block : List Stmt) : Keeps Machine.Retains (executeAll block) :=
  (restores_executeAll block).allRetain

theorem retains_inBlock (block : List Stmt) : Keeps Machine.Retains (inBlock (executeAll block)) :=
  (restores_inBlock (restores_executeAll block)).allRetain

/-- The rounds of a counted loop take no name from the blocks around it. -/
theorem retains_rounds {span : Span} {counter : String} {start stop : Expr} {step : Option Expr}
    {body : List Stmt} {m started between : Machine} {first : Float} {k : Nat}
    (hstarted : placing span (evaluateNumber start) m = (.ok first, started))
    (hrounds : RoundsTo (nextStep? span counter stop step) (countedRound span counter body)
      (started.counted counter first) k between) : m.Retains between := by
  have hstart : m.Retains started :=
    ((quiet_evaluateNumber start).placing span).sameScope.retains.rel hstarted
  have hcounted : started.Retains (started.counted counter first) :=
    (restores_assignCounter counter first).allRetain started
  have hmore : (started.counted counter first).Retains between :=
    hrounds.rel (quiet_nextStep? span counter stop step).sameScope.retains fun size =>
      (restores_countedRound span counter size (restores_executeAll body)).allRetain
  exact (hstart.trans hcounted).trans hmore

/-- A relation that the parts of a run keep: those between statements always, a statement without
blocks where `P` holds, and the counter of a loop that starts where `P` holds. -/
structure Kept (R : Machine → Machine → Prop) (P : Stmt → Machine → Prop) : Prop where
  grow : ∀ {m after}, m.GrowsTo after → R m after
  enter : ∀ m, R m m.entered
  leave : ∀ m, R m { m with scope := m.scope.pop }
  report : ∀ m d, R m { m with notices := m.notices.push (.error d) }
  simple : ∀ {s m}, s.isSimple = true → P s m → R m (execute s m).2
  count : ∀ {span counter start stop step body m k} (x : Float),
    P (.forLoop span counter start stop step body) m → m.Retains k → R k (k.counted counter x)

namespace Kept
variable {R : Machine → Machine → Prop} {P : Stmt → Machine → Prop} {m : Machine}

theorem quiet (h : Kept R P) {x : Run α} (hx : Quiet x) : Keeps R x := hx.imp h.grow

variable [IsPreorder Machine R]

theorem inBlock (h : Kept R P) {x : Run α} (hx : R m.entered (x m.entered).2) :
    R m (inBlock x m).2 :=
  IsTrans.trans _ _ _ (h.enter m) (IsTrans.trans _ _ _ hx (h.leave _))

/-- Where the rest of a run depends on what its quiet first part came to. -/
theorem bind (h : Kept R P) {x : Run α} (hx : Quiet x) {f : α → Run β}
    (hf : ∀ a between, x m = (.ok a, between) → R between (f a between).2) :
    R m ((x >>= f) m).2 := by
  rcases hm : x m with ⟨stop | a, between⟩
  · rw [bind_apply_of_error f hm]
    exact (h.quiet hx).rel hm
  · rw [bind_apply_of_ok f hm]
    exact IsTrans.trans _ _ _ ((h.quiet hx).rel hm) (hf a between hm)

mutual
/-- What all visited statements keep is kept by the statement that they are visited in. -/
theorem execute (h : Kept R P) : ∀ (s : Stmt) (m : Machine),
    (∀ t k, Visits s m t k → P t k) → R m (execute s m).2
  | .imports _, m, _ => refl m
  | .assign span name confined value, m, hP => h.simple rfl (hP _ _ (.here _ m))
  | .setProperty span target child property value, m, hP => h.simple rfl (hP _ _ (.here _ m))
  | .callMethod span target method args excluded, m, hP => h.simple rfl (hP _ _ (.here _ m))
  | .print span value, m, hP => h.simple rfl (hP _ _ (.here _ m))
  | .branch span condition thenBlock none, m, hP => by
    refine h.bind ((quiet_evaluate condition).placing span) fun value tested htested => ?_
    split
    next htrue =>
      exact h.inBlock (h.executeAll thenBlock _ fun t k hv =>
        hP t k (hv.inside (.thenBlock htested htrue)))
    next => exact refl _
  | .branch span condition thenBlock (some elseBlock), m, hP => by
    refine h.bind ((quiet_evaluate condition).placing span) fun value tested htested => ?_
    split
    next htrue =>
      exact h.inBlock (h.executeAll thenBlock _ fun t k hv =>
        hP t k (hv.inside (.thenBlock htested htrue)))
    next hfalse =>
      exact h.inBlock (h.executeAll elseBlock _ fun t k hv =>
        hP t k (hv.inside (.elseBlock htested (Bool.not_eq_true _ ▸ hfalse))))
  | .whileLoop span condition body, m, hP => by
    rw [execute_whileLoop]
    refine rel_repeatBody (h.quiet (quiet_conditionHolds? span condition)) (h.report · _)
      (fun k between tested a hrounds hk htested => ?_) maxIterations 0 m (Nat.zero_add _) .start
    exact h.inBlock (h.executeAll body _ fun t k hv =>
      hP t k (hv.inside (.whileLoop hrounds hk htested)))
  | .forLoop span counter start stop step body, m, hP => by
    rw [execute_forLoop]
    have hhere := hP _ _ (.here _ m)
    refine h.bind ((quiet_evaluateNumber start).placing span) fun first started hstarted => ?_
    have hcounted : R started (started.counted counter first) :=
      h.count first hhere
        (((quiet_evaluateNumber start).placing span).sameScope.retains.rel hstarted)
    refine IsTrans.trans _ _ _ hcounted ?_
    refine rel_repeatBody (h.quiet (quiet_nextStep? span counter stop step)) (h.report · _)
      (fun k between tested a hrounds hk htested => ?_) maxIterations 0 _ (Nat.zero_add _) .start
    have hretains : m.Retains tested := (retains_rounds hstarted hrounds).trans
      ((quiet_nextStep? span counter stop step).sameScope.retains.rel htested)
    have hblock : R tested (Run.inBlock (Run.executeAll body) tested).2 :=
      h.inBlock (h.executeAll body _ fun t k hv =>
        hP t k (hv.inside (.forLoop hstarted hrounds hk htested)))
    rw [countedRound]
    rcases hran : Run.inBlock (Run.executeAll body) tested with ⟨stopped | done, after⟩
    · rw [bind_apply_of_error _ hran]
      rwa [hran] at hblock
    rw [bind_apply_of_ok _ hran]
    rw [hran] at hblock
    refine IsTrans.trans _ _ _ hblock ?_
    refine h.bind ((quiet_readCounter counter).placing span) fun current last hlast => ?_
    have hafter : tested.Retains after := (retains_inBlock body).rel hran
    have hlast : after.Retains last :=
      ((quiet_readCounter counter).placing span).sameScope.retains.rel hlast
    exact h.count _ hhere ((hretains.trans hafter).trans hlast)
theorem executeAll (h : Kept R P) : ∀ (block : List Stmt) (m : Machine),
    (∀ t k, VisitsIn block m t k → P t k) → R m (executeAll block m).2
  | [], m, _ => refl m
  | first :: more, m, hP => by
    have hfirst : R m (Run.execute first m).2 := h.execute first m fun t k hv => hP t k (.first hv)
    rcases hran : Run.execute first m with ⟨stop | done, between⟩ <;> rw [hran] at hfirst
    · have hplaced : placing first.span (Run.execute first) m =
          (.error (stop.orSpan first.span), between) := by
        rw [placing_apply, hran]
        rfl
      rw [Run.executeAll, bind_apply_of_error _ hplaced]
      exact hfirst
    · have hplaced : placing first.span (Run.execute first) m = (.ok done, between) := by
        rw [placing_apply, hran]
        rfl
      rw [Run.executeAll, bind_apply_of_ok _ hplaced]
      exact IsTrans.trans _ _ _ hfirst
        (h.executeAll more between fun t k hv => hP t k (.more hran hv))
end

theorem runStatement (h : Kept R P) {s : Stmt} {after : Machine}
    (hrun : m.runStatement s = .ok after) (hP : ∀ t k, Visits s m t k → P t k) : R m after := by
  have hexecute := h.execute s m hP
  rcases Machine.runStatement_cases hrun with hran | ⟨d, ended, hran, rfl⟩ <;> rw [hran] at hexecute
  · exact hexecute
  · exact IsTrans.trans _ _ _ hexecute (h.report ended _)

end Kept

/-! ### Visited machines -/

variable {s t : Stmt} {m inner k : Machine} {block : List Stmt}

theorem moves_countedRound (span : Span) (counter : String) (body : List Stmt) (size : Float) :
    Moves (countedRound span counter body size) :=
  (moves_inBlock (moves_executeAll body)).bind fun _ =>
    ((quiet_readCounter counter).placing span).moves.bind fun current =>
      moves_assignCounter counter (current + size)

theorem moves_entered (m : Machine) : m.Moves m.entered :=
  (Machine.Step.enter m).moves (.of_store_eq rfl)

theorem Enters.moves (h : Enters s m block inner) : m.Moves inner := by
  cases h with
  | thenBlock htested _ =>
    exact IsTrans.trans _ _ _ (((quiet_evaluate _).placing _).moves.rel htested) (moves_entered _)
  | elseBlock htested _ =>
    exact IsTrans.trans _ _ _ (((quiet_evaluate _).placing _).moves.rel htested) (moves_entered _)
  | whileLoop hrounds _ htested =>
    have hbetween := hrounds.rel (quiet_conditionHolds? _ _).moves fun _ =>
      moves_inBlock (moves_executeAll block)
    exact IsTrans.trans _ _ _ hbetween
      (IsTrans.trans _ _ _ ((quiet_conditionHolds? _ _).moves.rel htested) (moves_entered _))
  | forLoop hstarted hrounds _ htested =>
    have hstart := ((quiet_evaluateNumber _).placing _).moves.rel hstarted
    have hbetween := hrounds.rel (quiet_nextStep? _ _ _ _).moves fun size =>
      moves_countedRound _ _ block size
    exact IsTrans.trans _ _ _ hstart <| IsTrans.trans _ _ _ (moves_assignCounter _ _ _) <|
      IsTrans.trans _ _ _ hbetween <|
      IsTrans.trans _ _ _ ((quiet_nextStep? _ _ _ _).moves.rel htested) (moves_entered _)

theorem Visits.moves (h : Visits s m t k) : m.Moves k := by
  induction h with
  | here => exact refl _
  | inside henters _ hdone _ ih =>
    exact IsTrans.trans _ _ _ henters.moves
      (IsTrans.trans _ _ _ ((moves_executeAll _).rel hdone) ih)

/-- What is visited inside a statement is visited inside more blocks. -/
theorem Enters.length_blocks (h : Enters s m block inner) :
    inner.scope.blocks.length = m.scope.blocks.length + 1 := by
  have hentered : ∀ {tested : Machine}, m.Retains tested →
      tested.entered.scope.blocks.length = m.scope.blocks.length + 1 := fun h =>
    congrArg (· + 1) h.length_eq.symm
  cases h with
  | thenBlock htested _ =>
    exact hentered (((quiet_evaluate _).placing _).sameScope.retains.rel htested)
  | elseBlock htested _ =>
    exact hentered (((quiet_evaluate _).placing _).sameScope.retains.rel htested)
  | whileLoop hrounds _ htested =>
    have hbetween := hrounds.rel (quiet_conditionHolds? _ _).sameScope.retains fun _ =>
      retains_inBlock block
    exact hentered (hbetween.trans ((quiet_conditionHolds? _ _).sameScope.retains.rel htested))
  | forLoop hstarted hrounds _ htested =>
    exact hentered ((retains_rounds hstarted hrounds).trans
      ((quiet_nextStep? _ _ _ _).sameScope.retains.rel htested))

theorem Visits.length_blocks (h : Visits s m t k) :
    (s = t ∧ m = k) ∨ m.scope.blocks.length < k.scope.blocks.length := by
  induction h with
  | here => exact .inl ⟨rfl, rfl⟩
  | @inside _ _ _ _ _ between _ _ _ _ henters _ hdone _ ih =>
    have hlength := henters.length_blocks
    have hkept := ((retains_executeAll _).rel hdone).length_eq
    rcases ih with ⟨-, rfl⟩ | hlt <;> right <;> omega

/-! ### Success of visited statements -/

theorem exists_of_inBlock_eq_ok {after : Machine}
    (h : inBlock (executeAll block) m = (.ok (), after)) :
    ∃ ended, executeAll block m.entered = (.ok (), ended) := by
  rw [inBlock_apply] at h
  exact ⟨(executeAll block m.entered).2, Prod.ext (Prod.ext_iff.1 h).1 rfl⟩

/-- A statement that succeeds succeeds in every block that it enters. -/
theorem Enters.exists_eq_ok {after : Machine} (h : Enters s m block inner)
    (hs : execute s m = (.ok (), after)) : ∃ ended, executeAll block inner = (.ok (), ended) := by
  cases h with
  | @thenBlock _ _ _ elseBlock _ _ _ htested htrue =>
    cases elseBlock <;> rw [execute, bind_apply_of_ok _ htested, if_pos htrue] at hs <;>
      exact exists_of_inBlock_eq_ok hs
  | elseBlock htested hfalse =>
    rw [execute, bind_apply_of_ok _ htested, if_neg (Bool.eq_false_iff.1 hfalse)] at hs
    exact exists_of_inBlock_eq_ok hs
  | whileLoop hrounds hk htested =>
    rw [execute_whileLoop] at hs
    obtain ⟨ended, hbody⟩ := exists_of_repeatBody_eq_ok hs hrounds hk htested
    exact exists_of_inBlock_eq_ok hbody
  | forLoop hstarted hrounds hk htested =>
    rw [execute_forLoop, bind_apply_of_ok _ hstarted] at hs
    obtain ⟨ended, hbody⟩ := exists_of_repeatBody_eq_ok hs hrounds hk htested
    obtain ⟨_, last, hblock, -⟩ := exists_of_bind_eq_ok hbody
    exact exists_of_inBlock_eq_ok hblock

/-- A statement succeeds only if all do that it comes to. -/
theorem Visits.exists_eq_ok {after : Machine} (h : Visits s m t k)
    (hs : execute s m = (.ok (), after)) : ∃ ended, execute t k = (.ok (), ended) := by
  induction h generalizing after with
  | here => exact ⟨after, hs⟩
  | inside henters hblock hdone _ ih =>
    obtain ⟨ended, hran⟩ := henters.exists_eq_ok hs
    rw [hblock, executeAll_append_of_ok _ hdone] at hran
    obtain ⟨_, last, hfirst, -⟩ := exists_of_bind_eq_ok hran
    exact ih (placing_eq_ok hfirst)

end Run

namespace Program
variable {p : Program} {modules : Table Value} {store : Store}

def Visits (p : Program) (modules : Table Value) (store : Store) (t : Stmt) (k : Machine) : Prop :=
  ∃ done s rest m, p.statements = done ++ s :: rest ∧
    done.foldlM Machine.runStatement (.start modules store) = .ok m ∧ Run.Visits s m t k

theorem Visits.moves {t : Stmt} {k : Machine} (h : p.Visits modules store t k) :
    (Machine.start modules store).Moves k := by
  obtain ⟨done, s, rest, m, -, hdone, hvisits⟩ := h
  exact IsTrans.trans _ _ _ (Machine.moves_foldlM hdone) hvisits.moves

/-- A program comes to a machine between two of its statements, or before or after a statement at
any depth of blocks. -/
def ComesTo (p : Program) (modules : Table Value) (store : Store) (m : Machine) : Prop :=
  p.Reaches modules store m ∨
    ∃ t k, p.Visits modules store t k ∧ (m = k ∨ m = (Run.execute t k).2)

theorem ComesTo.moves {m : Machine} (h : p.ComesTo modules store m) :
    (Machine.start modules store).Moves m := by
  rcases h with hreaches | ⟨t, k, hvisits, rfl | rfl⟩
  · exact hreaches.moves
  · exact hvisits.moves
  · exact IsTrans.trans _ _ _ hvisits.moves (Run.moves_execute t k)

/-- What all statements keep that a program comes to is kept by the program. -/
theorem Reaches.kept {R : Machine → Machine → Prop} [IsPreorder Machine R]
    {P : Stmt → Machine → Prop} (hkept : Run.Kept R P) {m : Machine}
    (h : p.Reaches modules store m) (hP : ∀ t k, p.Visits modules store t k → P t k) :
    R (.start modules store) m := by
  obtain ⟨done, rest, hstatements, hdone⟩ := h
  induction done using List.reverseRecOn generalizing rest m with
  | nil =>
    cases hdone
    exact refl _
  | append_singleton done last ih =>
    obtain ⟨before, hbefore, hsingle⟩ := Machine.exists_of_foldlM_append hdone
    obtain ⟨after, hlast, hend⟩ := Machine.exists_of_foldlM_cons hsingle
    cases hend
    have hstatements' : p.statements = done ++ last :: rest := by
      rw [hstatements, List.append_assoc]
      rfl
    have hfirst : R (.start modules store) before := ih (last :: rest) hstatements' hbefore
    have hmore : R before m := hkept.runStatement hlast fun t k hv =>
      hP t k ⟨done, last, rest, before, hstatements', hbefore, hv⟩
    exact IsTrans.trans _ _ _ hfirst hmore

end Program
end SceneScript
