import SceneScript.Proofs.Run.Rounds

namespace SceneScript

def Stmt.locals : Stmt → List String
  | assign _ name confined _ => if confined then [name] else []
  | _ => []

/-- The second scope has the blocks of the first one and their names, and in the innermost block
these names too. -/
structure Scope.Restores (names : List String) (s t : Scope) : Prop where
  length_eq : t.blocks.length = s.blocks.length
  /-- No frame loses a name, and the file frame is one of them. -/
  retains : ∀ depth name, (s.binding? depth name).isSome → (t.binding? depth name).isSome
  /-- A block has no new name, unless it is the innermost. -/
  adds : ∀ depth name, depth < s.blocks.length → (t.binding? depth name).isSome →
    (s.binding? depth name).isSome ∨ depth = 0 ∧ name ∈ names
  /-- Behind a frame that holds a name, the name is bound as it was. -/
  shadows : ∀ depth name, (s.binding? depth name).isSome →
    ∀ behind > depth, t.binding? behind name = s.binding? behind name

def Machine.Restores (names : List String) (m after : Machine) : Prop :=
  m.scope.Restores names after.scope

namespace Scope
variable {s t u : Scope} {name : String} {names more : List String}

namespace Restores

theorem refl (names : List String) (s : Scope) : s.Restores names s :=
  ⟨rfl, fun _ _ => id, fun _ _ _ => .inl, fun _ _ _ _ _ => rfl⟩

theorem trans (h : s.Restores names t) (h' : t.Restores names u) : s.Restores names u where
  length_eq := h'.length_eq.trans h.length_eq
  retains depth name hs := h'.retains depth name (h.retains depth name hs)
  adds depth name hlt hu := by
    rcases h'.adds depth name (h.length_eq ▸ hlt) hu with ht | hnew
    · exact h.adds depth name hlt ht
    · exact .inr hnew
  shadows depth name hs behind hgt :=
    (h'.shadows depth name (h.retains depth name hs) behind hgt).trans
      (h.shadows depth name hs behind hgt)

theorem mono (h : s.Restores names t) (hnames : ∀ name ∈ names, name ∈ more) :
    s.Restores more t where
  length_eq := h.length_eq
  retains := h.retains
  adds depth name hlt ht :=
    (h.adds depth name hlt ht).imp_right fun hnew => ⟨hnew.1, hnames name hnew.2⟩
  shadows := h.shadows

/-- The block that was entered is there to be left. -/
theorem binding?_pop (h : s.push.Restores names t) (depth : Nat) (name : String) :
    t.pop.binding? depth name = t.binding? (depth + 1) name := by
  rcases t with ⟨file, _ | ⟨inner, outer⟩⟩
  · cases h.length_eq
  · rfl

/-- The names of a block that is left leave with it, and the frames behind it are all outer ones. -/
theorem pop (h : s.push.Restores names t) : s.Restores [] t.pop where
  length_eq := by
    rw [Scope.pop, List.length_tail, h.length_eq]
    rfl
  retains depth name hs := by
    rw [h.binding?_pop]
    exact h.retains (depth + 1) name hs
  adds depth name hlt ht := by
    rw [h.binding?_pop] at ht
    rcases h.adds (depth + 1) name (Nat.succ_lt_succ hlt) ht with hs | ⟨hzero, -⟩
    · exact .inl hs
    · cases hzero
  shadows depth name hs behind hgt := by
    rw [h.binding?_pop]
    exact h.shadows (depth + 1) name hs (behind + 1) (Nat.succ_lt_succ hgt)

end Restores

theorem restores_bind (s : Scope) (name : String) (confined : Bool) (new : Value) :
    s.Restores (if confined then [name] else []) (s.bind name confined new) := by
  obtain ⟨b, -, hbinding⟩ := s.exists_binding?_bind name confined new
  refine ⟨s.length_blocks_bind name confined new, fun depth other hs => ?_,
    fun depth other hlt ht => ?_, fun depth other hs behind hgt => ?_⟩
  · rw [hbinding]
    split
    · rfl
    · exact hs
  · rw [hbinding] at ht
    split at ht
    next hnew =>
      obtain ⟨rfl, rfl⟩ := hnew
      cases confined with
      | true => exact .inr ⟨rfl, List.mem_singleton_self _⟩
      | false => exact .inl (isSome_binding?_depthOf hlt)
    next => exact .inl ht
  · rw [hbinding, if_neg]
    rintro ⟨rfl, rfl⟩
    -- Such a frame would be changed behind one that holds the name.
    rw [binding?_eq_none_of_lt_depthOf hgt] at hs
    cases hs

end Scope

namespace Machine

instance (names : List String) : IsPreorder Machine (Machine.Restores names) where
  refl m := .refl names m.scope
  trans _ _ _ := .trans

def SameBehind (name : String) (m after : Machine) : Prop :=
  ∀ behind > 0, after.scope.binding? behind name = m.scope.binding? behind name

instance (name : String) : IsPreorder Machine (SameBehind name) where
  refl _ _ _ := rfl
  trans _ _ _ h h' behind hbehind := (h' behind hbehind).trans (h behind hbehind)

theorem SameScope.restores {m after : Machine} (h : m.SameScope after) (names : List String) :
    m.Restores names after := by
  rw [Restores, show after.scope = m.scope from h]
  exact .refl names _

end Machine

namespace Run
variable {α : Type} {names more : List String}

theorem Keeps.restores {x : Run α} (h : Keeps Machine.SameScope x) (names : List String) :
    Keeps (Machine.Restores names) x := h.imp fun hsame => hsame.restores names

theorem Keeps.sameBehind {x : Run α} {name : String} (h : Keeps Machine.SameScope x) :
    Keeps (Machine.SameBehind name) x :=
  h.imp fun {m after} hsame behind _ =>
    congrArg (Scope.binding? · behind name) (show after.scope = m.scope from hsame)

theorem Keeps.restores_mono {x : Run α} (h : Keeps (Machine.Restores names) x)
    (hnames : ∀ name ∈ names, name ∈ more) : Keeps (Machine.Restores more) x :=
  h.imp fun hrestores => Scope.Restores.mono hrestores hnames

/-- A block is left however it ends. -/
theorem restores_inBlock {x : Run α} (h : Keeps (Machine.Restores names) x) :
    Keeps (Machine.Restores []) (inBlock x) := fun m => Scope.Restores.pop (h m.entered)

theorem restores_assignCounter (counter : String) (x : Float) :
    Keeps (Machine.Restores []) (modifyScope (·.assign counter (.number x))) := fun m =>
  m.scope.restores_bind counter false (.number x)

theorem restores_countedRound (span : Span) (counter : String) {body : List Stmt} (size : Float)
    (h : Keeps (Machine.Restores names) (executeAll body)) :
    Keeps (Machine.Restores []) (countedRound span counter body size) :=
  (restores_inBlock h).bind fun _ =>
    (((quiet_readCounter counter).placing span).sameScope.restores []).bind fun current =>
      restores_assignCounter counter (current + size)

mutual
/-- A statement restores the scope, and makes no other names in its block than its own. -/
theorem restores_execute : ∀ s : Stmt, Keeps (Machine.Restores s.locals) (execute s)
  | .imports _ => .pure ()
  | .assign span name confined value =>
    (((quiet_evaluate value).placing span).sameScope.restores _).bind fun evaluated =>
      ((sameScope_bindObject name evaluated).restores _).bind fun bound m =>
        m.scope.restores_bind name confined bound
  | .setProperty span target child property value =>
    ((sameScope_setProperty target child property value).placing span).restores []
  | .callMethod span target method args excluded =>
    ((sameScope_callMethod target method args excluded).placing span).restores []
  | .print span value =>
    (((quiet_evaluate value).placing span).sameScope.restores []).bind fun evaluated =>
      (Keeps.display evaluated).bind fun _ _ => .refl _ _
  | .branch span condition thenBlock none => by
    refine (((quiet_evaluate condition).placing span).sameScope.restores []).bind fun value => ?_
    split
    · exact restores_inBlock (restores_executeAll thenBlock)
    · exact .pure ()
  | .branch span condition thenBlock (some elseBlock) => by
    refine (((quiet_evaluate condition).placing span).sameScope.restores []).bind fun value => ?_
    split
    · exact restores_inBlock (restores_executeAll thenBlock)
    · exact restores_inBlock (restores_executeAll elseBlock)
  | .whileLoop span condition body => by
    rw [execute_whileLoop]
    exact .repeatBody ((quiet_conditionHolds? span condition).sameScope.restores [])
      (fun _ => restores_inBlock (restores_executeAll body))
      ((sameScope_reportLimit span).restores []) maxIterations
  | .forLoop span counter start stop step body => by
    rw [execute_forLoop]
    refine (((quiet_evaluateNumber start).placing span).sameScope.restores []).bind fun first => ?_
    refine (restores_assignCounter counter first).bind fun _ => ?_
    exact .repeatBody ((quiet_nextStep? span counter stop step).sameScope.restores [])
      (fun size => restores_countedRound span counter size (restores_executeAll body))
      ((sameScope_reportLimit span).restores []) maxIterations
theorem restores_executeAll : ∀ block : List Stmt,
    Keeps (Machine.Restores (block.flatMap Stmt.locals)) (executeAll block)
  | [] => .pure ()
  | first :: more => by
    refine (((restores_execute first).placing first.span).restores_mono ?_).bind fun _ =>
      (restores_executeAll more).restores_mono ?_
    · exact fun name hname => List.mem_append_left _ hname
    · exact fun name hname => List.mem_append_right _ hname
end

/-- A block goes on where its beginning has led to. -/
theorem executeAll_append_of_ok {done : List Stmt} {m between : Machine} (rest : List Stmt)
    (hdone : executeAll done m = (.ok (), between)) :
    executeAll (done ++ rest) m = executeAll rest between := by
  induction done generalizing m with
  | nil =>
    cases hdone
    rfl
  | cons first more ih =>
    obtain ⟨_, next, hfirst, hmore⟩ := exists_of_bind_eq_ok hdone
    rw [List.cons_append, executeAll, bind_apply_of_ok _ hfirst]
    exact ih hmore

variable {span : Span} {name : String} {value : Expr} {m after : Machine}

theorem sameBehind_local (span : Span) (name : String) (value : Expr) :
    Keeps (Machine.SameBehind name) (execute (.assign span name true value)) :=
  ((quiet_evaluate value).placing span).sameScope.sameBehind.bind fun evaluated =>
    (sameScope_bindObject name evaluated).sameBehind.bind fun bound m behind hbehind => by
      obtain ⟨b, -, hbinding⟩ := m.scope.exists_binding?_bind name true bound
      exact (hbinding behind name).trans (if_neg fun h => Nat.ne_of_gt hbehind h.1)

theorem isSome_binding?_local (h : execute (.assign span name true value) m = (.ok (), after)) :
    (after.scope.binding? 0 name).isSome := by
  obtain ⟨evaluated, between, -, hrest⟩ := exists_of_bind_eq_ok h
  obtain ⟨bound, placed, -, hbound⟩ := exists_of_bind_eq_ok hrest
  cases hbound
  obtain ⟨b, -, hbinding⟩ := placed.scope.exists_binding?_bind name true bound
  exact Option.isSome_of_eq_some ((hbinding 0 name).trans (if_pos ⟨rfl, rfl⟩))

/-- From a local on, a block leaves the frames behind it alone at the name. -/
theorem sameBehind_executeAll (span : Span) (name : String) (value : Expr) (rest : List Stmt)
    (m : Machine) : m.SameBehind name (executeAll (.assign span name true value :: rest) m).2 := by
  have hfirst := (sameBehind_local span name value).placing span
  rw [executeAll, Stmt.span]
  rcases hran : placing span (execute (.assign span name true value)) m with ⟨stop | done, between⟩
  · rw [bind_apply_of_error _ hran]
    exact hfirst.rel hran
  · rw [bind_apply_of_ok _ hran]
    have hlocal := isSome_binding?_local (placing_eq_ok hran)
    have hrest : between.Restores _ (executeAll rest between).2 := restores_executeAll rest between
    exact IsTrans.trans _ _ _ (hfirst.rel hran) fun behind hbehind =>
      hrest.shadows 0 name hlocal behind hbehind

section
variable {done : List Stmt} {between : Machine} (span : Span) (name : String) (value : Expr)
  (rest : List Stmt)

/-- A block with a local leaves the bindings of its name as they were when the local was made. -/
theorem binding?_inBlock_local (hdone : executeAll done m.entered = (.ok (), between))
    (depth : Nat) :
    (inBlock (executeAll (done ++ .assign span name true value :: rest)) m).2.scope.binding? depth
      name = between.scope.binding? (depth + 1) name := by
  have hleft := restores_executeAll (done ++ .assign span name true value :: rest) m.entered
  have hbehind := sameBehind_executeAll span name value rest between (depth + 1)
    (Nat.succ_pos depth)
  rwa [← executeAll_append_of_ok _ hdone, ← Scope.Restores.binding?_pop hleft] at hbehind

theorem lookup?_inBlock_local (hdone : executeAll done m.entered = (.ok (), between)) :
    (inBlock (executeAll (done ++ .assign span name true value :: rest)) m).2.scope.lookup? name =
      between.scope.pop.lookup? name := by
  have hentered : m.entered.Restores _ between := (restores_executeAll done).rel hdone
  have hbetween : m.scope.Restores [] between.scope.pop := Scope.Restores.pop hentered
  have hafter : m.scope.Restores [] (inBlock (executeAll _) m).2.scope :=
    restores_inBlock (restores_executeAll (done ++ .assign span name true value :: rest)) m
  refine Scope.lookup?_congr (hafter.length_eq.trans hbetween.length_eq.symm) fun depth => ?_
  rw [Scope.Restores.binding?_pop hentered]
  exact binding?_inBlock_local span name value rest hdone depth

end

end Run

theorem Machine.blocks_runStatement {m after : Machine} {s : Stmt}
    (h : m.runStatement s = .ok after) (hm : m.scope.blocks = []) : after.scope.blocks = [] := by
  have hlength : (Run.execute s m).2.scope.blocks.length = 0 := by
    rw [(Run.restores_execute s m).length_eq, hm]
    rfl
  rcases runStatement_cases h with hran | ⟨d, ended, hran, rfl⟩ <;> rw [hran] at hlength
  · exact List.length_eq_zero_iff.1 hlength
  · exact List.length_eq_zero_iff.1 hlength

/-- Between the statements of a file there is no block. -/
theorem Program.Reaches.blocks_eq_nil {p : Program} {modules : Table Value} {store : Store}
    {m : Machine} (h : p.Reaches modules store m) : m.scope.blocks = [] := by
  obtain ⟨done, rest, -, hdone⟩ := h
  refine Machine.of_foldlM (P := (·.scope.blocks = []))
    (fun _ _ _ _ => Machine.blocks_runStatement) hdone ?_
  rw [Machine.start, Scope.blocks_seedAll, Scope.standard, Scope.blocks_seedAll]
  rfl

namespace Run

/-- A statement restores the blocks that it stands in, however it ends. So a local of a block leaves
with it and has changed no other binding of its name, and each statement of a file begins without
blocks. -/
theorem execute_restores_blocks :
    (∀ (s : Stmt) (m : Machine), m.scope.Restores s.locals (execute s m).2.scope) ∧
    (∀ (done rest : List Stmt) (span : Span) (name : String) (value : Expr) (m between : Machine),
      executeAll done m.entered = (.ok (), between) →
        let after := (inBlock (executeAll (done ++ .assign span name true value :: rest)) m).2
        (∀ depth, after.scope.binding? depth name = between.scope.binding? (depth + 1) name) ∧
          after.scope.lookup? name = between.scope.pop.lookup? name) ∧
    ∀ (p : Program) (modules : Table Value) (store : Store) (m : Machine),
      p.Reaches modules store m → m.scope.blocks = [] :=
  ⟨restores_execute,
    fun _ rest span name value _ _ hdone =>
      ⟨binding?_inBlock_local span name value rest hdone,
        lookup?_inBlock_local span name value rest hdone⟩,
    fun _ _ _ _ => Program.Reaches.blocks_eq_nil⟩

/-- A block that assigns to an outer `x` before it makes a local one, which is changed too, and a
program with this block. -/
theorem local_shadows_and_disappears :
    let done : List Stmt := [.assign default "x" false (.string default "before")]
    let block := done ++ [.assign default "x" true (.string default "inner"),
      .assign default "x" false (.string default "changed")]
    let m : Machine := ⟨.empty, Scope.empty.assign "x" (.string "outer"), .empty, #[], #[]⟩
    let branch := Stmt.branch default (.reference default "true" []) block none
    (executeAll done m.entered).1 = .ok () ∧
      (inBlock (executeAll block) m).2.scope.lookup? "x" = some (.string "before") ∧
      ∃ after, Program.Reaches ⟨[branch]⟩ .empty .empty after ∧ after.scope.blocks = [] := by
  intro done block m branch
  obtain ⟨-, hlocal, hreaches⟩ := execute_restores_blocks
  refine ⟨rfl, (hlocal done _ default "x" _ m _ rfl).2, ?_⟩
  have hends : (Machine.runStatement (.start .empty .empty) branch).toOption.isSome = true := by
    decide +kernel
  cases hrun : Machine.runStatement (.start .empty .empty) branch with
  | error stop =>
    rw [hrun] at hends
    cases hends
  | ok after =>
    have hafter : Program.Reaches ⟨[branch]⟩ .empty .empty after := by
      refine ⟨[branch], [], rfl, ?_⟩
      rw [List.foldlM_cons, hrun]
      rfl
    exact ⟨after, hafter, hreaches _ _ _ _ hafter⟩

end Run
end SceneScript
