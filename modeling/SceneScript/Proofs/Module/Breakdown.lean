import SceneScript.Proofs.Module.Appended
import SceneScript.Proofs.Module.Depth
import SceneScript.Proofs.Module.Severity
import SceneScript.Proofs.Run.Breakdown

namespace SceneScript

/-- The run goes through all statements of the file: each succeeds or stops at a fault that the
result reports, and the statements after it run from the state that it left. -/
def Program.RunsThrough (p : Program) (modules : Table Value) (store : Store) (r : Result) : Prop :=
  ∀ before s after, p.statements = before ++ s :: after → ∃ m left last,
    before.foldlM Machine.runStatement (.start modules store) = .ok m ∧
    ((Run.execute s m).1 = .ok () ∧ left = (Run.execute s m).2 ∨
      ∃ d, (Run.execute s m).1 = .error (.fault d) ∧ .error (d.orSpan s.span) ∈ r.notices ∧
        left = { (Run.execute s m).2 with
          notices := (Run.execute s m).2.notices.push (.error (d.orSpan s.span)) }) ∧
    after.foldlM Machine.runStatement left = .ok last ∧ last.result = r

theorem Program.runsThrough_of_run {p : Program} {modules : Table Value}
    {store : Store} {r : Result}
    (h : p.run modules store = .ok r) : p.RunsThrough modules store r := by
  intro before s after heq
  obtain ⟨last, hend, rfl⟩ := run_eq_ok_iff.1 h
  rw [heq] at hend
  obtain ⟨m, hbefore, hrest⟩ := Machine.exists_of_foldlM_append hend
  obtain ⟨left, hs, hafter⟩ := Machine.exists_of_foldlM_cons hrest
  refine ⟨m, left, last, hbefore, ?_, hafter, rfl⟩
  have hextends : left.notices.toList <+: last.notices.toList :=
    (Machine.moves_foldlM hafter).leads.extends.notices
  rcases Machine.runStatement_cases hs with hrun | ⟨d, ended, hrun, hleft⟩
  · exact .inl ⟨by rw [hrun], by rw [hrun]⟩
  · have hreported : .error (d.orSpan s.span) ∈ left.notices.toList := by simp [hleft]
    exact .inr ⟨d, by rw [hrun], hextends.subset hreported, by rw [hrun, hleft]⟩

namespace Module
variable {setting : Setting} {depth : Nat} {c inner : Call} {path : List String}

namespace Call

/-- A compile that is begun during another one, with the names of the imports that lead to it, and
the bounds on how deep the imports of both are nested. -/
inductive Descends (setting : Setting) : Nat → Call → List String → Nat → Call → Prop
  | self {depth : Nat} (c : Call) : Descends setting depth c [] depth c
  | through {depth inside : Nat} {c middle inner : Call} {source : String} {path : List String} :
    (source, middle) ∈ c.calls setting depth → Descends setting depth middle path inside inner →
      Descends setting (depth + 1) c (source :: path) inside inner

end Call

theorem loadModule_eq_error_of_called {compile : UnitCompiler} {source : String} {span : Span}
    {state : Loading} {call : Call} {abort : Abort}
    (hcall : calledFor? setting source span state = some call)
    (hcompile : compile call.key call.source call.before = .error abort) :
    loadModule setting compile source span state = .error abort := by
  obtain ⟨hlibrary, notices, hlocate⟩ := calledFor?_eq_some hcall
  unfold loadModule
  rw [hlibrary]
  dsimp only
  rw [Load.bind_apply_of_ok hlocate]
  exact Load.bind_apply_of_error hcompile

/-- If the compile that is begun for an import has no result, its importer has none either. -/
theorem resolveImports_eq_error_of_mem {compile : UnitCompiler} {imports : List Import}
    {table : Table Value} {notices : List Notice} {state : Loading} {name : String} {call : Call}
    {abort : Abort} (hcall : (name, call) ∈ calledForAll setting compile imports state)
    (hcompile : compile call.key call.source call.before = .error abort) :
    resolveImports setting compile imports table notices state = .error abort := by
  induction imports generalizing table notices state with
  | nil => cases hcall
  | cons i more ih =>
    rw [resolveImports]
    rcases hload : loadModule setting compile i.source i.span state with other | ⟨loaded, between⟩
    · -- The import that fails is the last one for which a compile is begun.
      rw [calledForAll, hload, List.append_nil, Option.mem_toList, Option.map_eq_some_iff] at hcall
      obtain ⟨begun, hbegun, heq⟩ := hcall
      cases heq
      rw [loadModule_eq_error_of_called hbegun hcompile] at hload
      cases hload
      exact Load.bind_apply_of_error (loadModule_eq_error_of_called hbegun hcompile)
    · rw [Load.bind_apply_of_ok hload]
      have hrest : (name, call) ∈ calledForAll setting compile more between := by
        refine ((mem_calledForAll_cons hload).1 hcall).resolve_left ?_
        rintro ⟨-, hbegun⟩
        rw [loadModule_eq_error_of_called hbegun hcompile] at hload
        cases hload
      rcases loaded with ⟨d | id, reported⟩
      · exact ih hrest
      · exact ih hrest

namespace Call
variable {depth below : Nat} {abort : Abort}

/-- A run that breaks down leaves its compile without a result. -/
theorem eq_breakdown_of_runs {p : Program} {table : Table Value} {store : Store} {stop : Stop}
    (hruns : c.Runs setting depth p table store) (hstop : p.run table store = .error stop) :
    compileUnit setting depth c.key c.source c.before = .error .breakdown := by
  obtain ⟨hprogram, below, notices, between, rfl, hresolve, rfl⟩ := hruns
  rw [compileUnit, compileWith]
  simp only [hprogram]
  rw [Load.modify_bind_apply, Load.bind_apply_of_ok hresolve]
  dsimp only
  rw [Load.modify_bind_apply]
  refine Load.bind_apply_of_error ?_
  unfold runProgram
  rw [Loading.store_leave, hstop]

/-- Any abort inside a compile is one of the whole compile. -/
theorem eq_error_of_mem_calls {name : String} {call : Call}
    (hcall : (name, call) ∈ c.calls setting below)
    (hcompile : compileUnit setting below call.key call.source call.before = .error abort) :
    compileUnit setting (below + 1) c.key c.source c.before = .error abort := by
  rw [calls, imports] at hcall
  rw [compileUnit, compileWith]
  cases hprogram : Program.ofSource c.source with
  | error d =>
    rw [hprogram] at hcall
    cases hcall
  | ok p =>
    rw [hprogram] at hcall
    dsimp only
    rw [Load.modify_bind_apply]
    exact Load.bind_apply_of_error (resolveImports_eq_error_of_mem hcall hcompile)

theorem Descends.eq_error (h : Descends setting depth c path below inner)
    (hinner : compileUnit setting below inner.key inner.source inner.before = .error abort) :
    compileUnit setting depth c.key c.source c.before = .error abort := by
  induction h with
  | self c => exact hinner
  | through hcall _ ih => exact eq_error_of_mem_calls hcall (ih hinner)

/-- A compile breaks down exactly if a run inside it makes a call that is undefined. -/
theorem eq_breakdown_iff : compileUnit setting depth c.key c.source c.before = .error .breakdown ↔
    ∃ path below inner p table store call, Descends setting depth c path below inner ∧
      inner.Runs setting below p table store ∧ p.Makes table store call ∧ call.IsUndefined := by
  constructor
  · intro h
    induction depth generalizing c with
    | zero => cases h
    | succ depth ih =>
      rcases run_or_mem_calls_of_eq_error h with ⟨-, p, table, store, stop, hruns, hstop⟩ |
        ⟨name, middle, hmiddle, h⟩
      · obtain ⟨-, call, hcall, hundefined⟩ := Program.run_eq_error_iff.1 hstop
        exact ⟨[], _, c, p, table, store, call, .self c, hruns, hcall, hundefined⟩
      · obtain ⟨path, below, inner, p, table, store, call, hinner, hrest⟩ := ih h
        exact ⟨name :: path, below, inner, p, table, store, call, .through hmiddle hinner, hrest⟩
  · rintro ⟨path, below, inner, p, table, store, call, hinner, hruns, hcall, hundefined⟩
    have hstop : p.run table store = .error .breakdown :=
      Program.run_eq_error_iff.2 ⟨rfl, call, hcall, hundefined⟩
    exact hinner.eq_error (eq_breakdown_of_runs hruns hstop)

/-- A compile that is begun inside one with a result has one itself, and its notices are forwarded
under the names of the imports that lead to it. -/
theorem Descends.exists_result (h : Descends setting depth c path below inner) {result : Result}
    {after : Loading} (hc : compileUnit setting depth c.key c.source c.before =
      .ok (result, after)) :
    ∃ reached left, compileUnit setting below inner.key inner.source inner.before =
      .ok (reached, left) ∧ ∀ n ∈ reached.notices, path.foldr Notice.forwarded n ∈
        result.notices := by
  induction h generalizing result after with
  | self c => exact ⟨result, after, hc, fun n hn => hn⟩
  | @through depth below c middle inner source path hcall _ ih =>
    rcases hmiddle : compileUnit setting depth middle.key middle.source middle.before with
      abort | ⟨between, left⟩
    · rw [eq_error_of_mem_calls hcall hmiddle] at hc
      cases hc
    · obtain ⟨reached, last, hreached, hnotices⟩ := ih hmiddle
      refine ⟨reached, last, hreached, fun n hn => ?_⟩
      have hby : (⟨c, result, after⟩ : Compilation).By (compileUnit setting (depth + 1)) := hc
      refine (Compilation.forwarded_mem_iff hby).2 ⟨⟨middle, between, left⟩, ?_, hnotices n hn⟩
      exact Compilation.mem_modules.2 ⟨middle, hcall, completed?_of_ok hmiddle⟩

/-- What a compile with a result makes of its source: the fault why it is no program, or a run that
goes through all statements, with all that it reports. -/
theorem result_of_runs {result : Result} {after : Loading}
    (h : compileUnit setting depth c.key c.source c.before = .ok (result, after)) :
    (∀ d, Program.ofSource c.source = .error d → .error (d.withSource c.source) ∈ result.notices) ∧
    ∀ p table store, c.Runs setting depth p table store → ∃ ran, p.run table store = .ok ran ∧
      p.RunsThrough table store ran ∧ ∀ n ∈ ran.notices, n ∈ result.notices := by
  cases depth with
  | zero => cases h
  | succ depth =>
    rw [compileUnit] at h
    rcases compileWith_eq_ok h with ⟨d, hprogram, rfl, -⟩ |
      ⟨p, table, notices, between, ran, hprogram, hresolve, hrun, rfl, -⟩
    · refine ⟨fun d' hd' => ?_, fun p table store hruns => ?_⟩
      · rw [hprogram] at hd'
        cases hd'
        exact List.mem_singleton_self _
      · have hprogram' := hruns.1
        rw [hprogram] at hprogram'
        cases hprogram'
    -- Compiling and running are functions: the run that `hruns` speaks of is the one that was made.
    · refine ⟨fun d hd => ?_, fun p' table' store hruns => ?_⟩
      · rw [hprogram] at hd
        cases hd
      · obtain ⟨hprogram', below, notices', between', hdepth, hresolve', rfl⟩ := hruns
        cases hdepth
        rw [hprogram] at hprogram'
        cases hprogram'
        rw [hresolve] at hresolve'
        cases hresolve'
        exact ⟨ran, hrun, Program.runsThrough_of_run hrun, fun n hn => List.mem_append_right _ hn⟩

end Call

/-- A compile has a result exactly if no run inside it, its own or that of a module at any depth,
makes a library call that is undefined. Then each fault is an entry of the result, forwarded if it
is a module's: the fault of a source that is no program, and that of each statement, after which the
other statements run. -/
theorem Loader.compileRoot_returns_iff (l : Loader) (hl : l.remote.Finite) (name source : String)
    (files : Table String) :
    ((∃ r l', l.compileRoot name source files = .ok (r, l')) ↔
      ∀ path below inner p table store call,
        Call.Descends (l.setting files) (l.depthBound files) (l.rootCall name source) path below
          inner →
        inner.Runs (l.setting files) below p table store → p.Makes table store call →
          ¬ call.IsUndefined) ∧
    ∀ r l', l.compileRoot name source files = .ok (r, l') → ∀ path below inner,
      Call.Descends (l.setting files) (l.depthBound files) (l.rootCall name source) path below
        inner →
      (∀ d, Program.ofSource inner.source = .error d →
        path.foldr Notice.forwarded (.error (d.withSource inner.source)) ∈ r.notices) ∧
      ∀ p table store, inner.Runs (l.setting files) below p table store →
        ∃ ran, p.run table store = .ok ran ∧ p.RunsThrough table store ran ∧
          ∀ n ∈ ran.notices, path.foldr Notice.forwarded n ∈ r.notices := by
  refine ⟨?_, ?_⟩
  · have hbreaks : compileUnit (l.setting files) (l.depthBound files) name source
        (l.rootCall name source).before = .error .breakdown ↔ _ :=
      Call.eq_breakdown_iff (c := l.rootCall name source)
    -- With finitely many remote texts the depth is never used up, so there is no other way to stop.
    have hdeep := compileUnit_ne_tooDeep hl name source files
    rw [compileRoot, compileWithin_eq]
    rcases hroot : compileUnit (l.setting files) (l.depthBound files) name source
        (l.rootCall name source).before with (_ | _) | ⟨r, state⟩
    · obtain ⟨path, below, inner, p, table, store, call, hinner, hruns, hcall, hundefined⟩ :=
        hbreaks.1 hroot
      constructor
      · intro h
        obtain ⟨r, l', h⟩ := h
        cases h
      · intro hall
        exact absurd hundefined
          (hall path below inner p table store call hinner hruns hcall)
    · exact absurd hroot hdeep
    · refine iff_of_true ⟨r, l.after state, rfl⟩ ?_
      intro path below inner p table store call hinner hruns hcall hundefined
      have hbroken := hbreaks.2
        ⟨path, below, inner, p, table, store, call, hinner, hruns, hcall, hundefined⟩
      rw [hroot] at hbroken
      cases hbroken
  · intro r l' h path below inner hinner
    obtain ⟨state, hroot, -⟩ := compileWithin_eq_ok h
    obtain ⟨reached, left, hreached, hnotices⟩ :=
      hinner.exists_result (c := l.rootCall name source) hroot
    obtain ⟨hfault, hruns⟩ := Call.result_of_runs hreached
    refine ⟨fun d hd => hnotices _ (hfault d hd), fun p table store hrun => ?_⟩
    obtain ⟨ran, hran, hthrough, hsub⟩ := hruns p table store hrun
    exact ⟨ran, hran, hthrough, fun n hn => hnotices n (hsub n hn)⟩

/-- A square root of a negative number is a bound of `clamp` that cannot be compared: the compile
has no result, and the line after it is not printed. -/
theorem Loader.compileRoot_breaks_down_of_nan :
    let l := Loader.new .standard .offline
    let source := "import math\nx = math.clamp(1, math.sqrt(0 - 1), 2)\nconsole.print(\"after\")"
    l.remote.Finite ∧ (¬ ∃ r l', l.compileRoot mainName source .empty = .ok (r, l')) ∧
      ∃ path below inner p table store call,
        Call.Descends (l.setting .empty) (l.depthBound .empty)
          (l.rootCall mainName source) path below
          inner ∧
        inner.Runs (l.setting .empty) below p table store ∧ p.Makes table store call ∧
          call.IsUndefined := by
  intro l source
  have hfinite : l.remote.Finite := Remote.finite_offline
  have hnone : ¬ ∃ r l', l.compileRoot mainName source .empty = .ok (r, l') := by
    have hempty : (l.compileRoot mainName source .empty).toOption.isSome = false := by
      decide +kernel
    rintro ⟨r, l', h⟩
    rw [h] at hempty
    cases hempty
  refine ⟨hfinite, hnone, ?_⟩
  -- If all calls were defined, the compile would have a result.
  by_contra hdefined
  refine hnone ((compileRoot_returns_iff l hfinite mainName source .empty).1.2 ?_)
  intro path below inner p table store call hinner hruns hcall hundefined
  exact hdefined ⟨path, below, inner, p, table, store, call, hinner, hruns, hcall, hundefined⟩

end Module
end SceneScript
