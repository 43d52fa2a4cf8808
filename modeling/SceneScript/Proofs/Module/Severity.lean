import SceneScript.Command.Basic
import SceneScript.Proofs.Module.Units
import SceneScript.Proofs.Run.Reports

namespace SceneScript

theorem Notice.not_forwarded_of_isOfRun {n : Notice} (h : n.isOfRun = true) :
    n.isForwarded = false := by
  cases n with
  | forwarded source n => cases h
  | _ => rfl

theorem Program.not_forwarded_of_run {p : Program} {modules : Table Value}
    {store : Store} {r : Result}
    (h : p.run modules store = .ok r) : ∀ n ∈ r.notices, n.isForwarded = false :=
  fun n hn => Notice.not_forwarded_of_isOfRun (isOfRun_of_run h n hn)

theorem Result.fatalErrors_eq_nil_iff (r : Result) :
    r.fatalErrors = [] ↔ ∀ n ∈ r.notices, n.isFault = false ∧ n.isForwarded = false := by
  rw [fatalErrors, List.filter_eq_nil_iff, errors]
  simp only [List.forall_mem_map, Bool.not_eq_true', Bool.not_eq_false]
  exact forall₂_congr fun n _ => n.isWarning_iff

namespace Module

namespace Compilation
variable {setting : Setting} {depth : Nat} {c unit : Compilation} {source : String} {n : Notice}

/-- What a compile forwards are the notices of the modules that are compiled for its imports. -/
theorem forwarded_mem_iff (h : c.By (compileUnit setting (depth + 1))) :
    .forwarded source n ∈ c.result.notices ↔
      ∃ unit, (source, unit) ∈ c.modules setting depth ∧ n ∈ unit.result.notices := by
  rw [exists_module_iff, Call.calls, Call.imports]
  rcases compileWith_eq_ok h with ⟨d, hprogram, hresult, -⟩ |
    ⟨p, table, notices, between, ran, hprogram, hresolve, hrun, hresult, -⟩
  · rw [hprogram, hresult]
    simp [Result.failed, calledForAll]
  · rw [hprogram, hresult]
    dsimp only
    rw [forwarded_mem_append_iff (Program.not_forwarded_of_run hrun),
      forwarded_mem_of_resolveImports hresolve, or_iff_right (List.not_mem_nil)]

/-- A compile forwards nothing exactly if no module under it produces a notice. -/
theorem forwards_nothing_iff (h : c.By (compileUnit setting depth)) :
    (∀ n ∈ c.result.notices, n.isForwarded = false) ↔
      ∀ unit, Under setting depth c unit → unit.own = [] := by
  -- The induction is on the depth: what a compile forwards is what the next level reports, and a
  -- level reports nothing if it produces nothing and forwards nothing.
  induction depth generalizing c with
  | zero => cases h
  | succ depth ih =>
    constructor
    · intro hnone
      have hsilent : ∀ {source middle}, (source, middle) ∈ c.modules setting depth →
          ∀ n, n ∉ middle.result.notices := fun {source middle} hmiddle n hn =>
        absurd (hnone _ ((forwarded_mem_iff h).2 ⟨middle, hmiddle, hn⟩)) Bool.noConfusion
      intro unit hunder
      cases hunder with
      | direct hunit =>
        rw [List.eq_nil_iff_forall_not_mem]
        exact fun n hn => hsilent hunit n ((mem_own unit n).1 hn).1
      | nested hmiddle hunder =>
        exact (ih (by_of_mem_modules hmiddle)).1
          (fun n hn => absurd hn (hsilent hmiddle n)) unit hunder
    · intro hunder n hn
      cases n with
      | forwarded source n =>
        obtain ⟨unit, hunit, hmem⟩ := (forwarded_mem_iff h).1 hn
        have hown : n ∈ unit.own := by
          rw [mem_own]
          refine ⟨hmem, (ih (by_of_mem_modules hunit)).2 ?_ n hmem⟩
          exact fun inner hinner => hunder inner (.nested hunit hinner)
        rw [hunder unit (.direct hunit)] at hown
        cases hown
      | _ => rfl

/-- A compile has no fatal errors exactly if it produces no fault itself and the modules under it
produce nothing at all, no warning either. -/
theorem fatalErrors_eq_nil_iff (h : c.By (compileUnit setting depth)) :
    c.result.fatalErrors = [] ↔ (∀ n ∈ c.own, n.isFault = false) ∧
      ∀ unit, Under setting depth c unit → unit.own = [] := by
  rw [Result.fatalErrors_eq_nil_iff, ← forwards_nothing_iff h]
  constructor
  · intro hall
    exact ⟨fun n hn => (hall n ((mem_own c n).1 hn).1).1, fun n hn => (hall n hn).2⟩
  · rintro ⟨hown, hnone⟩ n hn
    exact ⟨hown n ((mem_own c n).2 ⟨hn, hnone n hn⟩), hnone n hn⟩

end Compilation

end Module

namespace Command

def rootOf (s : Surroundings) (path : String) (options : Options) : String × Table String :=
  let files := (workspaceOf s (parentPath path) options.loader.config.naming.fileExtension).1
  (if files.contains (fileName path) then fileName path else Module.Loader.mainName, files)

/-- A run of a file succeeds exactly if its compile has no fatal errors. -/
theorem exitCode_performRun {s : Surroundings} {path source : String}
    {options : Options} {r : Result} {l' : Module.Loader} (hread : s.read path = .ok source)
    (h : options.loader.compileRoot (rootOf s path options).1 source (rootOf s path options).2 =
      .ok (r, l')) :
    (performRun s path options).exitCode = if r.fatalErrors.isEmpty then 0 else 1 := by
  have hcompiled : (if (rootOf s path options).2.contains (fileName path)
        then options.loader.compileRoot (fileName path) source (rootOf s path options).2
        else options.loader.compile source (rootOf s path options).2) = .ok (r, l') := by
    rw [← h, rootOf]
    dsimp only
    split <;> rfl
  unfold rootOf at hcompiled
  dsimp only at hcompiled
  unfold performRun
  rw [hread]
  dsimp only
  rw [hcompiled]

end Command

namespace Module.Loader

/-- A compile has no fatal errors, and a run of the file succeeds, exactly if the root produces no
fault and the modules under it, at any depth of imports, produce no notice at all: what is a warning
where it is produced is fatal where it is forwarded to. -/
theorem fatalErrors_compileRoot_iff {l l' : Loader} {name source : String} {files : Table String}
    {r : Result} (h : l.compileRoot name source files = .ok (r, l')) :
    ∃ root, l.root? name source files = some root ∧ root.result = r ∧
      (r.fatalErrors = [] ↔ (∀ n ∈ root.own, n.isFault = false) ∧
        ∀ unit, Compilation.Under (l.setting files) (l.depthBound files) root unit →
          unit.own = []) ∧
      ∀ (s : Command.Surroundings) (path : String) (options : Options),
        s.read path = .ok source → options.loader = l →
        Command.rootOf s path options = (name, files) →
          ((Command.performRun s path options).exitCode = 0 ↔ r.fatalErrors = []) := by
  obtain ⟨root, hroot, rfl, -, hby⟩ := exists_root_of_compileRoot h
  refine ⟨root, hroot, rfl, Compilation.fatalErrors_eq_nil_iff hby, ?_⟩
  intro s path options hread hloader hrootOf
  subst hloader
  have hcompile : options.loader.compileRoot (Command.rootOf s path options).1 source
      (Command.rootOf s path options).2 = .ok (root.result, l') := by
    rw [hrootOf]
    exact h
  rw [Command.exitCode_performRun hread hcompile]
  cases root.result.fatalErrors with
  | nil => simp
  | cons first more => simp

/-- A module that a module does not find is a warning, and the run of the root fails for it. -/
theorem fatalErrors_of_forwarded_warning :
    let files : Table String := .ofList [("lib.scene", "import ghost")]
    let s : Command.Surroundings := ⟨fun _ => .ok "import lib", fun _ _ => .ok files, [], false⟩
    ∃ r l', Options.none.loader.compileRoot mainName "import lib" files = .ok (r, l') ∧
      (∀ n ∈ r.notices, n.isFault = false) ∧
      (Command.performRun s "main.scene" Options.none).exitCode ≠ 0 ∧
      ∃ root unit, Options.none.loader.root? mainName "import lib" files = some root ∧
        Compilation.Under (Options.none.loader.setting files) (Options.none.loader.depthBound files)
          root unit ∧ unit.own ≠ [] := by
  intro files s
  have hnotices : (Options.none.loader.compileRoot mainName "import lib" files).toOption.map
      (fun x => x.1.notices) = some [.forwarded "lib" (.missingModule 1 "ghost")] := by
    decide +kernel
  cases hcompile : Options.none.loader.compileRoot mainName "import lib" files with
  | error abort =>
    rw [hcompile] at hnotices
    cases hnotices
  | ok x =>
    obtain ⟨r, l'⟩ := x
    rw [hcompile] at hnotices
    have hforwarded : r.notices = [.forwarded "lib" (.missingModule 1 "ghost")] :=
      Option.some.inj hnotices
    have hfault : ∀ n ∈ r.notices, n.isFault = false := by
      rw [hforwarded]
      decide
    have hfatal : r.fatalErrors ≠ [] := by
      rw [Ne, Result.fatalErrors_eq_nil_iff, hforwarded]
      decide
    have hroot : Command.rootOf s "main.scene" Options.none = (mainName, files) := by
      have hmissing : ¬ files.contains (fileName "main.scene") = true := by decide +kernel
      exact congrArg (·, files) (if_neg hmissing)
    obtain ⟨root, hroot?, rfl, hiff, hexit⟩ := fatalErrors_compileRoot_iff hcompile
    have hsilent : ¬ ∀ unit, Compilation.Under (Options.none.loader.setting files)
        (Options.none.loader.depthBound files) root unit → unit.own = [] := by
      intro hsilent
      refine hfatal (hiff.2 ⟨fun n hn => ?_, hsilent⟩)
      exact hfault n ((Compilation.mem_own root n).1 hn).1
    obtain ⟨unit, hunit⟩ := Classical.not_forall.1 hsilent
    obtain ⟨hunder, hown⟩ := Classical.not_imp.1 hunit
    refine ⟨root.result, l', rfl, hfault, fun hzero => ?_, root, unit, hroot?, hunder, hown⟩
    exact hfatal ((hexit s "main.scene" Options.none rfl rfl hroot).1 hzero)

end Module.Loader
end SceneScript
