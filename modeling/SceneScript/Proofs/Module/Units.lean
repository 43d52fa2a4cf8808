import SceneScript.Proofs.Module.Load
import SceneScript.Proofs.Notice

namespace SceneScript.Module

structure Call where
  key : String
  source : String
  before : Loading

def calledFor? (setting : Setting) (source : String) (span : Span) (state : Loading) :
    Option Call :=
  match setting.libraries.get? source with
  | some _ => none
  | none =>
    match locate setting source span state with
    | .ok (.ok (key, text, _), between) => some ⟨key, text, between⟩
    | _ => none

/-- The compiles that are begun for imports, in order, with the sources they are imported by. -/
def calledForAll (setting : Setting) (compile : UnitCompiler) :
    List Import → Loading → List (String × Call)
  | [], _ => []
  | i :: more, state =>
    ((calledFor? setting i.source i.span state).map (i.source, ·)).toList ++
      match loadModule setting compile i.source i.span state with
      | .ok (_, after) => calledForAll setting compile more after
      | .error _ => []

namespace Call

def imports (c : Call) : List Import :=
  match Program.ofSource c.source with
  | .error _ => []
  | .ok p => p.imports

def calls (c : Call) (setting : Setting) (depth : Nat) : List (String × Call) :=
  calledForAll setting (compileUnit setting depth) c.imports (c.before.enter c.key)

/-- The compile of a source, whose imports may be nested so deep, runs it as this program, with
these bindings and on this store. -/
def Runs (c : Call) (setting : Setting) (depth : Nat) (p : Program) (table : Table Value)
    (store : Store) : Prop :=
  Program.ofSource c.source = .ok p ∧ ∃ below notices between, depth = below + 1 ∧
    resolveImports setting (compileUnit setting below) p.imports .empty [] (c.before.enter c.key) =
      .ok ((table, notices), between) ∧ between.store = store

/-- A compile that is begun during another one, which may be so deep, or that one itself. -/
inductive During (setting : Setting) : Nat → Call → Call → Prop
  | self {depth : Nat} (c : Call) : During setting depth c c
  | nested {depth : Nat} {c middle inner : Call} {source : String} :
    (source, middle) ∈ c.calls setting depth → During setting depth middle inner →
      During setting (depth + 1) c inner

end Call

/-- One compile of a source: what it was given, and what it came to. -/
structure Compilation extends Call where
  result : Result
  after : Loading

def Call.completed? (c : Call) (compile : UnitCompiler) : Option Compilation :=
  match compile c.key c.source c.before with
  | .ok (result, after) => some ⟨c, result, after⟩
  | .error _ => none

theorem Call.completed?_of_ok {c : Call} {compile : UnitCompiler} {result : Result}
    {after : Loading} (h : compile c.key c.source c.before = .ok (result, after)) :
    c.completed? compile = some ⟨c, result, after⟩ := by simp only [completed?, h]

namespace Compilation

def By (c : Compilation) (compile : UnitCompiler) : Prop :=
  compile c.key c.source c.before = .ok (c.result, c.after)

def modules (c : Compilation) (setting : Setting) (depth : Nat) : List (String × Compilation) :=
  (c.calls setting depth).filterMap fun (source, call) =>
    (call.completed? (compileUnit setting depth)).map (source, ·)

/-- A module that is compiled under a source, whose compile may be so deep. -/
inductive Under (setting : Setting) : Nat → Compilation → Compilation → Prop
  | direct {depth : Nat} {c unit : Compilation} {source : String} :
    (source, unit) ∈ c.modules setting depth → Under setting (depth + 1) c unit
  | nested {depth : Nat} {c middle unit : Compilation} {source : String} :
    (source, middle) ∈ c.modules setting depth → Under setting depth middle unit →
      Under setting (depth + 1) c unit

def own (c : Compilation) : List Notice := c.result.notices.filter (!·.isForwarded)

variable {setting : Setting} {compile : UnitCompiler} {depth : Nat} {c unit : Compilation}
  {source : String}

theorem completed?_eq_some {call : Call} (h : call.completed? compile = some unit) :
    unit.toCall = call ∧ unit.By compile := by
  unfold Call.completed? at h
  split at h
  next hcompile =>
    cases h
    exact ⟨rfl, hcompile⟩
  next => cases h

theorem mem_modules : (source, unit) ∈ c.modules setting depth ↔
    ∃ call, (source, call) ∈ c.calls setting depth ∧
      call.completed? (compileUnit setting depth) = some unit := by
  rw [modules, List.mem_filterMap]
  constructor
  · rintro ⟨⟨source', call⟩, hcall, hunit⟩
    obtain ⟨unit', hunit', heq⟩ := Option.map_eq_some_iff.1 hunit
    cases heq
    exact ⟨call, hcall, hunit'⟩
  · rintro ⟨call, hcall, hunit⟩
    exact ⟨(source, call), hcall, Option.map_eq_some_iff.2 ⟨unit, hunit, rfl⟩⟩

theorem exists_module_iff {P : Compilation → Prop} :
    (∃ unit, (source, unit) ∈ c.modules setting depth ∧ P unit) ↔
      ∃ call unit, (source, call) ∈ c.calls setting depth ∧
        call.completed? (compileUnit setting depth) = some unit ∧ P unit := by
  simp only [mem_modules]
  constructor
  · rintro ⟨unit, ⟨call, hcall, hunit⟩, hP⟩
    exact ⟨call, unit, hcall, hunit, hP⟩
  · rintro ⟨call, unit, hcall, hunit, hP⟩
    exact ⟨unit, ⟨call, hcall, hunit⟩, hP⟩

theorem by_of_mem_modules (h : (source, unit) ∈ c.modules setting depth) :
    unit.By (compileUnit setting depth) := by
  obtain ⟨call, -, hunit⟩ := mem_modules.1 h
  exact (completed?_eq_some hunit).2

theorem mem_own (c : Compilation) (n : Notice) :
    n ∈ c.own ↔ n ∈ c.result.notices ∧ n.isForwarded = false := by
  rw [own, List.mem_filter, Bool.not_eq_true']

end Compilation

namespace Loader

def setting (l : Loader) (files : Table String) : Setting :=
  ⟨l.config, l.remote, files, (Store.empty.addLibraries l.config.seed).1⟩

def rootCall (l : Loader) (name source : String) : Call :=
  ⟨name, source, ⟨l.cache, l.requests, (Store.empty.addLibraries l.config.seed).2, []⟩⟩

def root? (l : Loader) (name source : String) (files : Table String) : Option Compilation :=
  (l.rootCall name source).completed? (compileUnit (l.setting files) (l.depthBound files))

def after (l : Loader) (state : Loading) : Loader :=
  { l with cache := state.cache, requests := state.requests, stack := state.stack }

theorem compileWithin_eq (l : Loader) (depth : Nat) (name source : String) (files : Table String) :
    l.compileWithin depth name source files =
      (compileUnit (l.setting files) depth name source (l.rootCall name source).before).map
        fun (result, state) => (result, l.after state) := by
  have hrun : l.compileWithin depth name source files =
      (compileUnit (l.setting files) depth name source (l.rootCall name source).before) >>=
        fun (result, state) => pure (result, l.after state) := rfl
  rw [hrun]
  cases compileUnit (l.setting files) depth name source (l.rootCall name source).before with
  | error abort => rfl
  | ok done => rfl

/-- A compile leads from one loader to the next through a compile of its root. -/
theorem compileWithin_eq_ok {l l' : Loader} {depth : Nat} {name source : String}
    {files : Table String} {result : Result}
    (h : l.compileWithin depth name source files = .ok (result, l')) :
    ∃ state, compileUnit (l.setting files) depth name source (l.rootCall name source).before =
      .ok (result, state) ∧ l' = l.after state := by
  rw [compileWithin_eq] at h
  rcases hcompile : compileUnit (l.setting files) depth name source
      (l.rootCall name source).before with abort | ⟨result', state⟩
  · rw [hcompile] at h
    cases h
  · rw [hcompile] at h
    cases h
    exact ⟨state, rfl, rfl⟩

theorem exists_root_of_compileRoot {l l' : Loader} {name source : String} {files : Table String}
    {r : Result} (h : l.compileRoot name source files = .ok (r, l')) :
    ∃ root, l.root? name source files = some root ∧ root.result = r ∧
      root.before.store = (Store.empty.addLibraries l.config.seed).2 ∧
      root.By (compileUnit (l.setting files) (l.depthBound files)) := by
  obtain ⟨after, hcompile, -⟩ := compileWithin_eq_ok h
  exact ⟨⟨l.rootCall name source, r, after⟩, Call.completed?_of_ok hcompile, rfl, rfl, hcompile⟩

end Loader

variable {setting : Setting} {compile : UnitCompiler} {source : String} {span : Span}
  {state after : Loading}

/-- What an import forwards are the notices of the module that is compiled for it. -/
theorem forwarded_mem_of_loadModule {name : String} {n : Notice}
    {outcome : Except Diagnostic ModuleId} {reported : List Notice}
    (h : loadModule setting compile source span state = .ok ((outcome, reported), after)) :
    .forwarded name n ∈ reported ↔ name = source ∧
      ∃ call unit, calledFor? setting source span state = some call ∧
        call.completed? compile = some unit ∧ n ∈ unit.result.notices := by
  unfold calledFor?
  rcases loadModule_eq_ok h with ⟨id, hlibrary, -, rfl, -⟩ | ⟨d, hlibrary, hlocate, -, rfl⟩ |
    ⟨key, text, notices, between, result, middle, hlibrary, hlocate, hcompile, -, rfl, -⟩
  · rw [hlibrary]
    simp
  · rw [hlibrary, hlocate]
    simp
  · have hown : .forwarded name n ∉ notices := by
      intro hmem
      obtain ⟨cause, heq⟩ := notices_of_locate hlocate _ hmem
      cases heq
    have hcompleted : (⟨key, text, between⟩ : Call).completed? compile =
        some ⟨⟨key, text, between⟩, result, middle⟩ := Call.completed?_of_ok hcompile
    rw [hlibrary, hlocate, List.mem_append, or_iff_right hown, List.mem_map]
    constructor
    · rintro ⟨n', hn', heq⟩
      cases heq
      exact ⟨rfl, _, _, rfl, hcompleted, hn'⟩
    · rintro ⟨rfl, call, unit, hcall, hunit, hn⟩
      cases hcall
      rw [hcompleted] at hunit
      cases hunit
      exact ⟨n, hn, rfl⟩

theorem not_forwarded_importNotice (d : Diagnostic) (line : Nat) :
    (importNotice d line).isForwarded = false := by
  unfold importNotice
  split <;> rfl

/-- What is reported when exports are bound are exports that are missing. -/
theorem missing_of_bindExports (exports : Exports) (i : Import) (table : Table Value) :
    ∀ n ∈ (bindExports exports i table).2,
      ∃ name, n = .error (.placed (.undefinedMember i.source name) i.span) := by
  apply bindExports_induction (P := fun _ notices => ∀ n ∈ notices,
    ∃ name, n = .error (.placed (.undefinedMember i.source name) i.span))
  · simp
  · exact fun _ _ _ _ _ _ hnotices => hnotices
  · intro table notices name hnotices n hn
    rcases List.mem_append.1 hn with hn | hn
    · exact hnotices n hn
    · exact ⟨name, List.mem_singleton.1 hn⟩

theorem missing_of_bindImport (naming : Naming) (store : Store) (i : Import) (id : ModuleId)
    (table : Table Value) :
    ∀ n ∈ (bindImport naming store i id table).2,
      ∃ name, n = .error (.placed (.undefinedMember i.source name) i.span) := by
  unfold bindImport
  split
  · simp
  · exact missing_of_bindExports _ i table

theorem mem_calledForAll_cons {name : String} {i : Import} {more : List Import} {call : Call}
    {loaded : Except Diagnostic ModuleId × List Notice}
    (h : loadModule setting compile i.source i.span state = .ok (loaded, after)) :
    (name, call) ∈ calledForAll setting compile (i :: more) state ↔
      (name = i.source ∧ calledFor? setting i.source i.span state = some call) ∨
        (name, call) ∈ calledForAll setting compile more after := by
  rw [calledForAll, h, List.mem_append, Option.mem_toList, Option.map_eq_some_iff]
  apply or_congr_left
  constructor
  · rintro ⟨call', hcall, heq⟩
    cases heq
    exact ⟨rfl, hcall⟩
  · rintro ⟨rfl, hcall⟩
    exact ⟨call, hcall, rfl⟩

theorem forwarded_mem_append_iff {name : String} {n : Notice} {notices extra : List Notice}
    (hextra : ∀ m ∈ extra, m.isForwarded = false) :
    .forwarded name n ∈ notices ++ extra ↔ .forwarded name n ∈ notices := by
  have hnot : .forwarded name n ∉ extra := fun hmem => absurd (hextra _ hmem) Bool.noConfusion
  rw [List.mem_append, or_iff_left hnot]

theorem forwarded_mem_of_resolveImports {name : String} {n : Notice} {imports : List Import}
    {table table' : Table Value} {notices notices' : List Notice}
    (h : resolveImports setting compile imports table notices state =
      .ok ((table', notices'), after)) :
    .forwarded name n ∈ notices' ↔ .forwarded name n ∈ notices ∨
      ∃ call unit, (name, call) ∈ calledForAll setting compile imports state ∧
        call.completed? compile = some unit ∧ n ∈ unit.result.notices := by
  induction imports generalizing table notices state with
  | nil =>
    cases h
    simp [calledForAll]
  | cons i more ih =>
    obtain ⟨outcome, reported, between, hload, hrest⟩ := resolveImports_cons_eq_ok h
    have hmodules : (∃ call unit, (name, call) ∈ calledForAll setting compile (i :: more) state ∧
          call.completed? compile = some unit ∧ n ∈ unit.result.notices) ↔
        .forwarded name n ∈ reported ∨
        ∃ call unit, (name, call) ∈ calledForAll setting compile more between ∧
          call.completed? compile = some unit ∧ n ∈ unit.result.notices := by
      simp only [forwarded_mem_of_loadModule hload, mem_calledForAll_cons hload, or_and_right,
        exists_or, and_assoc, exists_and_left]
    -- What an import reports besides is its own: a missing module, or missing exports.
    rw [hmodules, ← or_assoc, ← List.mem_append]
    rcases hrest with ⟨d, -, hrest⟩ | ⟨id, bound, missing, -, hbind, hrest⟩
    · rw [ih hrest, forwarded_mem_append_iff]
      intro m hm
      rw [List.mem_singleton.1 hm]
      exact not_forwarded_importNotice d _
    · rw [ih hrest, forwarded_mem_append_iff]
      have hmissing := missing_of_bindImport setting.config.naming between.store i id table
      rw [hbind] at hmissing
      intro m hm
      obtain ⟨name, rfl⟩ := hmissing m hm
      rfl

end SceneScript.Module
