import Mathlib.Logic.Relation
import Mathlib.Data.List.Chain
import SceneScript.Proofs.Module.Depth
import SceneScript.Proofs.Module.History
import SceneScript.Proofs.Program.Syntax
import SceneScript.Proofs.Run.Reports

namespace SceneScript

/-! ### Chains that notices report -/

namespace Notice

/-- The chain of the import cycle that a notice reports, whichever module it is from. -/
def cycle? : Notice → Option (List String)
  | error d =>
    match d.cause with
    | .importCycle chain => some chain
    | _ => none
  | warning .. => none
  | missingModule .. => none
  | forwarded _ notice => notice.cycle?

def cycles (notices : List Notice) : List (List String) := notices.filterMap cycle?

theorem cycle?_error_eq_none {d : Diagnostic} (h : d.cause.isOfImport = false) :
    (error d).cycle? = none := by
  unfold cycle?
  split
  next heq =>
    rw [heq] at h
    cases h
  next => rfl

theorem cycle?_eq_none_of_isOfRun {n : Notice} (h : n.isOfRun = true) : n.cycle? = none := by
  cases n with
  | error d =>
    have himport : d.cause.isSyntax = false ∧ d.cause.isOfImport = false := by
      simpa [isOfRun, Cause.isOfRun] using h
    exact cycle?_error_eq_none himport.2
  | warning line concern => rfl
  | missingModule line name => rfl
  | forwarded source n => cases h

theorem cycles_append (first second : List Notice) :
    cycles (first ++ second) = cycles first ++ cycles second := List.filterMap_append

theorem cycles_eq_nil {notices : List Notice} (h : ∀ n ∈ notices, n.cycle? = none) :
    cycles notices = [] := List.filterMap_eq_nil_iff.2 h

theorem cycles_forwarded (source : String) (notices : List Notice) :
    cycles (notices.map (.forwarded source)) = cycles notices := by
  rw [cycles, List.filterMap_map]
  rfl

end Notice

def Result.cycles (r : Result) : List (List String) := Notice.cycles r.notices

/-- A source that is no program reports no cycle. -/
theorem Result.cycles_failed {d : Diagnostic} (h : d.cause.isOfImport = false) :
    (failed d).cycles = [] := by
  refine Notice.cycles_eq_nil fun n hn => ?_
  rw [List.mem_singleton.1 hn]
  exact Notice.cycle?_error_eq_none h

theorem Cause.not_isOfImport_of_isSyntax {cause : Cause} (h : cause.isSyntax = true) :
    cause.isOfImport = false := by
  cases cause <;> first | rfl | cases h

theorem Diagnostic.cause_withSource (d : Diagnostic) (source : String) :
    (d.withSource source).cause = d.cause := by
  unfold withSource
  dsimp only
  split
  · rfl
  · split <;> rfl

namespace Module

/-! ### The graph of modules -/

/-- The text of the module of a key: that of a file or, for an address, the one that is fetched. -/
def Setting.text? (s : Setting) (key : String) : Option String :=
  if isAddress key then (s.remote.fetch 0 key).toOption else s.files.get? key

def importsOfText (text : String) : List Import :=
  match Program.ofSource text with
  | .error _ => []
  | .ok p => p.imports

def Setting.importsOf (s : Setting) (key : String) : List Import :=
  match s.text? key with
  | some text => importsOfText text
  | none => []

def Setting.target? (s : Setting) (i : Import) : Option String :=
  match s.libraries.get? i.source with
  | some _ => none
  | none => keyOf? s.config.naming s.files i.source

def Setting.Imports (s : Setting) (key other : String) : Prop :=
  ∃ i ∈ s.importsOf key, s.target? i = some other

variable {setting : Setting} {compile : UnitCompiler} {state after : Loading}
  {chain : List String}

theorem importsOf_of_text? {key text : String} (h : setting.text? key = some text) :
    setting.importsOf key = importsOfText text := by
  rw [Setting.importsOf, h]

theorem target?_eq_some {i : Import} {key : String} : setting.target? i = some key ↔
    setting.libraries.get? i.source = none ∧
      keyOf? setting.config.naming setting.files i.source = some key := by
  unfold Setting.target?
  cases setting.libraries.get? i.source <;> simp

theorem importsOfText_fallback (address : String) :
    importsOfText (fallbackSource address) = [] := by
  obtain ⟨span, place, hprogram⟩ := ofSource_fallbackSource address
  rw [importsOfText, hprogram]
  rfl

/-- A stand-in imports nothing, as does an address without a text. -/
theorem importsOf_of_remote_text? {address text : String} (haddress : isAddress address = true)
    (h : setting.remote.text? setting.config address = some text) :
    setting.importsOf address = importsOfText text := by
  unfold Remote.text? at h
  unfold Setting.importsOf Setting.text?
  rw [if_pos haddress]
  cases hfetch : setting.remote.fetch 0 address with
  | ok found =>
    rw [hfetch] at h
    cases h
    rfl
  | error reason =>
    rw [hfetch] at h
    dsimp only at h
    split at h <;> cases h
    rw [importsOfText_fallback]
    rfl

theorem importsOf_of_remote_text?_eq_none {address : String} (haddress : isAddress address = true)
    (h : setting.remote.text? setting.config address = none) : setting.importsOf address = [] := by
  unfold Remote.text? at h
  unfold Setting.importsOf Setting.text?
  rw [if_pos haddress]
  cases hfetch : setting.remote.fetch 0 address with
  | ok found =>
    rw [hfetch] at h
    cases h
  | error reason => rfl

/-- A path of imports goes on with an import of the module that it ends with. -/
theorem isChain_concat {path : List String} {key other : String}
    (hpath : path.IsChain setting.Imports) (hlast : path.getLast? = some key)
    (h : setting.Imports key other) : (path ++ [other]).IsChain setting.Imports := by
  refine hpath.append (.singleton _) fun last hmem first hfirst => ?_
  rw [hlast, Option.mem_some_iff] at hmem
  rw [List.head?_cons, Option.mem_some_iff] at hfirst
  exact hmem ▸ hfirst ▸ h

/-- A module without imports leads to nothing. -/
theorem acc_of_importsOf_eq_nil {key : String} (h : setting.importsOf key = []) :
    Acc (flip setting.Imports) key := by
  constructor
  rintro other ⟨i, hi, -⟩
  rw [h] at hi
  cases hi

/-! ### Cycles that imports report -/

def reportOf (loaded : Except Diagnostic ModuleId × List Notice) (line : Nat) : List Notice :=
  loaded.2 ++ match loaded.1 with
    | .error d => [importNotice d line]
    | .ok _ => []

/-- A module that cannot be located is reported as a cycle if its key is on the stack. -/
theorem cycle?_of_locate_eq_error {i : Import} {d : Diagnostic}
    (hlibrary : setting.libraries.get? i.source = none)
    (h : locate setting i.source i.span state = .ok (.error d, after)) :
    (importNotice d i.span.line).cycle? = some chain ↔
      ∃ key, setting.target? i = some key ∧ Module.cycle? state.stack key = some chain := by
  simp only [target?_eq_some, hlibrary, true_and]
  rcases locate_cases h with ⟨hkey, heq, -⟩ | ⟨key, found, hkey, hcycle, heq, -⟩ |
    ⟨haddress, hcycle, fetched, hfetch, heq⟩ | ⟨_, _, -, -, -, heq, -⟩
  · cases heq
    simp [hkey, importNotice, Diagnostic.placed, Notice.cycle?]
  · cases heq
    simp [hkey, hcycle, importNotice, Diagnostic.placed, Notice.cycle?]
  · have hkey : keyOf? setting.config.naming setting.files i.source = some i.source :=
      if_pos haddress
    cases fetched <;> cases heq
    rcases fetchText_cases hfetch with ⟨_, -, heq, -⟩ |
      ⟨-, ⟨_, -, heq, -⟩ | ⟨_, -, -, heq, -⟩ | ⟨_, -, -, heq, -⟩⟩ <;> cases heq
    simp [hkey, hcycle, importNotice, Diagnostic.placed, Notice.cycle?]
  · cases heq

/-- An import reports the chain that it closes, or those that its module reports. -/
theorem mem_cycles_of_loadModule {i : Import}
    {loaded : Except Diagnostic ModuleId × List Notice}
    (h : loadModule setting compile i.source i.span state = .ok (loaded, after)) :
    chain ∈ Notice.cycles (reportOf loaded i.span.line) ↔
      (∃ key, setting.target? i = some key ∧ Module.cycle? state.stack key = some chain) ∨
      ∃ call unit, calledFor? setting i.source i.span state = some call ∧
        call.completed? compile = some unit ∧ chain ∈ unit.result.cycles := by
  obtain ⟨outcome, reported⟩ := loaded
  unfold calledFor?
  rcases loadModule_eq_ok h with ⟨id, hlibrary, rfl, rfl, -⟩ | ⟨d, hlibrary, hlocate, rfl, rfl⟩ |
    ⟨key, text, notices, between, result, middle, hlibrary, hlocate, hcompile, rfl, rfl, -⟩
  · rw [hlibrary]
    simp [reportOf, Notice.cycles, target?_eq_some, hlibrary]
  · rw [hlibrary, hlocate, ← cycle?_of_locate_eq_error hlibrary hlocate]
    simp [reportOf, Notice.cycles]
  · have hnotices : Notice.cycles notices = [] := by
      refine Notice.cycles_eq_nil fun n hn => ?_
      obtain ⟨cause, rfl⟩ := notices_of_locate hlocate n hn
      rfl
    have hcompleted : (⟨key, text, between⟩ : Call).completed? compile =
        some ⟨⟨key, text, between⟩, result, middle⟩ := Call.completed?_of_ok hcompile
    obtain ⟨hkey, hnew⟩ := key_of_locate hlocate
    rw [hlibrary, hlocate, reportOf, List.append_nil, Notice.cycles_append, hnotices,
      List.nil_append, Notice.cycles_forwarded]
    constructor
    · exact fun hchain => .inr ⟨_, _, rfl, hcompleted, hchain⟩
    · rintro (⟨other, htarget, hcycle⟩ | ⟨call, unit, hcall, hunit, hchain⟩)
      · obtain rfl : key = other := Option.some.inj (hkey.symm.trans (target?_eq_some.1 htarget).2)
        rw [cycle?_eq_none_iff.2 hnew] at hcycle
        cases hcycle
      · cases hcall
        rw [hcompleted] at hunit
        cases hunit
        exact hchain

theorem mem_cycles_of_resolveImports (hcompile : Leads (fun s s' => s'.stack = s.stack) compile)
    {imports : List Import} {table table' : Table Value} {notices notices' : List Notice}
    (h : resolveImports setting compile imports table notices state =
      .ok ((table', notices'), after)) :
    chain ∈ Notice.cycles notices' ↔ chain ∈ Notice.cycles notices ∨
      (∃ i ∈ imports, ∃ key, setting.target? i = some key ∧
        Module.cycle? state.stack key = some chain) ∨
      ∃ name call unit, (name, call) ∈ calledForAll setting compile imports state ∧
        call.completed? compile = some unit ∧ chain ∈ unit.result.cycles := by
  induction imports generalizing table notices state with
  | nil =>
    cases h
    simp [calledForAll]
  | cons i more ih =>
    obtain ⟨outcome, reported, between, hload, hrest⟩ := resolveImports_cons_eq_ok h
    have hstack : between.stack = state.stack := (stackFrame setting).loadModule hcompile hload
    -- The first import adds its report; what is missing of its exports is no cycle.
    have hmore : chain ∈ Notice.cycles notices' ↔ chain ∈ Notice.cycles notices ∨
        chain ∈ Notice.cycles (reportOf (outcome, reported) i.span.line) ∨
        (∃ j ∈ more, ∃ key, setting.target? j = some key ∧
          Module.cycle? state.stack key = some chain) ∨
        ∃ name call unit, (name, call) ∈ calledForAll setting compile more between ∧
          call.completed? compile = some unit ∧ chain ∈ unit.result.cycles := by
      rcases hrest with ⟨d, rfl, hrest⟩ | ⟨id, bound, missing, rfl, hbind, hrest⟩
      · rw [ih hrest, hstack, reportOf, Notice.cycles_append, Notice.cycles_append,
          Notice.cycles_append]
        simp only [List.mem_append, or_assoc]
      · have hmissing : Notice.cycles missing = [] := by
          refine Notice.cycles_eq_nil fun n hn => ?_
          have hbound := missing_of_bindImport setting.config.naming between.store i id table
          rw [hbind] at hbound
          obtain ⟨name, rfl⟩ := hbound n hn
          rfl
        rw [ih hrest, hstack, reportOf, Notice.cycles_append, Notice.cycles_append, hmissing]
        simp only [List.append_nil, List.mem_append, or_assoc]
    have hcalls : (∃ name call unit, (name, call) ∈ calledForAll setting compile (i :: more) state ∧
          call.completed? compile = some unit ∧ chain ∈ unit.result.cycles) ↔
        (∃ call unit, calledFor? setting i.source i.span state = some call ∧
          call.completed? compile = some unit ∧ chain ∈ unit.result.cycles) ∨
        ∃ name call unit, (name, call) ∈ calledForAll setting compile more between ∧
          call.completed? compile = some unit ∧ chain ∈ unit.result.cycles := by
      simp only [mem_calledForAll_cons hload, or_and_right, exists_or, and_assoc, exists_and_left,
        exists_eq_left]
    rw [hmore, mem_cycles_of_loadModule hload, hcalls]
    simp only [List.mem_cons, exists_eq_or_imp]
    exact or_congr_right or_or_or_comm

namespace Compilation
variable {depth : Nat} {c : Compilation}

/-- A compile reports the chains that the imports of its source close, and those that the modules
report which are compiled for them. -/
theorem mem_cycles_iff (h : c.By (compileUnit setting (depth + 1))) :
    chain ∈ c.result.cycles ↔
      (∃ i ∈ c.imports, ∃ key, setting.target? i = some key ∧
        Module.cycle? (c.before.stack ++ [c.key]) key = some chain) ∨
      ∃ name unit, (name, unit) ∈ c.modules setting depth ∧ chain ∈ unit.result.cycles := by
  simp only [exists_module_iff]
  rw [Call.calls, Call.imports]
  rcases compileWith_eq_ok h with ⟨d, hprogram, hresult, -⟩ |
    ⟨p, table, notices, between, ran, hprogram, hresolve, hrun, hresult, -⟩
  · have hcause : (d.withSource c.source).cause.isOfImport = false := by
      rw [Diagnostic.cause_withSource]
      exact Cause.not_isOfImport_of_isSyntax (Program.isSyntax_of_ofSource hprogram)
    rw [hprogram, hresult, Result.cycles_failed hcause]
    simp [calledForAll]
  · have hran : Notice.cycles ran.notices = [] := Notice.cycles_eq_nil fun n hn =>
      Notice.cycle?_eq_none_of_isOfRun (Program.isOfRun_of_run hrun n hn)
    rw [hprogram, hresult, Result.cycles, Notice.cycles_append, hran, List.append_nil,
      mem_cycles_of_resolveImports ((stackFrame setting).compileUnit depth) hresolve,
      Loading.stack_enter, or_iff_right (by simp [Notice.cycles])]

end Compilation

/-! ### Compiles that follow the graph -/

/-- The compile of the module that a key has in the graph, at the end of a path of imports, with a
cache of the right texts. -/
structure Call.Follows (c : Call) (setting : Setting) : Prop where
  imports : c.imports = setting.importsOf c.key
  path : (c.before.stack ++ [c.key]).IsChain setting.Imports
  cache : c.before.cache.Mirrors setting.config setting.remote

section Follows
variable (hsteady : setting.remote.Steady)
  (hfiles : ∀ key ∈ setting.files.keys, isAddress key = false) {depth : Nat}
include hsteady hfiles

/-- The compiles that are begun for the imports of a source follow the graph one step further. -/
theorem Call.Follows.of_mem_calls {c call : Call} {name : String} (hc : c.Follows setting)
    (h : (name, call) ∈ c.calls setting depth) :
    call.Follows setting ∧ setting.Imports c.key call.key := by
  have frame := (keptByFetch_mirrors hsteady).frame
  obtain ⟨i, hi, rfl, before, hbefore, hcall⟩ :=
    frame.mem_calledForAll (frame.compileUnit depth) h
  obtain ⟨hlibrary, notices, hlocate⟩ := calledFor?_eq_some hcall
  have hcache : before.cache.Mirrors setting.config setting.remote := hbefore hc.cache
  obtain ⟨hkey, -⟩ := key_of_locate hlocate
  have hedge : setting.Imports c.key call.key :=
    ⟨i, hc.imports ▸ hi, target?_eq_some.2 ⟨hlibrary, hkey⟩⟩
  refine ⟨⟨?_, ?_, frame.locate hlocate hcache⟩, hedge⟩
  · rcases text?_of_locate hsteady hcache hlocate with ⟨haddress, htext⟩ | hfile
    · exact (importsOf_of_remote_text? haddress htext).symm
    · have hname : isAddress call.key = false := hfiles _ (Table.mem_keys_of_get? hfile)
      have htext : setting.text? call.key = some call.source := by
        rw [Setting.text?, hname, if_neg Bool.false_ne_true, hfile]
      exact (importsOf_of_text? htext).symm
  · rw [(stack_of_mem_calls h).1]
    exact isChain_concat hc.path List.getLast?_concat hedge

namespace Compilation
variable {c : Compilation}

theorem Follows.of_mem_modules {unit : Compilation} {name : String} (hc : c.toCall.Follows setting)
    (h : (name, unit) ∈ c.modules setting depth) :
    unit.toCall.Follows setting ∧ setting.Imports c.key unit.key := by
  obtain ⟨call, hcall, hunit⟩ := mem_modules.1 h
  rw [(completed?_eq_some hunit).1]
  exact hc.of_mem_calls hsteady hfiles hcall

/-- A chain that is reported begins and ends with one key, each of its elements imports the next,
and the source that reports it leads to it. -/
theorem cycle_of_mem_cycles (hc : c.toCall.Follows setting)
    (h : c.By (compileUnit setting depth)) (hchain : chain ∈ c.result.cycles) :
    (∃ key inside, chain = key :: inside ++ [key]) ∧ chain.IsChain setting.Imports ∧
      ∃ key, Relation.ReflTransGen setting.Imports c.key key ∧
        Relation.TransGen setting.Imports key key := by
  induction depth generalizing c with
  | zero => cases h
  | succ depth ih =>
    rcases (mem_cycles_iff h).1 hchain with ⟨i, hi, key, htarget, hcycle⟩ |
      ⟨name, unit, hunit, hchain⟩
    · obtain ⟨below, inside, hstack, rfl⟩ := cycle?_eq_some hcycle
      have hedge : setting.Imports c.key key := ⟨i, hc.imports ▸ hi, htarget⟩
      have hpath : (key :: inside).IsChain setting.Imports := by
        have hall := hc.path
        rw [hstack] at hall
        exact hall.right_of_append
      -- The path on the stack ends with the key of the source itself.
      have hlast : (key :: inside).getLast? = some c.key := by
        have hends := congrArg List.getLast? hstack
        rw [List.getLast?_concat, List.getLast?_append_of_ne_nil _ (List.cons_ne_nil _ _)] at hends
        exact hends.symm
      have hleads : Relation.ReflTransGen setting.Imports key c.key :=
        List.relationReflTransGen_of_exists_isChain_cons inside hpath
          (List.getLast_of_mem_getLast? hlast)
      exact ⟨⟨key, inside, rfl⟩, isChain_concat hpath hlast hedge, c.key, .refl,
        .head' hedge hleads⟩
    · obtain ⟨hfollows, hedge⟩ := Follows.of_mem_modules hsteady hfiles hc hunit
      obtain ⟨hends, hpath, key, hreach, hcycle⟩ :=
        ih hfollows (by_of_mem_modules hunit) hchain
      exact ⟨hends, hpath, key, .head hedge hreach, hcycle⟩

omit hfiles in
/-- An import whose key closes no cycle is located, but for an address without a text, which counts
as a module that imports nothing. -/
theorem importsOf_eq_nil_of_locate {source key : String} {span : Span} {d : Diagnostic}
    {before after : Loading} (hcache : before.cache.Mirrors setting.config setting.remote)
    (hkey : keyOf? setting.config.naming setting.files source = some key)
    (hnew : Module.cycle? before.stack key = none)
    (h : locate setting source span before = .ok (.error d, after)) :
      setting.importsOf key = [] := by
  rcases locate_cases h with ⟨hkey', -, -⟩ | ⟨found, chain, hkey', hcycle, -, -⟩ |
    ⟨haddress, -, fetched, hfetch, heq⟩ | ⟨_, _, -, -, -, heq, -⟩
  · rw [hkey] at hkey'
    cases hkey'
  · obtain rfl : key = found := Option.some.inj (hkey.symm.trans hkey')
    rw [hnew] at hcycle
    cases hcycle
  · obtain rfl : source = key := by
      rw [keyOf?, if_pos haddress] at hkey
      exact Option.some.inj hkey
    apply importsOf_of_remote_text?_eq_none haddress
    rw [text?_of_fetchText hsteady hcache hfetch]
    cases fetched <;> cases heq
    rfl
  · cases heq

omit hfiles in
/-- If a compile reports no cycle, each import of its source leads to a module that was compiled, or
to one that imports nothing. -/
theorem exists_module_of_target? {i : Import} {key : String} (hc : c.toCall.Follows setting)
    (h : c.By (compileUnit setting (depth + 1))) (hnone : c.result.cycles = [])
    (hi : i ∈ c.imports) (htarget : setting.target? i = some key) :
    setting.importsOf key = [] ∨
      ∃ name unit, (name, unit) ∈ c.modules setting depth ∧ unit.key = key := by
  have hnew : Module.cycle? (c.before.stack ++ [c.key]) key = none := by
    rw [Option.eq_none_iff_forall_ne_some]
    intro chain hchain
    have hmem := (mem_cycles_iff h).2 (.inl ⟨i, hi, key, htarget, hchain⟩)
    rw [hnone] at hmem
    cases hmem
  obtain ⟨hlibrary, hkey⟩ := target?_eq_some.1 htarget
  rcases compileWith_eq_ok h with ⟨d, hprogram, -, -⟩ |
    ⟨p, table, notices, between, ran, hprogram, hresolve, -, -, -⟩
  · rw [Call.imports, hprogram] at hi
    cases hi
  have frame := (stackFrame setting).and (keptByFetch_mirrors hsteady).frame
  have himports : c.imports = p.imports := by rw [Call.imports, hprogram]
  obtain ⟨before, loaded, last, ⟨hstack, hcache⟩, hload, hcalls⟩ :=
    frame.exists_loadModule_of_mem (frame.compileUnit depth) hresolve (himports ▸ hi)
  obtain ⟨outcome, reported⟩ := loaded
  rcases loadModule_eq_ok hload with ⟨id, hlibrary', -, -, -⟩ | ⟨d, -, hlocate, -, -⟩ |
    ⟨found, text, reported, between, result, middle, -, hlocate, hcompile, -, -, -⟩
  · rw [hlibrary] at hlibrary'
    cases hlibrary'
  · left
    apply importsOf_eq_nil_of_locate hsteady (hcache hc.cache) hkey ?_ hlocate
    rw [hstack, Loading.stack_enter, hnew]
  · right
    obtain ⟨hkey', -⟩ := key_of_locate hlocate
    obtain rfl : key = found := Option.some.inj (hkey.symm.trans hkey')
    have hcall : calledFor? setting i.source i.span before = some ⟨key, text, between⟩ := by
      rw [calledFor?, hlibrary, hlocate]
    refine ⟨i.source, ⟨⟨key, text, between⟩, result, middle⟩, mem_modules.2 ⟨_, ?_,
      Call.completed?_of_ok hcompile⟩, rfl⟩
    rw [Call.calls, himports]
    exact hcalls _ hcall

/-- A compile that reports no cycle has been through everything that its source leads to. -/
theorem acc_of_cycles_eq_nil (hc : c.toCall.Follows setting)
    (h : c.By (compileUnit setting depth)) (hnone : c.result.cycles = []) :
    Acc (flip setting.Imports) c.key := by
  induction depth generalizing c with
  | zero => cases h
  | succ depth ih =>
    constructor
    rintro key ⟨i, hi, htarget⟩
    rw [← hc.imports] at hi
    rcases exists_module_of_target? hsteady hc h hnone hi htarget with
      hleaf | ⟨name, unit, hunit, rfl⟩
    · exact acc_of_importsOf_eq_nil hleaf
    · refine ih (Follows.of_mem_modules hsteady hfiles hc hunit).1 (by_of_mem_modules hunit) ?_
      rw [List.eq_nil_iff_forall_not_mem] at hnone ⊢
      exact fun chain hchain =>
        hnone chain ((mem_cycles_iff h).2 (.inr ⟨name, unit, hunit, hchain⟩))

omit hsteady hfiles in
theorem not_cycle_of_acc {key : String} (h : Acc (flip setting.Imports) key) :
    ¬ ∃ other, Relation.ReflTransGen setting.Imports key other ∧
      Relation.TransGen setting.Imports other other := by
  induction h with
  | intro key _ ih =>
    rintro ⟨other, hreach, hcycle⟩
    rcases hreach.cases_head with rfl | ⟨next, hedge, hreach⟩
    · obtain ⟨next, hedge, hback⟩ := Relation.TransGen.head'_iff.1 hcycle
      exact ih next hedge ⟨key, hback, hcycle⟩
    · exact ih next hedge ⟨other, hreach, hcycle⟩

/-- A compile reports a cycle exactly if its source leads to one. -/
theorem cycles_ne_nil_iff (hc : c.toCall.Follows setting) (h : c.By (compileUnit setting depth)) :
    c.result.cycles ≠ [] ↔ ∃ key, Relation.ReflTransGen setting.Imports c.key key ∧
      Relation.TransGen setting.Imports key key := by
  constructor
  · intro hne
    obtain ⟨chain, hchain⟩ := List.exists_mem_of_ne_nil _ hne
    exact (cycle_of_mem_cycles hsteady hfiles hc h hchain).2.2
  · intro hcycle hnone
    exact not_cycle_of_acc (acc_of_cycles_eq_nil hsteady hfiles hc h hnone) hcycle

end Compilation
end Follows

namespace Loader
variable {config : Config} {texts files : Table String} {l : Loader} {name : String}

/-- The root of a compile follows the graph, if it is a file of the workspace. -/
theorem follows_rootCall (hl : l.Reached config (.ofTable texts)) (hname : isAddress name = false)
    {source : String} (hsource : files.get? name = some source) :
    (l.rootCall name source).Follows (l.setting files) where
  imports := by
    have htext : (l.setting files).text? name = some source := by
      rw [Setting.text?, hname, if_neg Bool.false_ne_true]
      exact hsource
    exact (importsOf_of_text? htext).symm
  path := .singleton name
  cache := by
    obtain rfl : l.config = config := hl.config_eq
    have hmirrors := hl.mirrors (Remote.steady_ofTable texts)
    rw [← hl.remote_eq] at hmirrors
    exact hmirrors

/-- A compile of a file reports an import cycle, itself or from a module, exactly if there is such a
file and it leads to one. A chain that is reported begins and ends with one key and each of its
elements imports the next. And no module is compiled inside itself. -/
theorem cycles_compileFile_iff (hl : l.Reached config (.ofTable texts))
    (hfiles : ∀ key ∈ files.keys, isAddress key = false) (name : String) :
    l.compileFile name files ≠ .error .tooDeep ∧
    (∀ r l', l.compileFile name files = .ok (r, l') →
      (r.cycles ≠ [] ↔ files.get? name ≠ none ∧
        ∃ key, Relation.ReflTransGen (l.setting files).Imports name key ∧
          Relation.TransGen (l.setting files).Imports key key) ∧
      ∀ chain ∈ r.cycles, (∃ key inside, chain = key :: inside ++ [key]) ∧
        chain.IsChain (l.setting files).Imports) ∧
    ∀ source, files.get? name = some source → ∀ depth inner,
      Call.During (l.setting files) depth (l.rootCall name source) inner →
      inner.key ∉ inner.before.stack := by
  have hremote : l.remote = .ofTable texts := hl.remote_eq
  have hsteady : (l.setting files).remote.Steady := by
    rw [setting, hremote]
    exact Remote.steady_ofTable texts
  have hfinite : l.remote.Finite := by
    rw [hremote]
    exact Remote.finite_ofTable texts
  have hdistinct : ∀ source depth inner,
      Call.During (l.setting files) depth (l.rootCall name source) inner →
      inner.key ∉ inner.before.stack := by
    intro source depth inner hinner hmem
    have hnodup := hinner.nodup (List.nodup_singleton name)
    exact (List.nodup_append.1 hnodup).2.2 _ hmem _ (List.mem_singleton_self _) rfl
  unfold compileFile
  cases hsource : files.get? name with
  | none =>
    refine ⟨nofun, ?_, nofun⟩
    intro r l' h
    cases h
    have hnone : (Result.failed (.of (.moduleNotFound name))).cycles = [] := rfl
    rw [hnone]
    exact ⟨iff_of_false (fun h => h rfl) (fun h => h.1 rfl), fun chain hchain => nomatch hchain⟩
  | some source =>
    refine ⟨compileRoot_ne_tooDeep hfinite name source files, ?_, fun _ _ => hdistinct _⟩
    intro r l' h
    obtain ⟨state, hcompile, -⟩ := compileWithin_eq_ok h
    -- The compile of the root follows the graph of imports: its chains are cut from paths, and one
    -- that reports none has come to every module that the root leads to.
    have hfollows := follows_rootCall hl (hfiles name (Table.mem_keys_of_get? hsource)) hsource
    let root : Compilation := ⟨l.rootCall name source, r, state⟩
    have hby : root.By (compileUnit (l.setting files) (l.depthBound files)) := hcompile
    have hexact := Compilation.cycles_ne_nil_iff hsteady hfiles (c := root) hfollows hby
    refine ⟨hexact.trans (iff_and_self.2 fun _ => nofun), ?_⟩
    intro chain hchain
    obtain ⟨hends, hpath, -⟩ :=
      Compilation.cycle_of_mem_cycles hsteady hfiles (c := root) hfollows hby hchain
    exact ⟨hends, hpath⟩

/-- A file imports one of two files that import each other: the file itself is on no cycle. -/
theorem cycles_compileFile_of_mutual_imports :
    let files : Table String :=
      .ofList [("a.scene", "import b"), ("b.scene", "import a"), ("main.scene", "import a")]
    let l := Loader.new .standard (.ofTable .empty)
    ∃ r l', l.compileFile "main.scene" files = .ok (r, l') ∧
      r.cycles = [["a.scene", "b.scene", "a.scene"]] ∧
      ∃ key, Relation.ReflTransGen (l.setting files).Imports "main.scene" key ∧
        Relation.TransGen (l.setting files).Imports key key := by
  intro files l
  have hcycles : (l.compileFile "main.scene" files).toOption.map (fun x => x.1.cycles) =
      some [["a.scene", "b.scene", "a.scene"]] := by decide +kernel
  have hfiles : ∀ key ∈ files.keys, isAddress key = false := by decide +kernel
  have hreached : l.Reached .standard (.ofTable .empty) := .new
  have hexact := cycles_compileFile_iff hreached hfiles "main.scene"
  obtain ⟨⟨r, l'⟩, hcompile, hchains⟩ := exists_of_toOption_map hcycles
  refine ⟨r, l', hcompile, hchains, ((hexact.2.1 r l' hcompile).1.1 ?_).2⟩
  rw [hchains]
  exact List.cons_ne_nil _ _

end Loader

end Module
end SceneScript
