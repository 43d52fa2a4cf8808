import SceneScript.Proofs.Module.Calls
import SceneScript.Proofs.Run.Path

namespace SceneScript

namespace Store
variable {s t u : Store}

def RetainsModules (s t : Store) : Prop := s.modules.toList <+: t.modules.toList

theorem RetainsModules.refl (s : Store) : s.RetainsModules s := List.prefix_refl _

theorem RetainsModules.trans (h : s.RetainsModules t) (h' : t.RetainsModules u) :
    s.RetainsModules u := List.IsPrefix.trans h h'

theorem retainsModules_of_eq (h : t.modules = s.modules) : s.RetainsModules t :=
  ⟨[], by rw [List.append_nil, h]⟩

theorem retainsModules_addModule (s : Store) (exports : Exports) :
    s.RetainsModules (s.addModule exports).2 := by
  rw [RetainsModules, addModule, Array.toList_push]
  exact List.prefix_append _ _

theorem RetainsModules.size_le (h : s.RetainsModules t) : s.modules.size ≤ t.modules.size := by
  simpa using h.length_le

theorem RetainsModules.exports_eq (h : s.RetainsModules t) {id : ModuleId}
    (hid : id.index < s.modules.size) : t.exports id = s.exports id := by
  obtain ⟨more, hmore⟩ := h
  have hget : t.modules.toList[id.index]? = s.modules.toList[id.index]? := by
    rw [← hmore, List.getElem?_append_left (by simpa using hid)]
  rw [exports, exports, ← Array.getElem?_toList, hget, Array.getElem?_toList]

end Store

namespace Module
variable {setting : Setting} {compile : UnitCompiler} {state after : Loading}

def Loading.Retains (state after : Loading) : Prop := state.store.RetainsModules after.store

theorem Loading.Retains.trans {between : Loading} (h : state.Retains between)
    (h' : between.Retains after) : state.Retains after := Store.RetainsModules.trans h h'

theorem retains_of_locate {source : String} {span : Span}
    {located : Except Diagnostic (String × String × List Notice)}
    (h : locate setting source span state = .ok (located, after)) : state.Retains after := by
  rw [Loading.Retains, (locate_frame h).1]
  exact .refl _

theorem retains_of_loadModule (hcompile : Leads Loading.Retains compile) {source : String}
    {span : Span} {loaded : Except Diagnostic ModuleId × List Notice}
    (h : loadModule setting compile source span state = .ok (loaded, after)) :
    state.Retains after := by
  rcases loadModule_eq_ok h with ⟨id, -, -, -, rfl⟩ | ⟨d, -, hlocate, -, -⟩ |
    ⟨key, text, notices, between, result, middle, -, hlocate, hresult, -, -, rfl⟩
  · exact .refl _
  · exact retains_of_locate hlocate
  · have hmiddle : state.Retains middle :=
      (retains_of_locate hlocate).trans (hcompile _ _ _ _ _ hresult)
    exact hmiddle.trans (Store.retainsModules_addModule middle.store result.exports)

theorem retains_of_resolveImports (hcompile : Leads Loading.Retains compile) {imports : List Import}
    {table : Table Value} {notices : List Notice} {resolved : Table Value × List Notice}
    (h : resolveImports setting compile imports table notices state = .ok (resolved, after)) :
    state.Retains after := by
  induction imports generalizing table notices state with
  | nil =>
    cases h
    exact .refl _
  | cons i more ih =>
    obtain ⟨outcome, reported, between, hload, hrest⟩ := resolveImports_cons_eq_ok h
    have hbetween : state.Retains between := retains_of_loadModule hcompile hload
    rcases hrest with ⟨d, -, hrest⟩ | ⟨id, bound, missing, -, -, hrest⟩
    · exact hbetween.trans (ih hrest)
    · exact hbetween.trans (ih hrest)

theorem leads_retains_compileWith (hcompile : Leads Loading.Retains compile) :
    Leads Loading.Retains (compileWith setting compile) := by
  intro key source state result after h
  rcases compileWith_eq_ok h with ⟨d, -, -, rfl⟩ |
    ⟨p, table, notices, between, ran, -, hresolve, hrun, -, rfl⟩
  · exact .refl _
  · have hbetween : (state.enter key).Retains between := retains_of_resolveImports hcompile hresolve
    exact hbetween.trans (Store.retainsModules_of_eq (Program.modules_of_run hrun))

/-- Compiles only add to the modules. -/
theorem leads_retains_compileUnit (setting : Setting) (depth : Nat) :
    Leads Loading.Retains (compileUnit setting depth) := by
  induction depth with
  | zero =>
    intro key source state result after h
    cases h
  | succ depth ih => exact leads_retains_compileWith ih

theorem retains_of_calledForAll (hcompile : Leads Loading.Retains compile) {imports : List Import}
    {name : String} {call : Call} (h : (name, call) ∈ calledForAll setting compile imports state) :
    state.Retains call.before := by
  induction imports generalizing state with
  | nil => cases h
  | cons i more ih =>
    rw [calledForAll] at h
    rcases List.mem_append.1 h with h | h
    · rw [Option.mem_toList, Option.map_eq_some_iff] at h
      obtain ⟨found, hfound, heq⟩ := h
      cases heq
      obtain ⟨-, notices, hlocate⟩ := calledFor?_eq_some hfound
      exact retains_of_locate hlocate
    · split at h
      next loaded between hload => exact (retains_of_loadModule hcompile hload).trans (ih h)
      next => cases h

theorem Call.retains_of_mem_calls {c call : Call} {depth : Nat} {name : String}
    (h : (name, call) ∈ c.calls setting depth) : c.before.Retains call.before := by
  have hcalls : (c.before.enter c.key).Retains call.before :=
    retains_of_calledForAll (leads_retains_compileUnit setting depth) h
  exact hcalls

end Module
end SceneScript
