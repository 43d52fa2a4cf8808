import SceneScript.Proofs.Module.Breakdown
import SceneScript.Proofs.Module.Growth
import SceneScript.Proofs.Module.Parallel

namespace SceneScript.Module
variable {setting : Setting}

theorem index_lt_of_library {seed : UInt64} {source : String} {id : ModuleId}
    (h : (Store.empty.addLibraries seed).1.get? source = some id) (hsource : source ≠ "random") :
    id.index < 2 := by
  have hmem := Table.mem_of_get?_ofList h
  simp only [List.mem_cons, Prod.mk.injEq, List.not_mem_nil, or_false] at hmem
  rcases hmem with ⟨-, rfl⟩ | ⟨-, rfl⟩ | ⟨rfl, -⟩
  · exact Nat.two_pos
  · exact Nat.one_lt_two
  · exact absurd rfl hsource

theorem inert_of_ofList {entries : List (String × Value)} (hall : ∀ e ∈ entries, e.2.Inert)
    {name : String} {value : Value} (h : (Table.ofList entries).get? name = some value) :
    value.Inert := hall _ (Table.mem_of_get?_ofList h)

/-- The libraries that draw no random numbers have no identities in them. -/
theorem inert_of_library (seed : UInt64) {id : ModuleId} (hid : id.index < 2) {name : String}
    {value : Value}
    (h : ((Store.empty.addLibraries seed).2.exports id).get? name = some value) : value.Inert := by
  have hnative (f : Native) (hf : f.function.isRandom = false) : (Value.native f).Inert :=
    fun _ => ⟨rfl, hf⟩
  obtain ⟨_ | _ | index⟩ := id
  · refine inert_of_ofList ?_ h
    simp only [List.forall_mem_append, List.forall_mem_map, List.forall_mem_cons, Store.nativeEntry]
    exact ⟨⟨fun f _ => hnative _ rfl, fun f _ => hnative _ rfl⟩, hnative _ rfl, hnative _ rfl,
      Value.inert_number _, Value.inert_number _, fun _ h => nomatch h⟩
  · refine inert_of_ofList ?_ h
    simp only [List.forall_mem_map, Store.nativeEntry]
    exact fun f _ => hnative _ rfl
  · simp only at hid
    omega

namespace Call
variable {depth below : Nat} {c inner : Call} {path : List String}

def outcome (c : Call) (setting : Setting) (depth : Nat) : Except Abort (Result × Loading) :=
  compileUnit setting depth c.key c.source c.before

theorem Descends.retains (h : Descends setting depth c path below inner) :
    c.before.Retains inner.before := by
  induction h with
  | self c => exact .refl _
  | through hcall _ ih => exact (retains_of_mem_calls hcall).trans ih

theorem mirrors_of_mem_calls (hsteady : setting.remote.Steady) {name : String} {call : Call}
    (h : (name, call) ∈ c.calls setting depth)
    (hc : c.before.cache.Mirrors setting.config setting.remote) :
    call.before.cache.Mirrors setting.config setting.remote := by
  have frame := (keptByFetch_mirrors hsteady).frame
  obtain ⟨i, -, -, before, hbefore, hcall⟩ := frame.mem_calledForAll (frame.compileUnit depth) h
  obtain ⟨-, notices, hlocate⟩ := calledFor?_eq_some hcall
  exact frame.locate hlocate (hbefore hc)

theorem Descends.mirrors (hsteady : setting.remote.Steady)
    (h : Descends setting depth c path below inner)
    (hc : c.before.cache.Mirrors setting.config setting.remote) :
    inner.before.cache.Mirrors setting.config setting.remote := by
  induction h with
  | self c => exact hc
  | through hcall _ ih => exact ih (mirrors_of_mem_calls hsteady hcall hc)

end Call

namespace Loader
variable {l l' : Loader} {files : Table String} {name name' source source' : String}
  {depth depth' below below' : Nat} {path path' : List String} {c c' : Call}

theorem setting_congr (hconfig : l'.config = l.config) (hremote : l'.remote = l.remote)
    (files : Table String) : l'.setting files = l.setting files := by
  rw [setting, setting, hconfig, hremote]

/-- A compile that is begun inside one of a loader begins with the libraries. -/
theorem libraries_of_descends
    (h : Call.Descends (l.setting files) depth (l.rootCall name source) path below c) :
    2 ≤ c.before.store.modules.size ∧ ∀ id : ModuleId, id.index < 2 →
      c.before.store.exports id = (Store.empty.addLibraries l.config.seed).2.exports id := by
  have hretains : (Store.empty.addLibraries l.config.seed).2.RetainsModules c.before.store :=
    h.retains
  have hsize : (Store.empty.addLibraries l.config.seed).2.modules.size = 3 := rfl
  refine ⟨Nat.le_trans (by omega) hretains.size_le, fun id hid => ?_⟩
  exact hretains.exports_eq (by omega)

/-- Two calls of one source in compiles of loaders that know the same texts begin at the same point
of it, with all that was added before as an offset. -/
theorem parallel_of_descends (hconfig : l'.config = l.config) (hremote : l'.remote = l.remote)
    (hsteady : l.remote.Steady) (hcache : l.cache.Mirrors l.config l.remote)
    (hcache' : l'.cache.Mirrors l.config l.remote)
    (hc : Call.Descends (l.setting files) depth (l.rootCall name source) path below c)
    (hc' : Call.Descends (l'.setting files) depth' (l'.rootCall name' source') path' below' c') :
    c.before.Parallel (l.setting files) (c.before.store.offset 2 c'.before.store) c.before.stack
      c'.before.stack [] c'.before := by
  obtain ⟨hsize, hlibraries⟩ := libraries_of_descends hc
  obtain ⟨hsize', hlibraries'⟩ := libraries_of_descends hc'
  have hsetting : l'.setting files = l.setting files := setting_congr hconfig hremote files
  rw [hsetting] at hc'
  refine ⟨Store.aligned_offset hsize fun id hid => ⟨?_, fun entry value hvalue => ?_⟩,
    (List.append_nil _).symm, (List.append_nil _).symm, hc.mirrors hsteady hcache,
    hc'.mirrors hsteady hcache'⟩
  · rw [hlibraries id hid, hlibraries' id hid, hconfig]
  · rw [hlibraries id hid] at hvalue
    exact inert_of_library l.config.seed hid hvalue

theorem fixesLibraries_of_descends
    (hc : Call.Descends (l.setting files) depth (l.rootCall name source) path below c)
    (hc' : Call.Descends (l'.setting files) depth' (l'.rootCall name' source') path' below' c') :
    (c.before.store.offset 2 c'.before.store).FixesLibraries (l.setting files).libraries := by
  intro library id hid hne
  have hlt : id.index < 2 := index_lt_of_library hid hne
  have hsize : 2 ≤ c.before.store.modules.size := (libraries_of_descends hc).1
  have hstays := Store.offset_module_of_lt 2 c.before.store c'.before.store
    (Nat.lt_of_lt_of_le hlt hsize)
  exact ⟨congrArg Value.module hstays.symm, .inr ⟨hlt, (libraries_of_descends hc').1⟩⟩

theorem ne_tooDeep_of_descends (hl : l.remote.Finite) (hdepth : l.depthBound files ≤ depth)
    (hc : Call.Descends (l.setting files) depth (l.rootCall name source) path below c) :
    c.outcome (l.setting files) below ≠ .error .tooDeep := by
  intro hdeep
  have hroot : compileUnit (l.setting files) depth name source (l.rootCall name source).before =
      .error .tooDeep := hc.eq_error hdeep
  have hne := compileUnit_ne_tooDeep hl name source files
  obtain ⟨more, rfl⟩ := Nat.exists_eq_add_of_le hdepth
  rw [outlasts_compileUnit _ _ more _ _ _ hne] at hroot
  exact hne hroot

/-- A module does not depend on who imports it. Two calls for one key and one source, made anywhere
in compiles with the same files and remote texts, end alike if nothing that the source leads to
imports the random library or has its key on one of the stacks: both break down, or they have
results that show and export the same, and report the same but for stand-ins. A bound is too low for
both or for neither. If only finitely many addresses have a text, what is left of the bound of a
whole compile is not too low. -/
theorem compileUnit_independent_of_importer (hconfig : l'.config = l.config)
    (hremote : l'.remote = l.remote) (hsteady : l.remote.Steady)
    (hcache : l.cache.Mirrors l.config l.remote) (hcache' : l'.cache.Mirrors l.config l.remote)
    (hc : Call.Descends (l.setting files) depth (l.rootCall name source) path below c)
    (hc' : Call.Descends (l'.setting files) depth' (l'.rootCall name' source') path' below' c')
    (hkey : c'.key = c.key) (hsource : c'.source = c.source)
    (hclear : (l.setting files).Clear c.before.stack c.source)
    (hclear' : (l.setting files).Clear c'.before.stack c.source) :
    (∀ bound, EndsAlike (fun _ _ => True) (fun a b => ∃ r, Result.Matches r a b)
      (c.outcome (l.setting files) bound) (c'.outcome (l'.setting files) bound)) ∧
    (c.outcome (l.setting files) below ≠ .error .tooDeep →
      c'.outcome (l'.setting files) below' ≠ .error .tooDeep →
      EndsAlike (fun _ _ => True) (fun a b => ∃ r, Result.Matches r a b)
        (c.outcome (l.setting files) below) (c'.outcome (l'.setting files) below')) ∧
    (l.remote.Finite →
      (l.depthBound files ≤ depth → c.outcome (l.setting files) below ≠ .error .tooDeep) ∧
      (l'.depthBound files ≤ depth' →
        c'.outcome (l'.setting files) below' ≠ .error .tooDeep)) := by
  have hsetting : l'.setting files = l.setting files := setting_congr hconfig hremote files
  have hparallel := parallel_of_descends hconfig hremote hsteady hcache hcache' hc hc'
  have hlibraries := fixesLibraries_of_descends hc hc'
  have hends : ∀ bound, EndsAlike (fun _ _ => True) (fun a b => ∃ r, Result.Matches r a b)
      (c.outcome (l.setting files) bound) (c'.outcome (l'.setting files) bound) := by
    intro bound
    have halike := stayParallel_compileUnit hsteady hlibraries bound hclear hclear' c.key _ _
      hparallel
    rw [hsetting, Call.outcome, Call.outcome, hkey, hsource]
    exact halike.imp (fun a b hmatches => ⟨_, hmatches⟩) fun _ _ _ => trivial
  refine ⟨hends, fun hdeep hdeep' => ?_, fun hfinite => ⟨fun hdepth => ?_, fun hdepth => ?_⟩⟩
  · -- The two have different bounds, and a bound above both is as good as either.
    have hboth := hends (below + below')
    have hhigher : c.outcome (l.setting files) (below + below') =
        c.outcome (l.setting files) below := outlasts_compileUnit _ below below' _ _ _ hdeep
    have hhigher' : c'.outcome (l'.setting files) (below' + below) =
        c'.outcome (l'.setting files) below' := outlasts_compileUnit _ below' below _ _ _ hdeep'
    rw [hhigher, Nat.add_comm below below', hhigher'] at hboth
    exact hboth
  · exact ne_tooDeep_of_descends hfinite hdepth hc
  · exact ne_tooDeep_of_descends (hremote ▸ hfinite) hdepth hc'

/-- A module that is the root of one compile, and imported in another one after the address that it
imports itself: there the stand-in is in the cache already, and the module does not report it. -/
theorem compileUnit_independent_of_importer_of_stand_in :
    let shape := "import math\nimport \"http://gone\"\nconsole.print(\"shape\")"
    let main := "import \"http://gone\"\nimport shape"
    let files : Table String := .ofList [("main.scene", main), ("shape.scene", shape)]
    let l := Loader.new .standard (.ofTable .empty)
    let c := l.rootCall "shape.scene" shape
    ∃ c' a s b t, Call.Descends (l.setting files) 4 (l.rootCall "main.scene" main) ["shape"] 3 c' ∧
      c'.key = c.key ∧ c'.source = c.source ∧ c'.before.stack = ["main.scene"] ∧
      c.outcome (l.setting files) 4 = .ok (a, s) ∧ c'.outcome (l.setting files) 3 = .ok (b, t) ∧
      a.logs = ["shape"] ∧ a.notices.length = 1 ∧ b.notices = [] ∧ ∃ r, Result.Matches r a b := by
  intro shape main files l c
  have hall : ∀ i ∈ importsOfText shape, i.source = "math" ∨ i.source = "http://gone" := by
    decide +kernel
  have hmath : (l.setting files).libraries.get? "math" = some ⟨0⟩ := by decide +kernel
  have hgone : (l.setting files).libraries.get? "http://gone" = none := by decide +kernel
  have haddress : isAddress "http://gone" = true := by decide +kernel
  have htext : (l.setting files).remote.text? (l.setting files).config "http://gone" =
      some (fallbackSource "http://gone") := by decide +kernel
  have hleads : ∀ i, (l.setting files).LeadsTo shape i →
      i.source = "math" ∨ i.source = "http://gone" := by
    intro i h
    cases h with
    | own hi => exact hall i hi
    | inside hi hmodule hinner =>
      unfold Setting.module? at hmodule
      rcases hall _ hi with hsource | hsource
      · rw [hsource, hmath] at hmodule
        cases hmodule
      · rw [hsource, hgone] at hmodule
        dsimp only at hmodule
        rw [if_pos haddress, htext] at hmodule
        cases hmodule
        exact absurd hinner (not_leadsTo_of_importsOfText_eq_nil (importsOfText_fallback _))
  have hclear : ∀ stack : List String, "http://gone" ∉ stack →
      (l.setting files).Clear stack shape := by
    refine fun stack hstack => ⟨fun i hi => ?_, fun i key hi htarget => ?_⟩
    · rcases hleads i hi with hsource | hsource <;> rw [hsource] <;> decide
    · obtain ⟨hlibrary, hkey⟩ := target?_eq_some.1 htarget
      rcases hleads i hi with hsource | hsource <;> rw [hsource] at hlibrary hkey
      · rw [hmath] at hlibrary
        cases hlibrary
      · rw [keyOf?, if_pos haddress] at hkey
        cases hkey
        exact hstack
  have hfirst : (c.outcome (l.setting files) 4).toOption.map
      (fun x => (x.1.logs, x.1.notices.length)) = some (["shape"], 1) := by decide +kernel
  have hsecond : ((l.rootCall "main.scene" main).calls (l.setting files) 3)[1]?.map
      (fun x => (x.1, x.2.key, x.2.source, x.2.before.stack,
        (x.2.outcome (l.setting files) 3).toOption.map fun y => y.1.notices.length)) =
      some ("shape", "shape.scene", shape, ["main.scene"], some 0) := by decide +kernel
  obtain ⟨⟨a, s⟩, hc, hseen⟩ := exists_of_toOption_map hfirst
  obtain ⟨⟨name, c'⟩, hcall, hcalled⟩ := Option.map_eq_some_iff.1 hsecond
  simp only [Prod.mk.injEq] at hseen hcalled
  obtain ⟨rfl, hkey, hsource, hstack, hagain⟩ := hcalled
  obtain ⟨⟨b, t⟩, hc', hnone⟩ := exists_of_toOption_map hagain
  have hdescends :
      Call.Descends (l.setting files) 4 (l.rootCall "main.scene" main) ["shape"] 3 c' :=
    .through (List.mem_of_getElem? hcall) (.self c')
  have hcache : l.cache.Mirrors l.config l.remote := Cache.mirrors_empty _ _
  have hself : Call.Descends (l.setting files) 4 (l.rootCall "shape.scene" shape) [] 4 c := .self c
  have hends := (compileUnit_independent_of_importer rfl rfl (Remote.steady_ofTable .empty) hcache
    hcache hself hdescends hkey hsource (hclear _ List.not_mem_nil)
    (hclear _ (by rw [hstack]; decide))).2.1
  rw [hc, hc'] at hends
  have halike := hends nofun nofun
  cases halike with
  | go hmatches _ =>
    exact ⟨c', a, s, b, t, hdescends, hkey, hsource, hstack, hc, hc', hseen.1, hseen.2,
      List.eq_nil_of_length_eq_zero hnone, hmatches⟩

end Loader
end SceneScript.Module
