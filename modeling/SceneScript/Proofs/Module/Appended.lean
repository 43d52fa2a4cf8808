import SceneScript.Proofs.Module.Past
import SceneScript.Proofs.Run.Path

namespace SceneScript

/-- The logs and the notices of the second machine begin with those of the first. -/
structure Machine.Extends (m after : Machine) : Prop where
  logs : m.logs.toList <+: after.logs.toList
  notices : m.notices.toList <+: after.notices.toList

namespace Machine
variable {m between after : Machine} {placed : List Placement}

theorem Extends.refl (m : Machine) : m.Extends m := ⟨List.prefix_refl _, List.prefix_refl _⟩

theorem Extends.trans (h : m.Extends between) (h' : between.Extends after) : m.Extends after :=
  ⟨h.logs.trans h'.logs, h.notices.trans h'.notices⟩

theorem GrowsTo.extends (h : m.GrowsTo after) : m.Extends after where
  logs := by rw [h.logs_eq]
  notices := by
    obtain ⟨warnings, hnotices, -⟩ := h.notices
    exact ⟨warnings, hnotices.symm⟩

theorem Step.extends (h : Step m placed after) : m.Extends after := by
  cases h with
  | evaluate hgrows => exact hgrows.extends
  | place name confined hgrows hid => exact ⟨hgrows.extends.logs, hgrows.extends.notices⟩
  | say line => exact ⟨⟨[line], Array.toList_push.symm⟩, List.prefix_refl _⟩
  | report d => exact ⟨List.prefix_refl _, ⟨[.error d], Array.toList_push.symm⟩⟩
  | _ => exact ⟨List.prefix_refl _, List.prefix_refl _⟩

theorem Leads.extends (h : m.Leads after) : m.Extends after := by
  obtain ⟨placed, hpath⟩ := h
  induction hpath with
  | start => exact .refl m
  | step _ hstep ih => exact ih.trans hstep.extends

end Machine

def Stmt.isImport (s : Stmt) : Bool :=
  match s with
  | .imports _ => true
  | _ => false

namespace Program
variable {p p' : Program} {more : List Stmt} {table : Table Value} {store : Store} {r r' : Result}

/-- What a longer program logs and reports begins with what the shorter one does. -/
theorem prefix_of_run (hmore : p'.statements = p.statements ++ more)
    (h : p.run table store = .ok r) (h' : p'.run table store = .ok r') :
    r.logs <+: r'.logs ∧ r.notices <+: r'.notices := by
  obtain ⟨m, hend, rfl⟩ := run_eq_ok_iff.1 h
  obtain ⟨after, hend', rfl⟩ := run_eq_ok_iff.1 h'
  rw [hmore] at hend'
  obtain ⟨between, hfirst, hrest⟩ := Machine.exists_of_foldlM_append hend'
  obtain rfl : m = between := Except.ok.inj (hend.symm.trans hfirst)
  have hextends : m.Extends after := (Machine.moves_foldlM hrest).leads.extends
  exact ⟨hextends.logs, hextends.notices⟩

/-- Imports alone do nothing when they are run. -/
theorem silent_of_run (himports : ∀ s ∈ p.statements, s.isImport = true)
    (h : p.run table store = .ok r) : r.logs = [] ∧ r.notices = [] := by
  have hstart : ∀ statements : List Stmt, (∀ s ∈ statements, s.isImport = true) →
      ∀ m : Machine, statements.foldlM Machine.runStatement m = .ok m := by
    intro statements
    induction statements with
    | nil => exact fun _ _ => rfl
    | cons first more ih =>
      intro hall m
      obtain ⟨hfirst, hmore⟩ := List.forall_mem_cons.1 hall
      cases first with
      | imports declaration =>
        rw [List.foldlM_cons]
        exact ih hmore m
      | _ => cases hfirst
  obtain ⟨m, hend, rfl⟩ := run_eq_ok_iff.1 h
  rw [hstart _ himports] at hend
  cases hend
  exact ⟨rfl, rfl⟩

theorem imports_append (hmore : p'.statements = p.statements ++ more) :
    p'.imports = p.imports ++ Program.imports ⟨more⟩ := by
  rw [imports, imports, imports, hmore, List.filterMap_append]

theorem imports_eq_nil (h : ∀ s ∈ more, s.isImport = false) : Program.imports ⟨more⟩ = [] := by
  rw [imports, List.filterMap_eq_nil_iff]
  intro s hs
  cases s with
  | imports declaration => exact absurd (h _ hs) Bool.noConfusion
  | _ => rfl

/-- The statements that are appended to a program import nothing, or there are only imports before
them. -/
def AppendsInOrder (p p' : Program) : Prop :=
  ∃ more, p'.statements = p.statements ++ more ∧
    ((∀ s ∈ more, s.isImport = false) ∨ ∀ s ∈ p.statements, s.isImport = true)

end Program

/-- A result that another one begins with: the other one logs and reports all of it first. -/
structure Result.IsPrefix (r r' : Result) : Prop where
  logs : r.logs <+: r'.logs
  notices : r.notices <+: r'.notices

namespace Module

variable {setting : Setting} {compile : UnitCompiler}

theorem resolveImports_append (imports more : List Import) (table : Table Value)
    (notices : List Notice) :
    resolveImports setting compile (imports ++ more) table notices =
      resolveImports setting compile imports table notices >>= fun (table, notices) =>
        resolveImports setting compile more table notices := by
  induction imports generalizing table notices with
  | nil =>
    rw [List.nil_append, resolveImports, pure_bind]
  | cons i rest ih =>
    rw [List.cons_append, resolveImports, resolveImports, bind_assoc]
    refine bind_congr fun loaded => ?_
    obtain ⟨outcome, reported⟩ := loaded
    cases outcome with
    | error d => exact ih _ _
    | ok id =>
      rw [bind_assoc]
      exact bind_congr fun state => ih _ _

theorem notices_prefix_of_resolveImports {imports : List Import} {table table' : Table Value}
    {notices notices' : List Notice} {state after : Loading}
    (h : resolveImports setting compile imports table notices state =
      .ok ((table', notices'), after)) : notices <+: notices' := by
  induction imports generalizing table notices state with
  | nil =>
    cases h
    exact List.prefix_refl _
  | cons i more ih =>
    obtain ⟨outcome, reported, between, -, hrest⟩ := resolveImports_cons_eq_ok h
    rcases hrest with ⟨d, -, hrest⟩ | ⟨id, bound, missing, -, -, hrest⟩
    · exact ((List.prefix_append _ _).trans (List.prefix_append _ _)).trans (ih hrest)
    · exact ((List.prefix_append _ _).trans (List.prefix_append _ _)).trans (ih hrest)

/-- A compile with more in its cache, of a source to which statements were appended in order, goes
on from what the compile before has shown, if that one reported no stand-in. -/
theorem isPrefix_of_appendsInOrder (hsteady : setting.remote.Steady)
    (hcompile : ∀ key source,
      Agree setting Result.Spares (compile key source) (compile key source))
    {key source source' : String} {p p' : Program} {s s' t t' : Loading} {r r' : Result}
    (halike : s.Alike setting t) (hp : Program.ofSource source = .ok p)
    (hp' : Program.ofSource source' = .ok p') (horder : p.AppendsInOrder p')
    (hnone : ∀ n ∈ r.notices, n.reportsFallback = false)
    (h : compileWith setting compile key source s = .ok (r, s'))
    (h' : compileWith setting compile key source' t = .ok (r', t')) : r.IsPrefix r' := by
  obtain ⟨more, hmore, horder⟩ := horder
  rcases compileWith_eq_ok h with ⟨d, hd, -, -⟩ |
    ⟨q, table, notices, between, ran, hq, hresolve, hrun, rfl, -⟩
  · rw [hp] at hd
    cases hd
  rcases compileWith_eq_ok h' with ⟨d, hd, -, -⟩ |
    ⟨q', table', notices', between', ran', hq', hresolve', hrun', rfl, -⟩
  · rw [hp'] at hd
    cases hd
  obtain rfl : p = q := Except.ok.inj (hp.symm.trans hq)
  obtain rfl : p' = q' := Except.ok.inj (hp'.symm.trans hq')
  rw [Program.imports_append hmore, resolveImports_append] at hresolve'
  obtain ⟨⟨table₁, notices₁⟩, between₁, hfirst, hrest⟩ := Load.exists_of_bind_eq_ok hresolve'
  -- The imports that both programs have are resolved alike.
  have hentered : (s.enter key).Alike setting (t.enter key) :=
    ⟨halike.store, by simp [halike.stack], halike.left, halike.right, halike.within⟩
  have hends := agree_resolveImports hsteady hcompile p.imports .empty (.refl []) _ _ hentered
  rw [hresolve, hfirst] at hends
  obtain ⟨rfl, hspares, hbetween⟩ : table = table₁ ∧ Notice.Spares notices notices₁ ∧
      between.Alike setting between₁ := by
    cases hends with
    | go hsame halike' => exact ⟨hsame.1, hsame.2, halike'⟩
  obtain rfl : notices₁ = notices := hspares.eq fun n hn => hnone n (List.mem_append_left _ hn)
  have himported : notices₁ <+: notices' := notices_prefix_of_resolveImports hrest
  rcases horder with hplain | himports
  · rw [Program.imports_eq_nil hplain] at hrest
    cases hrest
    rw [← hbetween.store] at hrun'
    obtain ⟨hlogs, hreported⟩ := Program.prefix_of_run hmore hrun hrun'
    exact ⟨hlogs, List.prefix_append_right_inj _ |>.2 hreported⟩
  · obtain ⟨hlogs, hreported⟩ := Program.silent_of_run himports hrun
    have hnotices : notices₁ ++ ran.notices = notices₁ := by rw [hreported, List.append_nil]
    exact ⟨hlogs.symm ▸ List.nil_prefix, hnotices.symm ▸ himported.trans (List.prefix_append _ _)⟩

/-- Fetching forgets no text. -/
theorem keptByFetch_contains (setting : Setting) (address : String) :
    KeptByFetch setting (fun cache _ => cache.texts.get? address ≠ none) := by
  intro other span state fetched after h hcontains hnone
  exact hcontains ((get?_eq_none_of_fetchText h).1 hnone).1

namespace Loader
variable {config : Config} {remote : Remote} {l₁ l₂ l₁' l₂' : Loader} {name source source' : String}
  {files : Table String} {r r' : Result}

/-- A loader remembers after a compile what it remembered before. -/
theorem within_of_compileRoot (h : l₁.compileRoot name source files = .ok (r, l₁')) :
    ∀ address, l₁'.cache.texts.get? address = none → l₁.cache.texts.get? address = none := by
  intro address hnone
  obtain ⟨state, hcompile, rfl⟩ := compileWithin_eq_ok h
  by_contra hcontains
  have frame := (keptByFetch_contains (l₁.setting files) address).frame
  exact frame.compileUnit _ _ _ _ _ _ hcompile hcontains hnone

/-- A loader that compiles a source anew after statements were appended to it in order goes on from
what it has shown of it, if it reported no stand-in. -/
theorem isPrefix_of_compileRoot (hsteady : remote.Steady) (hfinite : remote.Finite)
    (hl₁ : l₁.Reached config remote) (hl₂ : l₂.Reached config remote)
    (hwithin : ∀ address, l₂.cache.texts.get? address = none → l₁.cache.texts.get? address = none)
    {p p' : Program} (hp : Program.ofSource source = .ok p)
    (hp' : Program.ofSource source' = .ok p') (horder : p.AppendsInOrder p')
    (hnone : ∀ n ∈ r.notices, n.reportsFallback = false)
    (h : l₁.compileRoot name source files = .ok (r, l₁'))
    (h' : l₂.compileRoot name source' files = .ok (r', l₂')) : r.IsPrefix r' := by
  obtain rfl : l₁.config = config := hl₁.config_eq
  obtain rfl : l₁.remote = remote := hl₁.remote_eq
  have hsetting : l₂.setting files = l₁.setting files := by
    rw [setting, setting, hl₂.config_eq, hl₂.remote_eq]
  have halike : (l₁.rootCall name source).before.Alike (l₁.setting files)
      (l₂.rootCall name source').before := by
    refine ⟨?_, rfl, hl₁.mirrors hsteady, hl₂.mirrors hsteady, hwithin⟩
    rw [rootCall, rootCall, hl₂.config_eq]
  -- Both compiles are taken to one bound, which is above that of either loader.
  let depth := max (l₁.depthBound files) (l₂.depthBound files)
  have hleft : l₁.depthBound files ≤ depth + 1 := (Nat.le_max_left _ _).trans (Nat.le_succ _)
  have hright : l₂.depthBound files ≤ depth + 1 := (Nat.le_max_right _ _).trans (Nat.le_succ _)
  have hfinite₂ : l₂.remote.Finite := by rwa [hl₂.remote_eq]
  rw [← compileWithin_eq_compileRoot hfinite name source hleft] at h
  rw [← compileWithin_eq_compileRoot hfinite₂ name source' hright] at h'
  obtain ⟨state, hcompile, -⟩ := compileWithin_eq_ok h
  obtain ⟨state', hcompile', -⟩ := compileWithin_eq_ok h'
  rw [hsetting] at hcompile'
  have hsteady' : (l₁.setting files).remote.Steady := hsteady
  exact isPrefix_of_appendsInOrder hsteady' (agree_compileUnit hsteady' depth) halike hp hp' horder
    hnone hcompile hcompile'

end Loader
end Module
end SceneScript
