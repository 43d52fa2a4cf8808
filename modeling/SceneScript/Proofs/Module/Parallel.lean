import SceneScript.Proofs.Module.Cycles
import SceneScript.Proofs.Module.Past
import SceneScript.Proofs.Run.Offset

namespace SceneScript
open Notice (withoutFallbacks)

/-- Two results that show the same and export the same up to the renaming, and report the same but
for stand-ins. -/
structure Result.Matches (r : Renaming) (a b : Result) : Prop where
  scene_eq : b.scene = a.scene
  logs_eq : b.logs = a.logs
  notices_eq : Notice.withoutFallbacks b.notices = Notice.withoutFallbacks a.notices
  exports : r.SameTable a.exports b.exports
  store : a.store.Renumbers r b.store

theorem Result.matches_failed (r : Renaming) (d : Diagnostic) : (failed d).Matches r (failed d) :=
  ⟨rfl, rfl, rfl, .empty r, Store.renumbers_empty r⟩

/-- The libraries that draw no random numbers are what they are under the renaming. -/
def Renaming.FixesLibraries (r : Renaming) (libraries : Libraries) : Prop :=
  ∀ source id, libraries.get? source = some id → source ≠ "random" →
    r.SameValue (.module id) (.module id)

theorem Notice.withoutFallbacks_eq_nil {notices : List Notice} {line : Nat}
    (h : ∀ n ∈ notices, ∃ cause, n = .warning line (.fallback cause)) :
    withoutFallbacks notices = [] := by
  refine List.filter_eq_nil_iff.2 fun n hn => ?_
  obtain ⟨cause, rfl⟩ := h n hn
  exact Bool.noConfusion

theorem Notice.withoutFallbacks_append_congr {first first' second second' : List Notice}
    (h : withoutFallbacks first' = withoutFallbacks first)
    (h' : withoutFallbacks second' = withoutFallbacks second) :
    withoutFallbacks (first' ++ second') = withoutFallbacks (first ++ second) := by
  rw [withoutFallbacks_append, withoutFallbacks_append, h, h']

namespace Module
variable {setting : Setting} {text : String} {i : Import}

/-! ### What a text leads to -/

/-- The key and the text of the module that an import names, unless it names a library. -/
def Setting.module? (s : Setting) (i : Import) : Option (String × String) :=
  match s.libraries.get? i.source with
  | some _ => none
  | none =>
    if isAddress i.source then (s.remote.text? s.config i.source).map (i.source, ·)
    else s.config.naming.resolve? i.source s.files

/-- The imports of a text and of the modules that it leads to. -/
inductive Setting.LeadsTo (s : Setting) : String → Import → Prop
  | own {text : String} {i : Import} : i ∈ importsOfText text → s.LeadsTo text i
  | inside {text inner key : String} {i j : Import} : i ∈ importsOfText text →
      s.module? i = some (key, inner) → s.LeadsTo inner j → s.LeadsTo text j

/-- A text leads to no import of the random library, and to none whose key is on the stack. -/
structure Setting.Clear (s : Setting) (stack : List String) (text : String) : Prop where
  not_random : ∀ i, s.LeadsTo text i → i.source ≠ "random"
  not_mem : ∀ i key, s.LeadsTo text i → s.target? i = some key → key ∉ stack

theorem not_leadsTo_of_importsOfText_eq_nil (h : importsOfText text = []) :
    ¬ setting.LeadsTo text i := by
  intro hleads
  cases hleads with
  | own hi =>
    rw [h] at hi
    cases hi
  | inside hi _ _ =>
    rw [h] at hi
    cases hi

theorem Setting.Clear.inside {stack : List String} {key inner : String}
    (h : setting.Clear stack text) (hi : i ∈ importsOfText text)
    (hmodule : setting.module? i = some (key, inner)) : setting.Clear stack inner where
  not_random j hj := h.not_random j (.inside hi hmodule hj)
  not_mem j found hj := h.not_mem j found (.inside hi hmodule hj)

theorem cycle?_append {below inside : List String} {key : String} (h : key ∉ below) :
    cycle? (below ++ inside) key = cycle? inside key := by
  have hbelow : ∀ other ∈ below, decide (other ≠ key) = true := by
    intro other hother
    exact decide_eq_true fun heq => h (heq ▸ hother)
  rw [cycle?, cycle?, List.dropWhile_append_of_pos hbelow]

/-! ### Steps on both sides -/

/-- Two ends of a step: both stop for one reason, or they come to related values and states. -/
inductive EndsAlike {α β : Type} (R : Loading → Loading → Prop) (S : α → β → Prop) :
    Except Abort (α × Loading) → Except Abort (β × Loading) → Prop
  | stop (abort : Abort) : EndsAlike R S (.error abort) (.error abort)
  | go {a : α} {b : β} {s t : Loading} : S a b → R s t → EndsAlike R S (.ok (a, s)) (.ok (b, t))

def GoAlike {α β : Type} (R R' : Loading → Loading → Prop) (S : α → β → Prop) (x : Load α)
    (y : Load β) : Prop := ∀ s t, R s t → EndsAlike R' S (x s) (y t)

section Laws
variable {α β γ δ : Type} {R R' R'' : Loading → Loading → Prop} {S : α → β → Prop}
  {T : γ → δ → Prop}

theorem GoAlike.pure {a : α} {b : β} (h : S a b) : GoAlike R R S (pure a) (pure b) :=
  fun _ _ hst => .go h hst

theorem GoAlike.bind {x : Load α} {y : Load β} {f : α → Load γ} {g : β → Load δ}
    (hx : GoAlike R R' S x y) (hf : ∀ a b, S a b → GoAlike R' R'' T (f a) (g b)) :
    GoAlike R R'' T (x >>= f) (y >>= g) := by
  intro s t hst
  have hends := hx s t hst
  rcases hs : x s with abort | ⟨a, s'⟩ <;> rcases ht : y t with abort' | ⟨b, t'⟩ <;>
    rw [hs, ht] at hends <;> cases hends
  · rw [Load.bind_apply_of_error hs, Load.bind_apply_of_error ht]
    exact .stop abort
  · rename_i hab hst'
    rw [Load.bind_apply_of_ok hs, Load.bind_apply_of_ok ht]
    exact hf a b hab s' t' hst'

theorem GoAlike.get : GoAlike R R R get get := fun _ _ hst => .go hst hst

theorem GoAlike.modify {f g : Loading → Loading} (h : ∀ s t, R s t → R' (f s) (g t)) :
    GoAlike R R' (fun _ _ => True) (modify f : Load PUnit) (modify g) :=
  fun s t hst => .go trivial (h s t hst)

theorem EndsAlike.imp {e : Except Abort (α × Loading)} {e' : Except Abort (β × Loading)}
    {S' : α → β → Prop} (h : EndsAlike R S e e') (hS : ∀ a b, S a b → S' a b)
    (hR : ∀ s t, R s t → R' s t) : EndsAlike R' S' e e' := by
  cases h with
  | stop abort => exact .stop abort
  | go hab hst => exact .go (hS _ _ hab) (hR _ _ hst)

/-- What is done with the values alone keeps two ends alike. -/
theorem EndsAlike.map {e : Except Abort (α × Loading)} {e' : Except Abort (β × Loading)}
    (h : EndsAlike R S e e') {f : α → γ} {g : β → δ} (hfg : ∀ a b, S a b → T (f a) (g b)) :
    EndsAlike R T (e.map fun x => (f x.1, x.2)) (e'.map fun x => (g x.1, x.2)) := by
  cases h with
  | stop abort => exact .stop abort
  | go hab hst => exact .go (hfg _ _ hab) hst

end Laws

/-- Two compiles are at the same point of a module: on stores that are aligned and with caches of
the right texts. Only what is below the module on their stacks is different. -/
structure Loading.Parallel (setting : Setting) (r : Renaming) (below below' inside : List String)
    (s t : Loading) : Prop where
  store : s.store.Aligned r t.store
  stack : s.stack = below ++ inside
  stack' : t.stack = below' ++ inside
  cache : s.cache.Mirrors setting.config setting.remote
  cache' : t.cache.Mirrors setting.config setting.remote

abbrev StayParallel {α β : Type} (setting : Setting) (r : Renaming)
    (below below' inside : List String) (S : α → β → Prop) (x : Load α) (y : Load β) : Prop :=
  GoAlike (Loading.Parallel setting r below below' inside)
    (Loading.Parallel setting r below below' inside) S x y

section Steps
variable {r : Renaming} {below below' inside : List String}

theorem Loading.Parallel.enter {s t : Loading}
    (h : s.Parallel setting r below below' inside t) (key : String) :
    (s.enter key).Parallel setting r below below' (inside ++ [key]) (t.enter key) where
  store := h.store
  stack := by rw [stack_enter, h.stack, List.append_assoc]
  stack' := by rw [stack_enter, h.stack', List.append_assoc]
  cache := h.cache
  cache' := h.cache'

theorem Loading.Parallel.leave {s t : Loading} {key : String}
    (h : s.Parallel setting r below below' (inside ++ [key]) t) :
    s.leave.Parallel setting r below below' inside t.leave where
  store := h.store
  stack := by rw [stack_leave, h.stack, ← List.append_assoc, List.dropLast_concat]
  stack' := by rw [stack_leave, h.stack', ← List.append_assoc, List.dropLast_concat]
  cache := h.cache
  cache' := h.cache'

/-- What locating comes to on both sides: one fault, or the module that the import names. -/
inductive SameLocated (setting : Setting) (i : Import) :
    Except Diagnostic (String × String × List Notice) →
      Except Diagnostic (String × String × List Notice) → Prop
  | failed (d : Diagnostic) : SameLocated setting i (.error d) (.error d)
  | located {key text : String} {notices notices' : List Notice} :
    setting.module? i = some (key, text) → withoutFallbacks notices = [] →
      withoutFallbacks notices' = [] →
      SameLocated setting i (.ok (key, text, notices)) (.ok (key, text, notices'))

section Texts
variable (hsteady : setting.remote.Steady)
include hsteady

/-- The module that an address names is fetched on both sides, or missing for one reason. -/
theorem stayParallel_fetchText (hlibrary : setting.libraries.get? i.source = none)
    (haddress : isAddress i.source = true) :
    StayParallel setting r below below' inside
      (fun f g => SameLocated setting i (f.map fun x => (i.source, x.1, x.2))
        (g.map fun x => (i.source, x.1, x.2)))
      (fetchText setting i.source i.span) (fetchText setting i.source i.span) := by
  intro s t hst
  rcases hs : fetchText setting i.source i.span s with abort | ⟨f, s'⟩
  · exact absurd hs (fetchText_ne_error i.source abort)
  rcases ht : fetchText setting i.source i.span t with abort | ⟨g, t'⟩
  · exact absurd ht (fetchText_ne_error i.source abort)
  have htext := text?_of_fetchText hsteady hst.cache hs
  have htext' := text?_of_fetchText hsteady hst.cache' ht
  obtain ⟨hstore, hstack⟩ := fetchText_frame hs
  obtain ⟨hstore', hstack'⟩ := fetchText_frame ht
  refine .go ?_ ⟨by rw [hstore, hstore']; exact hst.store, hstack.trans hst.stack,
    hstack'.trans hst.stack', keptByFetch_mirrors hsteady _ _ _ _ _ hs hst.cache,
    keptByFetch_mirrors hsteady _ _ _ _ _ ht hst.cache'⟩
  rw [htext] at htext'
  rcases f with d | ⟨text, notices⟩ <;> rcases g with d' | ⟨text', notices'⟩ <;> cases htext'
  · obtain ⟨reason, hfetch, rfl⟩ := error_of_fetchText hsteady hs
    obtain ⟨reason', hfetch', rfl⟩ := error_of_fetchText hsteady ht
    rw [hfetch] at hfetch'
    cases hfetch'
    exact .failed _
  · refine .located ?_ (Notice.withoutFallbacks_eq_nil (notices_of_fetchText hs))
      (Notice.withoutFallbacks_eq_nil (notices_of_fetchText ht))
    rw [Setting.module?, hlibrary]
    dsimp only
    rw [if_pos haddress, htext]
    rfl

theorem stayParallel_locate (hlibrary : setting.libraries.get? i.source = none)
    (hbelow : ∀ key, setting.target? i = some key → key ∉ below)
    (hbelow' : ∀ key, setting.target? i = some key → key ∉ below') :
    StayParallel setting r below below' inside (SameLocated setting i)
      (locate setting i.source i.span) (locate setting i.source i.span) := by
  intro s t hst
  -- A key that the import names is on both stacks at the same place inside, or on neither.
  have hcycle : ∀ key, keyOf? setting.config.naming setting.files i.source = some key →
      cycle? t.stack key = cycle? s.stack key := by
    intro key hkey
    have htarget : setting.target? i = some key := target?_eq_some.2 ⟨hlibrary, hkey⟩
    rw [hst.stack, hst.stack', cycle?_append (hbelow key htarget),
      cycle?_append (hbelow' key htarget)]
  cases haddress : isAddress i.source with
  | true =>
    have hkey : keyOf? setting.config.naming setting.files i.source = some i.source := by
      rw [keyOf?, if_pos haddress]
    cases hs : cycle? s.stack i.source with
    | some chain =>
      rw [locate_address_of_cycle haddress hs,
        locate_address_of_cycle haddress ((hcycle _ hkey).trans hs)]
      exact .go (.failed _) hst
    | none =>
      rw [locate_address haddress hs, locate_address haddress ((hcycle _ hkey).trans hs)]
      exact (stayParallel_fetchText hsteady hlibrary haddress s t hst).map fun f g hsame => hsame
  | false =>
    cases hresolve : setting.config.naming.resolve? i.source setting.files with
    | none =>
      rw [locate_missing haddress hresolve, locate_missing haddress hresolve]
      exact .go (.failed _) hst
    | some found =>
      have hkey : keyOf? setting.config.naming setting.files i.source = some found.1 := by
        rw [keyOf?, haddress, if_neg Bool.false_ne_true, hresolve, Option.map_some]
      cases hs : cycle? s.stack found.1 with
      | some chain =>
        rw [locate_file_of_cycle haddress hresolve hs,
          locate_file_of_cycle haddress hresolve ((hcycle _ hkey).trans hs)]
        exact .go (.failed _) hst
      | none =>
        rw [locate_file haddress hresolve hs,
          locate_file haddress hresolve ((hcycle _ hkey).trans hs)]
        refine .go (.located ?_ rfl rfl) hst
        rw [Setting.module?, hlibrary]
        dsimp only
        rw [haddress, if_neg Bool.false_ne_true, hresolve]

end Texts

/-- What loading comes to on both sides: one fault, or modules of one name. -/
inductive SameOutcome (r : Renaming) :
    Except Diagnostic ModuleId → Except Diagnostic ModuleId → Prop
  | failed (d : Diagnostic) : SameOutcome r (.error d) (.error d)
  | loaded {id id' : ModuleId} : r.SameValue (.module id) (.module id') →
      SameOutcome r (.ok id) (.ok id')

theorem stayParallel_addModule {exports exports' : Exports} (h : r.SameTable exports exports') :
    StayParallel setting r below below' inside
      (fun id id' => r.SameValue (.module id) (.module id')) (addModule exports)
      (addModule exports') := by
  intro s t hst
  obtain ⟨haligned, hid⟩ := hst.store.addModule h
  exact .go hid ⟨haligned, hst.stack, hst.stack', hst.cache, hst.cache'⟩

theorem sameTable_bindExports {exports exports' : Exports} {table table' : Table Value}
    (hexports : r.SameTable exports exports') (i : Import) (htable : r.SameTable table table') :
    r.SameTable (bindExports exports i table).1 (bindExports exports' i table').1 ∧
      (bindExports exports' i table').2 = (bindExports exports i table).2 := by
  unfold bindExports
  refine List.foldl_rel (r := fun bound bound' : Table Value × List Notice =>
    r.SameTable bound.1 bound'.1 ∧ bound'.2 = bound.2) ⟨htable, rfl⟩ ?_
  rintro ⟨bound, name⟩ - ⟨table, notices⟩ ⟨table', notices'⟩ ⟨htable, rfl⟩
  dsimp only
  have hget := hexports.rel_get? name
  rcases hvalue : exports.get? name with _ | value <;>
    rcases hvalue' : exports'.get? name with _ | value' <;> rw [hvalue, hvalue'] at hget <;>
    cases hget
  · exact ⟨htable, rfl⟩
  · rename_i hsame
    exact ⟨htable.insert bound hsame, rfl⟩

theorem sameTable_bindImport {s t : Store} (hst : s.Aligned r t) (naming : Naming) (i : Import)
    {id id' : ModuleId} (hid : r.SameValue (.module id) (.module id')) {table table' : Table Value}
    (htable : r.SameTable table table') :
    r.SameTable (bindImport naming s i id table).1 (bindImport naming t i id' table').1 ∧
      (bindImport naming t i id' table').2 = (bindImport naming s i id table).2 := by
  unfold bindImport
  split
  · exact ⟨htable.insert _ hid, rfl⟩
  · obtain ⟨heq, hknown⟩ := hid
    cases heq
    exact sameTable_bindExports (hst.sameTable hknown) i htable

variable {compile : UnitCompiler}

section Imports
variable (hsteady : setting.remote.Steady)
  (hlibraries : r.FixesLibraries setting.libraries)
  (hcompile : ∀ key text, setting.Clear below text → setting.Clear below' text →
    StayParallel setting r below below' inside (Result.Matches r) (compile key text)
      (compile key text))
  (hclear : setting.Clear below text) (hclear' : setting.Clear below' text)
include hsteady hlibraries hcompile hclear hclear'

theorem stayParallel_loadModule (hi : i ∈ importsOfText text) :
    StayParallel setting r below below' inside
      (fun l m => SameOutcome r l.1 m.1 ∧ withoutFallbacks m.2 = withoutFallbacks l.2)
      (loadModule setting compile i.source i.span)
      (loadModule setting compile i.source i.span) := by
  have hleads : setting.LeadsTo text i := .own hi
  unfold loadModule
  cases hlibrary : setting.libraries.get? i.source with
  | some id =>
    exact .pure ⟨.loaded (hlibraries _ id hlibrary (hclear.not_random i hleads)), rfl⟩
  | none =>
    refine .bind (stayParallel_locate hsteady hlibrary (fun key => hclear.not_mem i key hleads)
      fun key => hclear'.not_mem i key hleads) fun located located' hlocated => ?_
    cases hlocated with
    | failed d => exact .pure ⟨.failed d, rfl⟩
    | @located key inner notices notices' hmodule hnotices hnotices' =>
      refine .bind (hcompile key inner (hclear.inside hi hmodule) (hclear'.inside hi hmodule))
        fun result result' hresult => ?_
      refine .bind (stayParallel_addModule hresult.exports) fun id id' hid => ?_
      refine .pure ⟨.loaded hid, ?_⟩
      refine Notice.withoutFallbacks_append_congr (hnotices'.trans hnotices.symm) ?_
      rw [Notice.withoutFallbacks_forwarded, Notice.withoutFallbacks_forwarded, hresult.notices_eq]

theorem stayParallel_resolveImports {imports : List Import}
    (hall : ∀ i ∈ imports, i ∈ importsOfText text) {table table' : Table Value}
    {notices notices' : List Notice} (htable : r.SameTable table table')
    (hnotices : withoutFallbacks notices' = withoutFallbacks notices) :
    StayParallel setting r below below' inside
      (fun p q => r.SameTable p.1 q.1 ∧ withoutFallbacks q.2 = withoutFallbacks p.2)
      (resolveImports setting compile imports table notices)
      (resolveImports setting compile imports table' notices') := by
  -- Both sides resolve the same imports, so they stay at the same point of the module around them.
  induction imports generalizing table table' notices notices' with
  | nil => exact .pure ⟨htable, hnotices⟩
  | cons i more ih =>
    obtain ⟨hi, hmore⟩ := List.forall_mem_cons.1 hall
    rw [resolveImports, resolveImports]
    refine .bind (stayParallel_loadModule hsteady hlibraries hcompile hclear hclear' hi)
      fun loaded loaded' hloaded => ?_
    obtain ⟨outcome, reported⟩ := loaded
    obtain ⟨outcome', reported'⟩ := loaded'
    obtain ⟨houtcome, hreported⟩ := hloaded
    have hboth : withoutFallbacks (notices' ++ reported') =
        withoutFallbacks (notices ++ reported) :=
      Notice.withoutFallbacks_append_congr hnotices hreported
    cases houtcome with
    | failed d => exact ih hmore htable (Notice.withoutFallbacks_append_congr hboth rfl)
    | loaded hid =>
      refine .bind .get fun s t hst => ?_
      obtain ⟨hbound, hmissing⟩ :=
        sameTable_bindImport hst.store setting.config.naming i hid htable
      exact ih hmore hbound
        (Notice.withoutFallbacks_append_congr hboth (congrArg withoutFallbacks hmissing))

end Imports

theorem stayParallel_runProgram (p : Program) {table table' : Table Value}
    (h : r.SameTable table table') :
    StayParallel setting r below below' inside (Result.Matches r) (runProgram p table)
      (runProgram p table') := by
  intro s t hst
  unfold runProgram
  rcases (Program.run_aligned hst.store h p).cases with ⟨a, b, ha, hb, hsame, hexports, haligned⟩ |
    ⟨stop, ha, hb⟩
  · rw [ha, hb]
    exact .go ⟨hsame.scene_eq, hsame.logs_eq, congrArg withoutFallbacks hsame.notices_eq, hexports,
      haligned.renumbers⟩ ⟨haligned, hst.stack, hst.stack', hst.cache, hst.cache'⟩
  · rw [ha, hb]
    exact .stop _

/-- A compile of one text, on both sides, with compilers for its imports that go alike. -/
theorem stayParallel_compileWith (hsteady : setting.remote.Steady)
    (hlibraries : r.FixesLibraries setting.libraries)
    (hcompile : ∀ inside key text, setting.Clear below text → setting.Clear below' text →
      StayParallel setting r below below' inside (Result.Matches r) (compile key text)
        (compile key text))
    (hclear : setting.Clear below text) (hclear' : setting.Clear below' text) (key : String) :
    StayParallel setting r below below' inside (Result.Matches r)
      (compileWith setting compile key text) (compileWith setting compile key text) := by
  unfold compileWith
  cases hprogram : Program.ofSource text with
  | error d => exact .pure (Result.matches_failed r _)
  | ok p =>
    have himports : p.imports = importsOfText text := by rw [importsOfText, hprogram]
    refine .bind (.modify fun s t hst => hst.enter key) fun _ _ _ => ?_
    refine .bind (stayParallel_resolveImports hsteady hlibraries (hcompile _) hclear hclear'
      (fun i hi => himports ▸ hi) (.empty r) rfl) fun resolved resolved' h => ?_
    obtain ⟨table, notices⟩ := resolved
    obtain ⟨table', notices'⟩ := resolved'
    obtain ⟨htable, hnotices⟩ := h
    refine .bind (.modify fun s t hst => hst.leave) fun _ _ _ => ?_
    refine .bind (stayParallel_runProgram p htable) fun result result' h => ?_
    refine .pure { h with notices_eq := ?_ }
    exact Notice.withoutFallbacks_append_congr hnotices h.notices_eq

/-- From the same point of a module on, compiles of one text come to results that match. -/
theorem stayParallel_compileUnit (hsteady : setting.remote.Steady)
    (hlibraries : r.FixesLibraries setting.libraries) (depth : Nat)
    (hclear : setting.Clear below text) (hclear' : setting.Clear below' text) (key : String) :
    StayParallel setting r below below' inside (Result.Matches r)
      (compileUnit setting depth key text) (compileUnit setting depth key text) := by
  induction depth generalizing inside key text with
  | zero => exact fun _ _ _ => .stop .tooDeep
  | succ depth ih =>
    exact stayParallel_compileWith hsteady hlibraries (fun inside key text h h' => ih h h' key)
      hclear hclear' key

end Steps

end Module
end SceneScript
