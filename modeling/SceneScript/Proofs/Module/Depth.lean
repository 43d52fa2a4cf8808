import Mathlib.Data.Finset.Card
import Mathlib.Data.Finset.SDiff
import SceneScript.Proofs.Module.Calls
import SceneScript.Proofs.Module.Fallback

namespace SceneScript.Module

namespace Load
variable {α β : Type}

/-- What `x` comes to, `x'` comes to as well, unless `x` is stopped by the bound. -/
def Outlasts (x' x : Load α) : Prop := ∀ state, x state ≠ .error .tooDeep → x' state = x state

theorem Outlasts.refl (x : Load α) : Outlasts x x := fun _ _ => rfl

theorem Outlasts.bind {x' x : Load α} {f' f : α → Load β} (hx : Outlasts x' x)
    (hf : ∀ a, Outlasts (f' a) (f a)) : Outlasts (x' >>= f') (x >>= f) := by
  intro state h
  cases hstate : x state with
  | error abort =>
    have hne : x state ≠ .error .tooDeep := fun hdeep => h (bind_apply_of_error hdeep)
    rw [bind_apply_of_error hstate]
    exact bind_apply_of_error ((hx state hne).trans hstate)
  | ok first =>
    have hne : x state ≠ .error .tooDeep := by simp [hstate]
    rw [bind_apply_of_ok hstate] at h ⊢
    rw [bind_apply_of_ok ((hx state hne).trans hstate)]
    exact hf first.1 first.2 h

end Load

section
variable {setting : Setting} {compile' compile : UnitCompiler}

theorem outlasts_loadModule (h : ∀ key source, Load.Outlasts (compile' key source)
    (compile key source)) (source : String) (span : Span) :
    Load.Outlasts (loadModule setting compile' source span)
      (loadModule setting compile source span) := by
  unfold loadModule
  cases setting.libraries.get? source with
  | some id => exact .refl _
  | none =>
    refine .bind (.refl _) fun located => ?_
    cases located with
    | error d => exact .refl _
    | ok found => exact .bind (h _ _) fun result => .refl _

theorem outlasts_resolveImports
    (h : ∀ key source, Load.Outlasts (compile' key source) (compile key source))
    (imports : List Import) (table : Table Value) (notices : List Notice) :
    Load.Outlasts (resolveImports setting compile' imports table notices)
      (resolveImports setting compile imports table notices) := by
  induction imports generalizing table notices with
  | nil => exact .refl _
  | cons i more ih =>
    rw [resolveImports, resolveImports]
    refine .bind (outlasts_loadModule h i.source i.span) fun loaded => ?_
    obtain ⟨outcome, reported⟩ := loaded
    cases outcome with
    | error d => exact ih _ _
    | ok id => exact .bind (.refl _) fun state => ih _ _

theorem outlasts_compileWith
    (h : ∀ key source, Load.Outlasts (compile' key source) (compile key source))
    (key source : String) :
    Load.Outlasts (compileWith setting compile' key source)
      (compileWith setting compile key source) := by
  unfold compileWith
  cases Program.ofSource source with
  | error d => exact .refl _
  | ok p =>
    refine .bind (.refl _) fun _ => .bind (outlasts_resolveImports h _ _ _) fun resolved => ?_
    exact .refl _

/-- A higher bound makes no difference to a compile that the lower one does not stop. -/
theorem outlasts_compileUnit (setting : Setting) (depth more : Nat) (key source : String) :
    Load.Outlasts (compileUnit setting (depth + more) key source)
      (compileUnit setting depth key source) := by
  induction depth generalizing key source with
  | zero => exact fun state h => absurd rfl h
  | succ depth ih =>
    rw [Nat.add_right_comm, compileUnit, compileUnit]
    exact outlasts_compileWith ih key source

end

/-- A text in the cache belongs to one of the keys, or is that of a stand-in. -/
def Cache.Within (cache : Cache) (keys : List String) : Prop :=
  ∀ address text, cache.texts.get? address = some text →
    address ∈ keys ∨ text = fallbackSource address

theorem Cache.Within.insert {cache : Cache} {keys : List String} {address text : String}
    (hcache : cache.Within keys) (h : address ∈ keys ∨ text = fallbackSource address) :
    (cache.insert address text).Within keys := by
  intro other found hfound
  rw [Cache.insert, Table.get?_insert] at hfound
  split at hfound
  next heq =>
    cases hfound
    rwa [heq]
  next => exact hcache other found hfound

/-- The keys hold every file of the setting, and every address that may have a text. -/
structure Setting.Within (setting : Setting) (keys : List String) : Prop where
  file (key text : String) : setting.files.get? key = some text → key ∈ keys
  address (earlier : Nat) (address text : String) :
    setting.remote.fetch earlier address = .ok text → address ∈ keys

/-- A program that stands in for a module imports nothing. -/
theorem Call.imports_of_fallback {c : Call} (h : c.source = fallbackSource c.key) :
    c.imports = [] := by
  obtain ⟨span, place, hprogram⟩ := ofSource_fallbackSource c.key
  rw [imports, h, hprogram]
  rfl

section
variable {setting : Setting} {keys : List String} (hsetting : setting.Within keys)
include hsetting

theorem keptByFetch_within : KeptByFetch setting (fun cache _ => cache.Within keys) := by
  intro address span state fetched after h hcache
  rcases fetchText_cases h with ⟨text, -, -, rfl⟩ |
    ⟨-, ⟨text, hfetch, -, rfl⟩ | ⟨reason, -, -, -, rfl⟩ | ⟨reason, -, -, -, rfl⟩⟩
  · exact hcache
  · exact hcache.insert (.inl (hsetting.address _ _ _ hfetch))
  · exact hcache.insert (.inr rfl)
  · exact hcache

theorem within_of_locate {source key text : String} {span : Span} {notices : List Notice}
    {state after : Loading} (hcache : state.cache.Within keys)
    (h : locate setting source span state = .ok (.ok (key, text, notices), after)) :
    key ∈ keys ∨ text = fallbackSource key := by
  rcases locate_cases h with ⟨-, heq, -⟩ | ⟨_, _, -, -, heq, -⟩ | ⟨-, -, fetched, hfetch, heq⟩ |
    ⟨_, _, -, hresolve, -, heq, -⟩
  · cases heq
  · cases heq
  · cases fetched <;> cases heq
    rcases fetchText_cases hfetch with ⟨_, hcached, heq, -⟩ |
      ⟨-, ⟨_, htext, heq, -⟩ | ⟨_, -, -, heq, -⟩ | ⟨_, -, -, heq, -⟩⟩ <;> cases heq
    · exact hcache _ _ hcached
    · exact .inl (hsetting.address _ _ _ htext)
    · exact .inr rfl
  · cases heq
    exact .inl (hsetting.file key text (get?_of_resolve? hresolve))

namespace Call
variable {c call : Call} {depth : Nat} {name : String}

theorem within_of_mem_calls (hc : c.before.cache.Within keys)
    (h : (name, call) ∈ c.calls setting depth) :
    call.before.cache.Within keys ∧ (call.key ∈ keys ∨ call.imports = []) := by
  have frame := (keptByFetch_within hsetting).frame
  obtain ⟨i, -, -, before, hbefore, hcall⟩ := frame.mem_calledForAll (frame.compileUnit depth) h
  obtain ⟨-, notices, hlocate⟩ := calledFor?_eq_some hcall
  refine ⟨frame.locate hlocate (hbefore hc), ?_⟩
  exact (within_of_locate hsetting (hbefore hc) hlocate).imp_right imports_of_fallback

end Call
end

def remaining (keys stack : List String) : Nat := (keys.toFinset \ stack.toFinset).card

theorem remaining_le (keys stack : List String) : remaining keys stack ≤ keys.length :=
  (Finset.card_le_card Finset.sdiff_subset).trans (List.toFinset_card_le keys)

theorem remaining_append_lt {keys stack : List String} {key : String} (hkey : key ∈ keys)
    (hnew : key ∉ stack) : remaining keys (stack ++ [key]) < remaining keys stack := by
  apply Finset.card_lt_card
  rw [Finset.ssubset_iff_of_subset]
  · exact ⟨key, by simp [hkey, hnew], by simp⟩
  · intro other hother
    simp only [List.toFinset_append, Finset.mem_sdiff, Finset.mem_union, not_or] at hother ⊢
    exact ⟨hother.1, hother.2.1⟩

/-- A compile is not stopped by a bound above the number of keys that are not on its stack: each one
inside it has a key less to go. -/
theorem Call.ne_tooDeep {setting : Setting} {keys : List String} (hsetting : setting.Within keys)
    {depth : Nat} {c : Call} (hcache : c.before.cache.Within keys) (hnew : c.key ∉ c.before.stack)
    (hkey : c.key ∈ keys ∨ c.imports = []) (hdepth : remaining keys c.before.stack < depth) :
    compileUnit setting depth c.key c.source c.before ≠ .error .tooDeep := by
  -- Every compile inside this one has a key that is not on the stack, so there is one key less for
  -- it and for the bound.
  induction depth generalizing c with
  | zero => omega
  | succ depth ih =>
    intro hdeep
    rcases run_or_mem_calls_of_eq_error hdeep with ⟨heq, -⟩ | ⟨name, call, hcall, hdeep⟩
    · cases heq
    have hkey : c.key ∈ keys := by
      refine hkey.resolve_right fun hnone => ?_
      rw [calls, hnone] at hcall
      cases hcall
    obtain ⟨hstack, hnew'⟩ := stack_of_mem_calls hcall
    obtain ⟨hcache', hkey'⟩ := within_of_mem_calls hsetting hcache hcall
    refine ih hcache' hnew' hkey' ?_ hdeep
    have hless := remaining_append_lt hkey hnew
    rw [hstack]
    omega

namespace Loader

/-- The keys that can stand for a source with imports in a compile of this loader. -/
def keys (l : Loader) (name : String) (files : Table String) : List String :=
  name :: (files.keys ++ l.remote.known ++ l.cache.texts.keys)

theorem length_keys (l : Loader) (name : String) (files : Table String) :
    (l.keys name files).length + 1 = l.depthBound files := by
  simp only [keys, depthBound, Table.keys, Table.size, Cache.size, List.length_cons,
    List.length_append, List.length_map]

variable {l : Loader}

theorem within_keys (hl : l.remote.Finite) (name : String) (files : Table String) :
    (l.setting files).Within (l.keys name files) where
  file key text h := by
    have hmem : key ∈ files.keys := Table.mem_keys_of_get? h
    simp [keys, hmem]
  address earlier address text h := by
    have hmem : address ∈ l.remote.known := hl earlier address text h
    simp [keys, hmem]

theorem cache_within_keys (l : Loader) (name : String) (files : Table String) :
    l.cache.Within (l.keys name files) := by
  intro address text h
  have hmem : address ∈ l.cache.texts.keys := Table.mem_keys_of_get? h
  exact .inl (by simp [keys, hmem])

theorem compileUnit_ne_tooDeep (hl : l.remote.Finite) (name source : String)
    (files : Table String) :
    compileUnit (l.setting files) (l.depthBound files) name source
      (l.rootCall name source).before ≠ .error .tooDeep := by
  refine Call.ne_tooDeep (c := l.rootCall name source) (within_keys hl name files)
    (cache_within_keys l name files) List.not_mem_nil (.inl List.mem_cons_self) ?_
  have hle := remaining_le (l.keys name files) (l.rootCall name source).before.stack
  have hlength := length_keys l name files
  omega

/-- No bound from the loader's own one up makes a difference. -/
theorem compileWithin_eq_compileRoot (hl : l.remote.Finite) (name source : String)
    {files : Table String} {depth : Nat} (hdepth : l.depthBound files ≤ depth) :
    l.compileWithin depth name source files = l.compileRoot name source files := by
  obtain ⟨more, rfl⟩ := Nat.exists_eq_add_of_le hdepth
  rw [compileRoot, compileWithin_eq, compileWithin_eq]
  rw [outlasts_compileUnit _ _ more _ _ _ (compileUnit_ne_tooDeep hl name source files)]

theorem compileRoot_ne_tooDeep (hl : l.remote.Finite) (name source : String)
    (files : Table String) : l.compileRoot name source files ≠ .error .tooDeep := by
  rw [compileRoot, compileWithin_eq]
  have hne := compileUnit_ne_tooDeep hl name source files
  cases hcompile : compileUnit (l.setting files) (l.depthBound files) name source
      (l.rootCall name source).before with
  | error abort =>
    rw [hcompile] at hne
    intro h
    cases h
    exact hne rfl
  | ok done => exact nofun

/-- A compile ends, if only finitely many addresses have a text: no bound that is large enough stops
it. At every moment the keys on the stack are different, and every compile of a module, import of
one and resolution of imports leaves the stack as it found it. -/
theorem compileRoot_ends (l : Loader) (hl : l.remote.Finite) (name source : String)
    (files : Table String) :
    l.compileRoot name source files ≠ .error .tooDeep ∧
    (∀ depth, l.depthBound files ≤ depth →
      l.compileWithin depth name source files = l.compileRoot name source files) ∧
    (∀ depth inner, Call.During (l.setting files) depth (l.rootCall name source) inner →
      (inner.before.stack ++ [inner.key]).Nodup) ∧
    ∀ depth state,
      (∀ key text result after,
        compileUnit (l.setting files) depth key text state = .ok (result, after) →
        after.stack = state.stack) ∧
      (∀ importSource span loaded after,
        loadModule (l.setting files) (compileUnit (l.setting files) depth) importSource span state =
          .ok (loaded, after) → after.stack = state.stack) ∧
      ∀ imports table notices resolved after,
        resolveImports (l.setting files) (compileUnit (l.setting files) depth) imports table notices
          state = .ok (resolved, after) → after.stack = state.stack := by
  have frame := stackFrame (l.setting files)
  refine ⟨compileRoot_ne_tooDeep hl name source files,
    fun depth hdepth => compileWithin_eq_compileRoot hl name source hdepth, ?_, ?_⟩
  · exact fun depth inner hinner => hinner.nodup (List.nodup_singleton name)
  · intro depth state
    have hcompile := frame.compileUnit depth
    exact ⟨fun key text result after h => hcompile _ _ _ _ _ h,
      fun importSource span loaded after h => frame.loadModule hcompile h,
      fun imports table notices resolved after h => frame.resolveImports hcompile h⟩

/-- Two remote modules that import each other, the root again and an address without a text. -/
theorem compileRoot_ends_of_mutual_imports :
    let texts : Table String := .ofList [
      ("http://a", "import \"http://b\"\nimport \"http://gone\""),
      ("http://b", "import \"http://a\"\nimport \"main.scene\"")]
    let files : Table String := .ofList [("main.scene", "import \"http://a\"")]
    let l := Loader.new .standard (.ofTable texts)
    (Remote.ofTable texts).Finite ∧
      l.compileRoot "main.scene" "import \"http://a\"" files ≠ .error .tooDeep := by
  intro texts files l
  have hfinite : l.remote.Finite := Remote.finite_ofTable texts
  exact ⟨hfinite, (compileRoot_ends l hfinite "main.scene" "import \"http://a\"" files).1⟩

end Loader

end SceneScript.Module
