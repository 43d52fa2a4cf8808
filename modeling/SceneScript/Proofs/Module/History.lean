import SceneScript.Proofs.Module.Calls

namespace SceneScript.Module

/-- The text that an address stands for: the one that is fetched or, if there is none, that of the
program that may stand in for it. -/
def Remote.text? (r : Remote) (config : Config) (address : String) : Option String :=
  match r.fetch 0 address with
  | .ok text => some text
  | .error _ => if config.fallback then some (fallbackSource address) else none

def Cache.Mirrors (cache : Cache) (config : Config) (remote : Remote) : Prop :=
  ∀ address text, cache.texts.get? address = some text → remote.text? config address = some text

theorem Cache.mirrors_empty (config : Config) (remote : Remote) :
    Cache.empty.Mirrors config remote :=
  fun _ _ h => nomatch h

theorem Cache.Mirrors.insert {cache : Cache} {config : Config} {remote : Remote}
    {address text : String} (hcache : cache.Mirrors config remote)
    (h : remote.text? config address = some text) :
      (cache.insert address text).Mirrors config remote := by
  intro other found hfound
  rw [Cache.insert, Table.get?_insert] at hfound
  split at hfound
  next heq =>
    cases hfound
    rwa [heq]
  next => exact hcache other found hfound

section
variable {setting : Setting} (hsteady : setting.remote.Steady)
include hsteady

/-- What is fetched is what the address stands for, with the cache or without. -/
theorem text?_of_fetchText {address : String} {span : Span} {state after : Loading}
    {fetched : Except Diagnostic (String × List Notice)}
    (hcache : state.cache.Mirrors setting.config setting.remote)
    (h : fetchText setting address span state = .ok (fetched, after)) :
    setting.remote.text? setting.config address = fetched.toOption.map (·.1) := by
  unfold Remote.text?
  rcases fetchText_cases h with ⟨text, hcached, rfl, -⟩ |
    ⟨-, ⟨text, hfetch, rfl, -⟩ | ⟨reason, hfetch, hfallback, rfl, -⟩ |
      ⟨reason, hfetch, hfallback, rfl, -⟩⟩
  · exact hcache address text hcached
  · rw [hsteady] at hfetch
    rw [hfetch]
    rfl
  · rw [hsteady] at hfetch
    rw [hfetch, hfallback]
    rfl
  · rw [hsteady] at hfetch
    rw [hfetch, hfallback]
    rfl

theorem keptByFetch_mirrors :
    KeptByFetch setting (fun cache _ => cache.Mirrors setting.config setting.remote) := by
  intro address span state fetched after h hcache
  have htext := text?_of_fetchText hsteady hcache h
  rcases fetchText_cases h with ⟨text, -, -, rfl⟩ |
    ⟨-, ⟨text, -, rfl, rfl⟩ | ⟨reason, -, -, rfl, rfl⟩ | ⟨reason, -, -, -, rfl⟩⟩
  · exact hcache
  · exact hcache.insert htext
  · exact hcache.insert htext
  · exact hcache

/-- A module that an address names is located with the text that the address stands for. -/
theorem text?_of_locate {source key text : String} {span : Span} {notices : List Notice}
    {state after : Loading} (hcache : state.cache.Mirrors setting.config setting.remote)
    (h : locate setting source span state = .ok (.ok (key, text, notices), after)) :
    (isAddress key = true ∧ setting.remote.text? setting.config key = some text) ∨
      setting.files.get? key = some text := by
  rcases locate_cases h with ⟨-, heq, -⟩ | ⟨_, _, -, -, heq, -⟩ |
    ⟨haddress, -, fetched, hfetch, heq⟩ | ⟨_, _, -, hresolve, -, heq, -⟩
  · cases heq
  · cases heq
  · cases fetched <;> cases heq
    exact .inl ⟨haddress, text?_of_fetchText hsteady hcache hfetch⟩
  · cases heq
    exact .inr (get?_of_resolve? hresolve)

end

/-- A loader that compiles lead to, from a new one: of any sources with any files, nested to any
bound, and with any result. -/
inductive Loader.Reached (config : Config) (remote : Remote) : Loader → Prop
  | new : Reached config remote (.new config remote)
  | compile {l l' : Loader} {depth : Nat} {name source : String} {files : Table String}
    {result : Result} : Reached config remote l →
      l.compileWithin depth name source files = .ok (result, l') → Reached config remote l'

namespace Loader.Reached
variable {config : Config} {remote : Remote} {l : Loader}

theorem config_eq (hl : l.Reached config remote) : l.config = config := by
  induction hl with
  | new => rfl
  | compile _ h ih =>
    obtain ⟨state, -, rfl⟩ := compileWithin_eq_ok h
    exact ih

theorem remote_eq (hl : l.Reached config remote) : l.remote = remote := by
  induction hl with
  | new => rfl
  | compile _ h ih =>
    obtain ⟨state, -, rfl⟩ := compileWithin_eq_ok h
    exact ih

/-- Whatever was compiled before, a loader remembers the texts that addresses stand for. -/
theorem mirrors (hremote : remote.Steady) (hl : l.Reached config remote) :
    l.cache.Mirrors config remote := by
  -- A compile only adds answers to the memory, and answers do not depend on what was asked before.
  induction hl with
  | new => exact Cache.mirrors_empty config remote
  | @compile l l' depth name source files result hl h ih =>
    obtain ⟨state, hcompile, rfl⟩ := compileWithin_eq_ok h
    obtain rfl : l.config = config := hl.config_eq
    obtain rfl : l.remote = remote := hl.remote_eq
    have hsteady : (l.setting files).remote.Steady := hremote
    have frame := (keptByFetch_mirrors hsteady).frame
    exact frame.compileUnit depth _ _ _ _ _ hcompile ih

theorem compileRoot {l' : Loader} {name source : String} {files : Table String} {result : Result}
    (hl : l.Reached config remote) (h : l.compileRoot name source files = .ok (result, l')) :
    l'.Reached config remote := hl.compile h

theorem compileFile {l' : Loader} {name : String} {files : Table String} {result : Result}
    (hl : l.Reached config remote) (h : l.compileFile name files = .ok (result, l')) :
    l'.Reached config remote := by
  unfold Loader.compileFile at h
  split at h
  next source => exact hl.compileRoot h
  next =>
    cases h
    exact hl

end Loader.Reached
end SceneScript.Module
