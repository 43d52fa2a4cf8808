import SceneScript.Proofs.Module.History

namespace SceneScript.Module

/-! ### Memories -/

structure Memory where
  cache : Cache
  requests : Array String

def Loading.memory (state : Loading) : Memory := ⟨state.cache, state.requests⟩

def Loader.memory (l : Loader) : Memory := ⟨l.cache, l.requests⟩

/-- What the request after so many others is answered: the text that is fetched or, if there is
none, that of the program that may stand in for it. -/
def Remote.answer? (r : Remote) (config : Config) (earlier : Nat) (address : String) :
    Option String :=
  match r.fetch earlier address with
  | .ok text => some text
  | .error _ => if config.fallback then some (fallbackSource address) else none

theorem Remote.answer?_of_error {r : Remote} {config : Config} {earlier : Nat}
    {address reason : String} (h : r.fetch earlier address = .error reason) :
    r.answer? config earlier address =
      if config.fallback then some (fallbackSource address) else none := by rw [answer?, h]

/-- A request is answered nothing if it fails and no program stands in. -/
theorem Remote.answer?_eq_none {r : Remote} {config : Config} {earlier : Nat} {address : String}
    (h : r.answer? config earlier address = none) :
    config.fallback = false ∧ ∃ reason, r.fetch earlier address = .error reason := by
  cases hfetch : r.fetch earlier address with
  | ok text =>
    rw [answer?, hfetch] at h
    cases h
  | error reason =>
    rw [answer?_of_error hfetch] at h
    cases hfallback : config.fallback with
    | true =>
      rw [hfallback] at h
      cases h
    | false => exact ⟨rfl, reason, rfl⟩

/-! ### Look-ups -/

/-- An import of an address that closes no cycle, for which the text of the address is looked up. -/
structure Lookup where
  address : String
  before : Loading
  /-- The text that is compiled for the import, if there is one. -/
  text? : Option String
  after : Loading

namespace Lookup

/-- The text is asked for, not found in the cache. -/
def asks (k : Lookup) : Bool := k.before.requests.size < k.after.requests.size

def request (k : Lookup) : String × Nat := (k.address, k.before.requests.size)

def Fetches (setting : Setting) (k : Lookup) : Prop :=
  ∃ span fetched, fetchText setting k.address span k.before = .ok (fetched, k.after) ∧
    k.text? = fetched.toOption.map (·.1)

/-- A look-up finds the text in the cache and counts a hit; or it asks, and puts what it is answered
into the cache, or is answered nothing. -/
theorem Fetches.cases {setting : Setting} {k : Lookup} (h : k.Fetches setting) :
    (∃ text, k.before.cache.texts.get? k.address = some text ∧ k.text? = some text ∧
      k.asks = false ∧ k.after.memory = ⟨{ k.before.cache with hits := k.before.cache.hits + 1 },
        k.before.requests⟩) ∨
    k.before.cache.texts.get? k.address = none ∧ k.asks = true ∧
      k.text? = setting.remote.answer? setting.config k.before.requests.size k.address ∧
      ((∃ text, k.text? = some text ∧ k.after.memory =
          ⟨k.before.cache.insert k.address text, k.before.requests.push k.address⟩) ∨
        k.text? = none ∧ k.after.memory = ⟨k.before.cache, k.before.requests.push k.address⟩) := by
  obtain ⟨span, fetched, hfetch, htext⟩ := h
  have hasks : k.after.requests = k.before.requests.push k.address → k.asks = true := by
    intro hafter
    rw [asks, hafter, Array.size_push]
    exact decide_eq_true (Nat.lt_succ_self _)
  rcases fetchText_cases hfetch with ⟨text, hcached, rfl, hafter⟩ |
    ⟨hcached, ⟨text, hanswer, rfl, hafter⟩ | ⟨reason, hanswer, hfallback, rfl, hafter⟩ |
      ⟨reason, hanswer, hfallback, rfl, hafter⟩⟩
  · refine .inl ⟨text, hcached, htext, ?_, by rw [hafter]; rfl⟩
    rw [asks, hafter]
    exact decide_eq_false (Nat.lt_irrefl _)
  · refine .inr ⟨hcached, hasks (by rw [hafter]), ?_, .inl ⟨text, htext, by rw [hafter]; rfl⟩⟩
    rw [htext, Remote.answer?, hanswer]
    rfl
  · refine .inr ⟨hcached, hasks (by rw [hafter]), ?_, .inl ⟨_, htext, by rw [hafter]; rfl⟩⟩
    rw [htext, Remote.answer?_of_error hanswer, hfallback]
    rfl
  · refine .inr ⟨hcached, hasks (by rw [hafter]), ?_, .inr ⟨htext, by rw [hafter]; rfl⟩⟩
    rw [htext, Remote.answer?_of_error hanswer, hfallback]
    rfl

/-- Look-ups one after another, from a memory to a memory: each begins with what the one before it
left. -/
inductive Chain (setting : Setting) : Memory → List Lookup → Memory → Prop
  | nil (memory : Memory) : Chain setting memory [] memory
  | cons {k : Lookup} {ks : List Lookup} {last : Memory} : k.Fetches setting →
    Chain setting k.after.memory ks last → Chain setting k.before.memory (k :: ks) last

theorem Chain.single {setting : Setting} {k : Lookup} (h : k.Fetches setting) :
    Chain setting k.before.memory [k] k.after.memory := .cons h (.nil _)

theorem Chain.append {setting : Setting} {first between last : Memory} {ks ks' : List Lookup}
    (h : Chain setting first ks between) (h' : Chain setting between ks' last) :
    Chain setting first (ks ++ ks') last := by
  induction h with
  | nil => exact h'
  | cons hk _ ih => exact .cons hk (ih h')

end Lookup

/-! ### The look-ups of a compile -/

def lookup? (setting : Setting) (source : String) (span : Span) (state : Loading) : Option Lookup :=
  match setting.libraries.get? source, locate setting source span state with
  | none, .ok (_, after) =>
    if isAddress source ∧ cycle? state.stack source = none then
      some ⟨source, state, (calledFor? setting source span state).map (·.source), after⟩
    else none
  | _, _ => none

/-- The look-ups of an import, and those of the compile that is begun for it. -/
def lookupsFor (setting : Setting) (inside : Call → List Lookup) (source : String) (span : Span)
    (state : Loading) : List Lookup :=
  (lookup? setting source span state).toList ++
    ((calledFor? setting source span state).map inside).getD []

def lookupsForAll (setting : Setting) (compile : UnitCompiler) (inside : Call → List Lookup) :
    List Import → Loading → List Lookup
  | [], _ => []
  | i :: more, state =>
    lookupsFor setting inside i.source i.span state ++
      match loadModule setting compile i.source i.span state with
      | .ok (_, after) => lookupsForAll setting compile inside more after
      | .error _ => []

def Call.lookups (setting : Setting) : Nat → Call → List Lookup
  | 0, _ => []
  | depth + 1, c => lookupsForAll setting (compileUnit setting depth) (lookups setting depth)
      c.imports (c.before.enter c.key)

/-- From the state, a step makes these look-ups, and leaves the memory that they lead to. -/
def Traced {α : Type} (setting : Setting) (step : Load α) (state : Loading) (ks : List Lookup) :
    Prop :=
  ∃ last, Lookup.Chain setting state.memory ks last ∧
    ∀ a after, step state = .ok (a, after) → after.memory = last

section
variable {setting : Setting} {compile : UnitCompiler} {inside : Call → List Lookup}
  {source : String} {span : Span} {state after : Loading}
  {located : Except Diagnostic (String × String × List Notice)}

theorem Traced.of_error {α : Type} {step : Load α} {abort : Abort}
    (h : step state = .error abort) : Traced setting step state [] := by
  refine ⟨state.memory, .nil _, fun a after hstep => ?_⟩
  rw [h] at hstep
  cases hstep

theorem lookup?_of_library {id : ModuleId} (h : setting.libraries.get? source = some id)
    (span : Span) (state : Loading) :
    lookup? setting source span state = none ∧ calledFor? setting source span state = none := by
  unfold lookup? calledFor?
  rw [h]
  exact ⟨rfl, rfl⟩

theorem lookup?_of_locate (hlibrary : setting.libraries.get? source = none)
    (hlocate : locate setting source span state = .ok (located, after)) :
    lookup? setting source span state =
      if isAddress source ∧ cycle? state.stack source = none then
        some ⟨source, state, (calledFor? setting source span state).map (·.source), after⟩
      else none := by
  rw [lookup?, hlibrary, hlocate]

theorem calledFor?_of_locate (hlibrary : setting.libraries.get? source = none)
    (hlocate : locate setting source span state = .ok (located, after)) :
    calledFor? setting source span state =
      located.toOption.map fun (key, text, _) => ⟨key, text, after⟩ := by
  rw [calledFor?, hlibrary, hlocate]
  cases located <;> rfl

/-- An import that looks a text up leaves the memory that the look-up leaves; another one leaves it
as it was. -/
theorem chain_lookup? (hlibrary : setting.libraries.get? source = none)
    (hlocate : locate setting source span state = .ok (located, after)) :
    Lookup.Chain setting state.memory (lookup? setting source span state).toList after.memory := by
  rw [lookup?_of_locate hlibrary hlocate]
  by_cases hlooked : isAddress source ∧ cycle? state.stack source = none
  · rw [if_pos hlooked, Option.toList_some]
    have hfetched := hlocate
    rw [locate_address hlooked.1 hlooked.2] at hfetched
    rcases hfetch : fetchText setting source span state with abort | ⟨fetched, left⟩
    · exact absurd hfetch (fetchText_ne_error source abort)
    · rw [hfetch] at hfetched
      cases hfetched
      refine .single (k := ⟨source, state, _, after⟩) ⟨span, fetched, hfetch, ?_⟩
      rw [calledFor?_of_locate hlibrary hlocate]
      cases fetched <;> rfl
  · have hafter : after = state := by
      rcases locate_cases hlocate with ⟨-, -, hafter⟩ | ⟨_, _, -, -, -, hafter⟩ |
        ⟨haddress, hcycle, -⟩ | ⟨_, _, -, -, -, -, hafter⟩
      · exact hafter
      · exact hafter
      · exact absurd ⟨haddress, hcycle⟩ hlooked
      · exact hafter
    rw [if_neg hlooked, hafter]
    exact .nil _

theorem traced_loadModule
    (hcompile : ∀ c : Call, Traced setting (compile c.key c.source) c.before (inside c))
    (source : String) (span : Span) (state : Loading) :
    Traced setting (loadModule setting compile source span) state
      (lookupsFor setting inside source span state) := by
  unfold lookupsFor
  -- A library is at hand. For any other import its own look-up comes first, then those of the
  -- compile that it starts.
  cases hlibrary : setting.libraries.get? source with
  | some id =>
    obtain ⟨hlookup, hcall⟩ := lookup?_of_library hlibrary span state
    rw [hlookup, hcall]
    refine ⟨state.memory, .nil _, fun loaded after h => ?_⟩
    rw [loadModule, hlibrary] at h
    cases h
    rfl
  | none =>
    rcases hlocate : locate setting source span state with abort | ⟨located, between⟩
    · exact absurd hlocate (locate_ne_error abort)
    have hfirst := chain_lookup? hlibrary hlocate
    rw [calledFor?_of_locate hlibrary hlocate]
    rcases located with d | ⟨key, text, notices⟩
    · refine ⟨between.memory, hfirst.append (.nil _), fun loaded after h => ?_⟩
      rcases loadModule_eq_ok h with ⟨_, hlibrary', -⟩ | ⟨_, -, hlocate', -⟩ |
        ⟨_, _, _, _, _, _, -, hlocate', -⟩
      · rw [hlibrary] at hlibrary'
        cases hlibrary'
      · rw [hlocate] at hlocate'
        cases hlocate'
        rfl
      · rw [hlocate] at hlocate'
        cases hlocate'
    · obtain ⟨last, hchain, hlast⟩ := hcompile ⟨key, text, between⟩
      refine ⟨last, hfirst.append hchain, fun loaded after h => ?_⟩
      rcases loadModule_eq_ok h with ⟨_, hlibrary', -⟩ | ⟨_, -, hlocate', -⟩ |
        ⟨_, _, _, _, result, middle, -, hlocate', hresult, -, -, rfl⟩
      · rw [hlibrary] at hlibrary'
        cases hlibrary'
      · rw [hlocate] at hlocate'
        cases hlocate'
      · rw [hlocate] at hlocate'
        cases hlocate'
        exact hlast result middle hresult

theorem traced_resolveImports
    (hcompile : ∀ c : Call, Traced setting (compile c.key c.source) c.before (inside c))
    (imports : List Import) (table : Table Value) (notices : List Notice) (state : Loading) :
    Traced setting (resolveImports setting compile imports table notices) state
      (lookupsForAll setting compile inside imports state) := by
  induction imports generalizing state table notices with
  | nil =>
    refine ⟨state.memory, .nil _, fun resolved after h => ?_⟩
    cases h
    rfl
  | cons i more ih =>
    obtain ⟨last, hchain, hlast⟩ := traced_loadModule hcompile i.source i.span state
    rw [lookupsForAll]
    rcases hload : loadModule setting compile i.source i.span state with abort | ⟨loaded, between⟩
    · refine ⟨last, hchain.append (.nil _), fun resolved after h => ?_⟩
      rw [resolveImports, Load.bind_apply_of_error hload] at h
      cases h
    -- The table and the notices that are handed on have no part in what is looked up.
    · have hmore : ∃ table' notices', resolveImports setting compile
        (i :: more) table notices state =
          resolveImports setting compile more table' notices' between := by
        rw [resolveImports, Load.bind_apply_of_ok hload]
        rcases loaded with ⟨d | id, reported⟩ <;> exact ⟨_, _, rfl⟩
      obtain ⟨table', notices', hmore⟩ := hmore
      obtain ⟨final, hchain', hfinal⟩ := ih table' notices' between
      have hbetween : between.memory = last := hlast loaded between hload
      refine ⟨final, hchain.append (hbetween ▸ hchain'), fun resolved after h => ?_⟩
      exact hfinal resolved after (hmore ▸ h)

theorem traced_compileUnit (setting : Setting) (depth : Nat) (c : Call) :
    Traced setting (compileUnit setting depth c.key c.source) c.before
      (c.lookups setting depth) := by
  induction depth generalizing c with
  | zero => exact .of_error rfl
  | succ depth ih =>
    have hresolve := traced_resolveImports ih c.imports .empty [] (c.before.enter c.key)
    rw [Call.lookups]
    obtain ⟨last, hchain, hlast⟩ := hresolve
    refine ⟨last, hchain, fun result after h => ?_⟩
    rw [compileUnit] at h
    rcases compileWith_eq_ok h with ⟨d, hprogram, -, rfl⟩ |
      ⟨p, table, notices, between, ran, hprogram, hbetween, -, -, rfl⟩
    · rw [Call.imports, hprogram] at hlast
      have hsame : (c.before.enter c.key).memory = last := hlast (.empty, []) _ rfl
      exact hsame
    · rw [Call.imports, hprogram] at hlast
      exact hlast _ between hbetween

end

/-! ### Ledgers -/

def Cache.Keeps (cache : Cache) (ks : List Lookup) : Prop :=
  ∀ address text, cache.texts.get? address = some text ↔
    ∃ k ∈ ks, k.address = address ∧ k.text? = some text

namespace Cache.Keeps
variable {cache : Cache} {ks : List Lookup} {k : Lookup} {text : String}

theorem exists_mem_concat {P : Lookup → Prop} :
    (∃ other ∈ ks ++ [k], P other) ↔ (∃ other ∈ ks, P other) ∨ P k := by
  simp only [List.mem_append, List.mem_singleton, or_and_right, exists_or, exists_eq_left]

theorem concat_of_none (h : cache.Keeps ks) (htext : k.text? = none) : cache.Keeps (ks ++ [k]) := by
  intro address found
  rw [exists_mem_concat, h address found, htext]
  simp

/-- A text that is found again is kept already. -/
theorem concat_of_hit (h : cache.Keeps ks) (hcached : cache.texts.get? k.address = some text)
    (htext : k.text? = some text) : cache.Keeps (ks ++ [k]) := by
  intro address found
  rw [exists_mem_concat, ← h address found, iff_self_or]
  rintro ⟨rfl, hfound⟩
  rw [hcached, ← htext, hfound]

theorem concat_insert (h : cache.Keeps ks) (hcached : cache.texts.get? k.address = none)
    (htext : k.text? = some text) : (cache.insert k.address text).Keeps (ks ++ [k]) := by
  intro address found
  rw [exists_mem_concat, ← h address found, Cache.insert, Table.get?_insert, htext]
  by_cases haddress : address = k.address
  · rw [if_pos haddress, haddress, hcached]
    simp
  · rw [if_neg haddress, or_iff_left fun hk => haddress hk.1.symm]

end Cache.Keeps

/-- What the memory of a loader says of the look-ups that led to it. -/
structure Ledger (config : Config) (remote : Remote) (ks : List Lookup) (memory : Memory) :
    Prop where
  /-- Every look-up is a hit or a request. -/
  count : memory.cache.hits + memory.requests.size = ks.length
  /-- The requests are those of the look-ups that ask, with their numbers. -/
  asked : (ks.filter Lookup.asks).map Lookup.request = memory.requests.toList.zipIdx
  answered : ∀ k ∈ ks, k.asks = true →
    k.text? = remote.answer? config k.before.requests.size k.address
  kept : memory.cache.Keeps ks
  /-- An address that was answered is not asked for any more, and stays with its text. -/
  settled : ks.Pairwise fun earlier later => earlier.address = later.address →
    ∀ text, earlier.text? = some text → later.asks = false ∧ later.text? = some text

namespace Ledger
variable {config : Config} {remote : Remote} {ks : List Lookup} {memory : Memory}

theorem empty (config : Config) (remote : Remote) : Ledger config remote [] ⟨.empty, #[]⟩ where
  count := rfl
  asked := rfl
  answered := nofun
  kept address text := by simp [Cache.empty]
  settled := .nil

section
variable {setting : Setting} {k : Lookup}
  (h : Ledger setting.config setting.remote ks k.before.memory)
include h

/-- A look-up whose text is kept stays with it, so that what is settled remains so. -/
theorem settled_concat (hk : ∀ text, k.before.cache.texts.get? k.address = some text →
      k.asks = false ∧ k.text? = some text) :
    (ks ++ [k]).Pairwise fun earlier later => earlier.address = later.address →
      ∀ text, earlier.text? = some text → later.asks = false ∧ later.text? = some text := by
  refine List.pairwise_append.2 ⟨h.settled, List.pairwise_singleton _ _, ?_⟩
  intro earlier hearlier later hlater haddress text htext
  rw [List.mem_singleton.1 hlater] at haddress ⊢
  exact hk text ((h.kept k.address text).2 ⟨earlier, hearlier, haddress, htext⟩)

theorem concat_hit {text : String} (hcached : k.before.cache.texts.get? k.address = some text)
    (htext : k.text? = some text) (hasks : k.asks = false) :
    Ledger setting.config setting.remote (ks ++ [k])
      ⟨{ k.before.cache with hits := k.before.cache.hits + 1 }, k.before.requests⟩ where
  count := by
    have hcount : k.before.cache.hits + k.before.requests.size = ks.length := h.count
    simp only [List.length_append, List.length_singleton]
    omega
  asked := by
    rw [List.filter_append, List.filter_cons_of_neg (by simp [hasks]), List.filter_nil,
      List.append_nil]
    exact h.asked
  answered := by
    intro other hother hasked
    rcases List.mem_append.1 hother with hother | hother
    · exact h.answered other hother hasked
    · rw [List.mem_singleton.1 hother, hasks] at hasked
      cases hasked
  kept := h.kept.concat_of_hit hcached htext
  settled := h.settled_concat fun found hfound => by
    rw [hcached] at hfound
    exact ⟨hasks, htext.trans hfound⟩

theorem concat_request {cache : Cache} (hcached : k.before.cache.texts.get? k.address = none)
    (hasks : k.asks = true)
    (hanswer : k.text? = setting.remote.answer? setting.config k.before.requests.size k.address)
    (hhits : cache.hits = k.before.cache.hits) (hkept : cache.Keeps (ks ++ [k])) :
    Ledger setting.config setting.remote (ks ++ [k])
      ⟨cache, k.before.requests.push k.address⟩ where
  count := by
    have hcount : k.before.cache.hits + k.before.requests.size = ks.length := h.count
    simp only [List.length_append, List.length_singleton, Array.size_push]
    omega
  asked := by
    have hasked : (ks.filter Lookup.asks).map Lookup.request = k.before.requests.toList.zipIdx :=
      h.asked
    rw [List.filter_append, List.filter_cons_of_pos (by simp [hasks]), List.filter_nil,
      List.map_append, hasked, Array.toList_push, List.zipIdx_append]
    simp [Lookup.request]
  answered := by
    intro other hother hasked
    rcases List.mem_append.1 hother with hother | hother
    · exact h.answered other hother hasked
    · rw [List.mem_singleton.1 hother]
      exact hanswer
  kept := hkept
  settled := h.settled_concat fun found hfound => by
    rw [hcached] at hfound
    cases hfound

/-- One more look-up leads from a ledger to a ledger. -/
theorem concat (hk : k.Fetches setting) :
    Ledger setting.config setting.remote (ks ++ [k]) k.after.memory := by
  -- The cache has a text, or a request gets one, or a request is in vain.
  rcases hk.cases with ⟨text, hcached, htext, hasks, hafter⟩ |
    ⟨hcached, hasks, hanswer, ⟨text, htext, hafter⟩ | ⟨htext, hafter⟩⟩
  · rw [hafter]
    exact h.concat_hit hcached htext hasks
  · rw [hafter]
    exact h.concat_request hcached hasks hanswer rfl (h.kept.concat_insert hcached htext)
  · rw [hafter]
    exact h.concat_request hcached hasks hanswer rfl (h.kept.concat_of_none htext)

end

theorem append {setting : Setting} {last : Memory} {ks' : List Lookup}
    (h : Ledger setting.config setting.remote ks memory)
    (hchain : Lookup.Chain setting memory ks' last) :
    Ledger setting.config setting.remote (ks ++ ks') last := by
  induction hchain generalizing ks with
  | nil => rwa [List.append_nil]
  | cons hk _ ih =>
    rw [List.append_cons]
    exact ih (h.concat hk)

/-- Of two requests for one address the earlier was answered nothing. -/
theorem answer?_eq_none (h : Ledger config remote ks memory) {i j : Nat} {address : String}
    (hij : i < j) (hi : memory.requests[i]? = some address)
    (hj : memory.requests[j]? = some address) : remote.answer? config i address = none := by
  -- The requests are those of the look-ups that ask. If the earlier one were answered, the later
  -- one would find the text and not ask.
  have hasked : ((ks.filter Lookup.asks).map Lookup.request).Pairwise fun earlier later =>
      earlier.1 = later.1 → remote.answer? config earlier.2 earlier.1 = none := by
    rw [List.pairwise_map]
    refine (h.settled.filter Lookup.asks).imp_of_mem ?_
    intro earlier later hearlier hlater hsettled haddress
    obtain ⟨hmem, hasks⟩ := List.mem_filter.1 hearlier
    have hlater' : later.asks = true := (List.mem_filter.1 hlater).2
    have hanswer := h.answered earlier hmem hasks
    rw [Lookup.request, ← hanswer, Option.eq_none_iff_forall_ne_some]
    intro text htext
    have hnot : later.asks = false := (hsettled haddress text htext).1
    rw [hlater'] at hnot
    cases hnot
  rw [h.asked, List.pairwise_iff_getElem] at hasked
  obtain ⟨hi', heqi⟩ := Array.getElem?_eq_some_iff.1 hi
  obtain ⟨hj', heqj⟩ := Array.getElem?_eq_some_iff.1 hj
  have hnone := hasked i j (by simpa using hi') (by simpa using hj') hij
  simp only [List.getElem_zipIdx, Array.getElem_toList, heqi, heqj, Nat.zero_add, forall_true_left]
    at hnone
  exact hnone

end Ledger

/-- What a loader holds to: its ledger, and how often it asks for one address. -/
structure Discipline (config : Config) (remote : Remote) (ks : List Lookup) (memory : Memory) : Prop
    extends Ledger config remote ks memory where
  once : config.fallback = true → memory.requests.toList.Nodup
  failed : config.fallback = false → ∀ i j address, i < j → memory.requests[i]? = some address →
    memory.requests[j]? = some address → ∃ reason, remote.fetch i address = .error reason

theorem Discipline.of_ledger {config : Config} {remote : Remote} {ks : List Lookup}
    {memory : Memory}
    (h : Ledger config remote ks memory) : Discipline config remote ks memory where
  toLedger := h
  once := by
    intro hfallback
    rw [List.Nodup, List.pairwise_iff_getElem]
    intro i j hi hj hij heq
    rw [Array.length_toList] at hi hj
    rw [Array.getElem_toList, Array.getElem_toList] at heq
    have hearlier := (Array.getElem?_eq_getElem hi).trans (congrArg some heq)
    have hanswer := h.answer?_eq_none hij hearlier (Array.getElem?_eq_getElem hj)
    rw [(Remote.answer?_eq_none hanswer).1] at hfallback
    cases hfallback
  failed := fun _ i j address hij hi hj =>
    (Remote.answer?_eq_none (h.answer?_eq_none hij hi hj)).2

/-! ### Lives -/

namespace Loader

/-- A loader that compiles lead to, from a new one, with the look-ups of those compiles. -/
inductive Lived (config : Config) (remote : Remote) : List Lookup → Loader → Prop
  | new : Lived config remote [] (.new config remote)
  | compile {ks : List Lookup} {l l' : Loader} {depth : Nat} {name source : String}
    {files : Table String} {result : Result} : Lived config remote ks l →
      l.compileWithin depth name source files = .ok (result, l') →
      Lived config remote (ks ++ (l.rootCall name source).lookups (l.setting files) depth) l'

variable {config : Config} {remote : Remote} {l : Loader} {ks : List Lookup}

theorem Reached.exists_lived (hl : l.Reached config remote) :
    ∃ ks, Lived config remote ks l := by
  induction hl with
  | new => exact ⟨[], .new⟩
  | compile _ h ih =>
    obtain ⟨ks, hks⟩ := ih
    exact ⟨_, hks.compile h⟩

namespace Lived

theorem reached (hl : Lived config remote ks l) : l.Reached config remote := by
  induction hl with
  | new => exact .new
  | compile _ h ih => exact ih.compile h

theorem ledger (hl : Lived config remote ks l) : Ledger config remote ks l.memory := by
  induction hl with
  | new => exact .empty config remote
  | @compile ks l l' depth name source files result hl h ih =>
    obtain rfl : l.config = config := hl.reached.config_eq
    obtain rfl : l.remote = remote := hl.reached.remote_eq
    obtain ⟨state, hcompile, rfl⟩ := compileWithin_eq_ok h
    obtain ⟨last, hchain, hlast⟩ :=
      traced_compileUnit (l.setting files) depth (l.rootCall name source)
    obtain rfl : state.memory = last := hlast result state hcompile
    have hledger : Ledger (l.setting files).config (l.setting files).remote ks
        (l.rootCall name source).before.memory := ih
    exact hledger.append hchain

/-- Whatever is compiled on a loader, and however its source of remote texts answers: a text that
was seen once is not asked for again, and all later imports of its address see it; an address is
asked for once if programs may stand in, and otherwise all requests for it but the last one failed;
and each import of an address that closes no cycle is a hit or a request. This also holds of a
compile that has no result, of all look-ups it came to. -/
theorem discipline (hl : Lived config remote ks l) :
    Discipline config remote ks l.memory ∧
      ∀ (depth : Nat) (name source : String) (files : Table String), ∃ memory,
        Discipline config remote
          (ks ++ (l.rootCall name source).lookups (l.setting files) depth) memory := by
  refine ⟨Discipline.of_ledger hl.ledger, fun depth name source files => ?_⟩
  obtain ⟨last, hchain, -⟩ :=
    traced_compileUnit (l.setting files) depth (l.rootCall name source)
  have hledger : Ledger (l.setting files).config (l.setting files).remote ks
      (l.rootCall name source).before.memory := by
    have h := hl.ledger
    rw [← hl.reached.config_eq, ← hl.reached.remote_eq] at h
    exact h
  have hall := Discipline.of_ledger (hledger.append hchain)
  rw [show (l.setting files).config = config from hl.reached.config_eq,
    show (l.setting files).remote = remote from hl.reached.remote_eq] at hall
  exact ⟨last, hall⟩

/-- The first request for an address fails and the second is answered; the third import finds the
text. -/
theorem discipline_of_unsteady :
    let remote : Remote := ⟨fun earlier _ => if earlier = 0 then .error "timeout" else .ok "n = 1",
      ["http://a"]⟩
    let config : Config := ⟨.standard, false, 0⟩
    ∃ ks l, Lived config remote ks l ∧ l.requests = #["http://a", "http://a"] ∧
      l.cache.hits = 1 ∧ ks.length = 3 ∧ Discipline config remote ks l.memory := by
  intro remote config
  let source := "import \"http://a\" as x\nimport \"http://a\" as y\nimport \"http://a\" as z"
  have hrun : ((Loader.new config remote).compileWithin 2 mainName source .empty).toOption.map
      (fun x => (x.2.requests, x.2.cache.hits)) = some (#["http://a", "http://a"], 1) := by
    decide +kernel
  obtain ⟨⟨result, l⟩, hcompile, hseen⟩ := exists_of_toOption_map hrun
  obtain ⟨hrequests, hhits⟩ := Prod.mk.inj hseen
  have hl := Lived.new.compile hcompile
  have hdiscipline := (discipline hl).1
  refine ⟨_, l, hl, hrequests, hhits, ?_, hdiscipline⟩
  rw [← hdiscipline.count]
  show l.cache.hits + l.requests.size = 3
  rw [hrequests, hhits]
  rfl

end Lived
end Loader

end SceneScript.Module
