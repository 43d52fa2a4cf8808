import SceneScript.Module.Compile

namespace SceneScript

section
variable {ε α β : Type} {x : Except ε α}

theorem exists_of_isSome_toOption (h : x.toOption.isSome = true) : ∃ a, x = .ok a := by
  cases x with
  | error stop => cases h
  | ok a => exact ⟨a, rfl⟩

theorem exists_of_toOption_map {f : α → β} {b : β} (h : x.toOption.map f = some b) :
    ∃ a, x = .ok a ∧ f a = b := by
  cases x with
  | error stop => cases h
  | ok a => exact ⟨a, rfl, Option.some.inj h⟩

end

namespace Module

namespace Load
variable {α β : Type} {x : Load α} {f : α → Load β} {state between after : Loading} {a : α}
  {b : β}

@[simp] theorem pure_apply (a : α) (state : Loading) :
    (pure a : Load α) state = .ok (a, state) := rfl

@[simp] theorem get_bind_apply (f : Loading → Load β) (state : Loading) :
    (get >>= f) state = f state state := rfl

@[simp] theorem modify_bind_apply (g : Loading → Loading) (f : Unit → Load β) (state : Loading) :
    (modify g >>= f) state = f () (g state) := rfl

theorem bind_apply_of_ok (h : x state = .ok (a, between)) : (x >>= f) state = f a between := by
  simp [bind, StateT.bind, h, Except.bind]

theorem bind_apply_of_error {abort : Abort} (h : x state = .error abort) :
    (x >>= f) state = .error abort := by
  simp [bind, StateT.bind, h, Except.bind]

theorem exists_of_bind_eq_ok (h : (x >>= f) state = .ok (b, after)) :
    ∃ a between, x state = .ok (a, between) ∧ f a between = .ok (b, after) := by
  cases hx : x state with
  | error abort =>
    simp only [bind, StateT.bind, hx, Except.bind] at h
    cases h
  | ok first => exact ⟨first.1, first.2, rfl, by rwa [bind_apply_of_ok hx] at h⟩

theorem eq_error_of_bind_eq_error {abort : Abort} (h : (x >>= f) state = .error abort) :
    x state = .error abort ∨
      ∃ a between, x state = .ok (a, between) ∧ f a between = .error abort := by
  cases hx : x state with
  | error other =>
    simp only [bind, StateT.bind, hx, Except.bind] at h
    cases h
    exact .inl rfl
  | ok first => exact .inr ⟨first.1, first.2, rfl, by rwa [bind_apply_of_ok hx] at h⟩

end Load

variable {setting : Setting} {compile : UnitCompiler} {source key : String} {span : Span}
  {state after : Loading} {result : Result}

@[simp] theorem Loading.stack_enter (state : Loading) (key : String) :
    (state.enter key).stack = state.stack ++ [key] := rfl

@[simp] theorem Loading.store_enter (state : Loading) (key : String) :
    (state.enter key).store = state.store := rfl

@[simp] theorem Loading.cache_enter (state : Loading) (key : String) :
    (state.enter key).cache = state.cache := rfl

@[simp] theorem Loading.stack_leave (state : Loading) :
    state.leave.stack = state.stack.dropLast := rfl

@[simp] theorem Loading.store_leave (state : Loading) : state.leave.store = state.store := rfl

@[simp] theorem Loading.cache_leave (state : Loading) : state.leave.cache = state.cache := rfl

theorem Cache.get?_of_some {cache : Cache} {address text : String}
    (h : cache.texts.get? address = some text) :
    cache.get? address = (some text, { cache with hits := cache.hits + 1 }) := by rw [Cache.get?, h]

theorem Cache.get?_of_none {cache : Cache} {address : String}
    (h : cache.texts.get? address = none) : cache.get? address = (none, cache) := by
  rw [Cache.get?, h]

/-- A text is in the cache; or it is asked for, and comes, or a program stands in for it and is kept
in its place, or there is none. -/
theorem fetchText_cases {address : String} {fetched : Except Diagnostic (String × List Notice)}
    (h : fetchText setting address span state = .ok (fetched, after)) :
    (∃ text, state.cache.texts.get? address = some text ∧ fetched = .ok (text, []) ∧
      after = { state with cache := { state.cache with hits := state.cache.hits + 1 } }) ∨
    state.cache.texts.get? address = none ∧
      ((∃ text, setting.remote.fetch state.requests.size address = .ok text ∧
        fetched = .ok (text, []) ∧ after = { state with
          cache := state.cache.insert address text, requests := state.requests.push address }) ∨
      (∃ reason, setting.remote.fetch state.requests.size address = .error reason ∧
        setting.config.fallback = true ∧
        fetched = .ok (fallbackSource address,
          [.warning span.line (.fallback (.fetchFailed address reason))]) ∧
        after = { state with
          cache := state.cache.insert address (fallbackSource address)
          requests := state.requests.push address }) ∨
      ∃ reason, setting.remote.fetch state.requests.size address = .error reason ∧
        setting.config.fallback = false ∧
        fetched = .error (.placed (.fetchFailed address reason) span) ∧
        after = { state with requests := state.requests.push address }) := by
  unfold fetchText at h
  cases hcached : state.cache.texts.get? address with
  | some text =>
    rw [Cache.get?_of_some hcached] at h
    cases h
    exact .inl ⟨text, rfl, rfl, rfl⟩
  | none =>
    refine .inr ⟨rfl, ?_⟩
    rw [Cache.get?_of_none hcached] at h
    dsimp only at h
    cases hfetch : setting.remote.fetch state.requests.size address with
    | ok text =>
      rw [hfetch] at h
      cases h
      exact .inl ⟨text, rfl, rfl, rfl⟩
    | error reason =>
      rw [hfetch] at h
      dsimp only at h
      cases hfallback : setting.config.fallback with
      | true =>
        rw [hfallback, if_pos rfl] at h
        cases h
        exact .inr (.inl ⟨reason, rfl, rfl, rfl, rfl⟩)
      | false =>
        rw [hfallback, if_neg Bool.false_ne_true] at h
        cases h
        exact .inr (.inr ⟨reason, rfl, rfl, rfl, rfl⟩)

/-- Fetching leaves the store and the stack alone. -/
theorem fetchText_frame {address : String} {fetched : Except Diagnostic (String × List Notice)}
    (h : fetchText setting address span state = .ok (fetched, after)) :
    after.store = state.store ∧ after.stack = state.stack := by
  rcases fetchText_cases h with ⟨_, -, -, rfl⟩ |
    ⟨-, ⟨_, -, -, rfl⟩ | ⟨_, -, -, -, rfl⟩ | ⟨_, -, -, -, rfl⟩⟩ <;> exact ⟨rfl, rfl⟩

/-- Fetching reports at most that a program stands in for the text. -/
theorem notices_of_fetchText {address text : String} {notices : List Notice}
    (h : fetchText setting address span state = .ok (.ok (text, notices), after)) :
    ∀ n ∈ notices, ∃ cause, n = .warning span.line (.fallback cause) := by
  intro n hn
  rcases fetchText_cases h with ⟨_, -, heq, -⟩ |
    ⟨-, ⟨_, -, heq, -⟩ | ⟨reason, -, -, heq, -⟩ | ⟨_, -, -, heq, -⟩⟩ <;> cases heq
  · cases hn
  · cases hn
  · exact ⟨_, List.mem_singleton.1 hn⟩

/-- The key of the module that an import names: an address is its own, a name that of its file. -/
def keyOf? (naming : Naming) (files : Table String) (source : String) : Option String :=
  if isAddress source then some source else (naming.resolve? source files).map (·.1)

section Locate
variable {chain : List String} {text : String}

theorem locate_address_of_cycle (haddress : isAddress source = true)
    (hcycle : cycle? state.stack source = some chain) :
    locate setting source span state =
      .ok (.error (.placed (.importCycle chain) span), state) := by
  simp [locate, haddress, hcycle]

theorem locate_address (haddress : isAddress source = true)
    (hcycle : cycle? state.stack source = none) :
    locate setting source span state = (fetchText setting source span state).map
      fun (fetched, after) =>
        (fetched.map fun (text, notices) => (source, text, notices), after) := by
  simp only [locate, haddress, hcycle, Load.get_bind_apply, if_true]
  rcases hfetch : fetchText setting source span state with abort | ⟨fetched, after⟩
  · simp [bind, StateT.bind, hfetch, Except.bind, Except.map]
  · rw [Load.bind_apply_of_ok hfetch]
    rfl

theorem locate_missing (haddress : isAddress source = false)
    (hresolve : setting.config.naming.resolve? source setting.files = none) :
    locate setting source span state =
      .ok (.error (.placed (.moduleNotFound source) span), state) := by
  simp [locate, haddress, hresolve]

theorem locate_file_of_cycle (haddress : isAddress source = false)
    (hresolve : setting.config.naming.resolve? source setting.files = some (key, text))
    (hcycle : cycle? state.stack key = some chain) :
    locate setting source span state =
      .ok (.error (.placed (.importCycle chain) span), state) := by
  simp [locate, haddress, hresolve, hcycle]

theorem locate_file (haddress : isAddress source = false)
    (hresolve : setting.config.naming.resolve? source setting.files = some (key, text))
    (hcycle : cycle? state.stack key = none) :
    locate setting source span state = .ok (.ok (key, text, []), state) := by
  simp [locate, haddress, hresolve, hcycle]

end Locate

/-- Locating fails if no module is named, if its key is on the stack, and if its text cannot be
fetched. Otherwise the text is fetched for an address, or found for the key of a file. -/
theorem locate_cases {located : Except Diagnostic (String × String × List Notice)}
    (h : locate setting source span state = .ok (located, after)) :
    (keyOf? setting.config.naming setting.files source = none ∧
      located = .error (.placed (.moduleNotFound source) span) ∧ after = state) ∨
    (∃ key chain, keyOf? setting.config.naming setting.files source = some key ∧
      cycle? state.stack key = some chain ∧
      located = .error (.placed (.importCycle chain) span) ∧ after = state) ∨
    (isAddress source = true ∧ cycle? state.stack source = none ∧ ∃ fetched,
      fetchText setting source span state = .ok (fetched, after) ∧
      located = fetched.map fun (text, notices) => (source, text, notices)) ∨
    ∃ key text, isAddress source = false ∧
      setting.config.naming.resolve? source setting.files = some (key, text) ∧
      cycle? state.stack key = none ∧ located = .ok (key, text, []) ∧ after = state := by
  unfold keyOf?
  cases haddress : isAddress source with
  | true =>
    rw [if_pos rfl]
    cases hcycle : cycle? state.stack source with
    | some chain =>
      rw [locate_address_of_cycle haddress hcycle] at h
      cases h
      exact .inr (.inl ⟨source, chain, rfl, hcycle, rfl, rfl⟩)
    | none =>
      rw [locate_address haddress hcycle] at h
      rcases hfetch : fetchText setting source span state with abort | ⟨fetched, between⟩ <;>
        rw [hfetch] at h <;> cases h
      exact .inr (.inr (.inl ⟨rfl, rfl, fetched, rfl, rfl⟩))
  | false =>
    rw [if_neg Bool.false_ne_true]
    cases hresolve : setting.config.naming.resolve? source setting.files with
    | none =>
      rw [locate_missing haddress hresolve] at h
      cases h
      exact .inl ⟨rfl, rfl, rfl⟩
    | some found =>
      cases hcycle : cycle? state.stack found.1 with
      | some chain =>
        rw [locate_file_of_cycle haddress hresolve hcycle] at h
        cases h
        exact .inr (.inl ⟨found.1, chain, rfl, hcycle, rfl, rfl⟩)
      | none =>
        rw [locate_file haddress hresolve hcycle] at h
        cases h
        exact .inr (.inr (.inr ⟨found.1, found.2, rfl, rfl, hcycle, rfl, rfl⟩))

/-- Locating leaves the store and the stack alone as well. -/
theorem locate_frame {located : Except Diagnostic (String × String × List Notice)}
    (h : locate setting source span state = .ok (located, after)) :
    after.store = state.store ∧ after.stack = state.stack := by
  rcases locate_cases h with ⟨-, -, rfl⟩ | ⟨_, _, -, -, -, rfl⟩ | ⟨-, -, fetched, hfetch, -⟩ |
    ⟨_, _, -, -, -, -, rfl⟩
  · exact ⟨rfl, rfl⟩
  · exact ⟨rfl, rfl⟩
  · exact fetchText_frame hfetch
  · exact ⟨rfl, rfl⟩

/-- Locating reports what fetching reports. -/
theorem notices_of_locate {text : String} {notices : List Notice}
    (h : locate setting source span state = .ok (.ok (key, text, notices), after)) :
    ∀ n ∈ notices, ∃ cause, n = .warning span.line (.fallback cause) := by
  rcases locate_cases h with ⟨-, heq, -⟩ | ⟨_, _, -, -, heq, -⟩ | ⟨-, -, fetched, hfetch, heq⟩ |
    ⟨_, _, -, -, -, heq, -⟩
  · cases heq
  · cases heq
  · cases fetched <;> cases heq
    exact notices_of_fetchText hfetch
  · cases heq
    exact fun n hn => nomatch hn

/-- An import names a library, or nothing that can be compiled, or a module that is compiled and
added to the store. -/
theorem loadModule_eq_ok {outcome : Except Diagnostic ModuleId} {reported : List Notice}
    (h : loadModule setting compile source span state = .ok ((outcome, reported), after)) :
    (∃ id, setting.libraries.get? source = some id ∧ outcome = .ok id ∧ reported = [] ∧
      after = state) ∨
    (∃ d, setting.libraries.get? source = none ∧
      locate setting source span state = .ok (.error d, after) ∧ outcome = .error d ∧
      reported = []) ∨
    ∃ key text notices between result middle, setting.libraries.get? source = none ∧
      locate setting source span state = .ok (.ok (key, text, notices), between) ∧
      compile key text between = .ok (result, middle) ∧
      outcome = .ok (middle.store.addModule result.exports).1 ∧
      reported = notices ++ result.notices.map (.forwarded source) ∧
      after = { middle with store := (middle.store.addModule result.exports).2 } := by
  unfold loadModule at h
  cases hlibrary : setting.libraries.get? source with
  | some id =>
    rw [hlibrary] at h
    cases h
    exact .inl ⟨id, rfl, rfl, rfl, rfl⟩
  | none =>
    rw [hlibrary] at h
    obtain ⟨located, between, hlocate, hrest⟩ := Load.exists_of_bind_eq_ok h
    cases located with
    | error d =>
      cases hrest
      exact .inr (.inl ⟨d, rfl, hlocate, rfl, rfl⟩)
    | ok found =>
      obtain ⟨key, text, notices⟩ := found
      obtain ⟨result, middle, hcompile, hrest⟩ := Load.exists_of_bind_eq_ok hrest
      cases hrest
      exact .inr (.inr ⟨key, text, notices, between, result, middle, rfl, hlocate, hcompile, rfl,
        rfl, rfl⟩)

/-- The first import is loaded and, if that is a module, bound; then the others are resolved. -/
theorem resolveImports_cons_eq_ok {i : Import} {more : List Import} {table : Table Value}
    {notices : List Notice} {resolved : Table Value × List Notice}
    (h : resolveImports setting compile (i :: more) table notices state =
      .ok (resolved, after)) :
    ∃ outcome reported between,
      loadModule setting compile i.source i.span state = .ok ((outcome, reported), between) ∧
      ((∃ d, outcome = .error d ∧ resolveImports setting compile more table
          (notices ++ reported ++ [importNotice d i.span.line]) between = .ok (resolved, after)) ∨
        ∃ id bound missing, outcome = .ok id ∧
          bindImport setting.config.naming between.store i id table = (bound, missing) ∧
          resolveImports setting compile more bound (notices ++ reported ++ missing) between =
            .ok (resolved, after)) := by
  rw [resolveImports] at h
  obtain ⟨⟨outcome, reported⟩, between, hload, hrest⟩ := Load.exists_of_bind_eq_ok h
  refine ⟨outcome, reported, between, hload, ?_⟩
  cases outcome with
  | error d => exact .inl ⟨d, rfl, hrest⟩
  | ok id => exact .inr ⟨id, _, _, rfl, rfl, hrest⟩

/-- What holds of a table and what is reported beside it holds after exports were bound, if it is
kept when an export is bound and when one is missing. -/
theorem bindExports_induction {P : Table Value → List Notice → Prop} {exports : Exports}
    {i : Import} {table : Table Value} (start : P table [])
    (bind : ∀ table notices bound name value, exports.get? name = some value → P table notices →
      P (table.insert bound value) notices)
    (miss : ∀ table notices name, P table notices →
      P table (notices ++ [.error (.placed (.undefinedMember i.source name) i.span)])) :
    P (bindExports exports i table).1 (bindExports exports i table).2 := by
  refine List.foldlRecOn (motive := fun bound : Table Value × List Notice => P bound.1 bound.2)
    _ _ start ?_
  rintro ⟨table, notices⟩ hbound ⟨bound, name⟩ -
  dsimp only
  split
  next value hvalue => exact bind table notices bound name value hvalue hbound
  next => exact miss table notices name hbound

theorem runProgram_eq_ok {p : Program} {table : Table Value}
    (h : runProgram p table state = .ok (result, after)) :
    p.run table state.store = .ok result ∧ after = { state with store := result.store } := by
  unfold runProgram at h
  cases hrun : p.run table state.store with
  | error stop =>
    rw [hrun] at h
    cases h
  | ok ran =>
    rw [hrun] at h
    cases h
    exact ⟨rfl, rfl⟩

/-- A source is no program, or its imports are resolved and it is run with what they bind. -/
theorem compileWith_eq_ok
    (h : compileWith setting compile key source state = .ok (result, after)) :
    (∃ d, Program.ofSource source = .error d ∧ result = .failed (d.withSource source) ∧
      after = state) ∨
    ∃ p table notices between ran, Program.ofSource source = .ok p ∧
      resolveImports setting compile p.imports .empty [] (state.enter key) =
        .ok ((table, notices), between) ∧
      p.run table between.store = .ok ran ∧
      result = { ran with notices := notices ++ ran.notices } ∧
      after = { between.leave with store := ran.store } := by
  unfold compileWith at h
  cases hprogram : Program.ofSource source with
  | error d =>
    rw [hprogram] at h
    cases h
    exact .inl ⟨d, rfl, rfl, rfl⟩
  | ok p =>
    rw [hprogram] at h
    obtain ⟨_, entered, hentered, h⟩ := Load.exists_of_bind_eq_ok h
    cases hentered
    obtain ⟨⟨table, notices⟩, between, hresolve, h⟩ := Load.exists_of_bind_eq_ok h
    obtain ⟨_, left, hleft, hrest⟩ := Load.exists_of_bind_eq_ok h
    cases hleft
    obtain ⟨ran, last, hrun, hrest⟩ := Load.exists_of_bind_eq_ok hrest
    obtain ⟨hran, rfl⟩ := runProgram_eq_ok hrun
    cases hrest
    exact .inr ⟨p, table, notices, between, ran, rfl, hresolve, hran, rfl, rfl⟩

end Module
end SceneScript
