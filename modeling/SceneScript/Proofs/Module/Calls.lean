import Mathlib.Data.List.TakeWhile
import SceneScript.Proofs.Module.Units

namespace SceneScript.Module

/-- A chain of keys begins where the key stands on the stack and ends with it. -/
theorem cycle?_eq_some {stack chain : List String} {key : String}
    (h : cycle? stack key = some chain) :
    ∃ below inside, stack = below ++ key :: inside ∧ chain = key :: inside ++ [key] := by
  unfold cycle? at h
  have hsplit := List.takeWhile_append_dropWhile (p := (· ≠ key)) (l := stack)
  cases hdrop : stack.dropWhile (· ≠ key) with
  | nil =>
    rw [hdrop] at h
    cases h
  | cons first inside =>
    have hfirst := List.head?_dropWhile_not (fun k => decide (k ≠ key)) stack
    rw [hdrop] at h hsplit hfirst
    have hkey : first = key := by simpa using hfirst
    cases h
    exact ⟨_, inside, by rw [← hkey, hsplit], by rw [hkey]⟩

theorem cycle?_eq_none_iff {stack : List String} {key : String} :
    cycle? stack key = none ↔ key ∉ stack := by
  constructor
  · intro h hmem
    unfold cycle? at h
    cases hdrop : stack.dropWhile (· ≠ key) with
    | nil =>
      have hall := List.dropWhile_eq_nil_iff.1 hdrop key hmem
      simp at hall
    | cons first inside =>
      rw [hdrop] at h
      cases h
  · intro hnot
    rw [Option.eq_none_iff_forall_ne_some]
    intro chain hchain
    obtain ⟨below, inside, rfl, -⟩ := cycle?_eq_some hchain
    exact hnot (by simp)

theorem get?_of_resolve? {naming : Naming} {files : Table String} {source key text : String}
    (h : naming.resolve? source files = some (key, text)) : files.get? key = some text := by
  obtain ⟨file, -, hfile⟩ := List.exists_of_findSome?_eq_some h
  obtain ⟨found, hfound, heq⟩ := Option.map_eq_some_iff.1 hfile
  cases heq
  exact hfound

variable {setting : Setting} {compile : UnitCompiler} {source key text : String} {span : Span}
  {notices : List Notice} {state after : Loading} {result : Result}

/-- A module that is located has the key that the import names, and no module with that key is being
compiled. -/
theorem key_of_locate
    (h : locate setting source span state = .ok (.ok (key, text, notices), after)) :
    keyOf? setting.config.naming setting.files source = some key ∧ key ∉ state.stack := by
  rcases locate_cases h with ⟨-, heq, -⟩ | ⟨_, _, -, -, heq, -⟩ |
    ⟨haddress, hcycle, fetched, -, heq⟩ | ⟨_, _, haddress, hresolve, hcycle, heq, -⟩
  · cases heq
  · cases heq
  · cases fetched <;> cases heq
    exact ⟨by rw [keyOf?, if_pos haddress], cycle?_eq_none_iff.1 hcycle⟩
  · cases heq
    refine ⟨?_, cycle?_eq_none_iff.1 hcycle⟩
    rw [keyOf?, haddress, if_neg Bool.false_ne_true, hresolve, Option.map_some]

/-- A relation between the states before and after a step of a compile, which holds of every step
that fetches a text or changes the store, and of the compile of a module if it holds inside. -/
structure Frame (setting : Setting) (R : Loading → Loading → Prop) : Prop where
  refl (state : Loading) : R state state
  trans {state between after : Loading} : R state between → R between after → R state after
  fetch {address : String} {span : Span} {fetched : Except Diagnostic (String × List Notice)}
    {state after : Loading} :
    fetchText setting address span state = .ok (fetched, after) → R state after
  store (state : Loading) (store : Store) : R state { state with store := store }
  inside {state between : Loading} {key : String} :
    R (state.enter key) between → R state between.leave

/-- Every compile that has a result leads to a state that is related to the one before. -/
def Leads (R : Loading → Loading → Prop) (compile : UnitCompiler) : Prop :=
  ∀ key source state result after, compile key source state = .ok (result, after) → R state after

namespace Frame
variable {R : Loading → Loading → Prop} (frame : Frame setting R)
include frame

theorem locate {located : Except Diagnostic (String × String × List Notice)}
    (h : Module.locate setting source span state = .ok (located, after)) : R state after := by
  rcases locate_cases h with ⟨-, -, rfl⟩ | ⟨_, _, -, -, -, rfl⟩ | ⟨-, -, _, hfetch, -⟩ |
    ⟨_, _, -, -, -, -, rfl⟩
  · exact frame.refl _
  · exact frame.refl _
  · exact frame.fetch hfetch
  · exact frame.refl _

theorem loadModule (hcompile : Leads R compile)
    {loaded : Except Diagnostic ModuleId × List Notice}
    (h : Module.loadModule setting compile source span state = .ok (loaded, after)) :
    R state after := by
  rcases loadModule_eq_ok h with ⟨_, -, -, -, rfl⟩ | ⟨_, -, hlocate, -, -⟩ |
    ⟨_, _, _, between, _, middle, -, hlocate, hresult, -, -, rfl⟩
  · exact frame.refl _
  · exact frame.locate hlocate
  · have hbetween : R state between := frame.locate hlocate
    have hmiddle : R between middle := hcompile _ _ _ _ _ hresult
    exact frame.trans (frame.trans hbetween hmiddle) (frame.store middle _)

theorem resolveImports (hcompile : Leads R compile) {imports : List Import} {table : Table Value}
    {resolved : Table Value × List Notice}
    (h : Module.resolveImports setting compile imports table notices state =
      .ok (resolved, after)) : R state after := by
  induction imports generalizing table notices state with
  | nil =>
    cases h
    exact frame.refl _
  | cons i more ih =>
    obtain ⟨outcome, reported, between, hload, hrest⟩ := resolveImports_cons_eq_ok h
    have hbetween : R state between := frame.loadModule hcompile hload
    rcases hrest with ⟨d, -, hrest⟩ | ⟨id, bound, missing, -, -, hrest⟩
    · exact frame.trans hbetween (ih hrest)
    · exact frame.trans hbetween (ih hrest)

theorem compileWith (hcompile : Leads R compile) : Leads R (compileWith setting compile) := by
  intro key source state result after h
  rcases compileWith_eq_ok h with ⟨_, -, -, rfl⟩ | ⟨_, _, _, between, ran, -, hresolve, -, -, rfl⟩
  · exact frame.refl _
  · have hinside : R (state.enter key) between := frame.resolveImports hcompile hresolve
    exact frame.trans (frame.inside hinside) (frame.store _ ran.store)

theorem compileUnit (depth : Nat) : Leads R (compileUnit setting depth) := by
  induction depth with
  | zero =>
    intro key source state result after h
    cases h
  | succ depth ih => exact frame.compileWith ih

/-- Two relations that are both kept. -/
theorem and {S : Loading → Loading → Prop} (frame' : Frame setting S) :
    Frame setting (fun state after => R state after ∧ S state after) where
  refl state := ⟨frame.refl state, frame'.refl state⟩
  trans h h' := ⟨frame.trans h.1 h'.1, frame'.trans h.2 h'.2⟩
  fetch h := ⟨frame.fetch h, frame'.fetch h⟩
  store state store := ⟨frame.store state store, frame'.store state store⟩
  inside h := ⟨frame.inside h.1, frame'.inside h.2⟩

end Frame

/-- Every step leaves the stack as it found it. -/
theorem stackFrame (setting : Setting) :
    Frame setting (fun state after => after.stack = state.stack) where
  refl _ := rfl
  trans h h' := h'.trans h
  fetch h := (fetchText_frame h).2
  store _ _ := rfl
  inside {state between key} h := by
    rw [Loading.stack_leave, h, Loading.stack_enter, List.dropLast_concat]

/-- What holds of the memory of texts when a text is fetched holds of it afterwards. -/
def KeptByFetch (setting : Setting) (P : Cache → Array String → Prop) : Prop :=
  ∀ address span state fetched after, fetchText setting address span state = .ok (fetched, after) →
    P state.cache state.requests → P after.cache after.requests

theorem KeptByFetch.frame {P : Cache → Array String → Prop} (h : KeptByFetch setting P) :
    Frame setting (fun state after => P state.cache state.requests →
      P after.cache after.requests) where
  refl _ := id
  trans h h' := h' ∘ h
  fetch hfetch := h _ _ _ _ _ hfetch
  store _ _ := id
  inside h := h

theorem calledFor?_eq_some {call : Call} (h : calledFor? setting source span state = some call) :
    setting.libraries.get? source = none ∧ ∃ notices,
      locate setting source span state =
        .ok (.ok (call.key, call.source, notices), call.before) := by
  unfold calledFor? at h
  cases hlibrary : setting.libraries.get? source with
  | some id =>
    rw [hlibrary] at h
    cases h
  | none =>
    rw [hlibrary] at h
    dsimp only at h
    split at h
    next key text notices between hlocate =>
      cases h
      exact ⟨rfl, notices, hlocate⟩
    next => cases h

/-- A compile that is begun for an import is begun in a state that the imports before it lead to. -/
theorem Frame.mem_calledForAll {R : Loading → Loading → Prop} (frame : Frame setting R)
    (hcompile : Leads R compile) {imports : List Import} {name : String} {call : Call}
    (h : (name, call) ∈ calledForAll setting compile imports state) :
    ∃ i ∈ imports, i.source = name ∧ ∃ before, R state before ∧
      calledFor? setting name i.span before = some call := by
  induction imports generalizing state with
  | nil => cases h
  | cons i more ih =>
    rw [calledForAll] at h
    rcases List.mem_append.1 h with h | h
    · rw [Option.mem_toList, Option.map_eq_some_iff] at h
      obtain ⟨found, hfound, heq⟩ := h
      cases heq
      exact ⟨i, List.mem_cons_self, rfl, state, frame.refl state, hfound⟩
    · split at h
      next loaded between hload =>
        obtain ⟨j, hj, hname, before, hbefore, hcall⟩ := ih h
        have hbetween : R state between := frame.loadModule hcompile hload
        exact ⟨j, List.mem_cons_of_mem i hj, hname, before, frame.trans hbetween hbefore, hcall⟩
      next => cases h

/-- Every import that is resolved is loaded, in a state that the imports before it lead to, and the
compile that is begun for it is one of those that are begun for all. -/
theorem Frame.exists_loadModule_of_mem {R : Loading → Loading → Prop} (frame : Frame setting R)
    (hcompile : Leads R compile) {imports : List Import} {table : Table Value}
    {resolved : Table Value × List Notice}
    (h : Module.resolveImports setting compile imports table notices state = .ok (resolved, after))
    {i : Import} (hi : i ∈ imports) :
    ∃ before loaded between, R state before ∧
      Module.loadModule setting compile i.source i.span before = .ok (loaded, between) ∧
      ∀ call, calledFor? setting i.source i.span before = some call →
        (i.source, call) ∈ calledForAll setting compile imports state := by
  induction imports generalizing table notices state with
  | nil => cases hi
  | cons first more ih =>
    obtain ⟨outcome, reported, between, hload, hrest⟩ := resolveImports_cons_eq_ok h
    rcases List.mem_cons.1 hi with rfl | hi
    · refine ⟨state, _, between, frame.refl state, hload, fun call hcall => ?_⟩
      exact (mem_calledForAll_cons hload).2 (.inl ⟨rfl, hcall⟩)
    · have hmore : ∃ table notices,
          Module.resolveImports setting compile more table notices between =
            .ok (resolved, after) := by
        rcases hrest with ⟨d, -, hrest⟩ | ⟨id, bound, missing, -, -, hrest⟩ <;> exact ⟨_, _, hrest⟩
      obtain ⟨table, notices, hmore⟩ := hmore
      obtain ⟨before, loaded, last, hbefore, hloaded, hcalls⟩ := ih hmore hi
      have hbetween : R state between := frame.loadModule hcompile hload
      refine ⟨before, loaded, last, frame.trans hbetween hbefore, hloaded, fun call hcall => ?_⟩
      exact (mem_calledForAll_cons hload).2 (.inr (hcalls call hcall))

namespace Call
variable {c call inner : Call} {depth : Nat} {name : String}

/-- A compile that is begun for an import of a source is begun on its stack, with its key on top,
and with a key that is not on it. -/
theorem stack_of_mem_calls (h : (name, call) ∈ c.calls setting depth) :
    call.before.stack = c.before.stack ++ [c.key] ∧ call.key ∉ call.before.stack := by
  obtain ⟨i, -, -, before, hbefore, hcall⟩ :=
    (stackFrame setting).mem_calledForAll ((stackFrame setting).compileUnit depth) h
  obtain ⟨-, notices, hlocate⟩ := calledFor?_eq_some hcall
  have hstack : call.before.stack = before.stack := (locate_frame hlocate).2
  refine ⟨?_, ?_⟩
  · rw [hstack, hbefore, Loading.stack_enter]
  · rw [hstack]
    exact (key_of_locate hlocate).2

/-- The keys on the stack of a compile and its own are all different, if they are so at the
start. -/
theorem During.nodup (h : During setting depth c inner) (hc : (c.before.stack ++ [c.key]).Nodup) :
    (inner.before.stack ++ [inner.key]).Nodup := by
  induction h with
  | self c => exact hc
  | nested hmiddle _ ih =>
    obtain ⟨hstack, hkey⟩ := stack_of_mem_calls hmiddle
    apply ih
    rw [List.nodup_append]
    refine ⟨hstack ▸ hc, List.pairwise_singleton _ _, ?_⟩
    rintro other hother _ hlast rfl
    exact hkey (List.mem_singleton.1 hlast ▸ hother)

end Call

theorem fetchText_ne_error (address : String) (abort : Abort) :
    fetchText setting address span state ≠ .error abort := by
  unfold fetchText
  dsimp only
  split
  · exact nofun
  · split
    · exact nofun
    · split <;> exact nofun

theorem locate_ne_error (abort : Abort) : locate setting source span state ≠ .error abort := by
  intro h
  cases haddress : isAddress source with
  | true =>
    cases hcycle : cycle? state.stack source with
    | some chain =>
      rw [locate_address_of_cycle haddress hcycle] at h
      cases h
    | none =>
      rw [locate_address haddress hcycle] at h
      rcases hfetch : fetchText setting source span state with other | fetched
      · exact fetchText_ne_error source other hfetch
      · rw [hfetch] at h
        cases h
  | false =>
    cases hresolve : setting.config.naming.resolve? source setting.files with
    | none =>
      rw [locate_missing haddress hresolve] at h
      cases h
    | some found =>
      cases hcycle : cycle? state.stack found.1 with
      | some chain =>
        rw [locate_file_of_cycle haddress hresolve hcycle] at h
        cases h
      | none =>
        rw [locate_file haddress hresolve hcycle] at h
        cases h

theorem loadModule_eq_error {abort : Abort}
    (h : loadModule setting compile source span state = .error abort) :
    ∃ call, calledFor? setting source span state = some call ∧
      compile call.key call.source call.before = .error abort := by
  unfold loadModule at h
  unfold calledFor?
  cases hlibrary : setting.libraries.get? source with
  | some id =>
    rw [hlibrary] at h
    cases h
  | none =>
    rw [hlibrary] at h
    rcases Load.eq_error_of_bind_eq_error h with h | ⟨located, between, hlocate, h⟩
    · exact absurd h (locate_ne_error abort)
    · rw [hlocate]
      rcases located with d | ⟨key, text, notices⟩
      · cases h
      · refine ⟨⟨key, text, between⟩, rfl, ?_⟩
        rcases Load.eq_error_of_bind_eq_error h with h | ⟨_, _, -, h⟩
        · exact h
        · cases h

theorem resolveImports_eq_error {abort : Abort} {imports : List Import} {table : Table Value}
    (h : resolveImports setting compile imports table notices state = .error abort) :
    ∃ name call, (name, call) ∈ calledForAll setting compile imports state ∧
      compile call.key call.source call.before = .error abort := by
  induction imports generalizing table notices state with
  | nil => cases h
  | cons i more ih =>
    rw [resolveImports] at h
    rcases Load.eq_error_of_bind_eq_error h with h | ⟨⟨outcome, reported⟩, between, hload, h⟩
    · obtain ⟨call, hcall, hcompile⟩ := loadModule_eq_error h
      refine ⟨i.source, call, ?_, hcompile⟩
      rw [calledForAll, hcall]
      exact List.mem_append_left _ (by simp)
    · have hmore : ∃ table notices,
          resolveImports setting compile more table notices between = .error abort := by
        cases outcome with
        | error d => exact ⟨_, _, h⟩
        | ok id => exact ⟨_, _, h⟩
      obtain ⟨table, notices, hmore⟩ := hmore
      obtain ⟨name, call, hcall, hcompile⟩ := ih hmore
      exact ⟨name, call, (mem_calledForAll_cons hload).2 (.inr hcall), hcompile⟩

/-- A compile has no result if the run of its program breaks down, or if it is begun for one of its
imports and has none. -/
theorem Call.run_or_mem_calls_of_eq_error {c : Call} {depth : Nat} {abort : Abort}
    (h : compileUnit setting (depth + 1) c.key c.source c.before = .error abort) :
    (abort = .breakdown ∧ ∃ p table store stop, c.Runs setting (depth + 1) p table store ∧
      p.run table store = .error stop) ∨
    ∃ name call, (name, call) ∈ c.calls setting depth ∧
      compileUnit setting depth call.key call.source call.before = .error abort := by
  rw [compileUnit, compileWith] at h
  rw [calls, imports]
  cases hprogram : Program.ofSource c.source with
  | error d =>
    rw [hprogram] at h
    cases h
  | ok p =>
    rw [hprogram] at h
    rcases Load.eq_error_of_bind_eq_error h with h | ⟨_, entered, hentered, h⟩
    · cases h
    cases hentered
    rcases Load.eq_error_of_bind_eq_error h with h | ⟨⟨table, notices⟩, between, hresolve, h⟩
    · exact .inr (resolveImports_eq_error h)
    rcases Load.eq_error_of_bind_eq_error h with h | ⟨_, left, hleft, h⟩
    · cases h
    cases hleft
    rcases Load.eq_error_of_bind_eq_error h with h | ⟨_, _, -, h⟩
    · unfold runProgram at h
      cases hrun : p.run table between.leave.store with
      | ok ran =>
        rw [hrun] at h
        cases h
      | error stop =>
        rw [hrun] at h
        cases h
        exact .inl ⟨rfl, p, table, between.store, stop,
          ⟨hprogram, depth, notices, between, rfl, hresolve, rfl⟩, hrun⟩
    · cases h

end SceneScript.Module
