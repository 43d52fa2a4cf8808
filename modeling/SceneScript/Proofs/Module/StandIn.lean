import SceneScript.Proofs.Module.Depth
import SceneScript.Proofs.Run.Exports

namespace SceneScript

/-- The result is one printed line and nothing else. -/
structure Result.OnlySays (r : Result) (line : String) : Prop where
  logs : r.logs = [line]
  errors : r.errors = []
  scene : r.scene = .empty
  exports : r.exports = .empty

/-- Constants and imports are hidden until a program assigns to them. -/
theorem Machine.exports_start (modules : Table Value) (store : Store) :
    (Machine.start modules store).scope.exports = .empty := by
  refine Table.ext_get? fun name => ?_
  exact Scope.get?_exports_of_avoids
    ((Scope.avoids_seedAll .empty Scope.constants name).trans
      (Scope.avoids_seedAll .standard modules.toList name))

/-- A program that prints one string does nothing else, whatever it imports are bound to. -/
theorem Program.exists_run_print (span place : Span) (line : String) (modules : Table Value)
    (store : Store) : ∃ result, Program.run ⟨[.print span (.string place line)]⟩ modules store =
      .ok result ∧ result.OnlySays line ∧ result.store = store := by
  refine ⟨_, rfl, ⟨rfl, rfl, rfl, ?_⟩, rfl⟩
  exact Machine.exports_start modules store

namespace Module
variable {setting : Setting} {compile : UnitCompiler} {address key : String} {state : Loading}

theorem Loading.leave_enter (state : Loading) (key : String) : (state.enter key).leave = state := by
  simp [Loading.enter, Loading.leave]

/-- The stand-in is compiled to its line alone, and leaves what is being loaded as it was. -/
theorem exists_compileWith_fallbackSource (setting : Setting) (compile : UnitCompiler)
    (address key : String) (state : Loading) : ∃ result,
      compileWith setting compile key (fallbackSource address) state = .ok (result, state) ∧
        result.OnlySays (fallbackLine address) := by
  obtain ⟨span, place, hprogram⟩ := ofSource_fallbackSource address
  obtain ⟨result, hrun, hsays, hstore⟩ :=
    Program.exists_run_print span place (fallbackLine address) .empty state.store
  have hload : runProgram ⟨[.print span (.string place (fallbackLine address))]⟩ .empty state =
      .ok (result, state) := by
    simp only [runProgram, hrun, hstore]
  refine ⟨result, ?_, hsays⟩
  unfold compileWith
  rw [hprogram]
  simp only [Load.modify_bind_apply, Loading.leave_enter, resolveImports, Program.imports,
    pure_bind, List.filterMap_cons, List.filterMap_nil]
  rw [Load.bind_apply_of_ok hload]
  rfl

/-- A module that is stood in for exports nothing and makes no request of its own, and there is
nothing to report about it but what was reported when it was located. -/
theorem exists_loadModule_fallbackSource {source : String} {span : Span} {notices : List Notice}
    {between : Loading} (depth : Nat) (hlibrary : setting.libraries.get? source = none)
    (hlocate : locate setting source span state =
      .ok (.ok (key, fallbackSource address, notices), between)) : ∃ id after,
      loadModule setting (compileUnit setting (depth + 1)) source span state =
        .ok ((.ok id, notices), after) ∧
      after.store.exports id = .empty ∧ after.cache = between.cache ∧
      after.requests = between.requests ∧ after.stack = between.stack := by
  obtain ⟨result, hcompile, hsays⟩ :=
    exists_compileWith_fallbackSource setting (compileUnit setting depth) address key between
  have hnone : result.notices = [] := List.map_eq_nil_iff.1 hsays.errors
  refine ⟨(between.store.addModule result.exports).1,
    { between with store := (between.store.addModule result.exports).2 }, ?_, ?_, rfl, rfl, rfl⟩
  · unfold loadModule
    rw [hlibrary]
    dsimp only
    rw [Load.bind_apply_of_ok hlocate]
    dsimp only
    rw [compileUnit, Load.bind_apply_of_ok hcompile]
    simp only [hnone, List.map_nil, List.append_nil]
    rfl
  · rw [Store.exports_addModule, if_pos rfl, hsays.exports]

/-- The stand-in for an address is harmless, whatever characters the address is made of. -/
theorem fallback_is_harmless (address : String) :
    (Token.ofSource (fallbackSource address)).map Token.kind =
      [.ident "console", .symbol .dot, .ident "print", .symbol .leftParen,
        .string (fallbackLine address), .symbol .rightParen, .eof] ∧
    (∃ span place, Program.ofSource (fallbackSource address) =
      .ok ⟨[.print span (.string place (fallbackLine address))]⟩) ∧
    (∀ (l : Loader) (name : String) (files : Table String), ∃ result after,
      l.compileRoot name (fallbackSource address) files = .ok (result, after) ∧
        result.OnlySays (fallbackLine address) ∧
        after.cache = l.cache ∧ after.requests = l.requests) ∧
    ∀ (setting : Setting) (depth : Nat) (source key : String) (span : Span)
      (notices : List Notice) (state between : Loading), setting.libraries.get? source = none →
      locate setting source span state =
        .ok (.ok (key, fallbackSource address, notices), between) → ∃ id after,
          loadModule setting (compileUnit setting (depth + 1)) source span state =
            .ok ((.ok id, notices), after) ∧
          after.store.exports id = .empty ∧ after.cache = between.cache ∧
          after.requests = between.requests ∧ after.stack = between.stack := by
  refine ⟨kinds_ofSource_fallbackSource address, ofSource_fallbackSource address, ?_,
    fun _ depth _ _ _ _ _ _ => exists_loadModule_fallbackSource depth⟩
  intro l name files
  obtain ⟨result, hcompile, hsays⟩ := exists_compileWith_fallbackSource (l.setting files)
    (compileUnit (l.setting files) (l.depthBound files - 1)) address name
    (l.rootCall name (fallbackSource address)).before
  refine ⟨result, l.after (l.rootCall name (fallbackSource address)).before, ?_, hsays, rfl, rfl⟩
  have hdepth : l.depthBound files = l.depthBound files - 1 + 1 := rfl
  rw [Loader.compileRoot, Loader.compileWithin_eq, hdepth, compileUnit, hcompile]
  rfl

/-- An address with a quotation mark, a new line and marks of comments: its module is there, exports
nothing, and all there is to report is that it could not be fetched. -/
theorem fallback_is_harmless_of_quoted_address :
    let setting : Setting := ⟨.standard, .offline, .empty, .empty⟩
    let address := "http://a\"b\n# // \"c"
    let warning : Notice :=
      .warning 1 (.fallback (.fetchFailed address "network access is disabled"))
    ∃ id after, loadModule setting (compileUnit setting 1) address ⟨0, 6, 1, 1⟩
        ⟨.empty, #[], .empty, []⟩ = .ok ((.ok id, [warning]), after) ∧
      after.store.exports id = .empty ∧ after.requests = #[address] := by
  intro setting address warning
  have hlocate : locate setting address ⟨0, 6, 1, 1⟩ ⟨.empty, #[], .empty, []⟩ =
      .ok (.ok (address, fallbackSource address, [warning]),
        ⟨Cache.empty.insert address (fallbackSource address), #[address], .empty, []⟩) := by
    rw [locate_address (by decide +kernel) rfl]
    rfl
  obtain ⟨-, -, -, hload⟩ := fallback_is_harmless address
  obtain ⟨id, after, hafter, hexports, -, hrequests, -⟩ :=
    hload setting 0 address address ⟨0, 6, 1, 1⟩ [warning] _ _ rfl hlocate
  exact ⟨id, after, hafter, hexports, hrequests⟩

end Module
end SceneScript
