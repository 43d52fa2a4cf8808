import SceneScript.Proofs.Module.Load
import SceneScript.Proofs.Run.Path

namespace SceneScript

namespace Store
variable {s t : Store} {table : Table Value}

theorem Holds.of_size_le {value : Value} (hv : s.Holds value)
    (h : s.objects.size ≤ t.objects.size) : t.Holds value :=
  fun id hid => Nat.lt_of_lt_of_le (hv id hid) h

theorem Supplies.empty (h : s.Closed) : s.Supplies .empty := ⟨h, fun _ _ hget => nomatch hget⟩

theorem Supplies.insert (h : s.Supplies table) (name : String) {value : Value}
    (hv : s.Holds value) : s.Supplies (table.insert name value) where
  closed := h.closed
  held := by
    intro other found hfound
    rw [Table.get?_insert] at hfound
    split at hfound
    · cases hfound
      exact hv
    · exact h.held other found hfound

theorem Supplies.grow (hs : s.Supplies table) (hclosed : t.Closed)
    (h : s.objects.size ≤ t.objects.size) : t.Supplies table :=
  ⟨hclosed, fun name value hvalue => (hs.held name value hvalue).of_size_le h⟩

/-- A module may be added whose exports are in the store. -/
theorem Supplies.addModule (h : s.Supplies table) : (s.addModule table).2.Closed := by
  intro id name value hvalue
  have hexports : (s.addModule table).2.exports id = table ∨
      (s.addModule table).2.exports id = s.exports id := by
    simp only [exports, Store.addModule, Array.getElem?_push]
    split
    · exact .inl rfl
    · exact .inr rfl
  -- The identity is that of the new module or of one that was there.
  rcases hexports with heq | heq <;> rw [heq] at hvalue
  · exact h.held name value hvalue
  · exact h.closed id name value hvalue

theorem supplies_ofList {entries : List (String × Value)} (hs : s.Closed)
    (h : ∀ e ∈ entries, e.2.object? = none) : s.Supplies (.ofList entries) :=
  ⟨hs, fun _ _ hget => s.holds_of_object?_eq_none (h _ (Table.mem_of_get?_ofList hget))⟩

theorem closed_addLibraries (hs : s.Closed) (seed : UInt64) : (s.addLibraries seed).2.Closed := by
  unfold addLibraries
  dsimp only
  refine (supplies_ofList (Supplies.addModule (supplies_ofList
    (Supplies.addModule (supplies_ofList ?_ ?_)) ?_)) ?_).addModule
  · exact hs
  · simp only [List.forall_mem_append, List.forall_mem_map, List.forall_mem_cons, nativeEntry,
      Value.object?, implies_true, List.not_mem_nil, false_implies, and_self]
  · simp only [List.forall_mem_map, nativeEntry, Value.object?, implies_true]
  · simp only [List.forall_mem_map, nativeEntry, Value.object?, implies_true]

end Store

/-- A run that is supplied by a store supplies its exports. -/
theorem Program.supplies_of_run {p : Program} {modules : Table Value} {store : Store} {r : Result}
    (hsupplies : store.Supplies modules) (h : p.run modules store = .ok r) :
    r.store.Supplies r.exports ∧ store.objects.size ≤ r.store.objects.size := by
  obtain ⟨m, hm, rfl⟩ := exists_reaches_of_run h
  obtain ⟨placed, hpath⟩ := hm.leads
  have hgrounded : m.Grounded := hpath.grounded (Machine.grounded_start hsupplies)
  refine ⟨⟨hgrounded.closed, fun name value hvalue => ?_⟩, hpath.size_le⟩
  exact hgrounded.scope value (Scope.binds_of_exports hvalue)

namespace Module
variable {setting : Setting} {compile : UnitCompiler} {state after : Loading}

/-- A compiler is sound if, on a store without dangling references, it leaves one that has grown and
supplies what the compiled module exports. -/
def Supplying (compile : UnitCompiler) : Prop :=
  ∀ key source state result after, compile key source state = .ok (result, after) →
    state.store.Closed → after.store.Supplies result.exports ∧
      state.store.objects.size ≤ after.store.objects.size

theorem closed_of_loadModule (hcompile : Supplying compile) {source : String} {span : Span}
    {outcome : Except Diagnostic ModuleId} {reported : List Notice}
    (h : loadModule setting compile source span state = .ok ((outcome, reported), after))
    (hclosed : state.store.Closed) :
    after.store.Closed ∧ state.store.objects.size ≤ after.store.objects.size := by
  rcases loadModule_eq_ok h with ⟨id, -, -, -, rfl⟩ | ⟨d, -, hlocate, -, -⟩ |
    ⟨key, text, notices, between, result, middle, -, hlocate, hresult, -, -, rfl⟩
  · exact ⟨hclosed, Nat.le_refl _⟩
  · rw [(locate_frame hlocate).1]
    exact ⟨hclosed, Nat.le_refl _⟩
  · rw [← (locate_frame hlocate).1] at hclosed ⊢
    obtain ⟨hsupplies, hsize⟩ := hcompile _ _ _ _ _ hresult hclosed
    exact ⟨hsupplies.addModule, hsize⟩

theorem supplies_bindExports {store : Store} {exports : Exports} {table : Table Value} (i : Import)
    (hexports : ∀ name value, exports.get? name = some value → store.Holds value)
    (h : store.Supplies table) : store.Supplies (bindExports exports i table).1 := by
  apply bindExports_induction (P := fun table _ => store.Supplies table)
  · exact h
  · intro table notices bound name value hvalue htable
    exact htable.insert bound (hexports name value hvalue)
  · exact fun _ _ _ htable => htable

theorem supplies_bindImport {store : Store} {table : Table Value} (naming : Naming) (i : Import)
    (id : ModuleId) (h : store.Supplies table) :
    store.Supplies (bindImport naming store i id table).1 := by
  unfold bindImport
  split
  · exact h.insert _ (store.holds_of_object?_eq_none rfl)
  · exact supplies_bindExports i (h.closed id) h

/-- What imports bind is in the store that they leave. -/
theorem supplies_of_resolveImports (hcompile : Supplying compile) {imports : List Import}
    {table table' : Table Value} {notices notices' : List Notice}
    (h : resolveImports setting compile imports table notices state =
      .ok ((table', notices'), after)) (hsupplies : state.store.Supplies table) :
    after.store.Supplies table' ∧ state.store.objects.size ≤ after.store.objects.size := by
  induction imports generalizing table notices state with
  | nil =>
    cases h
    exact ⟨hsupplies, Nat.le_refl _⟩
  | cons i more ih =>
    obtain ⟨outcome, reported, between, hload, hrest⟩ := resolveImports_cons_eq_ok h
    obtain ⟨hclosed, hsize⟩ := closed_of_loadModule hcompile hload hsupplies.closed
    have hbetween : between.store.Supplies table := hsupplies.grow hclosed hsize
    rcases hrest with ⟨d, -, hrest⟩ | ⟨id, bound, missing, -, hbind, hrest⟩
    · obtain ⟨hafter, hsize'⟩ := ih hrest hbetween
      exact ⟨hafter, Nat.le_trans hsize hsize'⟩
    · have hbound := supplies_bindImport setting.config.naming i id hbetween
      rw [hbind] at hbound
      obtain ⟨hafter, hsize'⟩ := ih hrest hbound
      exact ⟨hafter, Nat.le_trans hsize hsize'⟩

theorem supplying_compileWith (hcompile : Supplying compile) :
    Supplying (compileWith setting compile) := by
  intro key source state result after h hclosed
  rcases compileWith_eq_ok h with ⟨d, -, rfl, rfl⟩ |
    ⟨p, table, notices, between, ran, -, hresolve, hrun, rfl, rfl⟩
  · exact ⟨.empty hclosed, Nat.le_refl _⟩
  · obtain ⟨hsupplies, hsize⟩ := supplies_of_resolveImports hcompile hresolve (.empty hclosed)
    obtain ⟨hran, hsize'⟩ := Program.supplies_of_run hsupplies hrun
    exact ⟨hran, Nat.le_trans hsize hsize'⟩

theorem supplying_compileUnit (setting : Setting) (depth : Nat) :
    Supplying (compileUnit setting depth) := by
  induction depth with
  | zero =>
    intro key source state result after h
    cases h
  | succ depth ih => exact supplying_compileWith ih

end Module
end SceneScript
