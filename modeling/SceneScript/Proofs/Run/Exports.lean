import Mathlib.Data.List.DropRight
import SceneScript.Proofs.Run.Visits

namespace SceneScript
namespace Scope

inductive Event where
  | push
  | pop
  | seed (name : String) (value : Value)
  | confine (name : String) (value : Value)
  | assign (name : String) (value : Value)

def apply (s : Scope) : Event → Scope
  | .push => s.push
  | .pop => s.pop
  | .seed name value => s.seed name value
  | .confine name value => s.confine name value
  | .assign name value => s.assign name value

def applyAll (s : Scope) (events : List Event) : Scope := events.foldl apply s

/-- A change, with the scope that it was made to. -/
structure Moment where
  before : Scope
  event : Event

def moments (s : Scope) : List Event → List Moment
  | [] => []
  | first :: more => ⟨s, first⟩ :: moments (s.apply first) more

/-- The name is seeded, or it is confined outside blocks. -/
def Moment.settles (moment : Moment) (name : String) : Bool :=
  match moment.event with
  | .seed other _ => other = name
  | .confine other _ => other = name && moment.before.blocks.isEmpty
  | _ => false

def Moment.assigned? (moment : Moment) (name : String) : Option Value :=
  match moment.event with
  | .assign other value =>
    if other = name && moment.before.reachesFile name false then some value else none
  | _ => none

def settled? (s : Scope) (events : List Event) (name : String) : Option Event :=
  ((s.moments events).filter (·.settles name)).getLast?.map (·.event)

/-- The value that was assigned last to the name since it was settled, while no block held it. -/
def assignedSince? (s : Scope) (events : List Event) (name : String) : Option Value :=
  (((s.moments events).rtakeWhile (!·.settles name)).filterMap (·.assigned? name)).getLast?

variable {s : Scope} {events more : List Event} {event : Event} {name : String} {value : Value}

/-! ### Histories -/

theorem applyAll_append (s : Scope) (events more : List Event) :
    s.applyAll (events ++ more) = (s.applyAll events).applyAll more := List.foldl_append

theorem moments_append (s : Scope) (events more : List Event) :
    s.moments (events ++ more) = s.moments events ++ (s.applyAll events).moments more := by
  induction events generalizing s with
  | nil => rfl
  | cons first rest ih => exact congrArg (⟨s, first⟩ :: ·) (ih (s.apply first))

theorem settled?_append_singleton (s : Scope) (events : List Event) (event : Event)
    (name : String) :
    s.settled? (events ++ [event]) name =
      if (Moment.mk (s.applyAll events) event).settles name then some event
      else s.settled? events name := by
  rw [settled?, moments_append, List.filter_append, moments, moments]
  cases hsettles : (Moment.mk (s.applyAll events) event).settles name with
  | true => simp [hsettles]
  | false => simp [hsettles, settled?]

theorem assignedSince?_append_singleton (s : Scope) (events : List Event) (event : Event)
    (name : String) : s.assignedSince? (events ++ [event]) name =
      if (Moment.mk (s.applyAll events) event).settles name then none
      else ((Moment.mk (s.applyAll events) event).assigned? name).or
        (s.assignedSince? events name) := by
  rw [assignedSince?, moments_append, moments, moments, List.rtakeWhile_concat]
  cases hsettles : (Moment.mk (s.applyAll events) event).settles name with
  | true => rfl
  | false =>
    cases hassigned : (Moment.mk (s.applyAll events) event).assigned? name with
    | none => simp [hassigned, assignedSince?]
    | some value => simp [hassigned]

/-! ### The binding of the file -/

/-- What the file frame binds a name to that was settled and assigned since in this way. -/
def fileBinding? : Option Event → Option Value → Option Binding
  | some (.confine _ old), assigned => some ⟨assigned.getD old, .confined⟩
  | some (.seed _ old), none => some ⟨old, .seeded⟩
  | _, some value => some ⟨value, .assigned⟩
  | _, none => none

theorem get?_assignFile (frame : Frame) (name other : String) (value : Value) :
    (assignFile frame name value).get? other = if other = name then
      some (((frame.get? name).map (·.assign value)).getD ⟨value, .assigned⟩)
    else frame.get? other := by
  unfold assignFile
  cases frame.get? name <;> rw [Table.get?_insert] <;> rfl

theorem file_assign (s : Scope) (name : String) (value : Value) : (s.assign name value).file =
    if s.reachesFile name false then assignFile s.file name value else s.file := by
  rw [assign, reachesFile, if_neg Bool.false_ne_true]
  cases hblocks : assignBlocks? name value s.blocks with
  | none => rw [if_pos ((assignBlocks?_eq_none_iff value s.blocks).1 hblocks)]
  | some blocks =>
    rw [if_neg fun hall => ?_]
    rw [(assignBlocks?_eq_none_iff value s.blocks).2 hall] at hblocks
    cases hblocks

/-- A change that settles a name makes its binding, one that assigns to it updates the binding, and
no other change touches it. -/
theorem get?_file_apply (s : Scope) (event : Event) (name : String) :
    (s.apply event).file.get? name =
      if (Moment.mk s event).settles name then fileBinding? (some event) none
      else match (Moment.mk s event).assigned? name with
        | some value => some (((s.file.get? name).map (·.assign value)).getD ⟨value, .assigned⟩)
        | none => s.file.get? name := by
  cases event with
  | push => rfl
  | pop => rfl
  | seed other value =>
    rw [apply, seed, Table.get?_insert]
    by_cases heq : other = name
    · simp [Moment.settles, heq, fileBinding?]
    · simp [Moment.settles, Moment.assigned?, heq, Ne.symm heq]
  | confine other value =>
    rw [apply, confine]
    cases hblocks : s.blocks with
    | nil =>
      rw [Table.get?_insert]
      by_cases heq : other = name
      · simp [Moment.settles, heq, hblocks, fileBinding?]
      · simp [Moment.settles, Moment.assigned?, heq, Ne.symm heq]
    | cons inner outer => simp [Moment.settles, Moment.assigned?, hblocks]
  | assign other value =>
    rw [apply, file_assign]
    by_cases heq : other = name
    · subst heq
      cases hreaches : s.reachesFile other false with
      | true => simp [Moment.settles, Moment.assigned?, hreaches, get?_assignFile]
      | false => simp [Moment.settles, Moment.assigned?, hreaches]
    · have hfile : (if s.reachesFile other false then assignFile s.file other value
          else s.file).get? name = s.file.get? name := by
        split
        · rw [get?_assignFile, if_neg (Ne.symm heq)]
        · rfl
      rw [hfile]
      simp [Moment.settles, Moment.assigned?, heq]

theorem settles_of_settled? {event : Event} (h : s.settled? events name = some event) :
    (∃ value, event = .seed name value) ∨ ∃ value, event = .confine name value := by
  obtain ⟨moment, hlast, rfl⟩ := Option.map_eq_some_iff.1 h
  have hsettles : moment.settles name = true :=
    (List.mem_filter.1 (List.mem_of_getLast? hlast)).2
  unfold Moment.settles at hsettles
  split at hsettles
  next other value hevent => exact .inl ⟨value, by rw [hevent, of_decide_eq_true hsettles]⟩
  next other value hevent =>
    have hother := of_decide_eq_true (Bool.and_eq_true_iff.1 hsettles).1
    exact .inr ⟨value, by rw [hevent, hother]⟩
  next => cases hsettles

/-- An assignment publishes a seeded binding, and leaves a confined one hidden. -/
theorem fileBinding?_assign {settled : Option Event} (given : Option Value) (value : Value) :
    fileBinding? settled (some value) =
      some (((fileBinding? settled given).map (·.assign value)).getD ⟨value, .assigned⟩) := by
  rcases settled with _ | event
  · cases given <;> rfl
  · cases event <;> cases given <;> rfl

theorem get?_file_applyAll (events : List Event) (name : String) :
    (empty.applyAll events).file.get? name =
      fileBinding? (empty.settled? events name) (empty.assignedSince? events name) := by
  induction events using List.reverseRecOn with
  | nil => rfl
  | append_singleton events event ih =>
    rw [applyAll_append, settled?_append_singleton, assignedSince?_append_singleton]
    have happly : (empty.applyAll events).applyAll [event] =
        (empty.applyAll events).apply event := rfl
    rw [happly, get?_file_apply]
    by_cases hsettles : (Moment.mk (empty.applyAll events) event).settles name = true
    · rw [if_pos hsettles, if_pos hsettles, if_pos hsettles]
    rw [if_neg hsettles, if_neg hsettles, if_neg hsettles, ih]
    cases (Moment.mk (empty.applyAll events) event).assigned? name with
    | none => rfl
    | some value => exact (fileBinding?_assign _ value).symm

theorem get?_exports (s : Scope) (name : String) : s.exports.get? name =
    (s.file.get? name).bind fun b => if b.origin = .assigned then some b.value else none :=
  Table.get?_filterMap _ s.file name

/-- A name that was last settled by a confined binding is hidden, and any other name is exported
with the value that it was last assigned at file level. -/
theorem get?_exports_applyAll (events : List Event) (name : String) :
    ((∃ value, empty.settled? events name = some (.confine name value)) →
      (empty.applyAll events).exports.get? name = none) ∧
    ((¬ ∃ value, empty.settled? events name = some (.confine name value)) →
      (empty.applyAll events).exports.get? name = empty.assignedSince? events name) := by
  rw [get?_exports, get?_file_applyAll]
  constructor
  · rintro ⟨value, hsettled⟩
    rw [hsettled]
    rfl
  · intro hsettled
    cases hlast : empty.settled? events name with
    | none => cases empty.assignedSince? events name <;> rfl
    | some event =>
      rcases settles_of_settled? hlast with ⟨value, rfl⟩ | ⟨value, rfl⟩
      · cases empty.assignedSince? events name <;> rfl
      · exact absurd ⟨value, hlast⟩ hsettled

/-! ### Histories that do not assign -/

/-- Changes lead from the first scope to the second, and none assigns the name at file level. -/
def Avoids (name : String) (s t : Scope) : Prop :=
  ∃ events, t = s.applyAll events ∧ ∀ moment ∈ s.moments events, moment.assigned? name = none

theorem Avoids.refl (name : String) (s : Scope) : s.Avoids name s :=
  ⟨[], rfl, fun _ h => nomatch h⟩

theorem Avoids.trans {t u : Scope} (h : s.Avoids name t) (h' : t.Avoids name u) :
    s.Avoids name u := by
  obtain ⟨events, rfl, hevents⟩ := h
  obtain ⟨more, rfl, hmore⟩ := h'
  refine ⟨events ++ more, (s.applyAll_append events more).symm, fun moment hmoment => ?_⟩
  rw [moments_append] at hmoment
  rcases List.mem_append.1 hmoment with hmoment | hmoment
  · exact hevents moment hmoment
  · exact hmore moment hmoment

theorem avoids_apply (event : Event) (h : (Moment.mk s event).assigned? name = none) :
    s.Avoids name (s.apply event) :=
  ⟨[event], rfl, fun _ hmoment => List.mem_singleton.1 hmoment ▸ h⟩

theorem avoids_bind {other : String} (confined : Bool) (value : Value)
    (h : ¬ (confined = false ∧ other = name ∧ s.reachesFile name false = true)) :
    s.Avoids name (s.bind other confined value) := by
  cases confined with
  | true => exact avoids_apply (.confine other value) rfl
  | false =>
    refine avoids_apply (.assign other value) ?_
    dsimp only [Moment.assigned?]
    refine if_neg fun hassigns => h ?_
    obtain ⟨heq, hreaches⟩ := Bool.and_eq_true_iff.1 hassigns
    exact ⟨rfl, of_decide_eq_true heq, hreaches⟩

theorem avoids_seedAll (s : Scope) (bindings : List (String × Value)) (name : String) :
    s.Avoids name (s.seedAll bindings) := by
  induction bindings generalizing s with
  | nil => exact .refl name s
  | cons first more ih =>
    exact Avoids.trans (avoids_apply (.seed first.1 first.2) rfl)
      (ih (s.seed first.1 first.2))

/-- A name that is never assigned at file level is not exported. -/
theorem get?_exports_of_avoids (h : empty.Avoids name s) : s.exports.get? name = none := by
  obtain ⟨events, rfl, hevents⟩ := h
  have hnone : empty.assignedSince? events name = none := by
    have hgiven : ((empty.moments events).rtakeWhile (!·.settles name)).filterMap
        (·.assigned? name) = [] := List.filterMap_eq_nil_iff.2 fun moment hmoment =>
      hevents moment ((List.rtakeWhile_suffix _ _).subset hmoment)
    rw [assignedSince?, hgiven]
    rfl
  obtain ⟨hconfined, hopen⟩ := get?_exports_applyAll events name
  by_cases hsettled : ∃ value, empty.settled? events name = some (.confine name value)
  · exact hconfined hsettled
  · exact (hopen hsettled).trans hnone

end Scope

/-! ### Runs -/

/-- The name that a statement assigns to: a plain assignment its target, a counted loop its
counter. -/
def Stmt.assigns? (s : Stmt) : Option String :=
  match s with
  | .assign _ name false _ => some name
  | .forLoop _ counter _ _ _ _ => some counter
  | _ => none

def Machine.Avoids (name : String) (m after : Machine) : Prop := m.scope.Avoids name after.scope

namespace Run
variable {m : Machine}

instance (name : String) : IsPreorder Machine (Machine.Avoids name) where
  refl m := .refl name m.scope
  trans _ _ _ := .trans

theorem Keeps.avoids {α : Type} {x : Run α} (h : Keeps Machine.SameScope x) (name : String) :
    Keeps (Machine.Avoids name) x := h.imp fun {m after} hsame => by
  rw [Machine.Avoids, show after.scope = m.scope from hsame]
  exact .refl name m.scope

/-- An assignment leaves the scope alone or makes its binding. -/
theorem scope_execute_assign (span : Span) (name : String) (confined : Bool) (value : Expr)
    (m : Machine) :
    (execute (.assign span name confined value) m).2.scope = m.scope ∨
      ∃ bound, (execute (.assign span name confined value) m).2.scope =
        m.scope.bind name confined bound := by
  rw [execute]
  rcases hvalue : placing span (evaluate value) m with ⟨stop | evaluated, between⟩
  · rw [bind_apply_of_error _ hvalue]
    exact .inl (((quiet_evaluate value).placing span).sameScope.rel hvalue)
  · rw [bind_apply_of_ok _ hvalue]
    have hbetween : between.scope = m.scope :=
      ((quiet_evaluate value).placing span).sameScope.rel hvalue
    obtain ⟨bound, after, hbound⟩ := succeeds_bindObject name evaluated between
    have hafter : after.scope = between.scope := (sameScope_bindObject name evaluated).rel hbound
    rw [bind_apply_of_ok _ hbound]
    refine .inr ⟨bound, ?_⟩
    rw [← hbetween, ← hafter]
    rfl

theorem kept_avoids (name : String) : Kept (Machine.Avoids name) fun s m =>
    ¬ (s.assigns? = some name ∧ m.scope.reachesFile name false = true) where
  grow hgrows := by
    rw [Machine.Avoids, hgrows.scope_eq]
    exact .refl name _
  enter m := Scope.avoids_apply .push rfl
  leave m := Scope.avoids_apply .pop rfl
  report m d := .refl name m.scope
  simple {s m} hs hP := by
    cases s with
    | assign span other confined value =>
      rcases scope_execute_assign span other confined value m with hsame | ⟨bound, hbound⟩
      · rw [Machine.Avoids, hsame]
        exact .refl name _
      · rw [Machine.Avoids, hbound]
        refine Scope.avoids_bind confined bound fun ⟨hconfined, hname, hreaches⟩ =>
          hP ⟨?_, hreaches⟩
        rw [hconfined, hname]
        rfl
    | setProperty span target child property value =>
      exact ((sameScope_setProperty target child property value).placing span).avoids name m
    | callMethod span target method args excluded =>
      exact ((sameScope_callMethod target method args excluded).placing span).avoids name m
    | print span value =>
      refine (((quiet_evaluate value).placing span).sameScope.avoids name).bind
        (fun evaluated => (Keeps.display evaluated).bind fun line m => ?_) m
      exact .refl name m.scope
    | _ => cases hs
  count {span counter start stop step body m k} x hP hretains := by
    refine Scope.avoids_bind false (.number x) fun ⟨_, hname, hreaches⟩ => hP ⟨?_, ?_⟩
    · rw [hname]
      rfl
    · exact hretains.reachesFile hreaches

end Run

namespace Program

/-- What a program exports, it has assigned at file level. -/
theorem exists_visits_of_exports {p : Program} {modules : Table Value} {store : Store}
    {r : Result} {name : String} {value : Value} (hrun : p.run modules store = .ok r)
    (h : r.exports.get? name = some value) :
    ∃ t k, p.Visits modules store t k ∧ t.assigns? = some name ∧
      k.scope.reachesFile name false = true := by
  obtain ⟨m, hreaches, rfl⟩ := exists_reaches_of_run hrun
  by_contra hnone
  have havoids : (Machine.start modules store).Avoids name m :=
    hreaches.kept (Run.kept_avoids name) fun t k hvisits hassigns => hnone ⟨t, k, hvisits, hassigns⟩
  have hstart : Scope.empty.Avoids name (Machine.start modules store).scope :=
    (Scope.avoids_seedAll _ Scope.constants name).trans (Scope.avoids_seedAll _ modules.toList name)
  rw [show m.result.exports = m.scope.exports from rfl,
    Scope.get?_exports_of_avoids (hstart.trans havoids)] at h
  cases h

end Program

/-- A name is exported if it was assigned at file level since it was last seeded, with the value of
the last such assignment, and hidden if it was confined at file level since. As constants and
imports are seeded before the first statement, a program exports those only that it assigns at file
level. -/
theorem Scope.exports_decided_by_history :
    (∀ (events : List Event) (name : String),
      ((∃ value, empty.settled? events name = some (.confine name value)) →
        (empty.applyAll events).exports.get? name = none) ∧
      ((¬ ∃ value, empty.settled? events name = some (.confine name value)) →
        (empty.applyAll events).exports.get? name = empty.assignedSince? events name)) ∧
    ∀ (p : Program) (modules : Table Value) (store : Store) (r : Result) (name : String)
      (value : Value), p.run modules store = .ok r → r.exports.get? name = some value →
        ∃ t k, p.Visits modules store t k ∧ t.assigns? = some name ∧
          k.scope.reachesFile name false = true :=
  ⟨get?_exports_applyAll, fun _ _ _ _ _ _ => Program.exists_visits_of_exports⟩

/-- A constant that is assigned, a name that is confined first, and a program that assigns `PI`. -/
theorem Scope.exports_of_assigned_constant :
    let events : List Event := [.seed "PI" .nil, .push, .confine "PI" (.bool true), .pop,
      .assign "PI" (.bool false), .confine "hidden" .nil, .assign "hidden" (.bool true)]
    (empty.applyAll events).exports.get? "PI" = some (.bool false) ∧
      (empty.applyAll events).exports.get? "hidden" = none ∧
      ∃ t k, Program.Visits ⟨[.assign default "PI" false (.number default 3)]⟩ .empty .empty t k ∧
        t.assigns? = some "PI" ∧ k.scope.reachesFile "PI" false = true := by
  intro events
  obtain ⟨hhistory, hruns⟩ := exports_decided_by_history
  refine ⟨?_, (hhistory events "hidden").1 ⟨.nil, rfl⟩, ?_⟩
  · refine ((hhistory events "PI").2 ?_).trans rfl
    rintro ⟨value, hsettled⟩
    cases hsettled
  let p : Program := ⟨[.assign default "PI" false (.number default 3)]⟩
  have hexport : ((p.run .empty .empty).toOption.map
      (fun r => (r.exports.get? "PI").isSome)) = some true := by decide +kernel
  cases hrun : p.run .empty .empty with
  | error stop =>
    rw [hrun] at hexport
    cases hexport
  | ok r =>
    rw [hrun] at hexport
    obtain ⟨value, hvalue⟩ := Option.isSome_iff_exists.1 (Option.some.inj hexport)
    exact hruns p .empty .empty r "PI" value hrun hvalue

end SceneScript
