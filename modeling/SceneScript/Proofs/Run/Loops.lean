import SceneScript.Proofs.Run.Blocks

namespace SceneScript

/-- A counter has passed the last value of a loop that counts in steps of this size. -/
def IsPast (current last size : Float) : Prop :=
  if 0 ≤ size then last < current else current < last

instance (current last size : Float) : Decidable (IsPast current last size) :=
  inferInstanceAs (Decidable (if 0 ≤ size then last < current else current < last))

def countedFrom (first : Float) (sizes : List Float) : Float := sizes.foldl (· + ·) first

def Machine.limited (m : Machine) (span : Span) : Machine :=
  { m with notices := m.notices.push (.error (.placed (.iterationLimit Run.maxIterations) span)) }

namespace Run
variable {α : Type}

/-- Complete rounds of a loop lead from the first machine to the second, with these values of the
tests before them. -/
inductive Rounds (test : Run (Option α)) (body : α → Run Unit) (m : Machine) :
    List α → Machine → Prop
  | start : Rounds test body m [] m
  | more {values : List α} {between tested after : Machine} {a : α} :
      Rounds test body m values between → test between = (.ok (some a), tested) →
      body a tested = (.ok (), after) → Rounds test body m (values ++ [a]) after

/-- The ways in which a loop can end that has begun rounds with these values. -/
inductive LoopEnds (test : Run (Option α)) (body : α → Run Unit) (span : Span) (m : Machine) :
    List α → Except Stop Unit → Machine → Prop
  | finished {values : List α} {between after : Machine} : Rounds test body m values between →
      values.length ≤ maxIterations → test between = (.ok none, after) →
      LoopEnds test body span m values (.ok ()) after
  | limited {values : List α} {between tested : Machine} {a : α} :
    Rounds test body m values between →
      values.length = maxIterations → test between = (.ok (some a), tested) →
      LoopEnds test body span m values (.ok ()) (tested.limited span)
  | testFails {values : List α} {between after : Machine} {stop : Stop} :
      Rounds test body m values between → values.length ≤ maxIterations →
      test between = (.error stop, after) → LoopEnds test body span m values (.error stop) after
  | bodyFails {values : List α} {between tested after : Machine} {a : α} {stop : Stop} :
      Rounds test body m values between → values.length < maxIterations →
      test between = (.ok (some a), tested) → body a tested = (.error stop, after) →
      LoopEnds test body span m (values ++ [a]) (.error stop) after

def stepSize (span : Span) : Option Expr → Run Float
  | some step => placing span (evaluateNumber step)
  | none => pure 1

/-- A test of a counted loop: the counter is read, and then the end and the step are evaluated. -/
def Counts (span : Span) (counter : String) (stop : Expr) (step : Option Expr) (m : Machine)
    (current last size : Float) (after : Machine) : Prop :=
  m.scope.lookup? counter = some (.number current) ∧
    ∃ between, placing span (evaluateNumber stop) m = (.ok last, between) ∧
      stepSize span step between = (.ok size, after)

section Rounds
variable {test : Run (Option α)} {body : α → Run Unit} {span : Span} {exceeded : Run Unit}
  {m between after tested : Machine} {values : List α} {a : α}
    {result : Except Stop Unit} {stop : Stop}

theorem Rounds.roundsTo (h : Rounds test body m values between) :
    RoundsTo test body m values.length between := by
  induction h with
  | start => exact .start
  | more _ htested hran ih =>
    rw [List.length_append]
    exact ih.more htested hran

theorem LoopEnds.length_le (h : LoopEnds test body span m values result after) :
    values.length ≤ maxIterations := by
  cases h with
  | finished _ hlength _ => exact hlength
  | limited _ hlength _ => exact Nat.le_of_eq hlength
  | testFails _ hlength _ => exact hlength
  | bodyFails _ hlength _ _ =>
    rw [List.length_append]
    exact hlength

theorem repeatBody_of_none (htest : test m = (.ok none, after)) (n : Nat) :
    repeatBody test body exceeded n m = (.ok (), after) := by
  cases n <;> rw [repeatBody, bind_apply_of_ok _ htest] <;> rfl

theorem repeatBody_of_error (htest : test m = (.error stop, after)) (n : Nat) :
    repeatBody test body exceeded n m = (.error stop, after) := by
  cases n <;> rw [repeatBody, bind_apply_of_error _ htest]

theorem repeatBody_zero_of_some (htest : test m = (.ok (some a), tested)) :
    repeatBody test body exceeded 0 m = exceeded tested := by
  rw [repeatBody, bind_apply_of_ok _ htest]

theorem repeatBody_succ_of_some (htest : test m = (.ok (some a), tested)) (n : Nat) :
    repeatBody test body exceeded (n + 1) m =
      (body a >>= fun _ => repeatBody test body exceeded n) tested := by
  rw [repeatBody, bind_apply_of_ok _ htest]

theorem exists_loopEnds {n : Nat} (hlimit : values.length + n = maxIterations)
    (hrounds : Rounds test body m values between)
    (h : repeatBody test body (reportLimit span) n between = (result, after)) :
    ∃ runs, LoopEnds test body span m runs result after := by
  -- On the rounds that are left: with those that are done they make up the limit.
  induction n generalizing values between with
  | zero =>
    rcases htest : test between with ⟨stop | _ | a, tested⟩
    · rw [repeatBody_of_error htest] at h
      cases h
      exact ⟨values, .testFails hrounds (Nat.le_of_eq hlimit) htest⟩
    · rw [repeatBody_of_none htest] at h
      cases h
      exact ⟨values, .finished hrounds (Nat.le_of_eq hlimit) htest⟩
    · rw [repeatBody_zero_of_some htest] at h
      cases h
      exact ⟨values, .limited hrounds hlimit htest⟩
  | succ n ih =>
    have hlt : values.length < maxIterations := by omega
    rcases htest : test between with ⟨stop | _ | a, tested⟩
    · rw [repeatBody_of_error htest] at h
      cases h
      exact ⟨values, .testFails hrounds (Nat.le_of_lt hlt) htest⟩
    · rw [repeatBody_of_none htest] at h
      cases h
      exact ⟨values, .finished hrounds (Nat.le_of_lt hlt) htest⟩
    · rw [repeatBody_succ_of_some htest] at h
      rcases hran : body a tested with ⟨stop | _, ended⟩
      · rw [bind_apply_of_error _ hran] at h
        cases h
        exact ⟨values ++ [a], .bodyFails hrounds hlt htest hran⟩
      · rw [bind_apply_of_ok _ hran] at h
        refine ih ?_ (hrounds.more htest hran) h
        rw [List.length_append, List.length_singleton]
        omega

theorem LoopEnds.repeatBody_eq (h : LoopEnds test body span m values result after) :
    repeatBody test body (reportLimit span) maxIterations m = (result, after) := by
  cases h with
  | finished hrounds hlength htest =>
    rw [repeatBody_of_roundsTo hrounds.roundsTo hlength]
    exact repeatBody_of_none htest _
  | limited hrounds hlength htest =>
    rw [repeatBody_of_roundsTo hrounds.roundsTo (Nat.le_of_eq hlength), hlength, Nat.sub_self]
    exact repeatBody_zero_of_some htest
  | testFails hrounds hlength htest =>
    rw [repeatBody_of_roundsTo hrounds.roundsTo hlength]
    exact repeatBody_of_error htest _
  | @bodyFails begun between tested _ a stop hrounds hlength htest hran =>
    obtain ⟨n, hn⟩ : ∃ n, maxIterations - begun.length = n + 1 :=
      ⟨maxIterations - begun.length - 1, by omega⟩
    rw [repeatBody_of_roundsTo hrounds.roundsTo (Nat.le_of_lt hlength), hn,
      repeatBody_succ_of_some htest]
    exact bind_apply_of_error _ hran

theorem repeatBody_eq_iff : repeatBody test body (reportLimit span) maxIterations m =
    (result, after) ↔ ∃ runs, LoopEnds test body span m runs result after :=
  ⟨exists_loopEnds (Nat.zero_add _) .start, fun ⟨_, hends⟩ => hends.repeatBody_eq⟩

end Rounds

variable {span : Span} {counter : String} {stop : Expr} {step : Option Expr} {body : List Stmt}
  {m between after tested left : Machine} {size first : Float} {sizes : List Float}

theorem number?_eq_some {value : Value} {x : Float} (h : value.number? = some x) :
    value = .number x := by
  cases value <;> cases h
  rfl

theorem readCounter_eq_ok_iff {x : Float} : placing span (readCounter counter) m = (.ok x, after) ↔
    m.scope.lookup? counter = some (.number x) ∧ after = m := by
  constructor
  · intro h
    obtain ⟨value, between, hlookup, hrest⟩ := exists_of_bind_eq_ok (placing_eq_ok h)
    obtain ⟨hvalue, rfl⟩ := lookup_eq_ok hlookup
    cases hnumber : value.number? with
    | none =>
      rw [hnumber] at hrest
      cases hrest
    | some y =>
      rw [hnumber] at hrest
      cases hrest
      exact ⟨number?_eq_some hnumber ▸ hvalue, rfl⟩
  · rintro ⟨hvalue, rfl⟩
    have hlookup : lookup counter after = (.ok (.number x), after) := by
      rw [lookup, bind_apply_of_ok _ (lookup?_apply counter after), hvalue]
      rfl
    rw [placing_apply, readCounter, bind_apply_of_ok _ hlookup]
    rfl

theorem nextStep?_eq (span : Span) (counter : String) (stop : Expr) (step : Option Expr) :
    nextStep? span counter stop step = (do
      let current ← placing span (readCounter counter)
      let last ← placing span (evaluateNumber stop)
      let size ← stepSize span step
      return if IsPast current last size then none else some size) := by
  cases step <;> rfl

theorem nextStep?_eq_ok_iff {found : Option Float} :
    nextStep? span counter stop step m = (.ok found, after) ↔
      ∃ current last size, Counts span counter stop step m current last size after ∧
        found = if IsPast current last size then none else some size := by
  rw [nextStep?_eq]
  constructor
  · intro h
    obtain ⟨current, _, hcurrent, hrest⟩ := exists_of_bind_eq_ok h
    obtain ⟨hlookup, rfl⟩ := readCounter_eq_ok_iff.1 hcurrent
    obtain ⟨last, between, hlast, hrest⟩ := exists_of_bind_eq_ok hrest
    obtain ⟨size, ended, hsize, hfound⟩ := exists_of_bind_eq_ok hrest
    cases hfound
    exact ⟨current, last, size, ⟨hlookup, between, hlast, hsize⟩, rfl⟩
  · rintro ⟨current, last, size, ⟨hlookup, between, hlast, hsize⟩, rfl⟩
    rw [bind_apply_of_ok _ (readCounter_eq_ok_iff.2 ⟨hlookup, rfl⟩), bind_apply_of_ok _ hlast,
      bind_apply_of_ok _ hsize]
    rfl

theorem scope_of_nextStep? {found : Option Float}
    (h : nextStep? span counter stop step m = (.ok found, after)) : after.scope = m.scope :=
  (quiet_nextStep? span counter stop step).sameScope.rel h

theorem countedRound_eq_ok_iff : countedRound span counter body size m = (.ok (), after) ↔
    ∃ left current, inBlock (executeAll body) m = (.ok (), left) ∧
      left.scope.lookup? counter = some (.number current) ∧
      after = left.counted counter (current + size) := by
  constructor
  · intro h
    obtain ⟨_, left, hblock, hrest⟩ := exists_of_bind_eq_ok h
    obtain ⟨current, _, hcurrent, hset⟩ := exists_of_bind_eq_ok hrest
    obtain ⟨hlookup, rfl⟩ := readCounter_eq_ok_iff.1 hcurrent
    cases hset
    exact ⟨_, current, hblock, hlookup, rfl⟩
  · rintro ⟨left, current, hblock, hlookup, rfl⟩
    rw [countedRound, bind_apply_of_ok _ hblock,
      bind_apply_of_ok _ (readCounter_eq_ok_iff.2 ⟨hlookup, rfl⟩)]
    rfl

/-- What is assigned is looked up, whatever frame it went to. -/
theorem lookup?_counted (m : Machine) (counter : String) (x : Float) :
    (m.counted counter x).scope.lookup? counter = some (.number x) :=
  m.scope.lookup?_bind counter false (.number x)

def LeavesCounter (span : Span) (counter : String) (stop : Expr) (step : Option Expr)
    (body : List Stmt) (m : Machine) : Prop :=
  ∀ sizes between size tested left,
    Rounds (nextStep? span counter stop step) (countedRound span counter body) m sizes between →
    sizes.length < maxIterations →
    nextStep? span counter stop step between = (.ok (some size), tested) →
    inBlock (executeAll body) tested = (.ok (), left) →
      left.scope.lookup? counter = tested.scope.lookup? counter

/-- A counter that the body leaves alone is the sum of the start and the steps so far. -/
theorem Rounds.lookup?_counter
    (hleaves : LeavesCounter span counter stop step body (m.counted counter first))
    (h : Rounds (nextStep? span counter stop step) (countedRound span counter body)
      (m.counted counter first) sizes between) (hlength : sizes.length ≤ maxIterations) :
    between.scope.lookup? counter = some (.number (countedFrom first sizes)) := by
  induction h with
  | start => exact lookup?_counted m counter first
  | @more sizes between tested after size hrounds htested hround ih =>
    rw [List.length_append] at hlength
    obtain ⟨left, current, hblock, hcurrent, rfl⟩ := countedRound_eq_ok_iff.1 hround
    have hleft : left.scope.lookup? counter = some (.number (countedFrom first sizes)) := by
      rw [hleaves sizes between size tested left hrounds hlength htested hblock,
        scope_of_nextStep? htested]
      exact ih (Nat.le_of_lt hlength)
    obtain rfl : countedFrom first sizes = current := by
      rw [hleft] at hcurrent
      cases hcurrent
      rfl
    rw [lookup?_counted, countedFrom, countedFrom, List.foldl_append]
    rfl

theorem execute_forLoop_eq_iff {start : Expr} {result : Except Stop Unit} :
    execute (.forLoop span counter start stop step body) m = (result, after) ↔
      (∃ cause, placing span (evaluateNumber start) m = (.error cause, after) ∧
        result = .error cause) ∨
      ∃ first started sizes, placing span (evaluateNumber start) m = (.ok first, started) ∧
        LoopEnds (nextStep? span counter stop step) (countedRound span counter body) span
          (started.counted counter first) sizes result after := by
  rw [execute_forLoop]
  rcases hstart : placing span (evaluateNumber start) m with ⟨cause | first, started⟩
  · rw [bind_apply_of_error _ hstart]
    constructor
    · intro h
      cases h
      exact .inl ⟨cause, rfl, rfl⟩
    · rintro (⟨_, h, rfl⟩ | ⟨_, _, _, h, -⟩) <;> cases h
      rfl
  · rw [bind_apply_of_ok _ hstart]
    show repeatBody _ _ _ _ (started.counted counter first) = _ ↔ _
    rw [repeatBody_eq_iff]
    constructor
    · rintro ⟨sizes, hends⟩
      exact .inr ⟨first, started, sizes, rfl, hends⟩
    · rintro (⟨_, h, -⟩ | ⟨_, _, sizes, h, hends⟩) <;> cases h
      exact ⟨sizes, hends⟩

/-- A loop begins at most ten thousand rounds. It reports its limit, once, exactly if its test has a
value after so many complete ones, and fails where its test or its body fails, without a report. A
counted loop tests the counter as it is then against the end and the step as they are then; if its
body leaves the counter alone, each test, and so each run of the body, sees the sum of the start and
the steps before it, and what is left at the end is the first such sum that is past the end. -/
theorem loop_begins_at_most_limit (span : Span) (body : List Stmt) (m : Machine) :
    (∀ condition result after, execute (.whileLoop span condition body) m = (result, after) ↔
      ∃ runs, runs.length ≤ 10000 ∧ LoopEnds (conditionHolds? span condition)
        (fun _ => inBlock (executeAll body)) span m runs result after) ∧
    ∀ (counter : String) (start stop : Expr) (step : Option Expr),
      (∀ result after, execute (.forLoop span counter start stop step body) m = (result, after) ↔
        (∃ cause, placing span (evaluateNumber start) m = (.error cause, after) ∧
          result = .error cause) ∨
        ∃ first started sizes, placing span (evaluateNumber start) m = (.ok first, started) ∧
          sizes.length ≤ 10000 ∧ LoopEnds (nextStep? span counter stop step)
            (countedRound span counter body) span (started.counted counter first) sizes result
            after) ∧
      (∀ found between tested, nextStep? span counter stop step between = (.ok found, tested) ↔
        ∃ current last size, Counts span counter stop step between current last size tested ∧
          found = if IsPast current last size then none else some size) ∧
      ∀ first started, placing span (evaluateNumber start) m = (.ok first, started) →
        LeavesCounter span counter stop step body (started.counted counter first) →
        ∀ sizes between found tested, sizes.length ≤ 10000 →
          Rounds (nextStep? span counter stop step) (countedRound span counter body)
            (started.counted counter first) sizes between →
          nextStep? span counter stop step between = (.ok found, tested) →
            tested.scope.lookup? counter = some (.number (countedFrom first sizes)) ∧
            ∃ last size,
              Counts span counter stop step between (countedFrom first sizes) last size tested ∧
              found = if IsPast (countedFrom first sizes) last size then none else some size := by
  refine ⟨fun condition result after => ?_, fun counter start stop step =>
    ⟨fun result after => ?_, fun found between tested => nextStep?_eq_ok_iff,
      fun first started _ hleaves sizes between found tested hlength hrounds htested => ?_⟩⟩
  · rw [execute_whileLoop, repeatBody_eq_iff]
    exact exists_congr fun runs => ⟨fun h => ⟨h.length_le, h⟩, fun h => h.2⟩
  · rw [execute_forLoop_eq_iff]
    refine or_congr_right (exists_congr fun first => exists_congr fun started =>
      exists_congr fun sizes => and_congr_right fun _ => ?_)
    exact ⟨fun h => ⟨h.length_le, h⟩, fun h => h.2⟩
  · have hcounter := hrounds.lookup?_counter hleaves hlength
    obtain ⟨current, last, size, hcounts, hfound⟩ := nextStep?_eq_ok_iff.1 htested
    obtain rfl : countedFrom first sizes = current := by
      rw [hcounts.1] at hcounter
      cases hcounter
      rfl
    refine ⟨?_, last, size, hcounts, hfound⟩
    rw [scope_of_nextStep? htested]
    exact hcounter

/-- A loop from 1 to 1 whose body makes a local of the name of the counter. -/
theorem counter_of_loop_with_shadow :
    let body : List Stmt := [.assign default "i" true (.string default "shadow")]
    let loop := Stmt.forLoop default "i" (.number default 1) (.number default 1) none body
    ∃ after, execute loop (.start .empty .empty) = (.ok (), after) ∧
      after.scope.lookup? "i" = some (.number (countedFrom 1 [1])) := by
  intro body loop
  generalize Machine.start .empty .empty = m
  let left := (inBlock (executeAll body) (m.counted "i" 1)).2
  have hleaves (tested : Machine) :
      (inBlock (executeAll body) tested).2.scope.lookup? "i" = tested.scope.lookup? "i" := by
    have hnothing : executeAll [] tested.entered = (.ok (), tested.entered) := rfl
    exact lookup?_inBlock_local default "i" (.string default "shadow") [] hnothing
  have hfirst : nextStep? default "i" (.number default 1) none (m.counted "i" 1) =
      (.ok (some 1), m.counted "i" 1) :=
    nextStep?_eq_ok_iff.2 ⟨1, 1, 1, ⟨lookup?_counted m "i" 1, _, rfl, rfl⟩,
      (if_neg (by decide +kernel)).symm⟩
  have hround : countedRound default "i" body 1 (m.counted "i" 1) =
      (.ok (), left.counted "i" (1 + 1)) :=
    countedRound_eq_ok_iff.2 ⟨left, 1, rfl, (hleaves _).trans (lookup?_counted m "i" 1), rfl⟩
  have hlast : nextStep? default "i" (.number default 1) none (left.counted "i" (1 + 1)) =
      (.ok none, left.counted "i" (1 + 1)) :=
    nextStep?_eq_ok_iff.2 ⟨1 + 1, 1, 1, ⟨lookup?_counted left "i" _, _, rfl, rfl⟩,
      (if_pos (by decide +kernel)).symm⟩
  have hrounds := Rounds.start.more hfirst hround
  obtain ⟨-, hfor⟩ := loop_begins_at_most_limit default body m
  obtain ⟨hrun, -, hcounter⟩ := hfor "i" (.number default 1) (.number default 1) none
  refine ⟨_, (hrun _ _).2 (.inr ⟨1, m, [1], rfl, by decide, .finished hrounds (by decide) hlast⟩),
    (hcounter 1 m rfl ?_ [1] _ none _ (by decide) hrounds hlast).1⟩
  intro _ _ _ tested left _ _ _ hblock
  have hafter : (inBlock (executeAll body) tested).2 = left := by rw [hblock]
  rw [← hafter, hleaves]

end Run
end SceneScript
