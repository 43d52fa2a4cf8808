import SceneScript.Library.Call

namespace SceneScript

def Value.isNumeric (value : Value) : Bool :=
  match value with
  | .number _ => true
  | .vector _ => true
  | _ => false

namespace Builtin
open SceneScript.Random (Generator)
variable {α β : Type}

def Yields (P : α → Prop) (x : CallResult α) : Prop := ∀ a, x = .ok a → P a

section Laws
variable {P : α → Prop} {Q : β → Prop}

theorem Yields.ok {a : α} (h : P a) : Yields P (.ok a : CallResult α) := by
  intro b hb
  cases hb
  exact h

theorem Yields.error (failure : CallFailure) : Yields P (.error failure : CallResult α) :=
  fun _ h => nomatch h

theorem Yields.refuse (reason : Refusal) : Yields P (refuse reason : CallResult α) := .error _

theorem Yields.bind {x : CallResult β} {f : β → CallResult α} (h : ∀ b, Yields P (f b)) :
    Yields P (x >>= f) := by
  cases x with
  | error failure => exact .error failure
  | ok b => exact h b

theorem Yields.map {x : CallResult β} {g : β → α} (h : Yields (fun b => P (g b)) x) :
    Yields P (x.map g) := by
  cases x with
  | error failure => exact .error failure
  | ok b => exact .ok (h b rfl)

theorem Yields.ite {c : Prop} [Decidable c] {x y : CallResult α} (hx : Yields P x)
    (hy : Yields P y) : Yields P (if c then x else y) := by
  split
  · exact hx
  · exact hy

end Laws

theorem yields_callClamp (x low high : Float) :
    Yields (·.isNumeric = true) (callClamp x low high) :=
  .ite (.refuse _) (.ite (.ok rfl) (.error _))

theorem yields_callVector (f : VectorFunction) (args : List Value) :
    Yields (·.isNumeric = true) (callVector f args) := by
  unfold callVector
  split
  · exact .bind fun _ => .bind fun _ => .bind fun _ => .ok rfl
  · exact .bind fun _ => .bind fun _ => .ok rfl
  · exact .bind fun _ => .bind fun _ => .ok rfl
  · exact .bind fun _ => .bind fun _ => .ok rfl
  · exact .bind fun _ => .bind fun _ => .ok rfl
  · exact .bind fun _ => .bind fun _ => .ok rfl
  · exact .bind fun _ => .ok rfl
  · exact .bind fun _ => .ite (.refuse _) (.ok rfl)
  · exact .bind fun _ => .bind fun _ => .ok rfl
  · exact .refuse _

theorem yields_callFixed (f : Builtin) (args : List Value) :
    Yields (·.isNumeric = true) (callFixed f args) := by
  unfold callFixed
  split
  · exact .bind fun _ => .ok rfl
  · exact .bind fun _ => .bind fun _ => .ok rfl
  · exact .bind fun _ => .bind fun _ => .bind fun _ => yields_callClamp _ _ _
  · exact .bind fun _ => .bind fun _ => .bind fun _ => .ok rfl
  · exact yields_callVector _ _
  · exact .refuse _

theorem yields_callRange (g : Random.Generator) (low high : Float) :
    Yields (·.1.isNumeric = true) (callRange g low high) := by
  refine .ite (.refuse _) (.ite ?_ (.error _))
  cases g.between low high with
  | none => exact .error _
  | some drawn => exact .ok rfl

theorem yields_callInt (g : Random.Generator) (low high : Float) :
    Yields (·.1.isNumeric = true) (callInt g low high) := by
  refine .ite (.refuse _) ?_
  cases g.intBetween _ _ with
  | none => exact .error _
  | some drawn => exact .ok rfl

theorem yields_callRandom (g : Random.Generator) (f : RandomFunction) (args : List Value) :
    Yields (·.1.isNumeric = true) (callRandom g f args) := by
  unfold callRandom
  split
  · exact .ok rfl
  · exact .bind fun _ => .bind fun _ => yields_callRange _ _ _
  · exact .bind fun _ => .bind fun _ => yields_callInt _ _ _
  · exact .refuse _

/-- No library function hands out an object or a module. -/
theorem yields_call (f : Builtin) (args : List Value) (g : Random.Generator) :
    Yields (·.1.isNumeric = true) (f.call args g) := by
  cases f with
  | random f => exact yields_callRandom g f args
  | _ => exact .map (yields_callFixed _ args)

/-- The function has no outcome on these arguments: bounds of `clamp` that cannot be compared;
bounds of `range` that cannot be compared or are infinitely far apart; and bounds of `range` or
`int` for which no word of the whole stream is accepted. -/
inductive IsUndefined : Builtin → List Value → Generator → Prop
  | clamp {x low high : Float} {g : Generator} : ¬ high < low → ¬ low ≤ high →
    IsUndefined .clamp [.number x, .number low, .number high] g
  | range {low high : Float} {g : Generator} : ¬ high ≤ low →
    ¬ (low < high ∧ (high - low).isFinite = true) ∨ g.between low high = none →
    IsUndefined (.random .range) [.number low, .number high] g
  | int {low high : Float} {first last : Int} {g : Generator} :
    first = Number.toIntBetween leastInteger greatestInteger (Number.ceil low) →
    last = Number.toIntBetween leastInteger greatestInteger (Number.floor high) →
    ¬ last < first → g.intBetween first last = none →
    IsUndefined (.random .int) [.number low, .number high] g

/-- The call has an outcome: a value or a refusal. -/
def IsDefined (x : CallResult α) : Prop := x ≠ .error .breakdown

theorem IsDefined.ok (a : α) : IsDefined (.ok a : CallResult α) := nofun

theorem IsDefined.refuse (reason : Refusal) : IsDefined (refuse reason : CallResult α) := nofun

theorem IsDefined.bind {x : CallResult β} {f : β → CallResult α} (hx : IsDefined x)
    (hf : ∀ b, IsDefined (f b)) : IsDefined (x >>= f) := by
  cases x with
  | error failure => exact fun h => hx (congrArg Except.error (Except.error.inj h))
  | ok b => exact hf b

theorem IsDefined.ite {c : Prop} [Decidable c] {x y : CallResult α} (hx : IsDefined x)
    (hy : IsDefined y) : IsDefined (if c then x else y) := by
  split
  · exact hx
  · exact hy

theorem isDefined_number (function : String) (value : Value) :
    IsDefined (number function value) := by
  unfold number
  split
  · exact .ok _
  · exact .refuse _

theorem isDefined_vector3 (function : String) (value : Value) :
    IsDefined (vector3 function value) := by
  unfold vector3
  split
  · exact .ok _
  · exact .refuse _

theorem number_eq_ok {function : String} {value : Value} {x : Float}
    (h : number function value = .ok x) : value = .number x := by
  cases value <;> cases h
  rfl

/-- A sequence breaks down in its rest if its first part is defined. -/
theorem IsDefined.exists_of_bind_eq_breakdown {x : CallResult β} {f : β → CallResult α}
    (hx : IsDefined x) (h : x >>= f = .error .breakdown) :
    ∃ b, x = .ok b ∧ f b = .error .breakdown := by
  cases x with
  | error failure => exact absurd (congrArg Except.error (Except.error.inj h)) hx
  | ok b => exact ⟨b, rfl, h⟩

/-- An argument that is no number is refused. -/
theorem exists_number_of_bind_eq_breakdown {function : String} {value : Value}
    {f : Float → CallResult α} (h : number function value >>= f = .error .breakdown) :
    ∃ x, value = .number x ∧ f x = .error .breakdown := by
  obtain ⟨x, hx, hrest⟩ := (isDefined_number function value).exists_of_bind_eq_breakdown h
  exact ⟨x, number_eq_ok hx, hrest⟩

theorem map_eq_breakdown_iff {x : CallResult α} {g : α → β} :
    x.map g = .error .breakdown ↔ x = .error .breakdown := by
  cases x with
  | ok a => exact iff_of_false nofun nofun
  | error failure =>
    constructor
    · intro h
      exact congrArg Except.error (Except.error.inj h)
    · intro h
      rw [h]
      rfl

theorem isDefined_callVector (f : VectorFunction) (args : List Value) :
    IsDefined (callVector f args) := by
  unfold callVector
  split
  · exact (isDefined_number _ _).bind fun _ => (isDefined_number _ _).bind fun _ =>
      (isDefined_number _ _).bind fun _ => .ok _
  · exact (isDefined_vector3 _ _).bind fun _ => (isDefined_vector3 _ _).bind fun _ => .ok _
  · exact (isDefined_vector3 _ _).bind fun _ => (isDefined_vector3 _ _).bind fun _ => .ok _
  · exact (isDefined_vector3 _ _).bind fun _ => (isDefined_number _ _).bind fun _ => .ok _
  · exact (isDefined_vector3 _ _).bind fun _ => (isDefined_vector3 _ _).bind fun _ => .ok _
  · exact (isDefined_vector3 _ _).bind fun _ => (isDefined_vector3 _ _).bind fun _ => .ok _
  · exact (isDefined_vector3 _ _).bind fun _ => .ok _
  · exact (isDefined_vector3 _ _).bind fun _ => .ite (.refuse _) (.ok _)
  · exact (isDefined_vector3 _ _).bind fun _ => (isDefined_vector3 _ _).bind fun _ => .ok _
  · exact .refuse _

theorem callClamp_eq_breakdown_iff (x low high : Float) :
    callClamp x low high = .error .breakdown ↔ ¬ high < low ∧ ¬ low ≤ high := by
  unfold callClamp
  by_cases hreversed : high < low
  · rw [if_pos hreversed]
    exact iff_of_false nofun fun h => h.1 hreversed
  rw [if_neg hreversed]
  by_cases hordered : low ≤ high
  · rw [if_pos hordered]
    exact iff_of_false nofun fun h => h.2 hordered
  · rw [if_neg hordered]
    exact iff_of_true rfl ⟨hreversed, hordered⟩

theorem callRange_eq_breakdown_iff (g : Generator) (low high : Float) :
    callRange g low high = .error .breakdown ↔ ¬ high ≤ low ∧
      (¬ (low < high ∧ (high - low).isFinite = true) ∨ g.between low high = none) := by
  unfold callRange
  by_cases hempty : high ≤ low
  · rw [if_pos hempty]
    exact iff_of_false nofun fun h => h.1 hempty
  rw [if_neg hempty]
  by_cases hfinite : low < high ∧ (high - low).isFinite = true
  · rw [if_pos hfinite]
    cases g.between low high with
    | none => exact iff_of_true rfl ⟨hempty, .inr rfl⟩
    | some drawn => exact iff_of_false nofun fun h => h.2.elim (fun hnot => hnot hfinite) nofun
  · rw [if_neg hfinite]
    exact iff_of_true rfl ⟨hempty, .inl hfinite⟩

theorem callInt_eq_breakdown_iff (g : Generator) (low high : Float) :
    callInt g low high = .error .breakdown ↔ ∃ first last,
      first = Number.toIntBetween leastInteger greatestInteger (Number.ceil low) ∧
      last = Number.toIntBetween leastInteger greatestInteger (Number.floor high) ∧
      ¬ last < first ∧ g.intBetween first last = none := by
  simp only [exists_and_left, exists_eq_left]
  unfold callInt
  dsimp only
  split
  next hempty => exact iff_of_false nofun fun h => h.1 hempty
  next hne =>
    cases g.intBetween _ _ with
    | none => exact iff_of_true rfl ⟨hne, rfl⟩
    | some drawn => exact iff_of_false nofun fun h => nomatch h.2

theorem callFixed_eq_breakdown_iff (f : Builtin) (args : List Value) (g : Generator)
    (hfixed : f.isRandom = false) :
    callFixed f args = .error .breakdown ↔ f.IsUndefined args g := by
  constructor
  · intro h
    unfold callFixed at h
    split at h
    next function a =>
      exact absurd h ((isDefined_number _ _).bind fun _ => .ok _)
    next function a b =>
      exact absurd h ((isDefined_number _ _).bind fun _ => (isDefined_number _ _).bind
        fun _ => .ok _)
    next a b c =>
      obtain ⟨x, rfl, hlow⟩ := exists_number_of_bind_eq_breakdown h
      obtain ⟨low, rfl, hhigh⟩ := exists_number_of_bind_eq_breakdown hlow
      obtain ⟨high, rfl, hclamp⟩ := exists_number_of_bind_eq_breakdown hhigh
      obtain ⟨hreversed, hordered⟩ := (callClamp_eq_breakdown_iff x low high).1 hclamp
      exact .clamp hreversed hordered
    next a b c =>
      exact absurd h ((isDefined_number _ _).bind fun _ => (isDefined_number _ _).bind fun _ =>
        (isDefined_number _ _).bind fun _ => .ok _)
    next => exact absurd h (isDefined_callVector _ _)
    next => cases h
  · intro h
    cases h with
    | clamp hreversed hordered =>
      exact (callClamp_eq_breakdown_iff _ _ _).2 ⟨hreversed, hordered⟩
    | range => cases hfixed
    | int => cases hfixed

theorem callRandom_eq_breakdown_iff (g : Generator) (f : RandomFunction) (args : List Value) :
    callRandom g f args = .error .breakdown ↔ (random f).IsUndefined args g := by
  constructor
  · intro h
    unfold callRandom at h
    split at h
    next => cases h
    next a b =>
      obtain ⟨low, rfl, hhigh⟩ := exists_number_of_bind_eq_breakdown h
      obtain ⟨high, rfl, hcall⟩ := exists_number_of_bind_eq_breakdown hhigh
      obtain ⟨hempty, hrefused⟩ := (callRange_eq_breakdown_iff g low high).1 hcall
      exact .range hempty hrefused
    next a b =>
      obtain ⟨low, rfl, hhigh⟩ := exists_number_of_bind_eq_breakdown h
      obtain ⟨high, rfl, hcall⟩ := exists_number_of_bind_eq_breakdown hhigh
      obtain ⟨first, last, hfirst, hlast, hne, hnone⟩ :=
        (callInt_eq_breakdown_iff g low high).1 hcall
      exact .int hfirst hlast hne hnone
    next => cases h
  · intro h
    cases h with
    | range hempty hrefused => exact (callRange_eq_breakdown_iff g _ _).2 ⟨hempty, hrefused⟩
    | int hfirst hlast hne hnone =>
      exact (callInt_eq_breakdown_iff g _ _).2 ⟨_, _, hfirst, hlast, hne, hnone⟩

/-- A call breaks down exactly on the arguments that its function is not defined on. -/
theorem call_eq_breakdown_iff (f : Builtin) (args : List Value) (g : Generator) :
    f.call args g = .error .breakdown ↔ f.IsUndefined args g := by
  cases f with
  | random f => exact callRandom_eq_breakdown_iff g f args
  | _ => exact map_eq_breakdown_iff.trans (callFixed_eq_breakdown_iff _ args g rfl)

end Builtin
end SceneScript
