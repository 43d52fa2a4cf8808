import SceneScript.Proofs.Number.Nearest
import SceneScript.Proofs.Number.Order
import SceneScript.Proofs.Run.Evaluation

namespace SceneScript

namespace Random.Generator

/-- An accepted word is scaled to a number below the span. -/
theorem below_lt {span fuel n : Nat} {g g' : Generator} (h : below span fuel g = some (n, g')) :
    n < span := by
  induction fuel generalizing g with
  | zero => cases h
  | succ fuel ih =>
    rw [below] at h
    dsimp only at h
    split at h
    next haccepted =>
      have hspan : 0 < span := by
        by_contra hzero
        rw [Nat.eq_zero_of_not_pos hzero, Nat.mul_zero, Nat.zero_mul] at haccepted
        exact Nat.not_lt_zero _ haccepted
      cases h
      have hword : g.next.1.toNat < 2 ^ 64 := g.next.1.toNat_lt
      exact Nat.div_lt_of_lt_mul (Nat.mul_lt_mul_of_pos_right hword hspan)
    next => exact ih h

/-- A draw is between its bounds. The whole of 64 bits is drawn as it is. -/
theorem intBetween_mem {g g' : Generator} {low high n : Int} (hlow : Builtin.leastInteger ≤ low)
    (hhigh : high ≤ Builtin.greatestInteger) (h : g.intBetween low high = some (n, g')) :
    low ≤ n ∧ n ≤ high := by
  rw [intBetween] at h
  dsimp only at h
  simp only [Builtin.leastInteger, Builtin.greatestInteger] at hlow hhigh
  split at h
  next hall =>
    cases h
    have hword : g.next.1.toNat < 2 ^ 64 := g.next.1.toNat_lt
    unfold signed
    split <;> simp at * <;> omega
  next =>
    obtain ⟨⟨m, g''⟩, hdraw, heq⟩ := Option.map_eq_some_iff.1 h
    cases heq
    have hm := below_lt hdraw
    omega

end Random.Generator

namespace Number
open Builtin (leastInteger greatestInteger)
variable {x : Float} {n : Int}

theorem round_of_infinite {negative : Bool} (h : View.ofFloat x = .infinite negative)
    (r : Rounding) : round r x = x := by
  rw [round, h]

def firstFrom (low : Float) : Int := toIntBetween leastInteger greatestInteger (ceil low)

def lastTo (high : Float) : Int := toIntBetween leastInteger greatestInteger (floor high)

theorem firstFrom_of_finite {d : Dyadic} (h : View.ofFloat x = .finite d) :
    firstFrom x = max leastInteger (min greatestInteger ⌈d.value⌉) :=
  toIntBetween_of_toInt? (toInt?_ceil h) ..

theorem lastTo_of_finite {d : Dyadic} (h : View.ofFloat x = .finite d) :
    lastTo x = max leastInteger (min greatestInteger ⌊d.value⌋) :=
  toIntBetween_of_toInt? (toInt?_floor h) ..

theorem firstFrom_of_infinite {negative : Bool} (h : View.ofFloat x = .infinite negative) :
    firstFrom x = if negative then leastInteger else greatestInteger := by
  rw [firstFrom, ceil, round_of_infinite h, toIntBetween, h]

theorem lastTo_of_infinite {negative : Bool} (h : View.ofFloat x = .infinite negative) :
    lastTo x = if negative then leastInteger else greatestInteger := by
  rw [lastTo, floor, round_of_infinite h, toIntBetween, h]

/-- The greatest whole number of 64 bits has 63 ones, and its float is the next power of two. -/
theorem toInt?_ofInt_greatest : toInt? (ofInt greatestInteger) = some (2 ^ 63) := by
  decide +kernel

theorem toInt?_ofInt_least : toInt? (ofInt leastInteger) = some (-2 ^ 63) := by
  decide +kernel

theorem exists_toInt?_ofInt (hleast : leastInteger ≤ n) (hgreatest : n ≤ greatestInteger) :
    ∃ k, toInt? (ofInt n) = some k ∧ IsFaithful n k := by
  apply toInt?_ofInt
  simp only [leastInteger, greatestInteger] at hleast hgreatest
  simp at hleast hgreatest ⊢
  omega

theorem isFaithful_ofInt {k : Int} (hleast : leastInteger ≤ n) (hgreatest : n ≤ greatestInteger)
    (hk : toInt? (ofInt n) = some k) : IsFaithful n k := by
  obtain ⟨k', hk', hfaithful⟩ := exists_toInt?_ofInt hleast hgreatest
  rw [hk] at hk'
  cases hk'
  exact hfaithful

theorem leastInteger_le_firstFrom (low : Float) : leastInteger ≤ firstFrom low := by
  unfold firstFrom toIntBetween
  split
  · decide
  · split <;> decide
  · exact le_max_left ..

theorem lastTo_le_greatestInteger (high : Float) : lastTo high ≤ greatestInteger := by
  unfold lastTo toIntBetween
  split
  · decide
  · split <;> decide
  · exact max_le (by decide) (min_le_left ..)

/-- The float of what is drawn is not below a lower bound that 64 bits hold. A bound that is the
next power of two is the float of the greatest whole number. -/
theorem atMost_ofInt {low : Float} {k : Int} (hfirst : firstFrom low ≤ n) (hn : n ≤ greatestInteger)
    (hk : toInt? (ofInt n) = some k) (hbound : AtMost low (2 ^ 63)) : AtMost low k := by
  have hleast := (leastInteger_le_firstFrom low).trans hfirst
  cases hview : View.ofFloat low with
  | nan =>
    rw [AtMost, hview] at hbound
    cases hbound
  | infinite negative =>
    rw [AtMost, hview] at hbound ⊢
    exact hbound
  | finite d =>
    rw [firstFrom_of_finite hview] at hfirst
    have hbound : ⌈d.value⌉ ≤ 2 ^ 63 := by
      rw [Int.ceil_le]
      exact_mod_cast (atMost_iff hview _).1 hbound
    rw [atMost_iff hview, ← Int.ceil_le]
    rcases Int.lt_or_le greatestInteger ⌈d.value⌉ with hlarge | hheld
    · have hlast : n = greatestInteger := by omega
      rw [hlast, toInt?_ofInt_greatest] at hk
      cases hk
      exact hbound
    · have hle : ⌈d.value⌉ ≤ n := by omega
      exact (isFaithful_ofInt hleast hn hk _ (isShort_of_toInt? (toInt?_ceil hview))).1 hle

theorem atLeast_ofInt {high : Float} {k : Int} (hlast : n ≤ lastTo high) (hn : leastInteger ≤ n)
    (hk : toInt? (ofInt n) = some k) (hbound : AtLeast high (-2 ^ 63)) : AtLeast high k := by
  have hgreatest := hlast.trans (lastTo_le_greatestInteger high)
  cases hview : View.ofFloat high with
  | nan =>
    rw [AtLeast, hview] at hbound
    cases hbound
  | infinite negative =>
    rw [AtLeast, hview] at hbound ⊢
    exact hbound
  | finite d =>
    rw [lastTo_of_finite hview] at hlast
    have hbound : leastInteger ≤ ⌊d.value⌋ := by
      rw [Int.le_floor]
      exact_mod_cast (atLeast_iff hview _).1 hbound
    rw [atLeast_iff hview, ← Int.le_floor]
    have hle : n ≤ ⌊d.value⌋ := by omega
    exact (isFaithful_ofInt hn hgreatest hk _ (isShort_of_toInt? (toInt?_floor hview))).2 hle

/-- Whether both bounds lie beyond the whole numbers of 64 bits, on the same side; one of them may
be the power of two that is next to them. -/
def BeyondIntegers (low high : Float) : Prop :=
  ¬ AtMost low (2 ^ 63) ∧ AtLeast high (2 ^ 63) ∨ AtMost low (-2 ^ 63) ∧ ¬ AtLeast high (-2 ^ 63)

instance (low high : Float) : Decidable (BeyondIntegers low high) :=
  inferInstanceAs (Decidable (_ ∨ _))

theorem firstFrom_of_not_atMost {low : Float} (hnan : low.isNaN = false)
    (h : ¬ AtMost low (2 ^ 63)) : firstFrom low = greatestInteger := by
  rcases cases_of_not_isNaN hnan with ⟨negative, hview⟩ | ⟨d, hview⟩
  · rw [AtMost, hview] at h
    rw [firstFrom_of_infinite hview]
    exact if_neg h
  · have hceil : 2 ^ 63 < ⌈d.value⌉ := by
      rw [Int.lt_ceil]
      exact_mod_cast not_le.1 (mt (atMost_iff hview _).2 h)
    rw [firstFrom_of_finite hview]
    simp only [leastInteger, greatestInteger] at hceil ⊢
    simp at hceil ⊢
    omega

theorem lastTo_of_not_atLeast {high : Float} (hnan : high.isNaN = false)
    (h : ¬ AtLeast high (-2 ^ 63)) : lastTo high = leastInteger := by
  rcases cases_of_not_isNaN hnan with ⟨negative, hview⟩ | ⟨d, hview⟩
  · rw [AtLeast, hview] at h
    rw [lastTo_of_infinite hview]
    exact if_pos (by simpa [View.isAtLeast] using h)
  · have hfloor : ⌊d.value⌋ < -2 ^ 63 := by
      rw [Int.floor_lt]
      exact_mod_cast not_le.1 (mt (atLeast_iff hview _).2 h)
    rw [lastTo_of_finite hview]
    simp only [leastInteger, greatestInteger] at hfloor ⊢
    simp at hfloor ⊢
    omega

/-- The greatest whole number of 64 bits has too many bits for a float. -/
theorem not_isShort_greatest : ¬ IsShort greatestInteger.natAbs := by
  intro h
  have hdvd : 2 ^ 10 ∣ greatestInteger.natAbs := h.dvd (by decide)
  revert hdvd
  decide

theorem lastTo_eq_greatest_iff {high : Float} (hnan : high.isNaN = false) :
    lastTo high = greatestInteger ↔ AtLeast high (2 ^ 63) := by
  rcases cases_of_not_isNaN hnan with ⟨negative, hview⟩ | ⟨d, hview⟩
  · rw [lastTo_of_infinite hview, AtLeast, hview]
    cases negative <;> decide
  · have hfloor : AtLeast high (2 ^ 63) ↔ 2 ^ 63 ≤ ⌊d.value⌋ := by
      rw [atLeast_iff hview, Int.le_floor]
      norm_num
    have hne : ⌊d.value⌋ ≠ greatestInteger := by
      intro heq
      have hshort := isShort_of_toInt? (toInt?_floor hview)
      rw [heq] at hshort
      exact not_isShort_greatest hshort
    rw [lastTo_of_finite hview, hfloor]
    simp only [leastInteger, greatestInteger] at hne ⊢
    simp at hne ⊢
    omega

theorem firstFrom_eq_least_iff {low : Float} (hnan : low.isNaN = false) :
    firstFrom low = leastInteger ↔ AtMost low (-2 ^ 63) := by
  rcases cases_of_not_isNaN hnan with ⟨negative, hview⟩ | ⟨d, hview⟩
  · rw [firstFrom_of_infinite hview, AtMost, hview]
    cases negative <;> decide
  · have hceil : AtMost low (-2 ^ 63) ↔ ⌈d.value⌉ ≤ -2 ^ 63 := by
      rw [atMost_iff hview, Int.ceil_le]
      norm_num
    rw [firstFrom_of_finite hview, hceil]
    simp only [leastInteger, greatestInteger]
    simp

/-- Unless both bounds are beyond them, the floats of the whole numbers that are drawn lie between
the bounds of the call. -/
theorem exists_encloses {low high : Float} (hlow : low.isNaN = false) (hhigh : high.isNaN = false)
    (hfirst : firstFrom low ≤ n) (hlast : n ≤ lastTo high) (hbeyond : ¬ BeyondIntegers low high) :
    ∃ k, toInt? (ofInt n) = some k ∧ Encloses low high k := by
  have hleast := (leastInteger_le_firstFrom low).trans hfirst
  have hgreatest := hlast.trans (lastTo_le_greatestInteger high)
  obtain ⟨k, hk, -⟩ := exists_toInt?_ofInt hleast hgreatest
  refine ⟨k, hk, ?_, ?_⟩
  · apply atMost_ofInt hfirst hgreatest hk
    by_contra hbound
    rw [firstFrom_of_not_atMost hlow hbound] at hfirst
    have hall : lastTo high = greatestInteger :=
      le_antisymm (lastTo_le_greatestInteger high) (hfirst.trans hlast)
    exact hbeyond (.inl ⟨hbound, (lastTo_eq_greatest_iff hhigh).1 hall⟩)
  · apply atLeast_ofInt hlast hleast hk
    by_contra hbound
    rw [lastTo_of_not_atLeast hhigh hbound] at hlast
    have hall : firstFrom low = leastInteger :=
      le_antisymm (hfirst.trans hlast) (leastInteger_le_firstFrom low)
    exact hbeyond (.inr ⟨(firstFrom_eq_least_iff hlow).1 hall, hbound⟩)

end Number

namespace Builtin
open Number

/-- A call that has a value was made with bounds in order, and its value is the float of a whole
number between them. -/
theorem exists_of_callInt_eq_ok {g g' : Random.Generator} {low high : Float} {value : Value}
    (h : callInt g low high = .ok (value, g')) :
    ∃ n, firstFrom low ≤ n ∧ n ≤ lastTo high ∧ value = .number (ofInt n) := by
  unfold callInt at h
  dsimp only at h
  split at h
  next => cases h
  next =>
    split at h
    next n g'' hdraw =>
      cases h
      obtain ⟨hfirst, hlast⟩ := Random.Generator.intBetween_mem (leastInteger_le_firstFrom low)
        (lastTo_le_greatestInteger high) hdraw
      exact ⟨n, hfirst, hlast, rfl⟩
    next => cases h

theorem callInt_of_lt (g : Random.Generator) {low high : Float} (h : lastTo high < firstFrom low) :
    callInt g low high = refuse (.noInteger (firstFrom low) (lastTo high)) := if_pos h

/-- A call whose bounds are one whole number draws it. -/
theorem callInt_of_draw {g g' : Random.Generator} {low high : Float} {n : Int}
    (hfirst : firstFrom low = n) (hlast : lastTo high = n)
      (hdraw : g.intBetween n n = some (n, g')) :
    callInt g low high = .ok (.number (ofInt n), g') := by
  unfold callInt
  simp only [firstFrom, lastTo] at hfirst hlast
  simp only [hfirst, hlast, hdraw, if_neg (lt_irrefl n)]

end Builtin

namespace Run
open Number

def callOfInt (shownAs : String) (library : LibraryId) (low high : Float) : Run Value :=
  callNative shownAs ⟨library, .random .int⟩ [.number low, .number high]

/-- What `int` promises of two bounds: a value is a whole number between them, and where there is
none the call is refused and leaves everything as it was, the generator included. -/
structure IntStaysBetween (low high : Float) : Prop where
  inside : ∀ shownAs library m m' value, callOfInt shownAs library low high m = (.ok value, m') →
    ∃ x n, value = .number x ∧ toInt? x = some n ∧ low ≤ x ∧ x ≤ high
  refused : (¬ ∃ n, Encloses low high n) → ∀ shownAs library m, ∃ first last,
    callOfInt shownAs library low high m =
      (.error (.fault (.of (.library shownAs (Refusal.noInteger first last).message))), m)

variable {low high : Float}

def generatorOf (library : LibraryId) (m : Machine) : Random.Generator :=
  m.store.generators[library.index]?.getD (.ofSeed 0)

theorem call_int (library : LibraryId) (m : Machine) :
    m.store.call ⟨library, .random .int⟩ [.number low, .number high] =
      (Builtin.callInt (generatorOf library m) low high).map fun drawn =>
        (drawn.1,
          { m.store with
            generators := m.store.generators.setIfInBounds library.index drawn.2 }) := rfl

theorem callOfInt_of_refused {shownAs : String} {library : LibraryId} {m : Machine}
    {reason : Refusal}
    (h : Builtin.callInt (generatorOf library m) low high = Builtin.refuse reason) :
    callOfInt shownAs library low high m =
      (.error (.fault (.of (.library shownAs reason.message))), m) := by
  rw [callOfInt, callNative, bind_apply_of_ok _ (getStore_apply m), call_int, h]
  rfl

theorem callOfInt_of_ok (shownAs : String) {library : LibraryId} {m : Machine} {value : Value}
    {g : Random.Generator} (h : Builtin.callInt (generatorOf library m) low high = .ok (value, g)) :
    (callOfInt shownAs library low high m).1 = .ok value := by
  rw [callOfInt, callNative, bind_apply_of_ok _ (getStore_apply m), call_int, h]
  rfl

theorem exists_of_callOfInt_eq_ok {shownAs : String} {library : LibraryId} {m m' : Machine}
    {value : Value} (h : callOfInt shownAs library low high m = (.ok value, m')) :
    ∃ g, Builtin.callInt (generatorOf library m) low high = .ok (value, g) := by
  rw [callOfInt, callNative, bind_apply_of_ok _ (getStore_apply m), call_int] at h
  cases hcall : Builtin.callInt (generatorOf library m) low high with
  | ok drawn =>
    rw [hcall] at h
    cases h
    exact ⟨drawn.2, rfl⟩
  | error failure =>
    rw [hcall] at h
    cases failure <;> cases h

theorem stays_of_not_beyond (hlow : low.isNaN = false) (hhigh : high.isNaN = false)
    (hbeyond : ¬ BeyondIntegers low high) : IntStaysBetween low high where
  inside shownAs library m m' value h := by
    obtain ⟨g, hcall⟩ := exists_of_callOfInt_eq_ok h
    obtain ⟨n, hfirst, hlast, rfl⟩ := Builtin.exists_of_callInt_eq_ok hcall
    obtain ⟨k, hk, hmost, hleast⟩ := exists_encloses hlow hhigh hfirst hlast hbeyond
    exact ⟨_, k, rfl, hk, (le_iff_of_toInt? hk low).2 hmost, (ge_iff_of_toInt? hk high).2 hleast⟩
  refused hnone shownAs library m := by
    refine ⟨firstFrom low, lastTo high, callOfInt_of_refused (Builtin.callInt_of_lt _ ?_)⟩
    by_contra hordered
    obtain ⟨k, -, hbetween⟩ := exists_encloses hlow hhigh (le_refl _) (not_lt.1 hordered) hbeyond
    exact hnone ⟨k, hbetween⟩

/-- A machine with nothing in it. The generator of its libraries starts from the seed zero. -/
def blank : Machine := ⟨.empty, .empty, .empty, #[], #[]⟩

/-- Where only one whole number is left to draw, a promise that is kept holds of its float. -/
theorem IntStaysBetween.of_single {n k : Int} (h : IntStaysBetween low high)
    (hfirst : firstFrom low = n) (hlast : lastTo high = n)
    (hdraw : ((generatorOf ⟨0⟩ blank).intBetween n n).map Prod.fst = some n)
    (hk : toInt? (ofInt n) = some k) : Encloses low high k := by
  obtain ⟨⟨_, g⟩, hdraw, rfl⟩ := Option.map_eq_some_iff.1 hdraw
  have hcall := callOfInt_of_ok "int" (Builtin.callInt_of_draw hfirst hlast hdraw)
  obtain ⟨x, -, hx, -, hmost, hleast⟩ := h.inside "int" ⟨0⟩ blank _ _ (Prod.ext hcall rfl)
  cases hx
  exact ⟨(le_iff_of_toInt? hk low).1 hmost, (ge_iff_of_toInt? hk high).1 hleast⟩

theorem not_stays_of_beyond (hlow : low.isNaN = false) (hhigh : high.isNaN = false)
    (hbeyond : BeyondIntegers low high) : ¬ IntStaysBetween low high := by
  intro h
  rcases hbeyond with ⟨hmost, hleast⟩ | ⟨hmost, hleast⟩
  · have hsingle := h.of_single (firstFrom_of_not_atMost hlow hmost)
      ((lastTo_eq_greatest_iff hhigh).2 hleast) (by decide +kernel) toInt?_ofInt_greatest
    exact hmost (by exact_mod_cast hsingle.1)
  · have hsingle := h.of_single ((firstFrom_eq_least_iff hlow).2 hmost)
      (lastTo_of_not_atLeast hhigh hleast) (by decide +kernel) toInt?_ofInt_least
    exact hleast (by exact_mod_cast hsingle.2)

/-- A call of `int` stays between its bounds, unless both lie beyond the whole numbers of 64 bits,
on the same side: then it takes the outermost of these for a number between them. -/
theorem int_stays_between_iff (hlow : low.isNaN = false) (hhigh : high.isNaN = false) :
    IntStaysBetween low high ↔ ¬ BeyondIntegers low high :=
  ⟨fun h hbeyond => not_stays_of_beyond hlow hhigh hbeyond h, stays_of_not_beyond hlow hhigh⟩

/-- A die stays between its bounds, and ten to the nineteenth, which is more than 64 bits hold, does
not stay with itself. -/
theorem int_stays_between_of_die : IntStaysBetween 1 6 ∧ ¬ IntStaysBetween 1e19 1e19 :=
  ⟨(int_stays_between_iff (by decide +kernel) (by decide +kernel)).2 (by decide +kernel),
    fun h => (int_stays_between_iff (by decide +kernel) (by decide +kernel)).1 h
      (by decide +kernel)⟩

end Run
end SceneScript
