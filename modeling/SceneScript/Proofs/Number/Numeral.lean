import SceneScript.Proofs.Number.Whole
import SceneScript.Proofs.Program.Render

namespace SceneScript.Number

theorem index?_toFloat {n : Nat} (h : IsShort n) (hle : n ≤ 2 ^ 64) :
    Expr.index? (Dyadic.toFloat ⟨false, n, 0⟩) = some (min n (Nat.pow 2 64 - 1)) := by
  have hint : toInt? (Dyadic.toFloat ⟨false, n, 0⟩) = some (.ofNat n) := toInt?_toFloat false h hle
  simp only [Expr.index?, hint]

/-- An index that a number stands for is read off the number that is written for it. -/
theorem index?_ofIndex {x : Float} {index : Nat} (h : Expr.index? x = some index) :
    Expr.index? (ofIndex index) = some index := by
  unfold Expr.index? at h
  split at h
  next n hn =>
    cases h
    have hshort : IsShort n := isShort_of_toInt? hn
    have hlast : Expr.index? (Dyadic.toFloat ⟨false, Nat.pow 2 64, 0⟩) = _ :=
      index?_toFloat (isShort_two_pow 64) (Nat.le_refl _)
    rcases Nat.lt_or_ge n (Nat.pow 2 64 - 1) with hlt | hge
    · have hle : n ≤ 2 ^ 64 := Nat.le_of_lt (Nat.lt_of_lt_of_le hlt (Nat.sub_le ..))
      rw [Nat.min_eq_left (Nat.le_of_lt hlt), ofIndex, if_pos hlt,
        index?_toFloat hshort hle, Nat.min_eq_left (Nat.le_of_lt hlt)]
    · rw [Nat.min_eq_right hge, ofIndex, if_neg (Nat.lt_irrefl _), hlast,
        Nat.min_eq_right (Nat.sub_le ..)]
  next => cases h

end SceneScript.Number
