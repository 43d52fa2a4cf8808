import Mathlib.Data.List.DropRight
import SceneScript.Text.Split

namespace SceneScript.Text

variable {separator c : Char} {piece text row : List Char} {i : Nat}

/-- What holds of the separator and of everything in the pieces holds of all that they are joined
to. -/
theorem forall_mem_intercalate {α : Type} {P : α → Prop} {separator : α} {pieces : List (List α)}
    (hseparator : P separator) (h : ∀ piece ∈ pieces, ∀ a ∈ piece, P a) :
    ∀ a ∈ [separator].intercalate pieces, P a := by
  induction pieces with
  | nil => nofun
  | cons piece pieces ih =>
    obtain ⟨hpiece, hmore⟩ := List.forall_mem_cons.1 h
    cases pieces with
    | nil => rwa [List.intercalate_singleton]
    | cons next pieces =>
      rw [List.intercalate_cons_cons, List.append_assoc, List.singleton_append]
      exact List.forall_mem_append.2 ⟨hpiece, List.forall_mem_cons.2 ⟨hseparator, ih hmore⟩⟩

theorem split_append (separator : Char) (left right : List Char) :
    split separator (left ++ separator :: right) = split separator left ++
      split separator right := by
  induction left with
  | nil =>
    rw [List.nil_append]
    conv_lhs => rw [split, if_pos rfl]
    rfl
  | cons c left ih =>
    rw [List.cons_append, split, split, ih]
    split
    · rfl
    · obtain ⟨piece, pieces, h⟩ := List.exists_cons_of_ne_nil (split_ne_nil separator left)
      rw [h]
      rfl

theorem split_of_not_mem (h : separator ∉ piece) : split separator piece = [piece] := by
  induction piece with
  | nil => rfl
  | cons c piece ih =>
    obtain ⟨hc, hpiece⟩ := not_or.1 (List.mem_cons.not.1 h)
    rw [split, if_neg (Ne.symm hc), ih hpiece]

theorem not_mem_of_mem_split (h : piece ∈ split separator text) : separator ∉ piece := by
  induction text generalizing piece with
  | nil =>
    obtain rfl := List.mem_singleton.1 h
    simp
  | cons c rest ih =>
    rw [split] at h
    split at h
    next =>
      rcases List.mem_cons.1 h with rfl | h
      · simp
      · exact ih h
    next hc =>
      cases hsplit : split separator rest with
      | nil => exact absurd hsplit (split_ne_nil _ _)
      | cons first more =>
        simp only [hsplit] at h ih
        rcases List.mem_cons.1 h with rfl | h
        · exact List.not_mem_cons_of_ne_of_not_mem (Ne.symm hc) (ih (List.mem_cons_self ..))
        · exact ih (List.mem_cons_of_mem _ h)

/-- Pieces without the separator are cut off the text that they are joined to. -/
theorem split_intercalate {pieces : List (List Char)} (hne : pieces ≠ [])
    (h : ∀ piece ∈ pieces, separator ∉ piece) :
    split separator ([separator].intercalate pieces) = pieces := by
  induction pieces with
  | nil => exact absurd rfl hne
  | cons piece pieces ih =>
    obtain ⟨hpiece, hmore⟩ := List.forall_mem_cons.1 h
    cases pieces with
    | nil =>
      rw [List.intercalate_singleton]
      exact split_of_not_mem hpiece
    | cons next pieces =>
      rw [List.intercalate_cons_cons, List.append_assoc, List.singleton_append, split_append,
        split_of_not_mem hpiece, ih (List.cons_ne_nil _ _) hmore]
      rfl

theorem length_split (separator : Char) (text : List Char) :
    (split separator text).length = text.count separator + 1 := by
  induction text with
  | nil => rfl
  | cons c text ih =>
    obtain ⟨piece, pieces, h⟩ := List.exists_cons_of_ne_nil (split_ne_nil separator text)
    rw [h] at ih
    rw [split, List.count_cons]
    split
    next hc => simp [hc, h, ih]
    next hc => simpa [hc, h] using ih

theorem head?_split (separator : Char) (text : List Char) :
    (split separator text).head? = some (text.takeWhile (· ≠ separator)) := by
  induction text with
  | nil => rfl
  | cons c text ih =>
    obtain ⟨piece, pieces, h⟩ := List.exists_cons_of_ne_nil (split_ne_nil separator text)
    rw [h] at ih
    rw [split, List.takeWhile_cons]
    split
    next hc => simp [hc]
    next hc => simpa [hc, h] using ih

def around (separator : Char) (left right : List Char) : List Char :=
  left.rtakeWhile (· ≠ separator) ++ right.takeWhile (· ≠ separator)

/-- Separators before a place number its piece. -/
theorem getElem?_split_count (separator : Char) (left right : List Char) :
    (split separator (left ++ right))[left.count separator]? =
      some (around separator left right) := by
  induction left using List.reverseRecOn generalizing right with
  | nil => simpa [around, List.head?_eq_getElem?] using head?_split separator right
  | append_singleton left c ih =>
    rw [List.append_assoc, List.singleton_append, List.count_append, around, List.rtakeWhile_concat]
    by_cases hc : c = separator
    · subst hc
      rw [split_append, List.getElem?_append_right (by simp [length_split]), length_split]
      simpa [List.head?_eq_getElem?] using head?_split c right
    · rw [List.count_singleton, if_neg (by simpa using hc), Nat.add_zero, ih,
        if_pos (by simpa using hc),
        around, List.takeWhile_cons, if_pos (by simpa using hc), List.append_assoc]
      rfl

/-- Newlines before a place number its line. Without a newline behind it the line is the last one,
if there are characters on it. -/
theorem getElem?_lines_count (left right : List Char) :
    (lines (left ++ right))[left.count '\n']? =
      if '\n' ∈ right then some (dropReturn (around '\n' left right))
      else if around '\n' left right = [] then none else some (around '\n' left right) := by
  -- The last piece is no line if it is empty, which is why the two cases differ.
  have hpiece := getElem?_split_count '\n' left right
  have hlength := length_split '\n' (left ++ right)
  rw [List.count_append] at hlength
  unfold lines
  dsimp only
  by_cases hmem : '\n' ∈ right
  · rw [if_pos hmem]
    have hbelow : left.count '\n' < (split '\n' (left ++ right)).dropLast.length := by
      have hcount := List.count_pos_iff.2 hmem
      rw [List.length_dropLast]
      omega
    rw [List.getElem?_append_left (by rwa [List.length_map]), List.getElem?_map,
      List.getElem?_dropLast, if_pos (by rwa [List.length_dropLast] at hbelow), hpiece]
    rfl
  · rw [if_neg hmem]
    have hlast : left.count '\n' = (split '\n' (left ++ right)).dropLast.length := by
      have hcount := List.count_eq_zero.2 hmem
      rw [List.length_dropLast]
      omega
    have hpieces : (split '\n' (left ++ right)).getLastD [] = around '\n' left right := by
      rw [List.getLastD_eq_getLast?, List.getLast?_eq_getElem?, ← List.length_dropLast,
        ← hlast, hpiece]
      rfl
    rw [List.getElem?_append_right (by rw [List.length_map, hlast]), List.length_map, ← hlast,
      Nat.sub_self, hpieces]
    by_cases hempty : around '\n' left right = []
    · simp [hempty]
    · simp [hempty]

/-- A line keeps its characters but for a carriage return. -/
theorem getElem?_dropReturn (h : row[i]? = some c) (hc : c ≠ '\r') :
    (dropReturn row)[i]? = some c := by
  unfold dropReturn
  split
  next hreturn =>
    have hlast : i ≠ row.length - 1 := by
      rintro rfl
      rw [← List.getLast?_eq_getElem?, hreturn] at h
      exact hc (Option.some.inj h).symm
    have hbelow := (List.getElem?_eq_some_iff.1 h).1
    rw [List.getElem?_dropLast, if_pos (by omega), h]
  next => exact h

/-- A character other than a newline and a carriage return is on its line, behind the characters
that stand before it on the line. -/
theorem exists_line (left right : List Char) (hnewline : c ≠ '\n') (hreturn : c ≠ '\r') :
    ∃ row, (lines (left ++ c :: right))[left.count '\n']? = some row ∧
      row[(left.rtakeWhile (· ≠ '\n')).length]? = some c := by
  have hplace : (around '\n' left (c :: right))[(left.rtakeWhile (· ≠ '\n')).length]? = some c := by
    rw [around, List.getElem?_append_right (Nat.le_refl _), Nat.sub_self, List.takeWhile_cons,
      if_pos (by simpa using hnewline)]
    rfl
  have hnotempty : around '\n' left (c :: right) ≠ [] := by
    rintro hempty
    simp [hempty] at hplace
  rw [getElem?_lines_count, if_neg hnotempty]
  split
  · exact ⟨_, rfl, getElem?_dropReturn hplace hreturn⟩
  · exact ⟨_, rfl, hplace⟩

/-- The end of a text is on a line exactly if there are characters behind its last newline, and then
behind all characters of that line. -/
theorem getElem?_lines_end (text : List Char) : (lines text)[text.count '\n']? =
    if text.rtakeWhile (· ≠ '\n') = [] then none else some (text.rtakeWhile (· ≠ '\n')) := by
  have hline := getElem?_lines_count text []
  rwa [List.append_nil, if_neg (List.not_mem_nil), around, List.takeWhile_nil,
    List.append_nil] at hline

theorem getElem?_lines_end_eq_none_iff (text : List Char) :
    (lines text)[text.count '\n']? = none ↔ text = [] ∨ text.getLast? = some '\n' := by
  rw [getElem?_lines_end]
  cases text using List.reverseRecOn with
  | nil => simp
  | append_singleton text c =>
    rw [List.rtakeWhile_concat, List.getLast?_concat]
    by_cases hc : c = '\n'
    · simp [hc]
    · simp [hc]

end SceneScript.Text
