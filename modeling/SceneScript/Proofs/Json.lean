import SceneScript.Proofs.Number.Written
import SceneScript.Json

namespace SceneScript.Json
open SceneScript.Number

/-! ### Strings -/

def hexValue (c : Char) : Nat := if c.isDigit then c.toNat - '0'.toNat else c.toNat - 'a'.toNat + 10

def ofMark (mark : Char) : Char :=
  if mark = 'n' then '\n'
  else if mark = 't' then '\t'
  else if mark = 'r' then '\r'
  else if mark = 'b' then '\x08'
  else if mark = 'f' then '\x0c'
  else mark

def readMark : List Char → Option (Char × List Char)
  | 'u' :: _ :: _ :: high :: low :: rest =>
    some (Char.ofNat (16 * hexValue high + hexValue low), rest)
  | mark :: rest => some (ofMark mark, rest)
  | [] => none

/-- The first character of a quoted text and what follows it; the closing quotation mark is none. -/
def readEscaped : List Char → Option (Char × List Char)
  | [] => none
  | c :: rest => if c = '"' then none else if c = '\\' then readMark rest else some (c, rest)

theorem hexByte_value : ∀ n < 32,
    Char.ofNat (16 * hexValue (hexDigit (n / 16)) + hexValue (hexDigit n)) = Char.ofNat n := by
  decide

theorem readEscaped_escape (c : Char) (rest : List Char) :
    readEscaped (escape c ++ rest) = some (c, rest) := by
  unfold escape
  split
  case h_8 hquote hbackslash _ _ _ _ _ =>
    split
    next hcontrol =>
      have hvalue := hexByte_value c.toNat hcontrol
      rw [Char.ofNat_toNat] at hvalue
      exact congrArg (some <| Prod.mk · rest) hvalue
    next => exact (if_neg hquote).trans (if_neg hbackslash)
  all_goals rfl

/-- A quoted text ends where its last character is read. -/
theorem flatMap_escape_unique {a b : List Char} {s t : List Char}
    (h : a.flatMap escape ++ '"' :: s = b.flatMap escape ++ '"' :: t) : a = b ∧ s = t := by
  have hend (c : Char) (b u v : List Char) : (c :: b).flatMap escape ++ u ≠ '"' :: v := by
    intro h
    have hread := congrArg readEscaped h
    rw [List.flatMap_cons, List.append_assoc, readEscaped_escape] at hread
    cases hread
  induction a generalizing b with
  | nil =>
    cases b with
    | nil => exact ⟨rfl, List.tail_eq_of_cons_eq h⟩
    | cons d b => exact absurd h.symm (hend d b _ _)
  | cons c a ih =>
    cases b with
    | nil => exact absurd h (hend c a _ _)
    | cons d b =>
      rw [List.flatMap_cons, List.flatMap_cons, List.append_assoc, List.append_assoc] at h
      have hread := congrArg readEscaped h
      rw [readEscaped_escape, readEscaped_escape] at hread
      obtain ⟨rfl, hrest⟩ := Prod.mk.inj (Option.some.inj hread)
      obtain ⟨rfl, rfl⟩ := ih hrest
      exact ⟨rfl, rfl⟩

theorem toList_quote (text : String) :
    (quote text).toList = '"' :: (text.toList.flatMap escape ++ ['"']) := by
  simp only [quote, String.toList_append, String.toList_ofList, List.append_assoc]
  rfl

theorem quote_unique {a b : String} {s t : List Char}
    (h : (quote a).toList ++ s = (quote b).toList ++ t) : a = b ∧ s = t := by
  rw [toList_quote, toList_quote] at h
  have hbody : _ ++ ['"'] ++ s = _ ++ ['"'] ++ t := List.tail_eq_of_cons_eq h
  rw [List.append_assoc, List.append_assoc] at hbody
  obtain ⟨htext, hrest⟩ := flatMap_escape_unique hbody
  exact ⟨String.toList_injective htext, hrest⟩

/-! ### Written form -/

theorem write_null (depth : Nat) : write depth null = "null" := rfl

theorem write_true (depth : Nat) : write depth (bool true) = "true" := rfl

theorem write_false (depth : Nat) : write depth (bool false) = "false" := rfl

theorem write_int (depth value : Nat) : write depth (int value) = toString value := rfl

theorem write_float (depth : Nat) (value : Float) : write depth (float value) = ofFloat value := rfl

theorem write_string (depth : Nat) (text : String) : write depth (string text) = quote text := rfl

def rows {α : Type} (item : α → List Char) (depth : Nat) (items : List α) : List Char :=
  items.flatMap fun x => ',' :: ((newline depth).toList ++ item x)

def block {α : Type} (item : α → List Char) (depth : Nat) (close : Char) : List α → List Char
  | [] => [close]
  | first :: more => (newline (depth + 1)).toList ++
      (item first ++ (rows item (depth + 1) more ++ ((newline depth).toList ++ [close])))

def element (depth : Nat) (a : Json) : List Char := (a.write depth).toList

def member (depth : Nat) (m : String × Json) : List Char :=
  (quote m.1).toList ++ ':' :: ' ' :: (m.2.write depth).toList

theorem toList_writeElements (depth : Nat) (elements : List Json) :
    (writeElements depth elements).toList = rows (element depth) depth elements := by
  induction elements with
  | nil => rfl
  | cons first more ih =>
    have hwrite : writeElements depth (first :: more) =
      "," ++ newline depth ++ write depth first ++ writeElements depth more := rfl
    rw [hwrite, rows, List.flatMap_cons, ← rows, ← ih]
    simp only [String.toList_append, List.append_assoc, List.cons_append, element]
    rfl

theorem toList_writeMembers (depth : Nat) (members : List (String × Json)) :
    (writeMembers depth members).toList = rows (member depth) depth members := by
  induction members with
  | nil => rfl
  | cons first more ih =>
    have hwrite : writeMembers depth (first :: more) = "," ++ newline depth ++
      quote first.1 ++ ": " ++
      write depth first.2 ++ writeMembers depth more := rfl
    rw [hwrite, rows, List.flatMap_cons, ← rows, ← ih]
    simp only [String.toList_append, List.append_assoc, List.cons_append, member]
    rfl

theorem toList_write_array (depth : Nat) (elements : List Json) :
    (write depth (array elements)).toList =
      '[' :: block (element (depth + 1)) depth ']' elements := by
  cases elements with
  | nil =>
    have hwrite : write depth (array []) = "[]" := rfl
    rw [hwrite]
    rfl
  | cons first more =>
    have hwrite : write depth (array (first :: more)) = "[" ++ newline (depth + 1) ++
      write (depth + 1) first ++ writeElements (depth + 1) more ++ newline depth ++ "]" := rfl
    rw [hwrite, block, ← toList_writeElements]
    simp only [String.toList_append, List.append_assoc]
    rfl

theorem toList_write_object (depth : Nat) (members : List (String × Json)) :
    (write depth (object members)).toList =
      '\x7b' :: block (member (depth + 1)) depth '\x7d' members := by
  cases members with
  | nil =>
    have hwrite : write depth (object []) = "\x7b\x7d" := rfl
    rw [hwrite]
    rfl
  | cons first more =>
    have hwrite : write depth (object (first :: more)) = "\x7b" ++ newline (depth + 1) ++
      quote first.1 ++ ": " ++ write (depth + 1) first.2 ++ writeMembers (depth + 1) more ++
      newline depth ++ "\x7d" := rfl
    rw [hwrite, block, ← toList_writeMembers]
    simp only [String.toList_append, List.append_assoc, member]
    rfl

/-! ### Numbers and words -/

/-- A document all of whose numbers are finite. -/
inductive IsFinite : Json → Prop
  | null : IsFinite null
  | bool (value : Bool) : IsFinite (bool value)
  | int (value : Nat) : IsFinite (int value)
  | float {value : Float} : value.isFinite = true → IsFinite (float value)
  | string (text : String) : IsFinite (string text)
  | array {elements : List Json} : (∀ e ∈ elements, IsFinite e) → IsFinite (array elements)
  | object {members : List (String × Json)} : (∀ m ∈ members, IsFinite m.2) →
    IsFinite (object members)

def opener : Json → Option Char
  | string _ => some '"'
  | array _ => some '['
  | object _ => some '\x7b'
  | _ => none

def isPlain (c : Char) : Bool := isNumeric c || c.isAlpha

theorem isPlain_of_isNumeric {c : Char} (h : isNumeric c = true) : isPlain c = true := by
  rw [isPlain, h, Bool.true_or]

theorem isNumeric_of_mem_ofFloat {x : Float} (hx : x.isFinite = true) {c : Char}
    (h : c ∈ (ofFloat x).toList) : isNumeric c = true := by
  obtain ⟨d, hview⟩ := exists_view_of_isFinite hx
  rw [ofFloat, hview] at h
  exact isNumeric_of_mem_finite h

theorem exists_not_isDigit_ofFloat {x : Float} (hx : x.isFinite = true) :
    ∃ c ∈ (ofFloat x).toList, c.isDigit = false := by
  obtain ⟨d, hview⟩ := exists_view_of_isFinite hx
  rw [ofFloat, hview]
  exact exists_not_isDigit_finite d

theorem toList_toString (n : Nat) : (toString n).toList = digits n := Nat.toList_repr

/-- The text of a finite number determines it, with the sign of zero. -/
theorem ofFloat_injective {x y : Float} (hx : x.isFinite = true) (hy : y.isFinite = true)
    (h : ofFloat x = ofFloat y) : x = y := by
  obtain ⟨c, hc⟩ := exists_view_of_isFinite hx
  obtain ⟨d, hd⟩ := exists_view_of_isFinite hy
  rw [ofFloat, hc, ofFloat, hd] at h
  have hsame := finite_injective (isCanonical_of_view hc) (isCanonical_of_view hd) h
  apply Number.ofFloat_injective
  rw [hc, hd, hsame]

def isNumber : Json → Bool
  | int _ => true
  | float _ => true
  | _ => false

theorem write_number {a : Json} (ha : a.IsFinite) (h : a.isNumber = true) (depth : Nat) :
    (a.write depth).toList ≠ [] ∧ ∀ c ∈ (a.write depth).toList, isNumeric c = true := by
  cases ha with
  | int value =>
    rw [write_int, toList_toString]
    exact ⟨digits_ne_nil value, fun c hc => isNumeric_of_isDigit (isDigit_of_mem_digits hc)⟩
  | float hx =>
    rw [write_float]
    obtain ⟨c, hc, -⟩ := exists_not_isDigit_ofFloat hx
    exact ⟨List.ne_nil_of_mem hc, fun c hc => isNumeric_of_mem_ofFloat hx hc⟩
  | _ => cases h

/-- The words are made of letters, and no letter of a number starts them. -/
theorem write_word {a : Json} (ha : a.opener = none) (h : a.isNumber = false) (depth : Nat) :
    a = null ∧ a.write depth = "null" ∨ a = bool true ∧ a.write depth = "true" ∨
      a = bool false ∧ a.write depth = "false" := by
  cases a with
  | null => exact .inl ⟨rfl, write_null depth⟩
  | bool value =>
    cases value with
    | true => exact .inr (.inl ⟨rfl, write_true depth⟩)
    | false => exact .inr (.inr ⟨rfl, write_false depth⟩)
  | int value => cases h
  | float value => cases h
  | string text => cases ha
  | array elements => cases ha
  | object members => cases ha

theorem write_plain {a : Json} (ha : a.IsFinite) (hplain : a.opener = none) (depth : Nat) :
    (a.write depth).toList ≠ [] ∧ ∀ c ∈ (a.write depth).toList, isPlain c = true := by
  cases hnumber : a.isNumber with
  | true =>
    obtain ⟨hne, hall⟩ := write_number ha hnumber depth
    exact ⟨hne, fun c hc => isPlain_of_isNumeric (hall c hc)⟩
  | false =>
    rw [← List.all_eq_true]
    rcases write_word hplain hnumber depth with ⟨-, h⟩ | ⟨-, h⟩ | ⟨-, h⟩ <;>
      rw [h] <;> decide +kernel

theorem isNumber_eq_of_write_eq {a b : Json} (ha : a.IsFinite)
    (hplain : b.opener = none) {depth : Nat}
    (h : a.write depth = b.write depth) (hnumber : a.isNumber = true) : b.isNumber = true := by
  obtain ⟨-, hall⟩ := write_number ha hnumber depth
  rw [h, ← List.all_eq_true] at hall
  by_contra hword
  rcases write_word hplain (Bool.eq_false_iff.2 hword) depth with ⟨-, h⟩ | ⟨-, h⟩ | ⟨-, h⟩ <;>
    rw [h] at hall <;> revert hall <;> decide +kernel

theorem toString_ne_ofFloat (n : Nat) {x : Float} (hx : x.isFinite = true) :
    toString n ≠ ofFloat x := by
  intro h
  obtain ⟨c, hc, hdigit⟩ := exists_not_isDigit_ofFloat hx
  rw [← h, toList_toString] at hc
  rw [isDigit_of_mem_digits hc] at hdigit
  cases hdigit

theorem write_number_injective {a b : Json} (ha : a.IsFinite) (hb : b.IsFinite)
    (hnumber : a.isNumber = true) (hnumber' : b.isNumber = true) {depth : Nat}
    (h : a.write depth = b.write depth) : a = b := by
  cases ha with
  | int n =>
    cases hb with
    | int m =>
      rw [write_int, write_int] at h
      have hdigits : ofDigits (toString n).toList = ofDigits (toString m).toList := by rw [h]
      rw [toList_toString, toList_toString, ofDigits_digits, ofDigits_digits] at hdigits
      rw [hdigits]
    | float hx =>
      exact absurd h (toString_ne_ofFloat n hx)
    | _ => cases hnumber'
  | float hx =>
    cases hb with
    | int m =>
      exact absurd h.symm (toString_ne_ofFloat m hx)
    | float hy =>
      rw [ofFloat_injective hx hy h]
    | _ => cases hnumber'
  | _ => cases hnumber

theorem write_plain_injective {a b : Json} (ha : a.IsFinite) (hb : b.IsFinite)
    (hplain : a.opener = none)
    (hplain' : b.opener = none) {depth : Nat} (h : a.write depth = b.write depth) : a = b := by
  by_cases hnumber : a.isNumber = true
  · exact write_number_injective ha hb hnumber (isNumber_eq_of_write_eq ha hplain' h hnumber) h
  · have hword : b.isNumber = false := by
      by_contra hother
      exact hnumber (isNumber_eq_of_write_eq hb hplain h.symm (Bool.eq_true_of_not_eq_false hother))
    rcases write_word hplain (Bool.eq_false_of_not_eq_true hnumber) depth with
      ⟨rfl, ha⟩ | ⟨rfl, ha⟩ | ⟨rfl, ha⟩ <;>
    rcases write_word hplain' hword depth with ⟨rfl, hb⟩ | ⟨rfl, hb⟩ | ⟨rfl, hb⟩ <;>
    first
    | rfl
    | (rw [ha, hb] at h
       exact absurd h (by decide))

/-! ### Parts -/

/-- What may follow a value: nothing, or what cannot be part of a number or a word. -/
abbrev Follows (text : List Char) : Prop := StopsAt isPlain text

theorem write_plain_unique {a b : Json} (ha : a.IsFinite) (hb : b.IsFinite)
    (hplain : a.opener = none)
    (hplain' : b.opener = none) {depth : Nat} {s t : List Char} (hs : Follows s) (ht : Follows t)
    (h : (a.write depth).toList ++ s = (b.write depth).toList ++ t) : a = b ∧ s = t := by
  obtain ⟨-, hall⟩ := write_plain ha hplain depth
  obtain ⟨-, hall'⟩ := write_plain hb hplain' depth
  have htext := congrArg (List.takeWhile isPlain) h
  have hrest := congrArg (List.dropWhile isPlain) h
  rw [takeWhile_append_stop hall hs, takeWhile_append_stop hall' ht] at htext
  rw [dropWhile_append_stop hall hs, dropWhile_append_stop hall' ht] at hrest
  exact ⟨write_plain_injective ha hb hplain hplain' (String.toList_injective htext), hrest⟩

theorem toList_newline (depth : Nat) :
    (newline depth).toList = '\n' :: List.replicate (2 * depth) ' ' := by
  simp only [newline, String.toList_append, String.toList_ofList]
  rfl

/-- The first character tells whether a text has parts, and of what kind they are. -/
theorem exists_head_write {a : Json} (ha : a.IsFinite) (depth : Nat) :
    ∃ c rest, (a.write depth).toList = c :: rest ∧ a.opener =
      if isPlain c then none else some c := by
  cases hopener : a.opener with
  | none =>
    obtain ⟨hne, hall⟩ := write_plain ha hopener depth
    obtain ⟨c, rest, htext⟩ := List.exists_cons_of_ne_nil hne
    refine ⟨c, rest, htext, ?_⟩
    rw [htext] at hall
    rw [if_pos (hall c List.mem_cons_self)]
  | some mark =>
    cases ha with
    | string text =>
      cases hopener
      exact ⟨_, _, by rw [write_string, toList_quote], by decide⟩
    | array h =>
      cases hopener
      exact ⟨_, _, toList_write_array .., by decide⟩
    | object h =>
      cases hopener
      exact ⟨_, _, toList_write_object .., by decide⟩
    | _ => cases hopener

theorem opener_eq_of_write {a b : Json} (ha : a.IsFinite) (hb : b.IsFinite) {depth : Nat}
    {s t : List Char} (h : (a.write depth).toList ++ s = (b.write depth).toList ++ t) :
    a.opener = b.opener := by
  obtain ⟨c, rest, htext, hopener⟩ := exists_head_write ha depth
  obtain ⟨c', rest', htext', hopener'⟩ := exists_head_write hb depth
  rw [htext, htext'] at h
  rw [hopener, hopener', (List.cons.inj h).1]

section Items
variable {α : Type} {item : α → List Char} {Good : α → Prop} {xs ys : List α} {depth : Nat}
  {s t : List Char}

/-- The text of an item is told apart from what follows it, whatever good item it is compared
with. -/
def Delimits (item : α → List Char) (Good : α → Prop) (x : α) : Prop :=
  ∀ {y : α} {s t : List Char}, Good y → Follows s → Follows t → item x ++ s = item y ++ t →
    x = y ∧ s = t

theorem follows_newline (depth : Nat) (s : List Char) : Follows ((newline depth).toList ++ s) := by
  rw [toList_newline]
  rintro c ⟨⟩
  decide

theorem follows_rows (hs : Follows s) : Follows (rows item depth xs ++ s) := by
  cases xs with
  | nil => exact hs
  | cons first more =>
    rintro c ⟨⟩
    decide

/-- Items end at the first line that no comma is in front of. -/
theorem rows_unique {outer : Nat} (hxs : ∀ x ∈ xs, Delimits item Good x) (hys : ∀ y ∈ ys, Good y)
    (h : rows item depth xs ++ ((newline outer).toList ++ s) =
      rows item depth ys ++ ((newline outer).toList ++ t)) : xs = ys ∧ s = t := by
  induction xs generalizing ys with
  | nil =>
    cases ys with
    | nil => exact ⟨rfl, List.append_cancel_left h⟩
    | cons y ys =>
      rw [toList_newline outer] at h
      cases h
  | cons x xs ih =>
    cases ys with
    | nil =>
      rw [toList_newline outer] at h
      cases h
    | cons y ys =>
      rw [List.forall_mem_cons] at hxs hys
      simp only [rows, List.flatMap_cons, List.cons_append, List.append_assoc, List.cons.injEq,
        true_and, List.append_cancel_left_eq] at h
      obtain ⟨rfl, hrest⟩ := hxs.1 hys.1 (follows_rows (follows_newline _ _))
        (follows_rows (follows_newline _ _)) h
      obtain ⟨rfl, rfl⟩ := ih hxs.2 hys.2 hrest
      exact ⟨rfl, rfl⟩

theorem block_unique {close : Char} (hclose : close ≠ '\n') (hxs : ∀ x ∈ xs, Delimits item Good x)
    (hys : ∀ y ∈ ys, Good y) (h : block item depth close xs ++ s = block item depth close ys ++ t) :
    xs = ys ∧ s = t := by
  have hnil {x : α} {more : List α} {u v : List Char} :
      block item depth close [] ++ u ≠ block item depth close (x :: more) ++ v := by
    rw [block, block, toList_newline]
    exact fun h => hclose (List.cons.inj h).1
  cases xs with
  | nil =>
    cases ys with
    | nil => exact ⟨rfl, List.append_cancel_left h⟩
    | cons y ys => exact absurd h hnil
  | cons x xs =>
    cases ys with
    | nil => exact absurd h.symm hnil
    | cons y ys =>
      rw [List.forall_mem_cons] at hxs hys
      simp only [block, List.append_assoc, List.append_cancel_left_eq] at h
      obtain ⟨rfl, hrest⟩ := hxs.1 hys.1 (follows_rows (follows_newline _ _))
        (follows_rows (follows_newline _ _)) h
      obtain ⟨rfl, hend⟩ := rows_unique hxs.2 hys.2 hrest
      exact ⟨rfl, List.append_cancel_left hend⟩

end Items

/-! ### Documents -/

/-- At every depth, the text of the document is told apart from what follows it. -/
def IsDelimited (a : Json) : Prop := ∀ depth, Delimits (element depth) IsFinite a

theorem IsDelimited.member {m : String × Json} (h : m.2.IsDelimited) (depth : Nat) :
    Delimits (member depth) (fun m => m.2.IsFinite) m := by
  intro n s t hn hs ht htext
  simp only [Json.member, List.append_assoc] at htext
  obtain ⟨hname, hvalue⟩ := quote_unique htext
  simp only [List.cons_append, List.cons.injEq, true_and] at hvalue
  obtain ⟨hsame, hrest⟩ := h depth hn hs ht hvalue
  exact ⟨Prod.ext hname hsame, hrest⟩

theorem isDelimited_array {elements : List Json} (h : ∀ e ∈ elements, e.IsFinite)
    (hparts : ∀ e ∈ elements, e.IsDelimited) : (array elements).IsDelimited := by
  intro depth b s t hb hs ht htext
  have hopener := opener_eq_of_write (.array h) hb htext
  cases hb with
  | array hothers =>
    rw [element, element, toList_write_array, toList_write_array] at htext
    obtain ⟨rfl, hrest⟩ := block_unique (by decide) (fun e he => hparts e he (depth + 1)) hothers
      (List.tail_eq_of_cons_eq htext)
    exact ⟨rfl, hrest⟩
  | _ => cases hopener

theorem isDelimited_object {members : List (String × Json)} (h : ∀ m ∈ members, m.2.IsFinite)
    (hparts : ∀ m ∈ members, m.2.IsDelimited) : (object members).IsDelimited := by
  intro depth b s t hb hs ht htext
  have hopener := opener_eq_of_write (.object h) hb htext
  cases hb with
  | object hothers =>
    rw [element, element, toList_write_object, toList_write_object] at htext
    obtain ⟨rfl, hrest⟩ := block_unique (by decide) (fun m hm => (hparts m hm).member (depth + 1))
      hothers (List.tail_eq_of_cons_eq htext)
    exact ⟨rfl, hrest⟩
  | _ => cases hopener

theorem isDelimited_plain {a : Json} (ha : a.IsFinite) (hplain : a.opener = none) :
    a.IsDelimited := by
  intro depth b s t hb hs ht h
  have hplain' : b.opener = none := (opener_eq_of_write ha hb h).symm.trans hplain
  exact write_plain_unique ha hb hplain hplain' hs ht h

theorem isDelimited_string (text : String) : (string text).IsDelimited := by
  intro depth b s t hb hs ht h
  have hopener := opener_eq_of_write (.string text) hb h
  cases hb with
  | string other =>
    obtain ⟨rfl, hrest⟩ := quote_unique h
    exact ⟨rfl, hrest⟩
  | _ => cases hopener

/-- A document with finite numbers is told apart from what follows it. -/
theorem isDelimited {a : Json} (ha : a.IsFinite) : a.IsDelimited := by
  -- One lemma for each form. What follows a value begins with a comma or a new line, which no number
  -- or word has in it.
  induction ha with
  | null => exact isDelimited_plain .null rfl
  | bool value => exact isDelimited_plain (.bool value) rfl
  | int value => exact isDelimited_plain (.int value) rfl
  | float hx => exact isDelimited_plain (.float hx) rfl
  | string text => exact isDelimited_string text
  | array h ih => exact isDelimited_array h ih
  | object h ih => exact isDelimited_object h ih

/-- The text of a document with finite numbers is that of no other. -/
theorem pretty_injective {a b : Json} (ha : a.IsFinite) (hb : b.IsFinite)
    (h : a.pretty = b.pretty) : a = b := by
  have htext : (a.write 0).toList ++ [] = (b.write 0).toList ++ [] :=
    congrArg (String.toList · ++ []) h
  have hend : Follows [] := nofun
  exact (isDelimited ha 0 hb hend hend htext).1

end SceneScript.Json
