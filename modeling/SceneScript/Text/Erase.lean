import SceneScript.Text.Cluster

namespace SceneScript.Text

def utf8Size : List Char → Nat
  | [] => 0
  | c :: rest => c.utf8Size + utf8Size rest

/-- What was typed and not erased, the last character first, and the sizes of its clusters. -/
structure Typed where
  reversed : List Char
  sizes : List Nat

namespace Typed

def text (t : Typed) : List Char := t.reversed.reverse

def dropBytes? : Nat → List Char → Option (List Char)
  | 0, text => some text
  | _, [] => none
  | n, c :: rest => if c.utf8Size ≤ n then dropBytes? (n - c.utf8Size) rest else none

def type (t : Typed) (cluster : List Char) : Typed :=
  ⟨cluster.reverse ++ t.reversed, utf8Size cluster % 256 :: t.sizes⟩

def erase? (t : Typed) : Option Typed :=
  match t.sizes with
  | [] => some t
  | size :: more => (dropBytes? size t.reversed).map (⟨·, more⟩)

def enter? (t : Typed) (cluster : List Char) : Option Typed :=
  if cluster = ['\x08'] then t.erase? else some (t.type cluster)

end Typed

def erase? (text : List Char) : Option (List Char) :=
  ((clusters text).foldlM Typed.enter? ⟨[], []⟩).map Typed.text

end SceneScript.Text
