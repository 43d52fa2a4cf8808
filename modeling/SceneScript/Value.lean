import SceneScript.Scene.Object
import SceneScript.Library.Function

namespace SceneScript

/-- A record of the store; two objects with equal fields are still two. -/
structure ObjectId where
  index : Nat
  deriving DecidableEq, Repr

structure ModuleId where
  index : Nat
  deriving DecidableEq, Repr

/-- One instance of the built-in libraries, with its generator. -/
structure LibraryId where
  index : Nat
  deriving DecidableEq, Repr

/-- A function of an instance of the libraries. -/
structure Native where
  library : LibraryId
  function : Builtin
  deriving DecidableEq, Repr

inductive Value where
  | number (x : Float)
  | string (text : String)
  | bool (b : Bool)
  | nil
  | vector (v : Vector3)
  | list (items : List Value)
  | material (m : Material)
  | object (id : ObjectId)
  | module (id : ModuleId)
  | native (f : Native)
  deriving Inhabited

abbrev Exports := Table Value

namespace Value

def type : Value → String
  | number _ => "number"
  | string _ => "string"
  | bool _ => "bool"
  | nil => "nil"
  | vector _ => "vector"
  | list _ => "list"
  | material _ => "material"
  | object _ => "object"
  | module _ => "module"
  | native _ => "native function"

def isTrue : Value → Bool
  | nil => false
  | bool b => b
  | number x => x != 0
  | string text => text != ""
  | _ => true

def number? : Value → Option Float
  | number x => some x
  | _ => none

/-- A vector, or a list of exactly three numbers. -/
def vector? : Value → Option Vector3
  | vector v => some v
  | list [a, b, c] => do
    let x ← a.number?
    let y ← b.number?
    let z ← c.number?
    return ⟨x, y, z⟩
  | _ => none

def object? : Value → Option ObjectId
  | object id => some id
  | _ => none

def material? : Value → Option Material
  | material m => some m
  | _ => none

mutual
/-- The text of a value. What an object is called is not in the value itself. -/
def display (objectName : ObjectId → String) : Value → String
  | number x => Number.display x
  | string text => text
  | bool b => if b then "true" else "false"
  | nil => "nil"
  | vector v => v.display
  | list [] => "[]"
  | list (first :: more) => "[" ++ display objectName first ++ displayMore objectName more ++ "]"
  | material m => s!"<material {m.color}>"
  | object id => objectName id
  | module _ => "<module>"
  | native f => s!"<native fn {f.function.name}>"
def displayMore (objectName : ObjectId → String) : List Value → String
  | [] => ""
  | first :: more => ", " ++ display objectName first ++ displayMore objectName more
end

mutual
/-- Equality as programs see it: numbers compare as numbers, so one that is none differs from
itself; objects, modules and functions are equal to themselves alone. -/
def equals : Value → Value → Bool
  | number x, number y => x == y
  | string s, string t => s == t
  | bool a, bool b => a == b
  | nil, nil => true
  | vector v, vector w => v == w
  | list as, list bs => equalLists as bs
  | material m, material n => m == n
  | object a, object b => a == b
  | module a, module b => a == b
  | native f, native g => f == g
  | _, _ => false
def equalLists : List Value → List Value → Bool
  | [], [] => true
  | a :: as, b :: bs => equals a b && equalLists as bs
  | _, _ => false
end

end Value
end SceneScript
