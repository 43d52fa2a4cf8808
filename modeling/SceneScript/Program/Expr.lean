import SceneScript.Span
import SceneScript.Token.Basic
import SceneScript.Scene.Vector

namespace SceneScript

inductive BinaryOp where
  | add
  | sub
  | mul
  | div
  | mod
  | eq
  | ne
  | lt
  | le
  | gt
  | ge
  deriving DecidableEq, Repr

namespace BinaryOp

def symbol : BinaryOp → Symbol
  | add => .plus
  | sub => .minus
  | mul => .star
  | div => .slash
  | mod => .percent
  | eq => .equalEqual
  | ne => .bangEqual
  | lt => .less
  | le => .lessEqual
  | gt => .greater
  | ge => .greaterEqual

def text (op : BinaryOp) : String := op.symbol.text

/-- Operators of a lower level bind tighter. -/
def level : BinaryOp → Nat
  | mul => 1
  | div => 1
  | mod => 1
  | add => 2
  | sub => 2
  | lt => 3
  | le => 3
  | gt => 3
  | ge => 3
  | eq => 4
  | ne => 4

def all : List BinaryOp := [add, sub, mul, div, mod, eq, ne, lt, le, gt, ge]

def ofSymbol? (level : Nat) (sign : Symbol) : Option BinaryOp :=
  all.find? fun op => op.level == level && op.symbol == sign

theorem ofSymbol?_symbol (op : BinaryOp) : ofSymbol? op.level op.symbol = some op := by
  cases op <;> rfl

theorem eq_some_of_ofSymbol? {n : Nat} {sign : Symbol} {op : BinaryOp}
    (h : ofSymbol? n sign = some op) : op.level = n ∧ op.symbol = sign := by
  simpa using List.find?_some h

end BinaryOp

/-- The material that a face of a mesh literal names: one in scope, or a member of a module. -/
inductive MaterialRef where
  | named (name : String)
  | member (library item : String)
  deriving DecidableEq, Repr

def MaterialRef.text : MaterialRef → String
  | named name => name
  | member library item => s!"{library}.{item}"

structure FaceLiteral where
  indices : List Nat
  material : Option MaterialRef
  deriving DecidableEq, Repr

/-- An entry of a property block: a key with one value, or with a list of them. -/
inductive Property (α : Type) where
  | single (key : String) (value : α)
  | list (key : String) (values : List α)

def Property.key {α : Type} : Property α → String
  | single key _ => key
  | list key _ => key

inductive Expr where
  | number (span : Span) (value : Float)
  | string (span : Span) (text : String)
  | reference (span : Span) (name : String) (members : List String)
  | binary (span : Span) (op : BinaryOp) (left right : Expr)
  | call (span : Span) (receiver : Option String) (callee : String) (args : List Expr)
  | cube (span : Span) (vertices : List String)
  | mesh (span : Span) (vertices : List Vector3) (faces : List FaceLiteral)
  | material (span : Span) (properties : List (Property Expr))
  | modifier (span : Span) (kind : String) (properties : List (Property Expr))
  | group (span : Span) (children : List String)

namespace Expr

def span : Expr → Span
  | number s _ => s
  | string s _ => s
  | reference s .. => s
  | binary s .. => s
  | call s .. => s
  | cube s _ => s
  | mesh s .. => s
  | material s _ => s
  | modifier s .. => s
  | group s _ => s

def operation (left : Expr) (op : BinaryOp) (right : Expr) : Expr :=
  binary (left.span.join right.span) op left right

def negation (minus : Span) (operand : Expr) : Expr := binary minus .sub (number minus 0) operand

end Expr
end SceneScript
