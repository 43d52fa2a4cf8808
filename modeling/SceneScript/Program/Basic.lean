import SceneScript.Program.Expr

namespace SceneScript

/-- Three expressions for the numbers of a vector. -/
structure Triple where
  x : Expr
  y : Expr
  z : Expr

inductive AssignedValue where
  | expr (value : Expr)
  | triple (coords : Triple)
  /-- The position of another object, and an offset from it. -/
  | relative (anchor : String) (offset : Option Triple)

/-- An import of a module, or of some of its names. -/
structure Import where
  span : Span
  names : List String
  source : String
  boundAs : Option String

inductive Stmt where
  | imports (declaration : Import)
  /-- A confined binding belongs to the innermost block. -/
  | assign (span : Span) (name : String) (confined : Bool) (value : Expr)
  | setProperty (span : Span) (target : String) (child : Option String) (property : String)
      (value : AssignedValue)
  | callMethod (span : Span) (target method : String) (args : List Expr) (excluded : Option String)
  | print (span : Span) (value : Expr)
  | branch (span : Span) (condition : Expr) (thenBlock : List Stmt) (elseBlock : Option (List Stmt))
  | whileLoop (span : Span) (condition : Expr) (body : List Stmt)
  /-- Counts from `start` to `stop`, both included. -/
  | forLoop (span : Span) (counter : String) (start stop : Expr) (step : Option Expr)
      (body : List Stmt)

def Stmt.span : Stmt → Span
  | imports declaration => declaration.span
  | assign s .. => s
  | setProperty s .. => s
  | callMethod s .. => s
  | print s _ => s
  | branch s .. => s
  | whileLoop s .. => s
  | forLoop s .. => s

structure Program where
  statements : List Stmt

def Program.imports (p : Program) : List Import :=
  p.statements.filterMap fun
    | .imports declaration => some declaration
    | _ => none

end SceneScript
