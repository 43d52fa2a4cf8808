import SceneScript.Span
import SceneScript.Text.Split

namespace SceneScript

/-- What can be wrong with a program, its run or its modules. -/
inductive Cause where
  | unexpectedToken (token : String)
  | expectedToken (wanted got : String)
  | expectedExpression
  | invalidFace (reason : String)
  | propertyArity (names values : Nat)
  | undefinedVariable (name : String)
  | undefinedMember (owner member : String)
  | typeMismatch (expected got : String)
  | divisionByZero
  | notCallable (name : String)
  | missingObject (name : String)
  | invalidCube (count : Nat)
  | invalidVertex (text : String)
  | unknownModifier (kind : String)
  | unknownProperty (name : String)
  | missingProperty (name : String)
  | faceIndex (index count : Nat)
  | notAChild (child group : String)
  | iterationLimit (most : Nat)
  | library (function reason : String)
  | moduleNotFound (name : String)
  | importCycle (chain : List String)
  | fetchFailed (url reason : String)
  deriving DecidableEq, Repr

namespace Cause

def message : Cause → String
  | unexpectedToken token => s!"unexpected token '{token}'"
  | expectedToken wanted got => s!"{wanted}, got '{got}'"
  | expectedExpression => "expected expression"
  | invalidFace reason => s!"invalid face: {reason}"
  | propertyArity names values => s!"{names} property names but {values} values"
  | undefinedVariable name => s!"undefined variable '{name}'"
  | undefinedMember owner member => s!"'{owner}' has no member '{member}'"
  | typeMismatch expected got => s!"type mismatch: expected {expected}, got {got}"
  | divisionByZero => "division by zero"
  | notCallable name => s!"'{name}' is not callable"
  | missingObject name => s!"no scene object named '{name}'"
  | invalidCube count => s!"cube needs exactly 8 vertices, got {count}"
  | invalidVertex text => s!"invalid vertex '{text}'"
  | unknownModifier kind => s!"unknown modifier '{kind}'"
  | unknownProperty name => s!"unknown property '{name}'"
  | missingProperty name => s!"missing required property '{name}'"
  | faceIndex index count => s!"face index {index} out of range for {count} vertices"
  | notAChild child group => s!"'{child}' is not a child of group '{group}'"
  | iterationLimit most => s!"loop exceeded {most} iterations and was stopped"
  | library function reason => s!"{function}: {reason}"
  | moduleNotFound name => s!"module '{name}' not found"
  | importCycle chain => "import cycle detected: " ++ " -> ".intercalate chain
  | fetchFailed url reason => s!"failed to fetch '{url}': {reason}"

def isSyntax : Cause → Bool
  | unexpectedToken _ => true
  | expectedToken .. => true
  | expectedExpression => true
  | invalidFace _ => true
  | propertyArity .. => true
  | _ => false

def label (c : Cause) : String := if c.isSyntax then "Syntax error" else "Error"

end Cause

/-- A cause, its place if it is known, and the source line of that place once one was looked up. -/
structure Diagnostic where
  cause : Cause
  span : Option Span
  sourceLine : Option String
  deriving DecidableEq, Repr

namespace Diagnostic

def of (cause : Cause) : Diagnostic := ⟨cause, none, none⟩

def placed (cause : Cause) (span : Span) : Diagnostic := ⟨cause, some span, none⟩

def orSpan (d : Diagnostic) (span : Span) : Diagnostic :=
  { d with span := some (d.span.getD span) }

/-- Looks up the line that the place is on. A place outside the source leaves the diagnostic
as it is. -/
def withSource (d : Diagnostic) (source : String) : Diagnostic :=
  match d.span with
  | none => d
  | some span =>
    let lines := Text.lines source.toList
    match if span.line = 0 then none else lines[span.line - 1]? with
    | some line => { d with sourceLine := some (String.ofList line) }
    | none => d

/-- The line of a diagnostic and, below it, a caret under the column of its place. -/
def excerpt (line : String) (span : Span) : String :=
  "\n  | " ++ line ++ "\n  | " ++ String.ofList (List.replicate (span.column - 1) ' ') ++ "^"

def text (d : Diagnostic) : String :=
  let finding := d.cause.label ++ ": " ++ d.cause.message
  match d.span with
  | none => finding
  | some span =>
    s!"[line {span.line}:{span.column}] " ++ finding ++
      match d.sourceLine with
      | some line => excerpt line span
      | none => ""

end Diagnostic
end SceneScript
