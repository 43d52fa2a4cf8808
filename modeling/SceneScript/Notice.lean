import SceneScript.Diagnostic

namespace SceneScript

inductive Concern where
  | unresolvedMaterial (cause : Cause)
  | notAMaterial (shown : String)
  | faceWithoutMaterial (reference : String)
  | fallback (cause : Cause)
  deriving DecidableEq, Repr

def Concern.message : Concern → String
  | unresolvedMaterial cause => "material could not be resolved: " ++ cause.message
  | notAMaterial shown => s!"'{shown}' is not a material"
  | faceWithoutMaterial reference =>
    s!"material '{reference}' could not be resolved; face left without material"
  | fallback cause => cause.message ++ "; using fallback module"

inductive Notice where
  | error (diagnostic : Diagnostic)
  | warning (line : Nat) (concern : Concern)
  | missingModule (line : Nat) (name : String)
  | forwarded (source : String) (notice : Notice)
  deriving DecidableEq, Repr

namespace Notice

def warningMark : String := "Warning: "

def text : Notice → String
  | error diagnostic => diagnostic.text
  | warning line concern => warningMark ++ s!"[line {line}] " ++ concern.message
  | missingModule line name => warningMark ++ (Cause.moduleNotFound name).message ++
    s!" (line {line})"
  | forwarded source notice => s!"[{source}] " ++ notice.text

def isWarningText (text : String) : Bool := warningMark.toList.isPrefixOf text.toList

def isWarning (n : Notice) : Bool := isWarningText n.text

end Notice
end SceneScript
