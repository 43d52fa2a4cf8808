import SceneScript.Text.ClusterClass

namespace SceneScript.Text

namespace ClusterClass

def isControl : ClusterClass → Bool
  | carriageReturn => true
  | lineFeed => true
  | control => true
  | _ => false

def isExtending : ClusterClass → Bool
  | extender => true
  | linker => true
  | nonJoiner => true
  | _ => false

def inSyllable : ClusterClass → ClusterClass → Bool
  | leading, leading => true
  | leading, vowel => true
  | leading, openSyllable => true
  | leading, closedSyllable => true
  | openSyllable, vowel => true
  | openSyllable, trailing => true
  | vowel, vowel => true
  | vowel, trailing => true
  | closedSyllable, trailing => true
  | trailing, trailing => true
  | _, _ => false

end ClusterClass

/-- How far a conjunct has come: a consonant that marks may follow, then a linker among them. -/
inductive Conjunct where
  | none
  | consonant
  | linked
  deriving DecidableEq

/-- What counts of a text for whether the next character belongs to its last one. -/
structure ClusterContext where
  last : ClusterClass
  /-- An odd number of regional letters stands at the end. -/
  oddRegional : Bool
  /-- A pictograph, and what extends it, stands at the end. -/
  pictograph : Bool
  /-- A pictograph, what extends it and a joiner stand at the end. -/
  joined : Bool
  conjunct : Conjunct

namespace ClusterContext

def start : ClusterContext := ⟨.control, false, false, false, .none⟩

def nextConjunct (s : Conjunct) : ClusterClass → Conjunct
  | .consonant => .consonant
  | .linker => if s = .none then .none else .linked
  | .extender => s
  | .joiner => s
  | _ => .none

def next (s : ClusterContext) (k : ClusterClass) : ClusterContext where
  last := k
  oddRegional := k = .regional && !s.oddRegional
  pictograph := k = .pictograph || (k.isExtending && s.pictograph)
  joined := k = .joiner && s.pictograph
  conjunct := nextConjunct s.conjunct k

def joins (s : ClusterContext) (k : ClusterClass) : Bool :=
  if s.last = .carriageReturn ∧ k = .lineFeed then true
  else if s.last.isControl || k.isControl then false
  else ClusterClass.inSyllable s.last k || k.isExtending || k = .joiner || k = .spacing ||
    s.last = .prepended || (k = .consonant && s.conjunct = .linked) ||
    (k = .pictograph && s.joined) || (k = .regional && s.oddRegional)

end ClusterContext

def splitClusters (s : ClusterContext) : List Char → List Char × List (List Char)
  | [] => ([], [])
  | c :: rest =>
    let (more, others) := splitClusters (s.next (.of c)) rest
    if s.joins (.of c) then (c :: more, others) else ([], (c :: more) :: others)

def clusters (text : List Char) : List (List Char) := (splitClusters .start text).2

end SceneScript.Text
