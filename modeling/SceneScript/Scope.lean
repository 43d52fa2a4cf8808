import SceneScript.Value

namespace SceneScript

/-- How a binding came to be, which decides whether it is exported. -/
inductive Origin where
  /-- A constant or an import: hidden until it is assigned. -/
  | seeded
  /-- Confined to its frame, and always hidden. -/
  | confined
  | assigned
  deriving DecidableEq, Repr

structure Binding where
  value : Value
  origin : Origin

abbrev Frame := Table Binding

/-- A binding after an assignment to it. A seeded one is published. -/
def Binding.assign (b : Binding) (value : Value) : Binding :=
  ⟨value, if b.origin = .seeded then .assigned else b.origin⟩

structure Scope where
  file : Frame
  /-- The frames of the blocks, innermost first. -/
  blocks : List Frame

namespace Scope

def empty : Scope := ⟨.empty, []⟩

instance : Inhabited Scope := ⟨empty⟩

def frames (s : Scope) : List Frame := s.blocks ++ [s.file]

def push (s : Scope) : Scope := { s with blocks := .empty :: s.blocks }

/-- Leaves the innermost block. The file frame stays. -/
def pop (s : Scope) : Scope := { s with blocks := s.blocks.tail }

/-- Binds a name in the file frame, hidden from importers. -/
def seed (s : Scope) (name : String) (value : Value) : Scope :=
  { s with file := s.file.insert name ⟨value, .seeded⟩ }

/-- Binds a name in the innermost frame. -/
def confine (s : Scope) (name : String) (value : Value) : Scope :=
  match s.blocks with
  | [] => { s with file := s.file.insert name ⟨value, .confined⟩ }
  | inner :: outer => { s with blocks := inner.insert name ⟨value, .confined⟩ :: outer }

/-- Assigns to the innermost block frame that binds the name, if there is one. -/
def assignBlocks? (name : String) (value : Value) : List Frame → Option (List Frame)
  | [] => none
  | inner :: outer =>
    match inner.get? name with
    | some b => some (inner.insert name (b.assign value) :: outer)
    | none => (assignBlocks? name value outer).map (inner :: ·)

def assignFile (frame : Frame) (name : String) (value : Value) : Frame :=
  match frame.get? name with
  | some b => frame.insert name (b.assign value)
  | none => frame.insert name ⟨value, .assigned⟩

def assign (s : Scope) (name : String) (value : Value) : Scope :=
  match assignBlocks? name value s.blocks with
  | some blocks => { s with blocks := blocks }
  | none => { s with file := assignFile s.file name value }

def lookup? (s : Scope) (name : String) : Option Value :=
  (s.frames.findSome? (·.get? name)).map (·.value)

def exports (s : Scope) : Exports :=
  s.file.filterMap fun _ b => if b.origin = .assigned then some b.value else none

def colors : List (String × String) :=
  [("RED", "#ff0000"), ("GREEN", "#00ff00"), ("BLUE", "#0000ff"), ("WHITE", "#ffffff"),
    ("BLACK", "#000000"), ("YELLOW", "#ffff00"), ("CYAN", "#00ffff"), ("MAGENTA", "#ff00ff"),
    ("ORANGE", "#ffa500"), ("GRAY", "#808080")]

def constants : List (String × Value) :=
  [("PI", .number 3.141592653589793), ("TAU", .number 6.283185307179586),
    ("E", .number 2.718281828459045), ("true", .bool true), ("false", .bool false), ("nil", .nil),
    ("ORIGIN", .vector .zero)] ++
  colors.map (fun color => (color.1, .string color.2)) ++
  [("X", .string "x"), ("Y", .string "y"), ("Z", .string "z")]

def seedAll (s : Scope) (bindings : List (String × Value)) : Scope :=
  bindings.foldl (fun s b => s.seed b.1 b.2) s

def standard : Scope := empty.seedAll constants

end Scope
end SceneScript
