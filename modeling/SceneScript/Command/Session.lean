import SceneScript.Command.Paint
import SceneScript.Text.Erase
import SceneScript.Module.Compile
import SceneScript.Scene.Written

namespace SceneScript

/-- A line for one of the two output streams. -/
inductive Line where
  | out (text : String)
  | err (text : String)
  deriving DecidableEq, Repr

def Line.out? : Line → Option String
  | out text => some text
  | err _ => none

def Line.err? : Line → Option String
  | out _ => none
  | err text => some text

def version : String := "0.1.0"

def showNotice (colored : Bool) (text : String) : Line :=
  .err ((if Notice.isWarningText text then Emphasis.warning else Emphasis.failure).paint
    colored text)

def Result.show (r : Result) (colored : Bool) (logsSeen errorsSeen : Nat) : List Line :=
  (r.logs.drop logsSeen).map .out ++ (r.errors.drop errorsSeen).map (showNotice colored)

structure Session where
  /-- The accepted lines. -/
  source : String
  /-- What the accepted lines compiled to. -/
  last : Result
  loader : Module.Loader

inductive SessionStep where
  | next (s : Session)
  | closed
  | broken

namespace Session

def start (loader : Module.Loader) : Session := ⟨"", default, loader⟩

def greeting (colored : Bool) : List Line :=
  let title := Emphasis.title.paint colored "scenelang"
  let number := Emphasis.accent.paint colored version
  let subtitle := Emphasis.faint.paint colored "A scene-description language"
  let word := Emphasis.warning.paint colored
  [.out (title ++ " " ++ number ++ " - " ++ subtitle),
    .out ("Type " ++ word "exit" ++ " to exit, " ++ word "help" ++ " for help\n")]

def farewell (colored : Bool) : Line := .out (Emphasis.accent.paint colored "Goodbye!")

def help (colored : Bool) : List Line :=
  [.out (Emphasis.warning.paint colored "REPL Commands:"),
    .out "  exit, quit   Exit the REPL",
    .out "  clear        Forget every statement entered so far",
    .out "  scene        Print the current scene graph as JSON",
    .out "  help         Show this help\n",
    .out (Emphasis.warning.paint colored "Language Examples:"),
    .out "  import math",
    .out "  r = math.sqrt(2)",
    .out "  for i = 1 to 3 \x7b console.print(i * r) \x7d",
    .out "  m = mesh \x7b vertices = [0,0,0; 1,0,0; 0,1,0;] faces = [0,1,2;] \x7d",
    .out "  m.rot = 0, 45, 0"]

def enter (s : Session) (colored : Bool) (files : Table String) (line : String) :
    List Line × SessionStep :=
  let candidate := s.source ++ line ++ "\n"
  match Program.ofSource candidate with
  | .error d =>
    ([.err (Emphasis.failure.paint colored (d.withSource candidate).text)], .next s)
  | .ok _ =>
    match s.loader.compile candidate files with
    | .ok (result, loader) =>
      (result.show colored s.last.logs.length s.last.notices.length,
        .next ⟨candidate, result, loader⟩)
    | .error _ => ([], .broken)

def answer (s : Session) (colored : Bool) (files : Table String) (line : String) :
    List Line × SessionStep :=
  match line with
  | "" => ([], .next s)
  | "exit" => ([farewell colored], .closed)
  | "quit" => ([farewell colored], .closed)
  | "help" => (help colored, .next s)
  | "clear" =>
    ([.out (Emphasis.faint.paint colored "Session cleared.")],
      .next { s with source := "", last := default })
  | "scene" => ([.out (Emphasis.accent.paint colored (Scene.written s.last.scene))], .next s)
  | line => s.enter colored files line

def step (s : Session) (colored : Bool) (files : Table String) (input : String) :
    List Line × SessionStep :=
  match Text.erase? input.toList with
  | some typed => s.answer colored files (String.ofList (Text.trim typed))
  | none => ([], .broken)

/-- Answers lines up to the end of the input, and says whether the session broke. -/
def run (s : Session) (colored : Bool) (files : Table String) : List String → List Line × Bool
  | [] => ([farewell colored], false)
  | line :: more =>
    let (shown, after) := s.step colored files line
    match after with
    | .next s =>
      let (rest, broken) := run s colored files more
      (shown ++ rest, broken)
    | .closed => (shown, false)
    | .broken => (shown, true)

end Session
end SceneScript
