import SceneScript.Command.Session
import SceneScript.Workspace.Load

namespace SceneScript

/-- Options of the commands that run programs. -/
structure Options where
  json : Bool
  offline : Bool
  seed : Option UInt64
  moduleDirectory : Option String

def Options.none : Options := ⟨false, false, .none, .none⟩

inductive UsageError where
  | missingFile (usage : Bool)
  | badSeed
  | missingDirectory
  | unknownOption (option : String)
  | unknownCommand (name : String)
  deriving DecidableEq, Repr

inductive Command where
  | help
  | version
  | run (path : String) (options : Options)
  | check (path : String)
  | session (options : Options)

namespace Options

def seed? (text : String) : Option UInt64 :=
  let digits := match text.toList with
    | '+' :: rest => rest
    | rest => rest
  if digits.isEmpty || !digits.all Char.isDigit then .none
  else
    let n := Number.ofDigits digits
    if n < Nat.pow 2 64 then some (UInt64.ofNat n) else .none

def ofArgs (o : Options) : List String → Except UsageError Options
  | [] => .ok o
  | "--json" :: more => ofArgs { o with json := true } more
  | "--offline" :: more => ofArgs { o with offline := true } more
  | ["--seed"] => .error .badSeed
  | "--seed" :: value :: more =>
    match seed? value with
    | some seed => ofArgs { o with seed := some seed } more
    | .none => .error .badSeed
  | ["--module-dir"] => .error .missingDirectory
  | "--module-dir" :: directory :: more => ofArgs { o with moduleDirectory := some directory } more
  | other :: _ => .error (.unknownOption other)

def config (o : Options) : Module.Config :=
  let standard := Module.Config.standard
  { standard with
    naming := { standard.naming with directory := o.moduleDirectory.getD standard.naming.directory }
    seed := o.seed.getD standard.seed }

/-- Remote modules cannot be had from the command line. -/
def loader (o : Options) : Module.Loader := .new o.config .offline

end Options

namespace Command

def isScene (arg : String) : Bool := ".scene".toList.isSuffixOf arg.toList

def ofArgs : List String → Except UsageError Command
  | [] => .ok .help
  | "run" :: path :: more => return .run path (← Options.none.ofArgs more)
  | ["run"] => .error (.missingFile true)
  | "check" :: path :: _ => .ok (.check path)
  | ["check"] => .error (.missingFile false)
  | "repl" :: more => return .session (← Options.none.ofArgs more)
  | first :: more =>
    if ["help", "--help", "-h"].contains first then .ok .help
    else if ["version", "--version", "-v"].contains first then .ok .version
    else if isScene first then return .run first (← Options.none.ofArgs more)
    else .error (.unknownCommand first)

structure Surroundings where
  /-- The text of a file. -/
  read : String → Except FileError String
  /-- The files with an extension in a directory. -/
  workspace : String → String → Except FileError (Table String)
  /-- The lines of the input. -/
  input : List String
  colored : Bool

/-- What a command prints, and its exit code. -/
structure Outcome where
  lines : List Line
  exitCode : Nat

namespace Outcome

def stream (select : Line → Option String) (o : Outcome) : String :=
  String.join ((o.lines.filterMap select).map (· ++ "\n"))

def out (o : Outcome) : String := o.stream Line.out?

def err (o : Outcome) : String := o.stream Line.err?

def broken (lines : List Line) : Outcome := ⟨lines, 101⟩

end Outcome

def errorLine (colored : Bool) (message : String) : Line :=
  .err (Emphasis.failure.paint colored "error" ++ ": " ++ message)

def helpLines (colored : Bool) : List Line :=
  let heading := Emphasis.warning.paint colored
  [.out (Emphasis.title.paint colored "scenelang"),
    .out "A scene-description language",
    .out (Emphasis.accent.paint colored "Version" ++ s!" {SceneScript.version}\n"),
    .out (heading "USAGE:"),
    .out "  scenelang run <file.scene>     Compile a file and print logs and errors",
    .out "  scenelang check <file.scene>   Parse a file without running it",
    .out "  scenelang repl                 Start interactive REPL",
    .out "  scenelang help                 Show this help message",
    .out "  scenelang version              Show version\n",
    .out (heading "OPTIONS:"),
    .out "  --json               Print the scene graph as JSON",
    .out "  --offline            Never fetch URL imports",
    .out "  --seed <n>           Seed for the random library",
    .out "  --module-dir <dir>   Directory searched for local modules\n",
    .out (heading "LANGUAGE FEATURES:"),
    .out "  box = cube(\"0,0,0\":...)      Cuboid from 8 vertices",
    .out "  red = material \x7b color = RED \x7d",
    .out "  big = modifier.scale \x7b base = box, factor = 2 \x7d",
    .out "  scene = group[box, big]      Parent objects under a group",
    .out "  box.pos = 1, 0, 0            Mutate a transform",
    .out "  console.print(box.pos)       Log a value"]

def usageLines (colored : Bool) : UsageError → List Line
  | .missingFile usage =>
    errorLine colored "missing file argument" ::
      if usage then [.err
        "Usage: scenelang run <file.scene> [--json] [--offline] [--seed N] [--module-dir DIR]"]
      else []
  | .badSeed => [errorLine colored "--seed needs a non-negative integer"]
  | .missingDirectory => [errorLine colored "--module-dir needs a directory"]
  | .unknownOption option => [errorLine colored s!"unknown option '{option}'"]
  | .unknownCommand name => errorLine colored s!"unknown command '{name}'" :: helpLines colored

def unreadable (s : Surroundings) (path : String) (e : FileError) : Outcome :=
  ⟨[errorLine s.colored s!"cannot read file '{path}': {e.message}"], 1⟩

/-- The workspace of a directory. One that cannot be read is empty, with a warning. -/
def workspaceOf (s : Surroundings) (root wanted : String) : Table String × List Line :=
  match s.workspace root wanted with
  | .ok files => (files, [])
  | .error e =>
    (.empty, [.err (Emphasis.warning.paint s.colored "warning" ++
      s!": cannot read workspace '{root}': {e.message}")])

def sceneLines (colored json : Bool) (scene : Scene) : List Line :=
  if json then [.out (Scene.written scene)]
  else if scene.isEmpty then []
  else [.out (Emphasis.faint.paint colored "objects:" ++ " " ++ ", ".intercalate scene.keys)]

/-- Runs a file in the workspace of its directory, which knows it by its name if it holds it. -/
def performRun (s : Surroundings) (path : String) (options : Options) : Outcome :=
  match s.read path with
  | .error e => unreadable s path e
  | .ok source =>
    let loader := options.loader
    let (files, warnings) := workspaceOf s (parentPath path) loader.config.naming.fileExtension
    let name := fileName path
    let compiled :=
      if files.contains name then loader.compileRoot name source files
        else loader.compile source files
    match compiled with
    | .error _ => .broken warnings
    | .ok (result, _) =>
      ⟨warnings ++ result.show s.colored 0 0 ++ sceneLines s.colored options.json result.scene,
        if result.fatalErrors.isEmpty then 0 else 1⟩

def performCheck (s : Surroundings) (path : String) : Outcome :=
  match s.read path with
  | .error e => unreadable s path e
  | .ok source =>
    match Program.ofSource source with
    | .ok p =>
      ⟨[.out (Emphasis.success.paint s.colored "ok" ++ s!" {p.statements.length} statement(s)")], 0⟩
    | .error d => ⟨[.err (d.withSource source).text], 1⟩

def performSession (s : Surroundings) (options : Options) : Outcome :=
  let loader := options.loader
  let (files, warnings) := workspaceOf s "." loader.config.naming.fileExtension
  let (lines, broken) := (Session.start loader).run s.colored files s.input
  let shown := Session.greeting s.colored ++ warnings ++ lines
  if broken then .broken shown else ⟨shown, 0⟩

def perform (s : Surroundings) : Command → Outcome
  | help => ⟨helpLines s.colored, 0⟩
  | version => ⟨[.out s!"scenelang {SceneScript.version}"], 0⟩
  | run path options => performRun s path options
  | check path => performCheck s path
  | session options => performSession s options

def performArgs (s : Surroundings) (args : List String) : Outcome :=
  match ofArgs args with
  | .ok command => command.perform s
  | .error e => ⟨usageLines s.colored e, 1⟩

end Command

def Entry.surroundings (root : Entry) (input : List String) (colored : Bool) :
    Command.Surroundings where
  read path := do (← root.find path).read
  workspace path wanted := do (← root.find path).workspace wanted
  input := input
  colored := colored

end SceneScript
