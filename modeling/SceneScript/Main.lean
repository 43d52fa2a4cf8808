import SceneScript.Command.Basic

namespace SceneScript

/-- The reason that the system gives. Some of its calls negate the code. -/
def FileError.ofSystem : IO.Error → FileError
  | .noFileOrDirectory .. => .notFound
  | .inappropriateType _ code reason =>
    if code = 20 ∨ code = 0 - 20 then .notADirectory
    else if code = 21 ∨ code = 0 - 21 then .isADirectory
    else .other reason
  | .permissionDenied _ code _ => .other s!"Permission denied (os error {min code (0 - code)})"
  | e => .other (toString e)

def attempt {α : Type} (action : IO α) : IO (Except FileError α) := do
  try return .ok (← action)
  catch e => return .error (.ofSystem e)

partial def Entry.load (wanted : String) (place : IO.FS.DirEntry) : IO Entry := do
  match ← attempt place.path.readDir with
  | .error reason => return .closed reason
  | .ok places =>
    let mut entries := #[]
    for inner in places do
      let name := FileName.ofString inner.fileName
      match name.visit wanted (← inner.path.isDir) with
      | .pass => continue
      | .enter => entries := entries.push (name, ← Entry.load wanted inner)
      | .take => entries := entries.push (name, .file (← attempt (IO.FS.readBinFile inner.path)))
    return .directory entries.toList

def Line.write : Line → IO Unit
  | .out text => IO.println text
  | .err text => IO.eprintln text

namespace Command

def surroundingsOf (path root wanted : String) (colored : Bool) : IO Surroundings := do
  let bytes ← attempt (IO.FS.readBinFile path)
  let tree ← Entry.load wanted ⟨".", root⟩
  return {
    read := fun _ => bytes.bind Entry.text
    workspace := fun _ wanted => tree.workspace wanted
    input := []
    colored }

partial def converse (colored prompting : Bool) (files : Table String) (s : Session) :
  IO UInt32 := do
  if prompting then
    IO.print (Emphasis.prompt.paint colored "scene>" ++ " ")
    (← IO.getStdout).flush
  let line ← (← IO.getStdin).getLine
  if line.isEmpty then
    Line.write (Session.farewell colored)
    return 0
  let (lines, after) := s.step colored files line
  lines.forM Line.write
  match after with
  | .next s => converse colored prompting files s
  | .closed => return 0
  | .broken => return 101

def execute (colored : Bool) (command : Command) : IO UInt32 := do
  let wanted := Module.Config.standard.naming.fileExtension
  match command with
  | .session options =>
    let s ← surroundingsOf "." "." wanted colored
    let (files, warnings) := workspaceOf s "." wanted
    (Session.greeting colored ++ warnings).forM Line.write
    converse colored (← (← IO.getStdin).isTty) files (.start options.loader)
  | .run path _ | .check path =>
    report (command.perform (← surroundingsOf path (parentPath path) wanted colored))
  | _ => report (command.perform (← surroundingsOf "." "." wanted colored))
where
  report (outcome : Outcome) : IO UInt32 := do
    outcome.lines.forM Line.write
    return UInt32.ofNat outcome.exitCode

end Command
end SceneScript

open SceneScript Command in
def main (args : List String) : IO UInt32 := do
  let colored := isColored (← IO.getEnv "CLICOLOR_FORCE") (← IO.getEnv "NO_COLOR")
    (← IO.getEnv "CLICOLOR") (← (← IO.getStdout).isTty)
  match ofArgs args with
  | .ok command => command.execute colored
  | .error e =>
    (usageLines colored e).forM Line.write
    return 1
