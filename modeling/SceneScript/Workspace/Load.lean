import SceneScript.Workspace.Directory
import SceneScript.Table

namespace SceneScript

namespace Entry

def pathIn (directory name : String) : String :=
  if directory = "" then name else s!"{directory}/{name}"

mutual
def collect (wanted path : String) : Entry → Except FileError (List (String × String))
  | file _ => .error .notADirectory
  | directory entries => collectAll wanted path entries
  | closed reason => .error reason
  | link target => collect wanted path target
  | missing reason => .error reason
def collectAll (wanted path : String) :
    List (FileName × Entry) → Except FileError (List (String × String))
  | [] => .ok []
  | (name, entry) :: more => do
    let here := pathIn path name.lossy
    let first ← match name.visit wanted entry.isDirectory with
      | .pass => .ok []
      | .enter => collect wanted here entry
      | .take => entry.read.map fun text => [(here, text)]
    return first ++ (← collectAll wanted path more)
end

/-- The workspace of a directory. Of files that are written alike, the last is in it. -/
def workspace (wanted : String) (root : Entry) : Except FileError (Table String) :=
  (root.collect wanted "").map .ofList

end Entry
end SceneScript
