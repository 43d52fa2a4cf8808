import SceneScript.Table
import SceneScript.Text.Split

namespace SceneScript.Module

structure Naming where
  /-- The file extension of the language, without its dot. -/
  fileExtension : String
  /-- The directory that is searched beside the workspace itself. -/
  directory : String

def Naming.standard : Naming := ⟨"scene", "modules"⟩

def isAddress (source : String) : Bool :=
  "http://".toList.isPrefixOf source.toList || "https://".toList.isPrefixOf source.toList

def slashed (name : String) : String := name.map fun c => if c = '.' then '/' else c

def Naming.candidatesFor (n : Naming) (base : String) : List String :=
  [base, s!"{base}.{n.fileExtension}", s!"{n.directory}/{base}",
    s!"{n.directory}/{base}.{n.fileExtension}"]

/-- The files that a name may stand for: those of the name itself, then those of its path. -/
def Naming.candidates (n : Naming) (name : String) : List String :=
  n.candidatesFor name ++ if slashed name = name then [] else n.candidatesFor (slashed name)

def Naming.resolve? (n : Naming) (name : String) (files : Table String) :
    Option (String × String) :=
  (n.candidates name).findSome? fun file => (files.get? file).map (file, ·)

def lastPiece (separator : Char) (text : List Char) : List Char :=
  (Text.split separator text).getLastD []

def dropEnding (ending text : List Char) : List Char :=
  if ending.isSuffixOf text then text.take (text.length - ending.length) else text

/-- The name that a module is bound to unless the import gives one: the last segment of its
source, without the file extension and what stands before a dot. -/
def Naming.bareName (n : Naming) (source : String) : String :=
  let trimmed := (source.toList.reverse.dropWhile (· = '/')).reverse
  let segment := dropEnding ('.' :: n.fileExtension.toList) (lastPiece '/' trimmed)
  String.ofList (lastPiece '.' segment)

/-- The program that stands in for a remote module that cannot be had. It prints that, and binds
nothing. -/
def fallbackSource (address : String) : String :=
  "console.print(\"Could not load module " ++ address.map
    (fun c => if c = '"' then '\'' else c) ++ "\")"

end SceneScript.Module
