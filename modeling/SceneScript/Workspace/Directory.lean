import SceneScript.Text.Lossy
import SceneScript.Text.Split

namespace SceneScript

/-- Why a file or a directory cannot be read. -/
inductive FileError where
  | notFound
  | notADirectory
  | isADirectory
  | nameTooLong
  | invalidText
  | other (reason : String)
  deriving DecidableEq, Repr

def FileError.message : FileError → String
  | notFound => "No such file or directory (os error 2)"
  | notADirectory => "Not a directory (os error 20)"
  | isADirectory => "Is a directory (os error 21)"
  | nameTooLong => "File name too long (os error 36)"
  | invalidText => "stream did not contain valid UTF-8"
  | other reason => reason

/-- The name of an entry of a directory: bytes, which need not be the text of anything. -/
structure FileName where
  bytes : List UInt8
  deriving DecidableEq, Repr

/-- What a walk through a directory does with an entry. -/
inductive Visit where
  | pass
  | enter
  | take
  deriving DecidableEq, Repr

namespace FileName

def ofString (text : String) : FileName := ⟨text.toUTF8.data.toList⟩

def text? (name : FileName) : Option String := String.fromUTF8? name.bytes.toByteArray

def lossy (name : FileName) : String := String.ofList (Text.lossy 0 name.bytes)

def isHidden (name : FileName) : Bool :=
  (name.text?.bind fun text => text.toList.head?) == some '.'

/-- What follows the last dot of a name, if something stands before that dot. -/
def extension? (name : FileName) : Option FileName :=
  let isOther (byte : UInt8) : Bool := byte != 0x2E
  match name.bytes.reverse.dropWhile isOther with
  | _ :: _ :: _ => some ⟨(name.bytes.reverse.takeWhile isOther).reverse⟩
  | _ => none

def visit (wanted : String) (name : FileName) (isDirectory : Bool) : Visit :=
  if name.isHidden then .pass
  else if isDirectory then .enter
  else if name.extension? = some (ofString wanted) then .take
  else .pass

end FileName

inductive Entry where
  /-- What is no directory, and what comes of reading it. -/
  | file (content : Except FileError ByteArray)
  | directory (entries : List (FileName × Entry))
  /-- A directory that cannot be listed. -/
  | closed (reason : FileError)
  | link (target : Entry)
  /-- Where a link that leads to nothing ends. -/
  | missing (reason : FileError)

namespace Entry

def text (bytes : ByteArray) : Except FileError String :=
  match String.fromUTF8? bytes with
  | some text => .ok text
  | none => .error .invalidText

def read : Entry → Except FileError String
  | file content => content.bind text
  | directory _ => .error .isADirectory
  | closed _ => .error .isADirectory
  | link target => target.read
  | missing reason => .error reason

def isDirectory : Entry → Bool
  | file _ => false
  | directory _ => true
  | closed _ => true
  | link target => target.isDirectory
  | missing _ => false

/-- The most bytes that the system takes for a path. -/
def pathLimit : Nat := 4095

mutual
/-- What is found below a directory whose path, with the slash behind it, has `before` bytes. Behind
a path that is too long nothing is found, not even a directory. -/
def seen (before : Nat) : Entry → Entry
  | file content => file content
  | directory entries => directory (seenAll before entries)
  | closed reason => closed reason
  | link target => link (target.seen before)
  | missing reason => missing reason
def seenAll (before : Nat) : List (FileName × Entry) → List (FileName × Entry)
  | [] => []
  | (name, entry) :: more =>
    let size := before + name.bytes.length
    (name, if size ≤ pathLimit then entry.seen (size + 1) else missing .nameTooLong) ::
      seenAll before more
end

def atEnd : Entry → Entry × Bool
  | link target => (target.atEnd.1, true)
  | entry => (entry, false)

/-- Follows the segments of a path; `above` are the directories around the one it stands in. Those
around the end of a link are not known. -/
def follow (above : List Entry) (current : Entry) : List String → Except FileError Entry
  | [] => .ok current
  | segment :: more =>
    let (current, isLinked) := current.atEnd
    let above := if isLinked then [] else above
    match current with
    | directory entries =>
      if segment = "" ∨ segment = "." then follow above current more
      else if segment = ".." then
        match above with
        | parent :: others => follow others parent more
        | [] => follow [] (.directory []) more
      else if 255 < segment.utf8ByteSize then .error .nameTooLong
      else match entries.find? (·.1 == FileName.ofString segment) with
        | some (_, entry) => follow (current :: above) entry more
        | none => .error .notFound
    | closed reason => .error reason
    | missing reason => .error reason
    | _ => .error .notADirectory

def segments (path : String) : List String := (Text.split '/' path.toList).map String.ofList

def sizeBefore (path : String) : Nat := path.utf8ByteSize + if path.toList.getLast? =
    some '/' then 0 else 1

/-- What a path leads to from here, and what is found below it. Of the directories around this tree
nothing is known: they are there, and they are empty. -/
def find (root : Entry) (path : String) : Except FileError Entry :=
  if pathLimit < path.utf8ByteSize then .error .nameTooLong
  else (fun entry => entry.seen (sizeBefore path)) <$> match segments path with
    | [""] => .error .notFound
    | "" :: parts => follow [] (.directory []) parts
    | parts => follow [] root parts

def entries : Entry → List (FileName × Entry)
  | directory entries => entries
  | _ => []

def insertAt (bytes : Option ByteArray) : List String → Entry → Entry
  | [], entry => entry
  | [""], entry => entry
  | [segment], entry =>
    let name := FileName.ofString segment
    match bytes with
    | some bytes => .directory (entry.entries.filter (·.1 != name) ++ [(name, .file (.ok bytes))])
    | none => .directory entry.entries
  | segment :: more, entry =>
    let name := FileName.ofString segment
    let inner := match entry.entries.find? (·.1 == name) with
      | some (_, inner) => inner
      | none => .directory []
    .directory (entry.entries.filter (·.1 != name) ++ [(name, insertAt bytes more inner)])

end Entry

def fileName (path : String) : String := String.ofList ((Text.split '/' path.toList).getLastD [])

def dropTrailing : List Char → List Char
  | '/' :: rest => dropTrailing rest
  | '.' :: '/' :: rest => dropTrailing ('/' :: rest)
  | text => text

def parentPath (path : String) : String :=
  let before := path.toList.reverse.dropWhile (· ≠ '/')
  match (dropTrailing before).reverse with
  | [] => if before.isEmpty then "." else "/"
  | parent => String.ofList parent

end SceneScript
