namespace SceneScript.Text

def firstChar? (bytes : List UInt8) : Option Char := bytes.toByteArray.utf8DecodeChar? 0

def isContinuation (byte : UInt8) : Bool := 0x80 ≤ byte && byte ≤ 0xBF

def opensChar (first second : UInt8) : Bool :=
  if first = 0xE0 then 0xA0 ≤ second && second ≤ 0xBF
  else if first = 0xED then 0x80 ≤ second && second ≤ 0x9F
  else if first = 0xF0 then 0x90 ≤ second && second ≤ 0xBF
  else if first = 0xF4 then 0x80 ≤ second && second ≤ 0x8F
  else 0xE0 ≤ first && first ≤ 0xF4 && isContinuation second

/-- Of bytes that start with no character, how many are one mistake: as many as some character
starts with, and one at least. -/
def brokenSize : List UInt8 → Nat
  | first :: second :: third :: _ =>
    if opensChar first second then if 0xF0 ≤ first && isContinuation third then 3 else 2 else 1
  | [first, second] => if opensChar first second then 2 else 1
  | _ => 1

/-- The text of bytes after the first `skipped`, with a replacement character for each mistake. -/
def lossy : Nat → List UInt8 → List Char
  | _, [] => []
  | skipped + 1, _ :: rest => lossy skipped rest
  | 0, byte :: rest =>
    match firstChar? (byte :: rest) with
    | some c => c :: lossy (c.utf8Size - 1) rest
    | none => '\uFFFD' :: lossy (brokenSize (byte :: rest) - 1) rest

end SceneScript.Text
