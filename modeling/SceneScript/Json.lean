import SceneScript.Number.Written

namespace SceneScript

inductive Json where
  | null
  | bool (value : Bool)
  | int (value : Nat)
  | float (value : Float)
  | string (text : String)
  | array (elements : List Json)
  | object (members : List (String × Json))

namespace Json

/-- A number that is not finite has no written form and becomes `null`. -/
def ofFloat (x : Float) : String :=
  match Number.View.ofFloat x with
  | .finite d => Number.Style.exchange.finite d
  | _ => "null"

def hexDigit (n : Nat) : Char := (Nat.toDigits 16 n).getLastD '0'

def hexByte (n : Nat) : List Char := [hexDigit (n / 16), hexDigit n]

def escape (c : Char) : List Char :=
  match c with
  | '"' => ['\\', '"']
  | '\\' => ['\\', '\\']
  | '\n' => ['\\', 'n']
  | '\t' => ['\\', 't']
  | '\r' => ['\\', 'r']
  | '\x08' => ['\\', 'b']
  | '\x0c' => ['\\', 'f']
  | c => if c.toNat < 0x20 then ['\\', 'u', '0', '0'] ++ hexByte c.toNat else [c]

def quote (text : String) : String :=
  "\"" ++ String.ofList (text.toList.flatMap escape) ++ "\""

def newline (depth : Nat) : String := "\n" ++ String.ofList (List.replicate (2 * depth) ' ')

mutual
def write (depth : Nat) : Json → String
  | null => "null"
  | bool value => if value then "true" else "false"
  | int value => toString value
  | float value => ofFloat value
  | string text => quote text
  | array [] => "[]"
  | array (first :: more) =>
    "[" ++ newline (depth + 1) ++ write (depth + 1) first ++ writeElements (depth + 1) more ++
      newline depth ++ "]"
  | object [] => "\x7b\x7d"
  | object ((name, first) :: more) =>
    "\x7b" ++ newline (depth + 1) ++ quote name ++ ": " ++ write (depth + 1) first ++
      writeMembers (depth + 1) more ++ newline depth ++ "\x7d"
def writeElements (depth : Nat) : List Json → String
  | [] => ""
  | first :: more => "," ++ newline depth ++ write depth first ++ writeElements depth more
def writeMembers (depth : Nat) : List (String × Json) → String
  | [] => ""
  | (name, first) :: more =>
    "," ++ newline depth ++ quote name ++ ": " ++ write depth first ++ writeMembers depth more
end

def pretty (json : Json) : String := json.write 0

end Json
end SceneScript
