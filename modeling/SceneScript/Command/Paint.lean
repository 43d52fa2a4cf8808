import SceneScript.Text.Split

namespace SceneScript

inductive Emphasis where
  | failure
  | warning
  | success
  | accent
  | faint
  | title
  | prompt

namespace Emphasis

def codes : Emphasis → String
  | failure => "31"
  | warning => "33"
  | success => "32"
  | accent => "36"
  | faint => "2"
  | title => "1;36"
  | prompt => "1;32"

def opening (e : Emphasis) : List Char := "\x1b[".toList ++ e.codes.toList ++ ['m']

def closing : List Char := "\x1b[0m".toList

/-- Turns the emphasis on again after each sequence in a text that turns it off. -/
def reopen (e : Emphasis) : List Char → List Char
  | '\x1b' :: '[' :: '0' :: 'm' :: rest => closing ++ e.opening ++ e.reopen rest
  | c :: rest => c :: e.reopen rest
  | [] => []

def paint (e : Emphasis) (colored : Bool) (text : String) : String :=
  if colored then String.ofList (e.opening ++ e.reopen text.toList ++ closing) else text

end Emphasis

/-- Whether text is coloured, by the settings that ask for it (`force`), against it (`plain`) and
for it on terminals (`wanted`). -/
def isColored (force plain wanted : Option String) (terminal : Bool) : Bool :=
  if force.any (· ≠ "0") then true
  else if plain.isSome then false
  else wanted.all (· ≠ "0") && terminal

end SceneScript
