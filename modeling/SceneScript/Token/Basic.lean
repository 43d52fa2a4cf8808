import SceneScript.Span
import SceneScript.Number.Written

namespace SceneScript

inductive Keyword where
  | importing
  | origin
  | aliasing
  | cube
  | material
  | modifier
  | group
  | mesh
  | excluding
  | confining
  | conditional
  | alternative
  | whileLoop
  | forLoop
  | upTo
  | stepping
  | int
  | float
  | string
  | bool
  deriving DecidableEq, Repr

namespace Keyword

def text : Keyword → String
  | importing => "import"
  | origin => "from"
  | aliasing => "as"
  | cube => "cube"
  | material => "material"
  | modifier => "modifier"
  | group => "group"
  | mesh => "mesh"
  | excluding => "not"
  | confining => "local"
  | conditional => "if"
  | alternative => "else"
  | whileLoop => "while"
  | forLoop => "for"
  | upTo => "to"
  | stepping => "step"
  | int => "int"
  | float => "float"
  | string => "string"
  | bool => "bool"

def all : List Keyword :=
  [importing, origin, aliasing, cube, material, modifier, group, mesh, excluding, confining,
    conditional, alternative, whileLoop, forLoop, upTo, stepping, int, float, string, bool]

def ofText? (text : String) : Option Keyword := all.find? (·.text == text)

theorem ofText?_text (k : Keyword) : ofText? k.text = some k := by cases k <;> decide +kernel

theorem text_of_ofText? {s : String} {k : Keyword} (h : ofText? s = some k) : k.text = s := by
  simpa using List.find?_some h

end Keyword

inductive Symbol where
  | plus
  | minus
  | star
  | slash
  | percent
  | equal
  | equalEqual
  | bangEqual
  | less
  | lessEqual
  | greater
  | greaterEqual
  | bang
  | leftParen
  | rightParen
  | leftBrace
  | rightBrace
  | leftBracket
  | rightBracket
  | comma
  | semicolon
  | colon
  | dot
  deriving DecidableEq, Repr

def Symbol.text : Symbol → String
  | plus => "+"
  | minus => "-"
  | star => "*"
  | slash => "/"
  | percent => "%"
  | equal => "="
  | equalEqual => "=="
  | bangEqual => "!="
  | less => "<"
  | lessEqual => "<="
  | greater => ">"
  | greaterEqual => ">="
  | bang => "!"
  | leftParen => "("
  | rightParen => ")"
  | leftBrace => "\x7b"
  | rightBrace => "\x7d"
  | leftBracket => "["
  | rightBracket => "]"
  | comma => ","
  | semicolon => ";"
  | colon => ":"
  | dot => "."

inductive TokenKind where
  | number (value : Float)
  | string (text : String)
  | ident (name : String)
  | keyword (word : Keyword)
  | symbol (sign : Symbol)
  | eof

def TokenKind.describe : TokenKind → String
  | number value => Number.display value
  | string text => s!"\"{text}\""
  | ident name => name
  | keyword word => word.text
  | symbol sign => sign.text
  | eof => "end of input"

def TokenKind.isKeyword : TokenKind → Bool
  | keyword _ => true
  | _ => false

def TokenKind.isEof : TokenKind → Bool
  | eof => true
  | _ => false

structure Token where
  kind : TokenKind
  span : Span
  /-- The source text of the token, quotes included. -/
  lexeme : String

namespace Token

def rawText (t : Token) : String :=
  match t.kind with
  | .string text => text
  | _ => t.lexeme

def is (t : Token) (sign : Symbol) : Bool :=
  match t.kind with
  | .symbol other => other == sign
  | _ => false

def isWord (t : Token) (word : Keyword) : Bool :=
  match t.kind with
  | .keyword other => other == word
  | _ => false

def ident? (t : Token) : Option String :=
  match t.kind with
  | .ident name => some name
  | _ => none

/-- The text of an identifier or of a reserved word: either may name a member or a property. -/
def name? (t : Token) : Option String :=
  match t.kind with
  | .ident _ => some t.lexeme
  | .keyword _ => some t.lexeme
  | _ => none

end Token
end SceneScript
