import SceneScript.Token.Basic
import SceneScript.Diagnostic

namespace SceneScript

abbrev Reader (α : Type) := StateT (List Token) (Except Diagnostic) α

namespace Reader
variable {α : Type}

def fail (cause : Cause) : Reader α := fun tokens =>
  .error ⟨cause, tokens.head?.map (·.span), none⟩

def failAt (cause : Cause) (span : Span) : Reader α := fun _ => .error (.placed cause span)

def describeNext (tokens : List Token) : String :=
  match tokens with
  | token :: _ => token.kind.describe
  | [] => TokenKind.eof.describe

def failExpected (wanted : String) : Reader α := fun tokens =>
  fail (.expectedToken wanted (describeNext tokens)) tokens

def peek? : Reader (Option Token) := fun tokens => .ok (tokens.head?, tokens)

def nextIs (sign : Symbol) : Reader Bool := fun tokens =>
  .ok (tokens.head?.any (·.is sign), tokens)

def takeIf (test : Token → Bool) : Reader (Option Token) := fun tokens =>
  match tokens with
  | token :: rest => if test token then .ok (some token, rest) else .ok (none, tokens)
  | [] => .ok (none, [])

def accept (sign : Symbol) : Reader Bool := return (← takeIf (·.is sign)).isSome

def acceptWord (word : Keyword) : Reader Bool := return (← takeIf (·.isWord word)).isSome

def expect (sign : Symbol) (wanted : String) : Reader Unit := do
  unless ← accept sign do failExpected wanted

def expectWord (word : Keyword) (wanted : String) : Reader Unit := do
  unless ← acceptWord word do failExpected wanted

def expectSome (select : Token → Option α) (wanted : String) : Reader α := fun tokens =>
  match tokens with
  | token :: rest =>
    match select token with
    | some a => .ok (a, rest)
    | none => failExpected wanted tokens
  | [] => failExpected wanted []

def ident (wanted : String) : Reader String := expectSome Token.ident? wanted

def name (wanted : String) : Reader String := expectSome Token.name? wanted

def repeatWhile (continues : Token → Bool) (step : Reader α) : Nat → Reader (List α)
  | 0 => pure []
  | n + 1 => do
    match ← peek? with
    | some token =>
      if continues token then
        let a ← step
        return a :: (← repeatWhile continues step n)
      else pure []
    | none => pure []

def untilClosed (closing : Symbol) (step : Reader α) : Reader (List α) := do
  repeatWhile (fun token => !token.is closing) step (← get).length

def afterCommas (item : Reader α) : Nat → Reader (List α)
  | 0 => pure []
  | n + 1 => do
    if ← accept .comma then
      let a ← item
      return a :: (← afterCommas item n)
    else pure []

def moreAfterCommas (item : Reader α) : Reader (List α) := do afterCommas item (← get).length

end Reader
end SceneScript
