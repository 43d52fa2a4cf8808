import SceneScript.Program.Expr
import SceneScript.Program.Reader
import SceneScript.Text.Blank
import SceneScript.Number.Rounding
import SceneScript.Scene.Modifier

namespace SceneScript
open Reader

namespace Expr

def entryNames? : List Token → Option (List String)
  | first :: next :: rest =>
    match first.name? with
    | some name =>
      if next.is .equal then some [name]
      else if next.is .comma then (entryNames? rest).map (name :: ·)
      else none
    | none => none
  | _ => none

/-- Whether the tokens after a comma begin a new entry. A run of names before an equality sign
does if its first name is an accepted one, or if none of them is. -/
def beginsEntry (accepted : List String) (tokens : List Token) : Bool :=
  match entryNames? tokens with
  | some (first :: more) =>
    accepted.contains first || !(first :: more).any (accepted.contains ·)
  | _ => false

def moreValues (accepted : List String) (value : Reader Expr) : Nat → Reader (List Expr)
  | 0 => pure []
  | n + 1 => do
    match ← get with
    | comma :: rest =>
      if comma.is .comma && !beginsEntry accepted rest then
        set rest
        let first ← value
        return first :: (← moreValues accepted value n)
      else pure []
    | [] => pure []

/-- Pairs keys and values. One key takes a list of values; otherwise they must be as many. -/
def pairEntry (span : Option Span) (keys : List String) (values : List Expr) :
    Reader (List (Property Expr)) :=
  if keys.length = values.length then pure (List.zipWith .single keys values)
  else match keys with
    | [key] => pure [.list key values]
    | _ => fun _ => .error ⟨.propertyArity keys.length values.length, span, none⟩

def readEntry (accepted : List String) (value : Reader Expr) : Reader (List (Property Expr)) := do
  if ← accept .comma then return []
  if ← accept .semicolon then return []
  let start ← peek?
  let key ← name "expected property name"
  let keys ← moreAfterCommas (name "expected property name after ','")
  expect .equal "expected '=' after property name"
  let first ← value
  let more ← moreValues accepted value (← get).length
  pairEntry (start.map (·.span)) (key :: keys) (first :: more)

def readProperties (accepted : List String) (value : Reader Expr) :
    Reader (List (Property Expr)) := do
  expect .leftBrace "expected '\x7b' before properties"
  let entries ← untilClosed .rightBrace (readEntry accepted value)
  expect .rightBrace "expected '\x7d' after properties"
  return entries.flatten

def splitCube (depth : Nat) : List Token → Option (List Token × List Token)
  | [] => none
  | token :: rest =>
    if token.is .rightParen then
      match depth with
      | 0 => some ([], rest)
      | depth + 1 => (splitCube depth rest).map fun (inside, after) => (token :: inside, after)
    else
      let depth := if token.is .leftParen then depth + 1 else depth
      (splitCube depth rest).map fun (inside, after) => (token :: inside, after)

def cubeVertices (text : String) : List String :=
  let pieces := (Text.split ':' text.toList).map Text.trim
  (pieces.filter (!·.isEmpty)).map String.ofList

def readCube (span : Span) : Reader Expr := do
  expect .leftParen "expected '(' after 'cube'"
  match splitCube 0 (← get) with
  | some (inside, after) =>
    set after
    return .cube span (cubeVertices (String.join (inside.map Token.rawText)))
  | none =>
    set ([] : List Token)
    failExpected "expected ')' after cube vertices"

def number? (token : Token) : Option Float :=
  match token.kind with
  | .number value => some value
  | _ => none

def readSignedNumber : Reader Float := do
  let negative ← accept .minus
  let value ← expectSome number? "expected number"
  return if negative then -value else value

/-- The end of an item of a mesh section: a semicolon, or the bracket that closes the section. -/
def expectItemEnd (wanted : String) : Reader Unit := do
  unless ← accept .semicolon do
    unless ← nextIs .rightBracket do failExpected wanted

def readVertex : Reader Vector3 := do
  let x ← readSignedNumber
  expect .comma "expected ',' between vertex coordinates"
  let y ← readSignedNumber
  expect .comma "expected ',' between vertex coordinates"
  let z ← readSignedNumber
  expectItemEnd "expected ';' after vertex"
  return ⟨x, y, z⟩

/-- The vertex index that a number stands for. An index beyond 64 bits is held at the greatest. -/
def index? (value : Float) : Option Nat :=
  match Number.toInt? value with
  | some (.ofNat n) => some (min n (Nat.pow 2 64 - 1))
  | _ => none

def readIndex : Reader Nat := do
  let token ← peek?
  let value ← match token.bind number? with
    | some value => pure value
    | none => failExpected "expected vertex index"
  match index? value with
  | some index =>
    modify List.tail
    return index
  | none => fail (.invalidFace s!"'{Number.display value}' is not a vertex index")

def readMaterialRef : Reader MaterialRef := do
  let owner ← ident "expected material name after ':'"
  if ← accept .dot then
    return .member owner (← name "expected material name after '.'")
  else return .named owner

def readFace : Reader FaceLiteral := do
  let start ← peek?
  let first ← readIndex
  let indices := first :: (← moreAfterCommas readIndex)
  if indices.length < 3 then
    fun _ => .error ⟨.invalidFace s!"a face needs at least 3 indices, got {indices.length}",
      start.map (·.span), none⟩
  let material ← if ← accept .colon then some <$> readMaterialRef else pure none
  expectItemEnd "expected ';' after face"
  return ⟨indices, material⟩

inductive MeshSection where
  | separator
  | vertices (list : List Vector3)
  | faces (list : List FaceLiteral)

def readMeshSection : Reader MeshSection := do
  if ← accept .semicolon then return .separator
  if ← accept .comma then return .separator
  let start ← peek?
  let heading ← ident "expected 'vertices' or 'faces'"
  expect .equal "expected '=' after mesh section name"
  expect .leftBracket "expected '[' to open mesh section"
  let part ← match heading with
    | "vertices" => .vertices <$> untilClosed .rightBracket readVertex
    | "faces" => .faces <$> untilClosed .rightBracket readFace
    | other => fun _ => .error ⟨.unexpectedToken other, start.map (·.span), none⟩
  expect .rightBracket "expected ']' to close mesh section"
  return part

/-- Of several sections of one kind the last one counts. -/
def ofSections (span : Span) (sections : List MeshSection) : Expr :=
  let (vertices, faces) := sections.foldl (fun (vertices, faces) part => match part with
    | .separator => (vertices, faces)
    | .vertices list => (list, faces)
    | .faces list => (vertices, list)) ([], [])
  .mesh span vertices faces

def readMesh (span : Span) : Reader Expr := do
  expect .leftBrace "expected '\x7b' after 'mesh'"
  let sections ← untilClosed .rightBrace readMeshSection
  expect .rightBrace "expected '\x7d' after mesh body"
  return ofSections span sections

/-- Names up to a closing bracket, with a comma between them and perhaps one at the end. -/
def readChildren : Nat → Reader (List String)
  | 0 => pure []
  | n + 1 => do
    if (← peek?).all (·.is .rightBracket) then return []
    let child ← ident "expected child name"
    if ← accept .comma then return child :: (← readChildren n)
    return [child]

def readGroup (span : Span) : Reader Expr := do
  expect .leftBracket "expected '[' after 'group'"
  let children ← readChildren (← get).length
  expect .rightBracket "expected ']' after group children"
  return .group span children

def readArguments (value : Reader Expr) : Reader (List Expr) := do
  let args ← if ← nextIs .rightParen then pure [] else do
    let first ← value
    pure (first :: (← moreAfterCommas value))
  expect .rightParen "expected ')' after arguments"
  return args

def readMembers : Nat → Reader (List String)
  | 0 => pure []
  | n + 1 => do
    if ← accept .dot then
      let member ← name "expected member name after '.'"
      return member :: (← readMembers n)
    else pure []

def readReference (value : Reader Expr) (span : Span) (head : String) : Reader Expr := do
  let members ← readMembers (← get).length
  match ← takeIf (·.is .leftParen) with
  | none => return .reference span head members
  | some paren =>
    match members with
    | [] => return .call span none head (← readArguments value)
    | [member] => return .call span (some head) member (← readArguments value)
    | _ => failAt (.unexpectedToken "(") paren.span

def readConversion (value : Reader Expr) (span : Span) (callee : String) : Reader Expr := do
  expect .leftParen "expected '(' after conversion name"
  return .call span none callee (← readArguments value)

def readModifier (value : Reader Expr) (span : Span) : Reader Expr := do
  expect .dot "expected '.' after 'modifier'"
  let kind ← ident "expected modifier kind"
  let properties ← readProperties ("base" :: (Modifier.properties? kind).getD []) value
  return .modifier span kind properties

def readPrimary (value : Reader Expr) : Reader Expr := do
  match ← get with
  | [] => fail .expectedExpression
  | token :: rest =>
    match token.kind with
    | .number n =>
      set rest
      return .number token.span n
    | .string text =>
      set rest
      return .string token.span text
    | .ident head =>
      set rest
      readReference value token.span head
    | .symbol .leftParen =>
      set rest
      let inner ← value
      expect .rightParen "expected ')' after expression"
      return inner
    | .keyword .cube =>
      set rest
      readCube token.span
    | .keyword .mesh =>
      set rest
      readMesh token.span
    | .keyword .material =>
      set rest
      return .material token.span (← readProperties Material.properties value)
    | .keyword .modifier =>
      set rest
      readModifier value token.span
    | .keyword .group =>
      set rest
      readGroup token.span
    | .keyword .int =>
      set rest
      readConversion value token.span token.lexeme
    | .keyword .float =>
      set rest
      readConversion value token.span token.lexeme
    | .keyword .string =>
      set rest
      readConversion value token.span token.lexeme
    | .keyword .bool =>
      set rest
      readConversion value token.span token.lexeme
    | _ => fail .expectedExpression

/-- A primary after any number of minus signs, the last of which applies first. -/
def readUnary (value : Reader Expr) : Reader Expr := do
  let tokens ← get
  let signs := tokens.takeWhile (·.is .minus)
  set (tokens.drop signs.length)
  let operand ← readPrimary value
  return signs.foldr (fun sign inner => .negation sign.span inner) operand

def acceptOperator (level : Nat) : Reader (Option BinaryOp) := fun tokens =>
  match tokens with
  | token :: rest =>
    match token.kind with
    | .symbol sign =>
      match BinaryOp.ofSymbol? level sign with
      | some op => .ok (some op, rest)
      | none => .ok (none, tokens)
    | _ => .ok (none, tokens)
  | [] => .ok (none, [])

/-- Joins operands to what stands on the left while an operator of this level follows. -/
def joinOperands (level : Nat) (operand : Reader Expr) : Nat → Expr → Reader Expr
  | 0, left => pure left
  | n + 1, left => do
    match ← acceptOperator level with
    | some op => joinOperands level operand n (left.operation op (← operand))
    | none => pure left

def readLevel (value : Reader Expr) : Nat → Reader Expr
  | 0 => readUnary value
  | level + 1 => do
    let first ← readLevel value level
    joinOperands (level + 1) (readLevel value level) (← get).length first

/-- Reads an expression in which brackets are nested less deep than the bound. -/
def readWithin : Nat → Reader Expr
  | 0 => fail .expectedExpression
  | depth + 1 => readLevel (readWithin depth) 4

def read : Reader Expr := fun tokens => readWithin (tokens.length + 1) tokens

end Expr
end SceneScript
