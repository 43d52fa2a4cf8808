import SceneScript.Program.Basic
import SceneScript.Program.ReadExpr
import SceneScript.Token.Scan

namespace SceneScript
open Reader

def Import.readSegments : Nat → Reader String
  | 0 => pure ""
  | n + 1 => do
    match ← takeIf (fun token => token.is .dot || token.is .slash) with
    | some separator =>
      let segment ← ident "expected module path segment"
      return separator.kind.describe ++ segment ++ (← readSegments n)
    | none => pure ""

def Import.string? (token : Token) : Option String :=
  match token.kind with
  | .string text => some text
  | _ => none

def Import.readSource : Reader String := do
  match (← peek?).bind string? with
  | some path =>
    modify List.tail
    return path
  | none =>
    let first ← ident "expected module name or path"
    return first ++ (← readSegments (← get).length)

def Import.beginsNames : List Token → Bool
  | first :: next :: _ => first.ident?.isSome && (next.is .comma || next.isWord .origin)
  | _ => false

def Import.read (span : Span) : Reader Import := do
  let names ← if beginsNames (← get) then do
      let first ← ident "expected import name"
      let more ← moreAfterCommas (ident "expected import name after ','")
      expectWord .origin "expected 'from' after import names"
      pure (first :: more)
    else pure []
  let source ← readSource
  let boundAs ← if ← acceptWord .aliasing then some <$> ident "expected alias name after 'as'"
    else pure none
  return ⟨span, names, source, boundAs⟩

def Triple.read : Reader Triple := do
  let x ← Expr.read
  expect .comma "expected ',' between coordinates"
  let y ← Expr.read
  expect .comma "expected ',' between coordinates"
  let z ← Expr.read
  return ⟨x, y, z⟩

def AssignedValue.anchor? (token : Token) : Option String :=
  match token.ident?.map String.toList with
  | some ('@' :: rest) => some (String.ofList rest)
  | _ => none

def AssignedValue.read : Reader AssignedValue := do
  match (← peek?).bind anchor? with
  | some anchor =>
    modify List.tail
    let joined ← takeIf fun token => token.is .plus || token.is .comma
    let offset ← if joined.isSome then some <$> Triple.read else pure none
    return .relative anchor offset
  | none =>
    let first ← Expr.read
    if ← accept .comma then
      let second ← Expr.read
      expect .comma "expected ',' between coordinates"
      let third ← Expr.read
      return .triple ⟨first, second, third⟩
    else return .expr first

/-- An argument of a method, or the name of an object that the method leaves out. -/
inductive MethodArgument where
  | value (argument : Expr)
  | excluded (name : String)

def MethodArgument.read : Reader MethodArgument := do
  let argument ← if ← acceptWord .excluding then
      .excluded <$> ident "expected object name after 'not'"
    else .value <$> Expr.read
  let _ ← accept .comma
  return argument

namespace Stmt

def readConfined (span : Span) : Reader Stmt := do
  let target ← ident "expected variable name after 'local'"
  expect .equal "expected '=' after variable name"
  return .assign span target true (← Expr.read)

def readChildProperty (span : Span) (target : String) : Reader Stmt := do
  let child ← ident "expected child name"
  expect .rightParen "expected ')' after child name"
  expect .dot "expected '.' after child selector"
  let property ← name "expected property name"
  expect .equal "expected '=' after property name"
  return .setProperty span target (some child) property (← AssignedValue.read)

/-- The arguments of a method up to its closing parenthesis. Of several excluded names the last
one counts. -/
def readMethodCall (span : Span) (target method : String) : Reader Stmt := do
  let arguments ← untilClosed .rightParen MethodArgument.read
  expect .rightParen "expected ')' after arguments"
  let values := arguments.filterMap fun
    | .value argument => some argument
    | .excluded _ => none
  let excluded := arguments.filterMap fun
    | .value _ => none
    | .excluded object => some object
  return .callMethod span target method values excluded.getLast?

def beginsPrint : List Token → Bool
  | dot :: method :: _ => dot.is .dot && method.ident? == some "print"
  | _ => false

def readPrint (span : Span) : Reader Stmt := do
  expect .leftParen "expected '(' after console.print"
  let value ← Expr.read
  expect .rightParen "expected ')' after print argument"
  return .print span value

def readNamed (span : Span) (target : String) : Reader Stmt := do
  if target == "console" && beginsPrint (← get) then
    modify (·.drop 2)
    readPrint span
  else if ← accept .equal then
    return .assign span target false (← Expr.read)
  else
    expect .dot "expected '=' or '.' after identifier"
    if ← accept .leftParen then readChildProperty span target
    else
      let member ← name "expected property or method name after '.'"
      if ← accept .leftParen then readMethodCall span target member
      else
        expect .equal "expected '=' or '(' after member name"
        return .setProperty span target none member (← AssignedValue.read)

def readItem (statement : Reader Stmt) : Reader (Option Stmt) := do
  if ← accept .semicolon then return none
  some <$> statement

def readBlock (statement : Reader Stmt) : Reader (List Stmt) := do
  expect .leftBrace "expected '\x7b' before block"
  let items ← untilClosed .rightBrace (readItem statement)
  expect .rightBrace "expected '\x7d' after block"
  return items.reduceOption

/-- A condition and its blocks; an alternative that is a condition itself is a block of one. -/
def readBranch (statement : Reader Stmt) : Nat → Span → Reader Stmt
  | 0, _ => fail .expectedExpression
  | n + 1, span => do
    let condition ← Expr.read
    let thenBlock ← readBlock statement
    if ← acceptWord .alternative then
      match ← takeIf (·.isWord .conditional) with
      | some word =>
        return .branch span condition thenBlock (some [← readBranch statement n word.span])
      | none => return .branch span condition thenBlock (some (← readBlock statement))
    else return .branch span condition thenBlock none

def readWhile (statement : Reader Stmt) (span : Span) : Reader Stmt := do
  let condition ← Expr.read
  return .whileLoop span condition (← readBlock statement)

def readFor (statement : Reader Stmt) (span : Span) : Reader Stmt := do
  let counter ← ident "expected loop variable name"
  expect .equal "expected '=' after loop variable"
  let start ← Expr.read
  expectWord .upTo "expected 'to' after loop start"
  let stop ← Expr.read
  let step ← if ← acceptWord .stepping then some <$> Expr.read else pure none
  return .forLoop span counter start stop step (← readBlock statement)

def readForm (statement : Reader Stmt) : Reader Stmt := do
  match ← get with
  | [] => fail (.unexpectedToken TokenKind.eof.describe)
  | token :: rest =>
    match token.kind with
    | .ident target =>
      set rest
      readNamed token.span target
    | .keyword .importing =>
      set rest
      return .imports (← Import.read token.span)
    | .keyword .confining =>
      set rest
      readConfined token.span
    | .keyword .conditional =>
      set rest
      readBranch statement (rest.length + 1) token.span
    | .keyword .whileLoop =>
      set rest
      readWhile statement token.span
    | .keyword .forLoop =>
      set rest
      readFor statement token.span
    | kind => fail (.unexpectedToken kind.describe)

def readWithin : Nat → Reader Stmt
  | 0 => fail .expectedExpression
  | depth + 1 => do
    let form ← readForm (readWithin depth)
    let _ ← accept .semicolon
    return form

def read : Reader Stmt := fun tokens => readWithin (tokens.length + 1) tokens

end Stmt

namespace Program

def read : Reader Program := do
  let items ← repeatWhile (fun _ => true) (Stmt.readItem Stmt.read) (← get).length
  return ⟨items.reduceOption⟩

def body (tokens : List Token) : List Token := tokens.takeWhile (!·.kind.isEof)

/-- Where a list of tokens ends: at its first end marker, else at its last token. -/
def stop (tokens : List Token) : Span :=
  match tokens.find? (·.kind.isEof) with
  | some marker => marker.span
  | none => (tokens.getLast?.map (·.span)).getD .zero

def runReader {α : Type} (reader : Reader α) (tokens : List Token) : Except Diagnostic α :=
  match reader (body tokens) with
  | .ok (a, _) => .ok a
  | .error d => .error (d.orSpan (stop tokens))

def ofTokens (tokens : List Token) : Except Diagnostic Program := runReader read tokens

def ofSource (source : String) : Except Diagnostic Program := ofTokens (Token.ofSource source)

end Program

/-- The expression at the start of a list of tokens; what follows it does not count. -/
def Expr.ofTokens (tokens : List Token) : Except Diagnostic Expr :=
  Program.runReader Expr.read tokens

end SceneScript
