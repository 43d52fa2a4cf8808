import SceneScript.Program.Read
import SceneScript.Run.Result
import SceneScript.Module.Address
import SceneScript.Module.Remote

namespace SceneScript.Module

structure Config where
  naming : Naming
  /-- Whether a program stands in for a remote module that cannot be fetched. -/
  fallback : Bool
  /-- The seed of the random library. -/
  seed : UInt64

def Config.standard : Config := ⟨.standard, true, 0⟩

structure Setting where
  config : Config
  remote : Remote
  files : Table String
  libraries : Libraries

structure Loading where
  cache : Cache
  /-- The addresses that were asked for, in order. -/
  requests : Array String
  store : Store
  /-- The keys of the modules that are being compiled, the outermost first. -/
  stack : List String

def Loading.enter (state : Loading) (key : String) : Loading :=
  { state with stack := state.stack ++ [key] }

def Loading.leave (state : Loading) : Loading := { state with stack := state.stack.dropLast }

/-- Why a compile has no result: a library call broke down, or modules are nested deeper than the
bound, which `Loader.compileRoot` chooses too large for that. -/
inductive Abort where
  | breakdown
  | tooDeep
  deriving DecidableEq, Repr

abbrev Load (α : Type) := StateT Loading (Except Abort) α

/-- The text of a remote module: from the cache, or else fetched and put into it. -/
def fetchText (setting : Setting) (address : String) (span : Span) :
    Load (Except Diagnostic (String × List Notice)) := fun state =>
  match state.cache.get? address with
  | (some text, cache) => .ok (.ok (text, []), { state with cache := cache })
  | (none, cache) =>
    let asked := { state with cache := cache, requests := state.requests.push address }
    match setting.remote.fetch state.requests.size address with
    | .ok text => .ok (.ok (text, []), { asked with cache := cache.insert address text })
    | .error reason =>
      let cause := Cause.fetchFailed address reason
      if setting.config.fallback then
        let text := fallbackSource address
        .ok (.ok (text, [.warning span.line (.fallback cause)]),
          { asked with cache := cache.insert address text })
      else .ok (.error (.placed cause span), asked)

/-- The keys from the first occurrence of `key` on the stack, if it stands there, and `key`
again. -/
def cycle? (stack : List String) (key : String) : Option (List String) :=
  match stack.dropWhile (· ≠ key) with
  | [] => none
  | chain => some (chain ++ [key])

def locate (setting : Setting) (source : String) (span : Span) :
    Load (Except Diagnostic (String × String × List Notice)) := do
  let stack := (← get).stack
  if isAddress source then
    match cycle? stack source with
    | some chain => return .error (.placed (.importCycle chain) span)
    | none => return (← fetchText setting source span).map fun (text, notices) =>
      (source, text, notices)
  else
    match setting.config.naming.resolve? source setting.files with
    | none => return .error (.placed (.moduleNotFound source) span)
    | some (key, text) =>
      match cycle? stack key with
      | some chain => return .error (.placed (.importCycle chain) span)
      | none => return .ok (key, text, [])

abbrev UnitCompiler := String → String → Load Result

def addModule (exports : Exports) : Load ModuleId := fun state =>
  let (id, store) := state.store.addModule exports
  .ok (id, { state with store := store })

def loadModule (setting : Setting) (compile : UnitCompiler) (source : String) (span : Span) :
    Load (Except Diagnostic ModuleId × List Notice) := do
  match setting.libraries.get? source with
  | some id => return (.ok id, [])
  | none =>
    match ← locate setting source span with
    | .error d => return (.error d, [])
    | .ok (key, text, notices) =>
      let result ← compile key text
      let id ← addModule result.exports
      return (.ok id, notices ++ result.notices.map (.forwarded source))

def importNotice (d : Diagnostic) (line : Nat) : Notice :=
  match d.cause with
  | .moduleNotFound name => .missingModule line name
  | _ => .error d

/-- The names that an import of single exports binds, each with the export it stands for. -/
def boundNames (i : Import) : List (String × String) :=
  match i.names, i.boundAs with
  | [single], some boundAs => [(boundAs, single)]
  | names, _ => names.map fun name => (name, name)

/-- Binds exports of a module. One that the module does not have is an error. -/
def bindExports (exports : Exports) (i : Import) (table : Table Value) :
    Table Value × List Notice :=
  (boundNames i).foldl (fun (table, notices) (bound, name) =>
    match exports.get? name with
    | some value => (table.insert bound value, notices)
    | none => (table, notices ++ [.error (.placed (.undefinedMember i.source name) i.span)]))
    (table, [])

/-- Binds what an import of a loaded module introduces: the module itself, or exports of it. -/
def bindImport (naming : Naming) (store : Store) (i : Import) (id : ModuleId)
    (table : Table Value) : Table Value × List Notice :=
  if i.names.isEmpty then
    (table.insert (i.boundAs.getD (naming.bareName i.source)) (.module id), [])
  else bindExports (store.exports id) i table

def resolveImports (setting : Setting) (compile : UnitCompiler) :
    List Import → Table Value → List Notice → Load (Table Value × List Notice)
  | [], table, notices => pure (table, notices)
  | i :: more, table, notices => do
    let (outcome, reported) ← loadModule setting compile i.source i.span
    match outcome with
    | .error d =>
      resolveImports setting compile more table
        (notices ++ reported ++ [importNotice d i.span.line])
    | .ok id =>
      let (table, missing) := bindImport setting.config.naming (← get).store i id table
      resolveImports setting compile more table (notices ++ reported ++ missing)

def runProgram (program : Program) (table : Table Value) : Load Result := fun state =>
  match program.run table state.store with
  | .ok result => .ok (result, { state with store := result.store })
  | .error _ => .error .breakdown

def compileWith (setting : Setting) (compile : UnitCompiler) : UnitCompiler :=
  fun key source => do
    match Program.ofSource source with
    | .error d => return .failed (d.withSource source)
    | .ok program =>
      modify (·.enter key)
      let (table, notices) ← resolveImports setting compile program.imports .empty []
      modify (·.leave)
      let result ← runProgram program table
      return { result with notices := notices ++ result.notices }

def compileUnit (setting : Setting) : Nat → UnitCompiler
  | 0 => fun _ _ => throw .tooDeep
  | depth + 1 => compileWith setting (compileUnit setting depth)

/-- A loader: its settings, and what it remembers from one compile to the next. -/
structure Loader where
  config : Config
  remote : Remote
  cache : Cache
  requests : Array String
  stack : List String

namespace Loader

def new (config : Config) (remote : Remote) : Loader := ⟨config, remote, .empty, #[], []⟩

/-- More modules than can be nested in one another: the root, the files, the addresses that may
have a text, and a stand-in for one that has none. -/
def depthBound (l : Loader) (files : Table String) : Nat :=
  files.size + l.remote.known.length + l.cache.size + 2

/-- Compiles a source that the workspace knows as `name`, with libraries of its own and a stack that
is empty, if no modules are nested so deep. -/
def compileWithin (l : Loader) (depth : Nat) (name source : String) (files : Table String) :
    Except Abort (Result × Loader) := do
  let (libraries, store) := Store.empty.addLibraries l.config.seed
  let setting : Setting := ⟨l.config, l.remote, files, libraries⟩
  let (result, state) ← compileUnit setting depth name source ⟨l.cache, l.requests, store, []⟩
  return (result,
    { l with cache := state.cache, requests := state.requests, stack := state.stack })

def compileRoot (l : Loader) (name source : String) (files : Table String) :
    Except Abort (Result × Loader) :=
  l.compileWithin (l.depthBound files) name source files

def mainName : String := "<main>"

def compile (l : Loader) (source : String) (files : Table String) :
    Except Abort (Result × Loader) :=
  l.compileRoot mainName source files

def compileFile (l : Loader) (name : String) (files : Table String) :
    Except Abort (Result × Loader) :=
  match files.get? name with
  | some source => l.compileRoot name source files
  | none => .ok (.failed (.of (.moduleNotFound name)), l)

end Loader
end SceneScript.Module
