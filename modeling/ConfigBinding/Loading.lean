import ConfigBinding.BindingTable
import ConfigBinding.Source.Loader
import ConfigBinding.Statement.Parser

/-!
# Loading

Files and single bindings are read into a log. A file that another one includes is read where the
inclusion stands, and its imports are its own. A file that is already being read cannot be included.

A call that fails leaves the log as it was, though it remembers the sources that it read.
-/

namespace ConfigBinding

/-! ## Inclusions -/

/-- The files that are being read, outermost first. -/
structure IncludeChain where
  files : List String
deriving DecidableEq, Repr

namespace IncludeChain

def empty : IncludeChain := ⟨[]⟩

def size (chain : IncludeChain) : Nat := chain.files.length

def isEmpty (chain : IncludeChain) : Bool := chain.files.isEmpty

def contains (chain : IncludeChain) (id : String) : Bool := chain.files.contains id

/-- The innermost file, which is the one that includes. -/
def current? (chain : IncludeChain) : Option String := chain.files.getLast?

def extend (chain : IncludeChain) (id : String) : IncludeChain := ⟨chain.files ++ [id]⟩

end IncludeChain

/-- What the statements of a file depend on: its imports, and whether they rename symbols. -/
structure FileScope where
  aliases : AliasTable
  dynamic : Bool

namespace FileScope

def start : FileScope := ⟨.empty, false⟩

/-- What a symbol means in the file. -/
def canonicalName (scope : FileScope) (registry : Registry) (name : DottedName) : DottedName :=
  if scope.dynamic then registry.resolveAlias scope.aliases name else name

/-- What a value means in the file. -/
def canonicalValue (scope : FileScope) (registry : Registry) (value : Expr) : Expr :=
  if scope.dynamic then value.mapReferences (registry.resolveAlias scope.aliases) else value

end FileScope

/-! ## Assignments -/

/-- An assignment: the definition of a macro or the binding of a parameter. -/
inductive Assignment
  | macroDef (name : String) (value : Expr)
  | binding (key : BindingKey) (value : Expr)

/-- The assignments that a statement makes, in order. -/
def StatementBody.assignments : StatementBody → List Assignment
  | .macroDef name value => [.macroDef name value]
  | .binding bound => bound.parameters.map fun (param, value) =>
      .binding ⟨bound.scope, bound.symbol, param⟩ value
  | _ => []

/-- The assignment as it is meant in a file. -/
def Assignment.canonical (scope : FileScope) (registry : Registry) : Assignment → Assignment
  | .macroDef name value => .macroDef name (scope.canonicalValue registry value)
  | .binding key value =>
    .binding { key with symbol := scope.canonicalName registry key.symbol }
      (scope.canonicalValue registry value)

/-- Appends an assignment that stands at the given span. -/
def Log.assign (log : Log) (span : Span) : Assignment → Except ConfigError Log
  | .macroDef name value => log.addMacro name value span
  | .binding key value => log.addBinding key value span

namespace Log

/-- Appends assignments up to the first that is not possible. -/
def assignAll (span : Span) (assignments : List Assignment) : Attempt Log Unit :=
  Attempt.forEach (fun assignment => Attempt.tryModify fun log => log.assign span assignment)
    assignments

/-- Adds a source. Only so many sources can be told apart. -/
def openSource (id text : String) : Attempt Log Nat := fun log =>
  if log.sources.size < SourceMap.capacity then
    let (log, number) := log.addSource id text
    (.ok number, log)
  else (.error .tooManySources, log)

/-- Fails as the syntax error says. -/
def reject {α : Type} (error : SyntaxError) : Attempt Log α := fun log =>
  (.error (.badStatement (log.location error.span) error.message), log)

/-! ## Files -/

/-- Carries out the statements of a file. `includeFile` reads the file of an inclusion at a
place. -/
def runStatements (registry : Registry) (includeFile : String → Location → Attempt Log Unit) :
    FileScope → List Statement → Attempt Log Unit
  | _, [] => pure ()
  | scope, ⟨.importPath imported, _⟩ :: statements =>
    runStatements registry includeFile
      { scope with aliases := scope.aliases.insert imported.localName imported.path } statements
  | scope, ⟨.dynamicRegistration, _⟩ :: statements =>
    runStatements registry includeFile { scope with dynamic := true } statements
  | scope, ⟨.includeFile path, span⟩ :: statements => do
    let log ← Attempt.get
    includeFile path (log.location span)
    runStatements registry includeFile scope statements
  | scope, ⟨body, span⟩ :: statements => do
    assignAll span (body.assignments.map (Assignment.canonical scope registry))
    runStatements registry includeFile scope statements

/-- Reads a source that is included at `site` by the innermost file of `chain`. Each source that is
read takes one of the numbers that are left, so `fuel` need not be larger than the number of sources
that can be told apart. -/
def readSource (registry : Registry) (load : SourceLoader) :
    Nat → LoadedSource → IncludeChain → Option Location → Attempt Log Unit
  | 0, source, chain, site =>
    Attempt.fail (if chain.contains source.id then
      .circularInclude (chain.extend source.id).files site else .tooManySources)
  | fuel + 1, source, chain, site =>
    let inner := chain.extend source.id
    if chain.contains source.id then Attempt.fail (.circularInclude inner.files site)
    else do
      let number ← openSource source.id source.text
      match Statement.parseSource number source.text with
      | .error error => reject error
      | .ok statements =>
        runStatements registry
          (fun path place =>
            match load path inner.current? with
            | .error failure => Attempt.fail (.unloadable path failure.message (some place))
            | .ok included => readSource registry load fuel included inner (some place))
          .start statements

/-- Reads the file that `path` names, as the innermost file of `chain` includes it. -/
def readFile (registry : Registry) (load : SourceLoader) (path : String) (chain : IncludeChain) :
    Attempt Log Unit :=
  match load path chain.current? with
  | .error failure => Attempt.fail (.unloadable path failure.message none)
  | .ok source => readSource registry load SourceMap.capacity source chain none

/-- Reads a text that is a single assignment. Symbols mean what they say. -/
def readBinding (id text : String) : Attempt Log Unit := do
  let number ← openSource id text
  match Statement.parseAssignmentText number text with
  | .error error => reject error
  | .ok statement => assignAll statement.span statement.body.assignments

/-- Makes an attempt that keeps its sources but takes back its entries when it fails. -/
def keepSize (attempt : Attempt Log Unit) : Attempt Log Unit := fun log =>
  match attempt log with
  | (.ok (), after) => (.ok (), after)
  | (.error error, after) => (.error error, after.truncate log.size)

end Log

/-! ## Calls -/

/-- A configuration that is being loaded. -/
structure Loading where
  log : Log
  /-- The number of single bindings that were tried. -/
  directBindings : Nat

namespace Loading

def start : Loading := ⟨.empty, 0⟩

/-- The state after an attempt on the log, and how the attempt ended. -/
def attempt (loading : Loading) (act : Attempt Log Unit) : Except ConfigError Unit × Loading :=
  let (result, log) := Log.keepSize act loading.log
  (result, { loading with log := log })

/-- Loads a file as the innermost file of `chain` includes it. -/
def process (registry : Registry) (load : SourceLoader) (path : String) (chain : IncludeChain)
    (loading : Loading) : Except ConfigError Unit × Loading :=
  loading.attempt (Log.readFile registry load path chain)

/-- Loads a file. -/
def loadFile (registry : Registry) (load : SourceLoader) (path : String) (loading : Loading) :
    Except ConfigError Unit × Loading :=
  loading.process registry load path .empty

/-- Loads a text as if it were a file with the given identifier. -/
def loadText (registry : Registry) (load : SourceLoader) (id text : String) (loading : Loading) :
    Except ConfigError Unit × Loading :=
  loading.attempt (Log.readSource registry load SourceMap.capacity ⟨id, text⟩ .empty none)

/-- The identifier of a single binding. -/
def directId (number : Nat) : String := s!"<binding:{number}>"

/-- Loads a single binding or macro definition. -/
def applyBinding (text : String) (loading : Loading) : Except ConfigError Unit × Loading :=
  { loading with directBindings := loading.directBindings + 1 }.attempt
    (Log.readBinding (directId loading.directBindings) text)

end Loading

/-! ## Loaded configurations -/

/-- A configuration whose bindings are all known to bind parameters of configurables. -/
structure Config where
  registry : Registry
  log : Log
  table : BindingTable

namespace Config

/-- The configuration that was loaded. -/
def ofLoading (registry : Registry) (loading : Loading) : Except ConfigError Config :=
  (loading.log.replay registry).map fun table => ⟨registry, loading.log, table⟩

/-- Makes calls one after the other, up to the first that fails. -/
def runCalls (calls : List (Loading → Except ConfigError Unit × Loading)) (loading : Loading) :
    Except ConfigError Loading :=
  calls.foldlM (fun loading call =>
    match call loading with
    | (.ok (), loading) => .ok loading
    | (.error error, _) => .error error) loading

/-- Loads files in order and then single bindings in order. -/
def load (registry : Registry) (load : SourceLoader) (files bindings : List String) :
    Except ConfigError Config := do
  let loading ← runCalls
    (files.map (Loading.loadFile registry load) ++ bindings.map Loading.applyBinding) .start
  ofLoading registry loading

/-- The binding that counts for exactly this scope and parameter, whatever spelling of the symbol is
used. -/
def query (config : Config) (key : BindingKey) : Except ConfigError (Option BindingEvent) :=
  (config.registry.lookup key.symbol).map fun registration =>
    config.table.get? { key with symbol := registration.name }

end Config

end ConfigBinding
