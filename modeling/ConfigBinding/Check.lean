import ConfigBinding.Check.Arguments
import ConfigBinding.Manifest
import ConfigBinding.Resolver
import ConfigBinding.Text.Terminal

/-!
# The check command

Loads a configuration, resolves its roots and reports what it did, or the first error. The report is
data: nothing is read or written here. What the command reads is given as the text of the manifest
and as a loader of sources.

Results:
1. `Report.exitCode_eq_one_iff`: the exit code is one exactly if something is logged as an error.
-/

namespace ConfigBinding.Check

/-! ## Records -/

/-- How important a record is, the most important first. -/
inductive Level
  | error
  | warn
  | info
  | debug
deriving DecidableEq, Repr

namespace Level

def toText : Level → String
  | .error => "ERROR"
  | .warn => "WARN"
  | .info => "INFO"
  | .debug => "DEBUG"

def rank : Level → Nat
  | .error => 1
  | .warn => 2
  | .info => 3
  | .debug => 4

/-- The number of levels that are shown under the given setting, from none to all. -/
def threshold? : String → Option Nat
  | "off" => some 0
  | "error" => some Level.error.rank
  | "warn" => some Level.warn.rank
  | "info" => some Level.info.rank
  | "debug" | "trace" => some Level.debug.rank
  | _ => none

end Level

/-- A line of the log. -/
structure Record where
  level : Level
  message : String
  /-- What is known about the event beside the message, by name. -/
  fields : List (String × String)
deriving DecidableEq, Repr

/-- The line of a record. The message is written for a terminal; the fields stand for themselves. -/
def Record.toText (record : Record) : String :=
  record.level.toText ++ " " ++ Text.Terminal.neutralize record.message
    ++ String.join (record.fields.map fun (name, value) => " " ++ name ++ "=" ++ value)

/-- What the command did. -/
structure Report where
  records : List Record
  output : String
deriving DecidableEq, Repr

namespace Report

def failed (report : Report) : Bool := report.records.any fun record => record.level == .error

def exitCode (report : Report) : Nat := if report.failed then 1 else 0

/-- The records that are shown if so many levels are. -/
def shown (report : Report) (threshold : Nat) : List Record :=
  report.records.filter fun record => decide (record.level.rank ≤ threshold)

/-- The report with records before its own. -/
def after (records : List Record) (report : Report) : Report :=
  { report with records := records ++ report.records }

theorem exitCode_eq_one_iff (report : Report) :
    report.exitCode = 1 ↔ ∃ record ∈ report.records, record.level = .error := by
  simp [exitCode, failed]

end Report

/-! ## The command -/

def note (message : String) : Record := ⟨.info, message, []⟩

/-- The record of a failure, with the cause and the place if it is known. -/
def failure (error : ConfigError) : Record :=
  ⟨.error, error.message, ("kind", error.kindName) ::
    error.location?.toList.map fun place => ("location", place.toText)⟩

/-- The report of a failure. -/
def Report.ofError (error : ConfigError) : Report := ⟨[failure error], ""⟩

/-- The record of a parameter that is bound more than once. -/
def overrideRecord? (override : Override) : Option Record :=
  match override.events.head?, override.winner? with
  | some first, some last =>
    match override.kind with
    | .conflicting => some ⟨.debug,
        s!"{override.key} overridden: {first.value.toText} ({first.origin})"
          ++ s!" -> {last.value.toText} ({last.origin})", []⟩
    | .redundant =>
      some ⟨.warn, s!"{override.key} re-bound to the same value at {last.origin}", []⟩
  | _, _ => none

/-- Resolves the roots and writes the operative configuration if it is wanted. -/
def resolveRoots (config : Config) (arguments : Arguments) : Report :=
  if arguments.roots.isEmpty then
    ⟨[note "No roots given; bindings validated, nothing constructed"], ""⟩
  else
    let roots := arguments.roots.map fun root =>
      let (scope, symbol) := Scope.splitTarget root
      (scope, DottedName.parse symbol)
    match (Resolver.start.resolveAll config roots).1 with
    | .error error => Report.ofError error
    | .ok resolver =>
      let graph := resolver.graph
      ⟨[note s!"Resolved {roots.length} roots into {graph.size} nodes"],
        if arguments.printOperative then graph.operativeText else ""⟩

/-- Loads the configuration and goes on with it. -/
def loadAndResolve (registry : Registry) (load : SourceLoader) (arguments : Arguments) : Report :=
  match Config.load registry load (arguments.primary :: arguments.overrides) arguments.bindings with
  | .error error => Report.ofError error
  | .ok config =>
    let loaded :=
      note s!"Loaded {config.table.size} bindings from {config.log.sources.size} sources"
    (resolveRoots config arguments).after
      (loaded :: config.table.overrides.filterMap overrideRecord?)

/-- Runs the command. `manifest` is the text of the registry's manifest, or the reason why it cannot
be read. -/
def run (manifest : Except String String) (load : SourceLoader) (arguments : Arguments) : Report :=
  match manifest with
  | .error reason =>
    ⟨[⟨.error, s!"Cannot read registry manifest '{arguments.registry}': {reason}", []⟩], ""⟩
  | .ok text =>
    match Registry.empty.loadManifest text with
    | (.error error, _) => Report.ofError error
    | (.ok _, registry) =>
      (loadAndResolve registry load arguments).after
        [note s!"Registered {registry.size} configurables"]

end ConfigBinding.Check
