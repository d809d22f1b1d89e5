/-!
# Arguments of the check command

The command takes the file to check, the manifest of the registry, and options that may be repeated.
The value of an option follows it, or stands behind an equals sign in the same argument. A separate
value cannot start with a hyphen, unless it is one and nothing else. Behind two hyphens alone all
arguments are files.

Arguments are read from left to right, and the first that is wrong decides.
-/

namespace ConfigBinding.Check

/-- What the command is asked to do. -/
structure Arguments where
  primary : String
  /-- Files that are loaded after the primary one. -/
  overrides : List String
  /-- Bindings that are applied after all files. -/
  bindings : List String
  registry : String
  searchPaths : List String
  roots : List String
  printOperative : Bool
deriving DecidableEq, Repr

/-- How a command line is understood. -/
inductive Command
  | check (arguments : Arguments)
  | help
  | invalid
deriving DecidableEq, Repr

/-- What has been read of a command line. -/
structure Reading where
  primary : Option String
  overrides : List String
  bindings : List String
  registry : Option String
  searchPaths : List String
  roots : List String
  printOperative : Bool

namespace Reading

def start : Reading := ⟨none, [], [], none, [], [], false⟩

/-- Takes the value of an option, if there is such an option and it admits the value. -/
def setOption (r : Reading) (name value : String) : Option Reading :=
  match name with
  | "config" => some { r with overrides := r.overrides ++ [value] }
  | "binding" => some { r with bindings := r.bindings ++ [value] }
  | "registry" =>
    if r.registry.isSome || value.isEmpty then none else some { r with registry := some value }
  | "search-path" =>
    if value.isEmpty then none else some { r with searchPaths := r.searchPaths ++ [value] }
  | "root" => some { r with roots := r.roots ++ [value] }
  | _ => none

def setFlag (r : Reading) : Option Reading :=
  if r.printOperative then none else some { r with printOperative := true }

def setPrimary (r : Reading) (value : String) : Option Reading :=
  if r.primary.isSome then none else some { r with primary := some value }

/-- The command when all is read: the file and the registry have to be given. -/
def finish (r : Reading) : Command :=
  match r.primary, r.registry with
  | some primary, some registry =>
    .check ⟨primary, r.overrides, r.bindings, registry, r.searchPaths, r.roots, r.printOperative⟩
  | _, _ => .invalid

/-- Reads arguments that can only be files. -/
def readFiles : List String → Reading → Command
  | [], r => r.finish
  | value :: rest, r =>
    match r.setPrimary value with
    | some r => readFiles rest r
    | none => .invalid

end Reading

/-- An argument by its form. -/
inductive Argument
  | separator
  /-- A long option, perhaps with a value. -/
  | long (name : String) (value : Option String)
  | short (letters : String)
  | plain

/-- The form of an argument. -/
def Argument.classify (text : String) : Argument :=
  match text.toList with
  | ['-', '-'] => .separator
  | '-' :: '-' :: cs =>
    let name := cs.takeWhile (· ≠ '=')
    .long (String.ofList name)
      (match cs.drop name.length with
        | _ :: value => some (String.ofList value)
        | [] => none)
  | '-' :: c :: cs => .short (String.ofList (c :: cs))
  | _ => .plain

/-- Whether an argument can be the value of the option before it. -/
def isValue (text : String) : Bool :=
  match Argument.classify text with
  | .plain => true
  | _ => false

namespace Command

/-- Reads on in a command line. -/
def read : List String → Reading → Command
  | [], r => r.finish
  | text :: rest, r =>
    match Argument.classify text with
    | .separator => r.readFiles rest
    | .plain =>
      match r.setPrimary text with
      | some r => read rest r
      | none => .invalid
    | .short letters => if letters.startsWith "h" then .help else .invalid
    | .long "help" none => .help
    | .long "print-operative" none =>
      match r.setFlag with
      | some r => read rest r
      | none => .invalid
    | .long name (some value) =>
      match r.setOption name value with
      | some r => read rest r
      | none => .invalid
    | .long name none =>
      match rest with
      | value :: rest =>
        if isValue value then
          match r.setOption name value with
          | some r => read rest r
          | none => .invalid
        else .invalid
      | [] => .invalid

/-- Understands a command line. -/
def parse (arguments : List String) : Command := read arguments .start

/-- What the command prints when it is asked for help; `program` is the name by which it is
called. -/
def helpText (program : String) : String :=
  "Resolve a binding configuration and report diagnostics\n\n"
  ++ "Usage: " ++ program ++ " [OPTIONS] --registry <MANIFEST> <PRIMARY>\n\n"
  ++ "Arguments:\n"
  ++ "  <PRIMARY>  Primary configuration file\n\n"
  ++ "Options:\n"
  ++ "      --config <PATH>        Override file applied after the primary file (repeatable)\n"
  ++ "      --binding <BINDING>    Direct \x60key = value\x60 override applied after every file"
  ++ " (repeatable)\n"
  ++ "      --registry <MANIFEST>  YAML manifest describing the registered configurables\n"
  ++ "      --search-path <DIR>    Directory searched for relative includes (repeatable)\n"
  ++ "      --root <SYMBOL>        Configurable to construct, optionally \x60scope/symbol\x60"
  ++ " (repeatable). Without any, bindings are only loaded and validated\n"
  ++ "      --print-operative      Print the operative config to stdout after resolving\n"
  ++ "  -h, --help                 Print help\n"

/-- What the command prints when it is not called correctly. -/
def usageText (program : String) : String :=
  "error: invalid arguments\n\nUsage: " ++ program
    ++ " [OPTIONS] --registry <MANIFEST> <PRIMARY>\n\nFor more information, try '--help'.\n"

end Command

end ConfigBinding.Check
