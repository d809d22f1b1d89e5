import ConfigBinding.Scope
import ConfigBinding.Source.Location

/-!
# Errors of a configuration

Why a configuration cannot be loaded or resolved. Every error is plain data: its cause, the names
that it concerns, and the place of the statement where one is known. The text for a person is one
function of the error.

Results:
1. `location?_at`: an error that is given a place keeps the place that it had.
-/

namespace ConfigBinding

/-- The kind of value that a parameter takes. -/
inductive ParamKind
  | any
  /-- `None`, a Boolean or a number. -/
  | scalar
  | string
  /-- A list or a tuple. -/
  | list
  | mapping
  /-- A constructed configurable. -/
  | reference
deriving DecidableEq, Repr

def ParamKind.toText : ParamKind → String
  | .any => "any"
  | .scalar => "scalar"
  | .string => "string"
  | .list => "list"
  | .mapping => "mapping"
  | .reference => "reference"

/-- All kinds of parameters. -/
def ParamKind.all : List ParamKind := [.any, .scalar, .string, .list, .mapping, .reference]

/-- The kind with the given name. -/
def ParamKind.ofText? (text : String) : Option ParamKind :=
  ParamKind.all.find? fun kind => kind.toText == text

/-- Why a configuration fails. -/
inductive ConfigError
  | badStatement (place : Location) (message : String)
  | unknownConfigurable (name : String) (place : Option Location)
  /-- The name is a suffix of several registered names. -/
  | ambiguousConfigurable (name : String) (candidates : List String) (place : Option Location)
  | duplicateRegistration (name : String)
  | unknownParameter (symbol param : String) (place : Option Location)
  | missingParameter (scope : Scope) (symbol param : String)
  | undefinedMacro (name : String) (place : Location)
  /-- The nodes or macros of a cycle, the first one again at the end. -/
  | cyclicReference (chain : List String)
  /-- The files from the outermost one to the one that is already being read. -/
  | circularInclude (chain : List String) (place : Option Location)
  | unloadable (path reason : String) (place : Option Location)
  | parameterType (scope : Scope) (symbol param : String) (expected : ParamKind) (found : String)
  | constructorFailed (scope : Scope) (symbol message : String)
  /-- With no reason the manifest is not even well formed. -/
  | invalidManifest (reason : Option String)
  /-- No more sources can be told apart. -/
  | tooManySources
deriving DecidableEq, Repr

namespace ConfigError

/-- The name of an error's cause in reports. -/
def kindName : ConfigError → String
  | .badStatement _ _ => "SyntaxError"
  | .unknownConfigurable _ _ => "UnknownConfigurable"
  | .ambiguousConfigurable _ _ _ => "AmbiguousConfigurable"
  | .duplicateRegistration _ => "DuplicateRegistration"
  | .unknownParameter _ _ _ => "UnknownParameter"
  | .missingParameter _ _ _ => "MissingRequiredParameter"
  | .undefinedMacro _ _ => "UndefinedMacro"
  | .cyclicReference _ => "CyclicReference"
  | .circularInclude _ _ => "CircularIncludeError"
  | .unloadable _ _ _ => "FileLoadError"
  | .parameterType _ _ _ _ _ => "ParameterType"
  | .constructorFailed _ _ _ => "ConstructorFailed"
  | .invalidManifest _ => "InvalidManifest"
  | .tooManySources => "TooManySources"

/-- A place in front of a message. -/
def placed (place : Option Location) (message : String) : String :=
  match place with
  | some place => place.toText ++ ": " ++ message
  | none => message

def message : ConfigError → String
  | .badStatement place message => place.toText ++ ": syntax error: " ++ message
  | .unknownConfigurable name place => placed place ("unknown configurable `" ++ name ++ "`")
  | .ambiguousConfigurable name candidates place =>
    placed place ("ambiguous configurable `" ++ name ++ "`, candidates: "
      ++ Text.join ", " candidates)
  | .duplicateRegistration name => "configurable `" ++ name ++ "` is already registered"
  | .unknownParameter symbol param place =>
    placed place ("configurable `" ++ symbol ++ "` has no parameter `" ++ param ++ "`")
  | .missingParameter scope symbol param =>
    "missing required parameter `" ++ param ++ "` of `" ++ scope.qualify symbol ++ "`"
  | .undefinedMacro name place => place.toText ++ ": undefined macro `%" ++ name ++ "`"
  | .cyclicReference chain => "cyclic reference: " ++ Text.join " -> " chain
  | .circularInclude chain place =>
    placed place ("circular include: " ++ Text.join " -> " chain)
  | .unloadable path reason place =>
    placed place ("cannot load `" ++ path ++ "`: " ++ reason)
  | .parameterType scope symbol param expected found =>
    "parameter `" ++ param ++ "` of `" ++ scope.qualify symbol ++ "` expects "
      ++ expected.toText ++ ", got " ++ found
  | .constructorFailed scope symbol message =>
    "constructor for `" ++ scope.qualify symbol ++ "` failed: " ++ message
  | .invalidManifest (some reason) => "invalid registry manifest: " ++ reason
  | .invalidManifest none => "invalid registry manifest"
  | .tooManySources => "too many source files"

/-- The place of the statement that is to blame, if the error knows it. -/
def location? : ConfigError → Option Location
  | .badStatement place _ | .undefinedMacro _ place => some place
  | .unknownConfigurable _ place | .ambiguousConfigurable _ _ place
  | .unknownParameter _ _ place | .circularInclude _ place | .unloadable _ _ place => place
  | _ => none

/-- The error at the given place, if it is of a cause that has a place and does not know one. -/
def at? (place : Location) : ConfigError → ConfigError
  | .unknownConfigurable name none => .unknownConfigurable name (some place)
  | .ambiguousConfigurable name candidates none =>
    .ambiguousConfigurable name candidates (some place)
  | .unknownParameter symbol param none => .unknownParameter symbol param (some place)
  | .circularInclude chain none => .circularInclude chain (some place)
  | .unloadable path reason none => .unloadable path reason (some place)
  | error => error

theorem location?_at {error : ConfigError} {place known : Location}
    (has : error.location? = some known) : error.at? place = error := by
  unfold at?
  split
  all_goals first | rfl | cases has

end ConfigError

end ConfigBinding
