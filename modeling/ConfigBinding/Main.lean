import ConfigBinding.Check
import ConfigBinding.Source.FileTree

/-!
# The command line program

Reads what the check command needs from the disk, runs the command, and writes its report: the log
to the standard error stream and the operative configuration to the standard output. The variable
`LOG_LEVEL` says which levels of the log are shown.

Which files are needed is found by following the inclusions of the files read so far. A file is
requested by a path and the identifier of the file that includes it, and each request is answered
once.
-/

namespace ConfigBinding.Main

open Check

/-- A request for a source. -/
abbrev Request := String × Option String

/-- The answers to requests so far. -/
abbrev Answers := List (Request × Except LoadFailure LoadedSource)

/-- The reason that an error gives. -/
def reasonOf (error : IO.Error) : String :=
  match error with
  | .noFileOrDirectory _ _ _ => PathFailure.missing.message
  | .permissionDenied _ _ _ => "Permission denied (os error 13)"
  | .inappropriateType _ code _ =>
    if code = 21 then PathFailure.isDirectory.message else PathFailure.notDirectory.message
  | .invalidArgument _ code _ =>
    if code = 36 then PathFailure.tooLong.message else toString error
  | error => toString error

/-- The text of a file, or the reason why it cannot be read. -/
def readText (path : String) : IO (Except String String) := do
  try
    let content ← IO.FS.readBinFile path
    match String.fromUTF8? content with
    | some text => return .ok text
    | none => return .error LoadFailure.notUnicode.message
  catch error => return .error (reasonOf error)

/-- The file at a path, if there is one. -/
def readFile? (path : String) : IO (Option DiskFile) := do
  try
    let content ← IO.FS.readBinFile path
    let id ← IO.FS.realPath path
    let text := match String.fromUTF8? content with
      | some text => .ok text
      | none => .error .notUnicode
    return some ⟨toString id, text⟩
  catch error =>
    match error with
    | .permissionDenied _ _ _ => return some ⟨path, .error (.unreadable (reasonOf error))⟩
    | _ => return none

/-- Answers a request from the disk. -/
def answer (sources : DiskSources) (request : Request) :
    IO (Except LoadFailure LoadedSource) := do
  let (path, including) := request
  let mut files : List (FilePath × DiskFile) := []
  for candidate in sources.candidates path including do
    if let some file ← readFile? candidate.toText then files := files ++ [(candidate, file)]
  return sources.load (fun path => Entries.get? path files) path including

/-- The requests that a source makes. -/
def requestsOf (source : LoadedSource) : List Request :=
  match Statement.parseSource 0 source.text with
  | .error _ => []
  | .ok statements => statements.filterMap fun statement =>
    match statement.body with
    | .includeFile path => some (path, some source.id)
    | _ => none

/-- Answers requests, and those that the answers make. -/
partial def answerAll (sources : DiskSources) (answers : Answers) : List Request → IO Answers
  | [] => return answers
  | request :: requests => do
    if Entries.contains request answers then answerAll sources answers requests
    else
      let result ← answer sources request
      let more := match result with
        | .ok source => requestsOf source
        | .error _ => []
      answerAll sources ((request, result) :: answers) (more ++ requests)

/-- The loader that gives the answers. -/
def loaderOf (sources : DiskSources) (answers : Answers) : SourceLoader := fun path including =>
  (Entries.get? (path, including) answers).getD
    (.error (.notOnDisk sources.searchPaths.length))

/-- Runs the command with the given arguments. -/
def check (arguments : Arguments) : IO UInt32 := do
  let manifest ← readText arguments.registry
  let sources : DiskSources := ⟨arguments.searchPaths, none⟩
  let answers ← answerAll sources []
    ((arguments.primary :: arguments.overrides).map fun path => (path, none))
  let report := Check.run manifest (loaderOf sources answers) arguments
  let level ← IO.getEnv "LOG_LEVEL"
  let threshold := (level.bind Level.threshold?).getD Level.info.rank
  for record in report.shown threshold do
    IO.eprintln record.toText
  IO.print report.output
  return UInt32.ofNat report.exitCode

end ConfigBinding.Main

/-- Checks the configuration that the arguments name. -/
def main (arguments : List String) : IO UInt32 := do
  let program := "config-check"
  match ConfigBinding.Check.Command.parse arguments with
  | .check arguments => ConfigBinding.Main.check arguments
  | .help =>
    IO.print (ConfigBinding.Check.Command.helpText program)
    return 0
  | .invalid =>
    IO.eprint (ConfigBinding.Check.Command.usageText program)
    return 2
