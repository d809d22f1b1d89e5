import ConfigBinding.Entries
import ConfigBinding.FilePath

/-!
# Where sources come from

A loader turns the path of an inclusion, and the identifier of the file that includes it, into a
text with an identifier of its own. The identifier is the same for all spellings of one file; it
shows when a file includes itself, and it names the file in messages.

A loader is a function: asked twice, it gives the same answer.

Results:
1. `MemorySources.load_toplevel`: without an including file, a name is looked up as it is spelled.
-/

namespace ConfigBinding

/-- A source text under its identifier. -/
structure LoadedSource where
  id : String
  text : String
deriving DecidableEq, Repr

/-- Why there is no text for a path. -/
inductive LoadFailure
  | notInMemory
  /-- The number of directories that were searched. -/
  | notOnDisk (searchPaths : Nat)
  | noRemoteLoader
  | notUnicode
  /-- The file is there but cannot be read. -/
  | unreadable (reason : String)
deriving DecidableEq, Repr

def LoadFailure.message : LoadFailure → String
  | .notInMemory => "no such in-memory source"
  | .notOnDisk searchPaths =>
    s!"not found relative to the including file or any of {searchPaths} search path(s)"
  | .noRemoteLoader => "no loader configured for remote paths"
  | .notUnicode => "stream did not contain valid UTF-8"
  | .unreadable reason => reason

/-- Loads the source that a path names, seen from the including file if there is one. -/
abbrev SourceLoader := (path : String) → (including : Option String) →
  Except LoadFailure LoadedSource

/-- The directory of a file. -/
def directoryOf? (id : String) : Option FilePath := (FilePath.parse id).parent?

/-! ## Sources in memory -/

/-- Texts by name. -/
structure MemorySources where
  files : List (String × String)
deriving DecidableEq, Repr

namespace MemorySources

def empty : MemorySources := ⟨[]⟩

def insert (sources : MemorySources) (name text : String) : MemorySources :=
  ⟨Entries.insert name text sources.files⟩

/-- The name under which a path is looked up. An address with a scheme is taken as it is. -/
def spelling (path : FilePath) : String :=
  if FilePath.isUri path.toText then path.toText else path.normalize.toText

/-- The names that a path may stand for, first the one in the directory of the including file. -/
def candidates (path : String) (including : Option String) : List String :=
  let direct := [spelling (FilePath.parse path)]
  match if FilePath.isUri path then none else including.bind directoryOf? with
  | some dir =>
    if dir.toText.isEmpty then direct else spelling (dir.join (FilePath.parse path)) :: direct
  | none => direct

/-- Loads the first candidate that is there. -/
def load (sources : MemorySources) : SourceLoader := fun path including =>
  let found := (candidates path including).findSome? fun name =>
    (Entries.get? name sources.files).map fun text => (⟨name, text⟩ : LoadedSource)
  match found with
  | some source => .ok source
  | none => .error .notInMemory

theorem load_toplevel (sources : MemorySources) (path : String) :
    sources.load path none =
      match Entries.get? (spelling (FilePath.parse path)) sources.files with
      | some text => .ok ⟨spelling (FilePath.parse path), text⟩
      | none => .error .notInMemory := by
  have alone : candidates path none = [spelling (FilePath.parse path)] := by
    simp only [candidates, Option.bind_none, ite_self]
  rw [load, alone, List.findSome?_cons, List.findSome?_nil]
  cases Entries.get? (spelling (FilePath.parse path)) sources.files <;> rfl

end MemorySources

/-! ## Sources on disk -/

/-- A file on disk: its canonical path, and its text if it can be read. -/
structure DiskFile where
  id : String
  text : Except LoadFailure String

/-- The file at a path, if there is one. -/
abbrev Disk := FilePath → Option DiskFile

/-- How sources on disk are found. -/
structure DiskSources where
  searchPaths : List String
  /-- The loader of addresses with a scheme. -/
  remote : Option SourceLoader

namespace DiskSources

/-- The places at which a path is looked for: in the directory of the including file, in the search
paths, and as it is. -/
def candidates (sources : DiskSources) (path : String) (including : Option String) :
    List FilePath :=
  let path := FilePath.parse path
  if path.isAbsolute then [path]
  else
    let dir? := (including.filter fun id => !FilePath.isUri id).bind directoryOf?
    dir?.toList.map (·.join path)
      ++ sources.searchPaths.map (fun dir => (FilePath.parse dir).join path) ++ [path]

/-- Loads the first candidate that is there; if it cannot be read, the others do not count. -/
def load (sources : DiskSources) (disk : Disk) : SourceLoader := fun path including =>
  if FilePath.isUri path then
    match sources.remote with
    | some remote => remote path including
    | none => .error .noRemoteLoader
  else match (sources.candidates path including).findSome? disk with
    | some file => file.text.map fun text => ⟨file.id, text⟩
    | none => .error (.notOnDisk sources.searchPaths.length)

end DiskSources

end ConfigBinding
