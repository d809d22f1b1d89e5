import ConfigBinding.Source.Loader
import ConfigBinding.Source.Span

/-!
# File trees

A tree of directories and files held in memory, in which paths are followed as a file system without
links follows them: from the root or from the working directory, piece by piece, and only through
directories that exist. So two dots lead out of a directory that is there, unlike in
`FilePath.normalize`, which knows nothing about files.
-/

namespace ConfigBinding

/-- A tree of files. Names are the pieces of a path from the root. -/
structure FileTree where
  workingDirectory : List String
  directories : List (List String)
  files : List (List String × ByteArray)

/-- Why a path does not lead to a file. -/
inductive PathFailure
  | missing
  /-- A piece of the path, or the path, is longer than the file system admits. -/
  | tooLong
  | notDirectory
  | isDirectory
deriving DecidableEq, Repr

def PathFailure.message : PathFailure → String
  | .missing => "No such file or directory (os error 2)"
  | .tooLong => "File name too long (os error 36)"
  | .notDirectory => "Not a directory (os error 20)"
  | .isDirectory => "Is a directory (os error 21)"

namespace FileTree

/-- Whether there is a directory of the given name. Each directory on the way to a file or to
another directory exists. -/
def isDirectory (tree : FileTree) (name : List String) : Bool :=
  name.isPrefixOf tree.workingDirectory
    || tree.directories.any (fun dir => name.isPrefixOf dir)
    || tree.files.any fun (file, _) => name.isPrefixOf file.dropLast

def content? (tree : FileTree) (name : List String) : Option ByteArray :=
  Entries.get? name tree.files

/-- How many bytes the name of a file or directory may have. -/
def nameLimit : Nat := 255

/-- How many bytes a path may have. -/
def pathLimit : Nat := 4095

/-- Where the pieces of a path lead from the directory or file `here`. -/
def locate (tree : FileTree) : List String → List String → Except PathFailure (List String)
  | here, [] => .ok here
  | here, piece :: pieces =>
    if !tree.isDirectory here then .error .notDirectory
    else if FilePath.isTrivial piece then tree.locate here pieces
    else if piece = ".." then tree.locate here.dropLast pieces
    else if nameLimit < byteSize piece.toList then .error .tooLong
    else
      let next := here ++ [piece]
      if tree.isDirectory next || (tree.content? next).isSome then tree.locate next pieces
      else .error .missing

/-- The name and the content of the file at a path. The empty path leads nowhere. -/
def read (tree : FileTree) (path : FilePath) : Except PathFailure (List String × ByteArray) :=
  if path.toText.isEmpty then .error .missing
  else if pathLimit < byteSize path.toText.toList then .error .tooLong
  else do
    let name ← tree.locate (if path.isAbsolute then [] else tree.workingDirectory) path.pieces
    match tree.content? name with
    | some content => return (name, content)
    | none => throw .isDirectory

/-- The text of the file at a path, or the reason why there is none. -/
def readText (tree : FileTree) (path : FilePath) : Except String String :=
  match tree.read path with
  | .error failure => .error failure.message
  | .ok (_, content) =>
    match String.fromUTF8? content with
    | some text => .ok text
    | none => .error LoadFailure.notUnicode.message

/-- The files of the tree, each under its path from the root. -/
def disk (tree : FileTree) : Disk := fun path =>
  match tree.read path with
  | .error _ => none
  | .ok (name, content) =>
    let text := match String.fromUTF8? content with
      | some text => .ok text
      | none => .error .notUnicode
    some ⟨(FilePath.mk true name).toText, text⟩

end FileTree

end ConfigBinding
