import ConfigBinding.Text.Segments

/-!
# File paths

A path is a text whose pieces are separated by slashes; it is absolute if a slash stands at its
start. The pieces are kept as they are written, so that a path is written back as it was read.
Empty pieces and single dots say nothing, except that a dot at the start of a relative path counts
as a component of its own.

Nothing here looks at files: `normalize` resolves dots by the text alone.

Results:
1. `toText_parse`: a text reads as the path that is written as this text.
-/

namespace ConfigBinding

/-- A path, as the pieces of its text. The pieces of an absolute path are those behind the first
slash. -/
structure FilePath where
  isAbsolute : Bool
  pieces : List String
deriving DecidableEq, Repr

namespace FilePath

def parse (text : String) : FilePath :=
  match Text.split '/' text with
  | "" :: piece :: pieces => ⟨true, piece :: pieces⟩
  | pieces => ⟨false, pieces⟩

def toText (path : FilePath) : String :=
  (if path.isAbsolute then "/" else "") ++ Text.join "/" path.pieces

instance : ToString FilePath := ⟨toText⟩

/-! ## Components -/

/-- Whether a piece says nothing, wherever it stands but at the start of a relative path. -/
def isTrivial (piece : String) : Bool := piece == "" || piece == "."

/-- The dot at the start of a relative path, if there is one, and the pieces behind it. -/
def splitDot (path : FilePath) : List String × List String :=
  match path.isAbsolute, path.pieces with
  | false, "." :: pieces => (["."], pieces)
  | _, pieces => ([], pieces)

/-- A list without the trivial pieces at its end. -/
def dropTrivialEnd (pieces : List String) : List String :=
  (pieces.reverse.dropWhile isTrivial).reverse

/-- The path without its last component. A path without components has no parent. -/
def parent? (path : FilePath) : Option FilePath :=
  let (dot, pieces) := path.splitDot
  match (dropTrivialEnd pieces).reverse, dot with
  | _ :: outer, dot => some ⟨path.isAbsolute, dot ++ dropTrivialEnd outer.reverse⟩
  | [], _ :: _ => some ⟨path.isAbsolute, []⟩
  | [], [] => none

/-- The path as seen from the directory `dir`: an absolute path is itself. -/
def join (dir path : FilePath) : FilePath :=
  if path.isAbsolute then path
  else
    let outer := if dir.pieces.getLast? = some "" then dir.pieces.dropLast else dir.pieces
    ⟨dir.isAbsolute, outer ++ path.pieces⟩

/-! ## Normal form -/

/-- Goes on from the components `passed`, innermost first, to the next component. Two dots go back
by one; where that is not possible, a relative path keeps them and an absolute one drops them. -/
def walk (isAbsolute : Bool) (passed : List String) (component : String) : List String :=
  if isTrivial component then passed
  else if component = ".." then
    match passed with
    | [] => if isAbsolute then [] else [".."]
    | last :: outer => if last = ".." then ".." :: last :: outer else outer
  else component :: passed

/-- The path without dots and double dots, as far as the text alone can tell. -/
def normalize (path : FilePath) : FilePath :=
  ⟨path.isAbsolute, (path.pieces.foldl (walk path.isAbsolute) []).reverse⟩

/-! ## Addresses with a scheme -/

def isSchemeChar (c : Char) : Bool := c.isAlphanum || c == '+' || c == '-' || c == '.'

/-- Whether a text is an address such as `gs://bucket/a`, which is no path on a file system. -/
def isUri (text : String) : Bool :=
  let scheme := text.toList.takeWhile isSchemeChar
  !scheme.isEmpty && [':', '/', '/'].isPrefixOf (text.toList.drop scheme.length)

theorem toText_parse (text : String) : (parse text).toText = text := by
  have joined := Text.join_split '/' text
  change Text.join "/" (Text.split '/' text) = text at joined
  unfold parse
  split
  · rename_i piece pieces cut
    rw [cut] at joined
    simpa [toText, Text.join] using joined
  · simpa [toText] using joined

end FilePath

end ConfigBinding
