import ConfigBinding.Source.Span

/-!
# Locations

A location names a place for a person: the source, the line and the column. Lines and columns
start at one; only the line feed ends a line, and a line feed at the end of a text opens one more,
empty line. Columns count bytes. Both are numbers of 32 bits.

The source map holds all sources that have been read so far. A source is known by its number; two
sources may have one name.

Results:
1. `lineCol_one`: the start of every text is line one, column one.
-/

namespace ConfigBinding

/-- A place in a source. -/
structure Location where
  file : String
  line : UInt32
  column : UInt32
deriving DecidableEq, Repr

def Location.toText (place : Location) : String :=
  s!"{place.file}:{place.line}:{place.column}"

instance : ToString Location := ⟨Location.toText⟩

/-- A source text under the name by which its loader knows it. -/
structure SourceFile where
  name : String
  text : String
deriving DecidableEq, Repr

namespace SourceFile

/-- The offsets just after each line feed, for a text that starts at `offset`. -/
def startsAfter : Nat → List Char → List Nat
  | _, [] => []
  | offset, c :: cs =>
    let next := offset + c.utf8Size
    if c = '\n' then next :: startsAfter next cs else startsAfter next cs

/-- The offsets at which the lines start. -/
def lineStarts (source : SourceFile) : List Nat := 0 :: startsAfter 0 source.text.toList

def lineCount (source : SourceFile) : Nat := source.lineStarts.length

def byteSize (source : SourceFile) : Nat := ConfigBinding.byteSize source.text.toList

/-- The line and column of an offset in a source of less than 4 GiB; one behind the end of the text
counts as the end. The line is the last one that does not start behind the offset. What 32 bits do
not hold is cut off; where overflow is checked for, the program stops instead of giving column
zero. -/
def lineCol (source : SourceFile) (offset : Nat) : UInt32 × UInt32 :=
  let offset := min offset source.byteSize
  let passed := source.lineStarts.takeWhile (· ≤ offset)
  (UInt32.ofNat passed.length, UInt32.ofNat (offset - passed.getLastD 0) + 1)

theorem lineCol_one (source : SourceFile) : source.lineCol 0 = (1, 1) := by
  have later : ∀ (cs : List Char) (offset : Nat),
      (startsAfter offset cs).takeWhile (· ≤ 0) = [] := by
    intro cs
    induction cs with
    | nil => intro; rfl
    | cons c cs ih =>
      intro offset
      have width := c.utf8Size_pos
      have behind : ¬ offset + c.utf8Size ≤ 0 := by omega
      simp only [startsAfter]
      split
      · simp only [List.takeWhile_cons, behind, decide_false, Bool.false_eq_true, if_false]
      · exact ih _
  simp only [lineCol, lineStarts, Nat.zero_min, Nat.le_refl, decide_true, List.takeWhile_cons,
    if_true, later]
  rfl

end SourceFile

/-- All sources read so far, each at the place of its number. -/
structure SourceMap where
  files : List SourceFile
deriving DecidableEq, Repr

namespace SourceMap

def empty : SourceMap := ⟨[]⟩

def size (sources : SourceMap) : Nat := sources.files.length

/-- The number of sources that a map can hold: source numbers have 16 bits, and the last is never
given. -/
def capacity : Nat := 65535

/-- The map with one more source, and the number of that source. -/
def add (sources : SourceMap) (name text : String) : SourceMap × Nat :=
  (⟨sources.files ++ [⟨name, text⟩]⟩, sources.size)

/-- The source with the given number; a number that was never given belongs to an empty source
without a name. -/
def file (sources : SourceMap) (number : Nat) : SourceFile :=
  sources.files[number]?.getD ⟨"", ""⟩

/-- The place at which a span starts. -/
def location (sources : SourceMap) (span : Span) : Location :=
  let source := sources.file span.file
  let (line, column) := source.lineCol span.start
  ⟨source.name, line, column⟩

theorem size_add (sources : SourceMap) (name text : String) :
    (sources.add name text).1.size = sources.size + 1 :=
  List.length_append

/-- A source stands at the place of its number. -/
theorem getElem?_add (sources : SourceMap) (name text : String) :
    (sources.add name text).1.files[sources.size]? = some ⟨name, text⟩ :=
  List.getElem?_concat_length

end SourceMap

end ConfigBinding
