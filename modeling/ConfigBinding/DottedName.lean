import ConfigBinding.Text.Segments

/-!
# Dotted names

The name of a configurable, a module or a macro: segments with a dot between them. A registered
name is found by any of its suffixes, and an import renames a prefix.

Results:
1. `toText_parse`: a text reads as the name that is written as this text.
2. `endsWith_iff`, `startsWith_iff`: suffixes and prefixes are taken by whole segments.
-/

namespace ConfigBinding

/-- A name made of segments. -/
structure DottedName where
  segments : List String
deriving DecidableEq, Repr

namespace DottedName

/-- The name written as `text`. The empty text is one empty segment. -/
def parse (text : String) : DottedName := ⟨Text.split '.' text⟩

def joinWith (name : DottedName) (sep : String) : String := Text.join sep name.segments

def toText (name : DottedName) : String := name.joinWith "."

instance : ToString DottedName := ⟨toText⟩

def size (name : DottedName) : Nat := name.segments.length

def isEmpty (name : DottedName) : Bool := name.segments.isEmpty

def first? (name : DottedName) : Option String := name.segments.head?

def last? (name : DottedName) : Option String := name.segments.getLast?

/-- The name with one more segment at its end. -/
def append (name : DottedName) (segment : String) : DottedName := ⟨name.segments ++ [segment]⟩

/-- All segments but the last, if there are at least two. -/
def parent? (name : DottedName) : Option DottedName :=
  if name.size ≤ 1 then none else some ⟨name.segments.dropLast⟩

def startsWith (name start : DottedName) : Bool := start.segments.isPrefixOf name.segments

def endsWith (name tail : DottedName) : Bool := tail.segments.isSuffixOf name.segments

/-- The first `count` segments. -/
def take (name : DottedName) (count : Nat) : DottedName := ⟨name.segments.take count⟩

/-- The name with its first `count` segments replaced by those of `start`. -/
def replaceStart (name : DottedName) (count : Nat) (start : DottedName) : DottedName :=
  ⟨start.segments ++ name.segments.drop count⟩

/-- The order of names: segment by segment, a name before its continuations. -/
def compareSegments : List String → List String → Ordering
  | [], [] => .eq
  | [], _ :: _ => .lt
  | _ :: _, [] => .gt
  | a :: as, b :: bs => (compare a b).then (compareSegments as bs)

instance : Ord DottedName := ⟨fun a b => compareSegments a.segments b.segments⟩

theorem toText_parse (text : String) : (parse text).toText = text :=
  Text.join_split '.' text

theorem parse_toText {name : DottedName} (nonempty : name.segments ≠ [])
    (apart : ∀ segment ∈ name.segments, '.' ∉ segment.toList) : parse name.toText = name :=
  congrArg DottedName.mk (Text.split_join nonempty apart)

theorem toText_append {name : DottedName} (nonempty : name.segments ≠ []) (segment : String) :
    (name.append segment).toText = name.toText ++ "." ++ segment :=
  Text.join_concat "." nonempty segment

theorem parent?_append {name : DottedName} (nonempty : name.segments ≠ []) (segment : String) :
    (name.append segment).parent? = some name := by
  have long : ¬ (name.append segment).size ≤ 1 := by
    have := List.length_pos_iff.mpr nonempty
    simp [append, size]
    omega
  rw [parent?, if_neg long, append, List.dropLast_concat]

theorem last?_append (name : DottedName) (segment : String) :
    (name.append segment).last? = some segment :=
  List.getLast?_concat

theorem endsWith_iff {name tail : DottedName} :
    name.endsWith tail = true ↔ tail.segments <:+ name.segments :=
  List.isSuffixOf_iff_suffix

theorem startsWith_iff {name start : DottedName} :
    name.startsWith start = true ↔ start.segments <+: name.segments :=
  List.isPrefixOf_iff_prefix

end DottedName

end ConfigBinding
