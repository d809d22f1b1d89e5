/-!
# Tags of YAML nodes

A tag says of which type a node is. It is written as a handle, which stands for the start of the
tag, and a suffix. Both may hold the bytes of a character by their numbers, and these bytes need not
make up a text; a zero byte ends the part that holds it.

Results:
1. `ofParts_ending`: what stands behind a zero byte does not count.
-/

namespace ConfigBinding.Yaml

/-- What the tag of a node says. -/
inductive Tag
  | bool
  | int
  | float
  | null
  /-- A tag of the document's own, which starts with an exclamation mark. -/
  | own
  /-- A tag that starts like one of the document's own but is no text. It says nothing. -/
  | illegible
  /-- Any other tag. A scalar with it is a text. -/
  | other
deriving DecidableEq, Repr

namespace Tag

/-- The tag with the given text; the core types are known by their full names. -/
def ofText : String → Tag
  | "tag:yaml.org,2002:bool" => .bool
  | "tag:yaml.org,2002:int" => .int
  | "tag:yaml.org,2002:float" => .float
  | "tag:yaml.org,2002:null" => .null
  | text => if text.startsWith "!" then .own else .other

/-- The tag with the given bytes. The byte of the exclamation mark is 33. -/
def ofBytes (bytes : List UInt8) : Tag :=
  match String.fromUTF8? ⟨bytes.toArray⟩ with
  | some text => ofText text
  | none => if bytes.head? = some 33 then .illegible else .other

/-- The bytes before the first zero. -/
def beforeZero (bytes : List UInt8) : List UInt8 := bytes.takeWhile (· != 0)

/-- The tag of a suffix, behind the bytes that its handle stands for. -/
def ofParts (start suffix : List UInt8) : Tag := ofBytes (beforeZero start ++ beforeZero suffix)

theorem beforeZero_append_zero (bytes more : List UInt8) :
    beforeZero (bytes ++ 0 :: more) = beforeZero bytes := by
  induction bytes with
  | nil => rfl
  | cons byte bytes ih =>
    by_cases h : byte = 0
    · simp [beforeZero, h]
    · simpa [beforeZero, h] using ih

theorem ofParts_ending (start suffix more : List UInt8) :
    ofParts start (suffix ++ 0 :: more) = ofParts start suffix := by
  rw [ofParts, beforeZero_append_zero, ofParts]

end Tag

end ConfigBinding.Yaml
