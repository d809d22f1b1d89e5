/-!
# Spans

A span is a range of bytes in one source text. Offsets count bytes of the text in UTF-8, so they
can be compared with what other tools report.

The parser stores the offsets of spans in 32 bits (`storedOffset`), and so do the readers with
`Stored` in their names. Loading has exact ones for a text of any length. Below 4 GiB the two are
the same.

Results:
1. `storedOffset_of_lt`: a stored offset is exact below 4 GiB.
2. `storedOffset_add`: each further `2^32` bytes start again at zero.
-/

namespace ConfigBinding

/-- The bytes from `start` up to, but not including, `stop` of the source with number `file`. -/
structure Span where
  file : Nat
  start : Nat
  stop : Nat
deriving DecidableEq, Repr

namespace Span

/-- The empty span at the start of a source. -/
def zero (file : Nat) : Span := ⟨file, 0, 0⟩

def isEmpty (span : Span) : Bool := span.start == span.stop

end Span

/-- An offset as spans store it: what does not fit into 32 bits is cut off. -/
def storedOffset (offset : Nat) : Nat := (UInt32.ofNat offset).toNat

theorem storedOffset_of_lt {offset : Nat} (short : offset < UInt32.size) :
    storedOffset offset = offset :=
  UInt32.toNat_ofNat_of_lt' short

theorem storedOffset_add {count : Nat} (whole : UInt32.size ∣ count) (offset : Nat) :
    storedOffset (offset + count) = storedOffset offset := by
  obtain ⟨times, rfl⟩ := whole
  rw [storedOffset, storedOffset, UInt32.toNat_ofNat', UInt32.toNat_ofNat']
  exact Nat.add_mul_mod_self_left ..

/-- The number of bytes of a text in UTF-8. -/
def byteSize : List Char → Nat
  | [] => 0
  | c :: cs => c.utf8Size + byteSize cs

@[simp] theorem byteSize_nil : byteSize [] = 0 := rfl

@[simp] theorem byteSize_cons (c : Char) (cs : List Char) :
    byteSize (c :: cs) = c.utf8Size + byteSize cs := rfl

@[simp] theorem byteSize_append (cs ds : List Char) :
    byteSize (cs ++ ds) = byteSize cs + byteSize ds := by
  induction cs with
  | nil => simp
  | cons c cs ih => simp [ih, Nat.add_assoc]

end ConfigBinding
