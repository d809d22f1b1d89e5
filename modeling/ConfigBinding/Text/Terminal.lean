/-!
# Text for a terminal

A terminal obeys some control characters: bell, backspace, form feed, escape and delete, and all
those from U+0080 to U+009F. In a text for a terminal they are written by their numbers. Tabs, line
breaks and the remaining control characters stand for themselves.

Results:
1. `isCommand_of_mem_neutralize`: a text for a terminal holds no character that is obeyed.
-/

namespace ConfigBinding.Text.Terminal

/-- Whether a terminal obeys a character. -/
def isCommand (c : Char) : Bool :=
  c ∈ ['\x07', '\x08', '\x0c', '\x1b', '\x7f'] || decide (0x80 ≤ c.toNat ∧ c.toNat ≤ 0x9f)

/-- The number of a character below U+0100 in two hexadecimal digits. -/
def twoDigits (c : Char) : List Char :=
  [Nat.digitChar (c.toNat / 16), Nat.digitChar (c.toNat % 16)]

def encodeChar (c : Char) : List Char :=
  if !isCommand c then [c]
  else if c.toNat < 0x80 then ['\\', 'x'] ++ twoDigits c
  else ['\\', 'u', '\x7b'] ++ twoDigits c ++ ['\x7d']

def neutralize (text : String) : String := String.ofList (text.toList.flatMap encodeChar)

theorem isCommand_digitChar (n : Nat) : isCommand n.digitChar = false := by
  by_cases h : n < 16
  · have digits : ∀ n < 16, isCommand n.digitChar = false := by decide
    exact digits n h
  · have other : n.digitChar = '*' := by simp (disch := omega) only [Nat.digitChar, if_neg]
    rw [other]
    rfl

theorem isCommand_of_mem_encodeChar {c d : Char} (h : d ∈ encodeChar c) : isCommand d = false := by
  unfold encodeChar at h
  split at h
  · rename_i harmless
    rw [List.mem_singleton.1 h]
    simpa using harmless
  · split at h
    all_goals
      simp only [twoDigits, List.cons_append, List.nil_append, List.mem_cons, List.not_mem_nil,
        or_false] at h
    · rcases h with rfl | rfl | rfl | rfl
      · rfl
      · rfl
      · exact isCommand_digitChar _
      · exact isCommand_digitChar _
    · rcases h with rfl | rfl | rfl | rfl | rfl | rfl
      · rfl
      · rfl
      · rfl
      · exact isCommand_digitChar _
      · exact isCommand_digitChar _
      · rfl

theorem isCommand_of_mem_neutralize {text : String} {c : Char} (h : c ∈ (neutralize text).toList) :
    isCommand c = false := by
  simp only [neutralize, String.toList_ofList, List.mem_flatMap] at h
  obtain ⟨_, _, h⟩ := h
  exact isCommand_of_mem_encodeChar h

end ConfigBinding.Text.Terminal
