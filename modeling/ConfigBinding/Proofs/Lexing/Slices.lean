import ConfigBinding.Proofs.Lexing.Tokenization

/-!
# Slices of a text

What a text reads as between the first and the last of some of its lexemes is what this slice reads
as on its own. The slice lacks what comes before it, which a reading does not look back at, and what
comes after it: this can only make longer matches possible, never a match that is there less long.
The bytes count from the start of the slice.

Results:
1. `Munches.truncate`: what follows the last match may be cut off.
2. `Munches.back`: a text reads the same from every byte on.
3. `tokenize_slice`: the lexemes of a slice.
-/

namespace ConfigBinding

/-- The lexeme as it stands in the slice that starts at the byte `start`. -/
def Lexeme.back (start : Nat) (l : Lexeme) : Lexeme := ⟨l.token, l.start - start, l.stop - start⟩

namespace Lexer

namespace Munches

variable {offset stop : Nat} {text left : List Char} {lexemes : List Lexeme}

/-- Reading takes a piece of the text, and what follows this piece may be cut off anywhere. -/
theorem truncate (munches : Munches offset text lexemes stop left) :
    ∃ taken, text = taken ++ left ∧ stop = offset + byteSize taken ∧
      ∀ less, less <+: left → Munches offset (taken ++ less) lexemes stop less := by
  induction munches with
  | refl offset text => exact ⟨[], rfl, rfl, fun less _ => .refl offset less⟩
  | @skip k word _ _ _ _ _ longest skipped _ ih =>
    obtain ⟨taken, rfl, rfl, reads⟩ := ih
    refine ⟨word ++ taken, (List.append_assoc ..).symm, ?_, ?_⟩
    · rw [byteSize_append, Nat.add_assoc]
    · rintro less ⟨rest, rfl⟩
      rw [← List.append_assoc taken] at longest
      rw [List.append_assoc]
      exact .skip longest.truncate skipped (reads less ⟨rest, rfl⟩)
  | @token k word _ _ _ _ _ _ longest notSkipped denotes _ ih =>
    obtain ⟨taken, rfl, rfl, reads⟩ := ih
    refine ⟨word ++ taken, (List.append_assoc ..).symm, ?_, ?_⟩
    · rw [byteSize_append, Nat.add_assoc]
    · rintro less ⟨rest, rfl⟩
      rw [← List.append_assoc taken] at longest
      rw [List.append_assoc]
      exact .token longest.truncate notSkipped denotes (reads less ⟨rest, rfl⟩)

/-- A text reads the same wherever it starts. -/
theorem back (munches : Munches offset text lexemes stop left) {start : Nat}
    (behind : start ≤ offset) :
    Munches (offset - start) text (lexemes.map (Lexeme.back start)) (stop - start) left := by
  induction munches with
  | refl offset text => exact .refl _ text
  | skip longest skipped _ ih =>
    have more := ih (Nat.le_add_right_of_le behind)
    rw [Nat.sub_add_comm behind] at more
    exact .skip longest skipped more
  | token longest notSkipped denotes _ ih =>
    have more := ih (Nat.le_add_right_of_le behind)
    rw [Nat.sub_add_comm behind] at more
    rw [List.map_cons, Lexeme.back, Nat.sub_add_comm behind]
    exact .token longest notSkipped denotes more

/-- Reading can be interrupted where a lexeme begins. -/
theorem split_before {first : Lexeme} {others earlier : List Lexeme}
    (munches : Munches offset text (earlier ++ first :: others) stop left) :
    ∃ rest, Munches offset text earlier first.start rest ∧
      Munches first.start rest (first :: others) stop left := by
  generalize whole : earlier ++ first :: others = lexemes at munches
  induction munches generalizing earlier with
  | refl => simp at whole
  | skip longest skipped _ ih =>
    obtain ⟨rest, before, after⟩ := ih whole
    exact ⟨rest, .skip longest skipped before, after⟩
  | @token _ word more _ offset _ _ _ longest notSkipped denotes reads ih =>
    cases earlier with
    | nil =>
      cases whole
      exact ⟨word ++ more, .refl _ _, .token longest notSkipped denotes reads⟩
    | cons l earlier =>
      cases whole
      obtain ⟨rest, before, after⟩ := ih rfl
      exact ⟨rest, .token longest notSkipped denotes before, after⟩

/-- Reading can be interrupted where a lexeme ends. -/
theorem split_behind {last : Lexeme} {others earlier : List Lexeme}
    (munches : Munches offset text (earlier ++ last :: others) stop left) :
    ∃ rest, Munches offset text (earlier ++ [last]) last.stop rest ∧
      Munches last.stop rest others stop left := by
  generalize whole : earlier ++ last :: others = lexemes at munches
  induction munches generalizing earlier with
  | refl => simp at whole
  | skip longest skipped _ ih =>
    obtain ⟨rest, before, after⟩ := ih whole
    exact ⟨rest, .skip longest skipped before, after⟩
  | @token _ word more _ offset _ _ _ longest notSkipped denotes reads ih =>
    cases earlier with
    | nil =>
      cases whole
      exact ⟨more, .token longest notSkipped denotes (.refl _ _), reads⟩
    | cons l earlier =>
      cases whole
      obtain ⟨rest, before, after⟩ := ih rfl
      exact ⟨rest, .token longest notSkipped denotes before, after⟩

end Munches

end Lexer

/-- The slice from the first to the last of some lexemes of a text reads as these lexemes. -/
theorem tokenize_slice {text : String} {before after : List Lexeme} {ls : List Lexeme}
    {first last : Lexeme} (read : tokenize text = .ok (before ++ (ls ++ after)))
    (begins : ls.head? = some first) (ends : ls.getLast? = some last) :
    ∃ piece, Lexer.Cut text.toList first.start last.stop piece ∧
      tokenize (String.ofList piece) = .ok (ls.map (Lexeme.back first.start)) := by
  have munches := tokenize_eq_ok_iff.mp read
  obtain ⟨more, rfl⟩ := List.head?_eq_some_iff.mp begins
  obtain ⟨fewer, whole⟩ := List.getLast?_eq_some_iff.mp ends
  rw [List.cons_append] at munches
  obtain ⟨fromFirst, earlier, behind⟩ := munches.split_before
  rw [← List.cons_append, whole, List.append_assoc] at behind
  obtain ⟨rest, upToLast, _⟩ := behind.split_behind
  rw [← whole] at upToLast
  obtain ⟨skipped, whole', place, _⟩ := earlier.truncate
  obtain ⟨piece, rfl, size, reads⟩ := upToLast.truncate
  rw [Nat.zero_add] at place
  refine ⟨piece, ⟨skipped, rest, whole', place, size⟩, ?_⟩
  have alone := (reads [] List.nil_prefix).back (Nat.le_refl _)
  rw [Nat.sub_self, size, Nat.add_sub_cancel_left, List.append_nil] at alone
  rw [tokenize_eq_ok_iff, String.toList_ofList]
  exact alone

end ConfigBinding
