import ConfigBinding.Source.Location
import Mathlib.Data.List.TakeWhile

/-!
# Lines and columns

The place of an offset, told from the bytes of the text: the line is one more than the number of
line feeds before the offset, and the column counts from just behind the last of them. A character
that is not a line feed has no such byte in it, so it makes no difference where the characters of
the text begin.

The line is searched for among the starts of the lines. Of a search it is only used what any search
in a sorted list keeps to (`Answers`), and every step behind it is checked: that there is an index
before the one that is answered, that it is inside, that the line does not start behind the offset,
and that the column has 32 bits (`lookUp?`).

Lines and columns are counted from one, so the longest texts have a place that 32 bits do not hold:
their end, if all is one line or if each byte ends one. All other places are told exactly.

Results:
1. `mem_lineStarts`, `pairwise_lineStarts`: where lines start.
2. `lookUp?_eq`: whatever the search answers, the line is found.
3. `lineCol_exact`: the place of an offset that has one.
4. `lineCol_overflows`: texts whose end has none.
-/

namespace ConfigBinding

/-- The byte of the line feed. -/
def newline : UInt8 := 10

/-! ## Bytes -/

theorem utf8EncodeChar_newline : String.utf8EncodeChar '\n' = [newline] := by decide

/-- Only the line feed has its byte. -/
theorem newline_not_mem_utf8EncodeChar {c : Char} (different : c ≠ '\n') :
    newline ∉ String.utf8EncodeChar c := by
  have value : c.val.toNat ≠ 10 := fun same => different (Char.ext (UInt32.toNat_inj.mp same))
  have byte (n : Nat) : newline = UInt8.ofNat n ↔ n % 256 = 10 := by
    rw [← UInt8.toNat_inj, UInt8.toNat_ofNat']
    exact eq_comm
  unfold String.utf8EncodeChar
  dsimp only
  split
  · simp only [List.mem_singleton, byte]
    omega
  split
  · simp only [List.mem_cons, List.not_mem_nil, or_false, byte]
    omega
  split
  · simp only [List.mem_cons, List.not_mem_nil, or_false, byte]
    omega
  · simp only [List.mem_cons, List.not_mem_nil, or_false, byte]
    omega

namespace SourceFile

/-- The bytes of a source. -/
def bytes (source : SourceFile) : List UInt8 := source.text.toUTF8.data.toList

theorem bytes_eq (source : SourceFile) :
    source.bytes = source.text.toList.flatMap String.utf8EncodeChar := by
  rw [bytes, String.toUTF8, ← String.utf8Encode_toList, List.utf8Encode,
    List.toList_data_toByteArray]

theorem length_flatMap_utf8EncodeChar (cs : List Char) :
    (cs.flatMap String.utf8EncodeChar).length = ConfigBinding.byteSize cs := by
  induction cs with
  | nil => rfl
  | cons c cs ih =>
    rw [List.flatMap_cons, List.length_append, ih, String.length_utf8EncodeChar, byteSize_cons]

theorem length_bytes (source : SourceFile) : source.bytes.length = source.byteSize := by
  rw [bytes_eq, length_flatMap_utf8EncodeChar, byteSize]

/-! ## Starts of lines -/

theorem startsAfter_newline (offset : Nat) (cs : List Char) :
    startsAfter offset ('\n' :: cs) = (offset + 1) :: startsAfter (offset + 1) cs := rfl

theorem startsAfter_of_ne {c : Char} (different : c ≠ '\n') (offset : Nat) (cs : List Char) :
    startsAfter offset (c :: cs) = startsAfter (offset + c.utf8Size) cs :=
  if_neg different

/-- A line starts just behind each line feed. -/
theorem mem_startsAfter {offset start : Nat} {cs : List Char} :
    start ∈ startsAfter offset cs ↔
      ∃ i, (cs.flatMap String.utf8EncodeChar)[i]? = some newline ∧ start = offset + i + 1 := by
  induction cs generalizing offset with
  | nil => simp [startsAfter]
  | cons c cs ih =>
    rw [List.flatMap_cons]
    by_cases feed : c = '\n'
    · subst feed
      rw [startsAfter_newline, List.mem_cons, ih, utf8EncodeChar_newline, List.singleton_append]
      constructor
      · rintro (rfl | ⟨i, isFeed, rfl⟩)
        · exact ⟨0, rfl, rfl⟩
        · exact ⟨i + 1, isFeed, by omega⟩
      · rintro ⟨_ | i, isFeed, rfl⟩
        · exact .inl rfl
        · exact .inr ⟨i, isFeed, by omega⟩
    · have noFeed := newline_not_mem_utf8EncodeChar feed
      have width := String.length_utf8EncodeChar c
      rw [startsAfter_of_ne feed, ih]
      constructor
      · rintro ⟨i, isFeed, rfl⟩
        refine ⟨c.utf8Size + i, ?_, by omega⟩
        rw [List.getElem?_append_right (by omega), width, Nat.add_sub_cancel_left, isFeed]
      · rintro ⟨i, isFeed, rfl⟩
        rcases Nat.lt_or_ge i c.utf8Size with within | behind
        · rw [List.getElem?_append_left (by omega)] at isFeed
          exact absurd (List.mem_of_getElem? isFeed) noFeed
        · rw [List.getElem?_append_right (by omega), width] at isFeed
          exact ⟨i - c.utf8Size, isFeed, by omega⟩

theorem pairwise_startsAfter (offset : Nat) (cs : List Char) :
    (startsAfter offset cs).Pairwise (· < ·) := by
  induction cs generalizing offset with
  | nil => exact .nil
  | cons c cs ih =>
    by_cases feed : c = '\n'
    · subst feed
      rw [startsAfter_newline]
      refine .cons (fun start member => ?_) (ih (offset + 1))
      obtain ⟨i, _, rfl⟩ := mem_startsAfter.mp member
      omega
    · rw [startsAfter_of_ne feed]
      exact ih (offset + c.utf8Size)

/-- As many lines start behind an offset and not behind another as there are line feeds between. -/
theorem length_takeWhile_startsAfter (offset last : Nat) (cs : List Char) :
    ((startsAfter offset cs).takeWhile (· ≤ last)).length =
      ((cs.flatMap String.utf8EncodeChar).take (last - offset)).count newline := by
  induction cs generalizing offset with
  | nil => simp [startsAfter]
  | cons c cs ih =>
    rw [List.flatMap_cons]
    by_cases feed : c = '\n'
    · subst feed
      rw [startsAfter_newline, utf8EncodeChar_newline, List.singleton_append, List.takeWhile_cons]
      rcases Nat.lt_or_ge offset last with before | behind
      · obtain ⟨rest, room⟩ : ∃ rest, last - offset = rest + 1 := ⟨last - offset - 1, by omega⟩
        rw [if_pos (decide_eq_true (Nat.succ_le_of_lt before)), List.length_cons, ih, room,
          List.take_succ_cons, List.count_cons_self, show last - (offset + 1) = rest by omega]
      · rw [if_neg (by simpa using Nat.lt_succ_of_le behind), Nat.sub_eq_zero_of_le behind,
          List.take_zero, List.count_nil, List.length_nil]
    · have noFeed : newline ∉ (String.utf8EncodeChar c).take (last - offset) :=
        fun member => newline_not_mem_utf8EncodeChar feed (List.mem_of_mem_take member)
      rw [startsAfter_of_ne feed, ih, List.take_append, List.count_append,
        List.count_eq_zero_of_not_mem noFeed, Nat.zero_add, String.length_utf8EncodeChar,
        Nat.sub_sub]

section Lines

variable (source : SourceFile)

theorem pairwise_lineStarts : source.lineStarts.Pairwise (· < ·) := by
  refine .cons (fun start member => ?_) (pairwise_startsAfter 0 _)
  obtain ⟨i, _, rfl⟩ := mem_startsAfter.mp member
  omega

/-- The first line starts with the text, each other just behind a line feed. -/
theorem mem_lineStarts {source : SourceFile} {start : Nat} :
    start ∈ source.lineStarts ↔
      start = 0 ∨ ∃ i, source.bytes[i]? = some newline ∧ start = i + 1 := by
  rw [lineStarts, List.mem_cons, mem_startsAfter, bytes_eq]
  simp only [Nat.zero_add]

theorem le_of_mem_lineStarts {source : SourceFile} {start : Nat}
    (member : start ∈ source.lineStarts) : start ≤ source.bytes.length := by
  rcases mem_lineStarts.mp member with rfl | ⟨i, isFeed, rfl⟩
  · exact Nat.zero_le _
  · obtain ⟨inside, _⟩ := List.getElem?_eq_some_iff.mp isFeed
    exact inside

/-- The lines that do not start behind an offset. -/
def passed (offset : Nat) : List Nat := source.lineStarts.takeWhile (· ≤ offset)

theorem length_passed (offset : Nat) :
    (source.passed offset).length = 1 + (source.bytes.take offset).count newline := by
  rw [passed, lineStarts, List.takeWhile_cons, if_pos (decide_eq_true (Nat.zero_le offset)),
    List.length_cons, length_takeWhile_startsAfter, bytes_eq, Nat.sub_zero, Nat.add_comm]

/-- What does not start behind an offset comes first. -/
theorem passed_eq {source : SourceFile} {offset : Nat} {before behind : List Nat}
    (whole : source.lineStarts = before ++ behind) (early : ∀ start ∈ before, start ≤ offset)
    (late : ∀ start ∈ behind, offset < start) : source.passed offset = before := by
  have none : behind.takeWhile (· ≤ offset) = [] := by
    cases behind with
    | nil => rfl
    | cons start behind =>
      exact List.takeWhile_cons_of_neg (by simpa using late start List.mem_cons_self)
  rw [passed, whole, List.takeWhile_append_of_pos (by simpa using early), none, List.append_nil]

/-- The start of the line that an offset is in. -/
def lineStart (offset : Nat) : Nat := (source.passed offset).getLastD 0

/-- The lines, with the one that an offset is in between those before it and those behind it. -/
theorem lineStarts_split (offset : Nat) :
    ∃ before behind, source.lineStarts = before ++ source.lineStart offset :: behind ∧
      source.passed offset = before ++ [source.lineStart offset] ∧
      source.lineStart offset ≤ offset ∧ (∀ start ∈ before, start < source.lineStart offset) ∧
      ∀ start ∈ behind, offset < start := by
  have nonempty : source.passed offset ≠ [] := by simp [passed, lineStarts]
  have last : source.passed offset =
      (source.passed offset).dropLast ++ [source.lineStart offset] := by
    rw [lineStart, List.getLastD_eq_getLast?, List.getLast?_eq_some_getLast nonempty]
    exact (List.dropLast_concat_getLast nonempty).symm
  have whole : source.lineStarts = (source.passed offset).dropLast ++
      source.lineStart offset :: source.lineStarts.dropWhile (· ≤ offset) := by
    rw [List.append_cons, ← last]
    exact List.takeWhile_append_dropWhile.symm
  have early : source.lineStart offset ≤ offset := by
    have member : source.lineStart offset ∈ source.passed offset :=
      last ▸ List.mem_append_right _ List.mem_cons_self
    simpa using List.mem_takeWhile_imp member
  have sorted := whole ▸ source.pairwise_lineStarts
  refine ⟨_, _, whole, last, early, fun start member =>
    (List.pairwise_append.mp sorted).2.2 start member _ List.mem_cons_self, ?_⟩
  have first := List.head?_dropWhile_not (· ≤ offset) source.lineStarts
  have later := (List.pairwise_cons.mp (List.pairwise_append.mp sorted).2.1).2
  cases behind : source.lineStarts.dropWhile (· ≤ offset) with
  | nil => exact List.forall_mem_nil _
  | cons next behind =>
    rw [behind] at first later
    have nextLate : offset < next := by simpa using first
    exact List.forall_mem_cons.mpr ⟨nextLate, fun start member =>
      nextLate.trans ((List.pairwise_cons.mp later).1 start member)⟩

end Lines

/-! ## Searching -/

/-- What a search for an offset in the starts of lines may answer: where the offset stands, or where
it would stand if it was put in between those before it and those behind it. -/
inductive Answers (starts : List Nat) (offset : Nat) : Except Nat Nat → Prop
  | found {before behind : List Nat} :
      starts = before ++ offset :: behind → Answers starts offset (.ok before.length)
  | absent {before behind : List Nat} :
      starts = before ++ behind → (∀ start ∈ before, start < offset) →
        (∀ start ∈ behind, offset < start) → Answers starts offset (.error before.length)

/-- The line and column that follow from the answer to a search, checked at every step: it fails if
there is no index before the answered one, if the index is outside, if the line starts behind the
offset, or if 32 bits do not hold the column. -/
def lookUp? (starts : List Nat) (offset : Nat) (answer : Except Nat Nat) :
    Option (UInt32 × UInt32) := do
  let index ← match answer with
    | .ok index => some index
    | .error 0 => none
    | .error (index + 1) => some index
  let start ← starts[index]?
  if start ≤ offset ∧ offset - start + 1 < UInt32.size then
    some (UInt32.ofNat (index + 1), UInt32.ofNat (offset - start) + 1)
  else none

section Search

variable (source : SourceFile)

theorem exists_answers (offset : Nat) : ∃ answer, Answers source.lineStarts offset answer := by
  obtain ⟨before, behind, whole, _, early, earlier, late⟩ := source.lineStarts_split offset
  rcases Nat.eq_or_lt_of_le early with same | inside
  · exact ⟨_, .found (same ▸ whole)⟩
  · refine ⟨_, .absent (whole.trans (List.append_cons ..)) ?_ late⟩
    refine List.forall_mem_append.mpr ⟨fun start member => (earlier start member).trans inside, ?_⟩
    exact List.forall_mem_singleton.mpr inside

/-- Whatever the search answers, the last line passed is found. -/
theorem lookUp?_eq {offset : Nat} {answer : Except Nat Nat}
    (answers : Answers source.lineStarts offset answer)
    (narrow : offset - source.lineStart offset + 1 < UInt32.size) :
    lookUp? source.lineStarts offset answer =
      some (UInt32.ofNat (source.passed offset).length,
        UInt32.ofNat (offset - source.lineStart offset) + 1) := by
  obtain ⟨outer, _, lines, same, early, _, _⟩ := source.lineStarts_split offset
  have start : source.lineStarts[outer.length]? = some (source.lineStart offset) := by
    rw [lines, List.getElem?_append_right (Nat.le_refl _), Nat.sub_self, List.getElem?_cons_zero]
  rw [same, List.length_append, List.length_singleton]
  cases answers with
  | @found before behind whole =>
    have sorted := List.pairwise_append.mp (whole ▸ source.pairwise_lineStarts)
    have passed : source.passed offset = before ++ [offset] := by
      refine passed_eq (whole.trans (List.append_cons ..)) ?_
        (List.pairwise_cons.mp sorted.2.1).1
      refine List.forall_mem_append.mpr ⟨fun start member => ?_, ?_⟩
      · exact (sorted.2.2 start member offset List.mem_cons_self).le
      · exact List.forall_mem_singleton.mpr (Nat.le_refl _)
    obtain rfl : outer = before := (List.append_inj' (same.symm.trans passed) rfl).1
    simp [lookUp?, start, early, narrow]
  | @absent before behind whole isBefore isBehind =>
    have passed : source.passed offset = before :=
      passed_eq whole (fun start member => (isBefore start member).le) isBehind
    have count : before.length = outer.length + 1 := by
      rw [← passed, same, List.length_append, List.length_singleton]
    rw [count]
    simp [lookUp?, start, early, narrow]

end Search

/-! ## Places -/

/-- The line that an offset is in starts here: the text does, or the byte before is a line feed, and
no line feed stands between. -/
structure StartsLine (bytes : List UInt8) (start offset : Nat) : Prop where
  before : start ≤ offset
  opens : ∀ last, start = last + 1 → bytes[last]? = some newline
  within : ∀ i, start ≤ i → i < offset → bytes[i]? ≠ some newline

theorem startsLine_lineStart (source : SourceFile) (offset : Nat) :
    StartsLine source.bytes (source.lineStart offset) offset := by
  obtain ⟨before, behind, whole, _, early, earlier, late⟩ := source.lineStarts_split offset
  have member : source.lineStart offset ∈ source.lineStarts := by simp [whole]
  refine ⟨early, fun last same => ?_, fun i notBefore below isFeed => ?_⟩
  · rcases mem_lineStarts.mp member with first | ⟨i, isFeed, same'⟩
    · omega
    · rwa [show last = i by omega]
  · have next : i + 1 ∈ source.lineStarts := mem_lineStarts.mpr (.inr ⟨i, isFeed, rfl⟩)
    rw [whole, List.mem_append, List.mem_cons] at next
    rcases next with inBefore | same | inBehind
    · have := earlier _ inBefore
      omega
    · omega
    · have := late _ inBehind
      omega

/-- The offset, or the end of the text if that comes first. -/
def clamp (source : SourceFile) (offset : Nat) : Nat := min offset source.bytes.length

theorem lineCol_eq (source : SourceFile) (offset : Nat) :
    source.lineCol offset = (UInt32.ofNat (source.passed (source.clamp offset)).length,
      UInt32.ofNat (source.clamp offset - source.lineStart (source.clamp offset)) + 1) := by
  rw [clamp, length_bytes]
  rfl

theorem clamp_le (source : SourceFile) (offset : Nat) : source.clamp offset ≤ source.bytes.length :=
  Nat.min_le_right _ _

/-- The line and the column of the offset have 32 bits. At the end of a text of as many bytes as can
be counted this takes two lines, and not only line feeds. -/
def Countable (source : SourceFile) (offset : Nat) : Prop :=
  offset + 1 < UInt32.size ∨
    newline ∈ source.bytes ∧ ∃ byte ∈ source.bytes, byte ≠ newline

namespace Countable

variable {source : SourceFile} {offset : Nat}

theorem line_lt (countable : source.Countable offset)
    (short : source.bytes.length < UInt32.size) :
    (source.passed offset).length < UInt32.size := by
  rw [length_passed]
  rcases countable with early | ⟨_, byte, member, other⟩
  · have feeds := List.count_le_length (a := newline) (l := source.bytes.take offset)
    have taken := List.length_take_le offset source.bytes
    omega
  · have feeds := (List.take_sublist offset source.bytes).count_le newline
    have some : source.bytes.count newline ≠ source.bytes.length := fun all =>
      other (List.count_eq_length.mp all byte member).symm
    have most := List.count_le_length (a := newline) (l := source.bytes)
    omega

theorem column_lt (countable : source.Countable offset) (short : source.bytes.length < UInt32.size)
    (inside : offset ≤ source.bytes.length) :
    offset - source.lineStart offset + 1 < UInt32.size := by
  rcases countable with early | ⟨feed, _⟩
  · omega
  · obtain ⟨i, within, isFeed⟩ := List.mem_iff_getElem.mp feed
    have starts := (startsLine_lineStart source offset).within i
    rw [List.getElem?_eq_getElem within, isFeed] at starts
    -- the line of an offset behind the line feed starts behind it
    rcases Nat.lt_or_ge i offset with before | behind
    · have later : i < source.lineStart offset :=
        Nat.lt_of_not_le fun notBehind => starts notBehind before rfl
      omega
    · omega

/-- A place that can be counted is told as it is. -/
theorem toNat_lineCol (countable : source.Countable (source.clamp offset))
    (short : source.bytes.length < UInt32.size) :
    (source.lineCol offset).1.toNat = (source.passed (source.clamp offset)).length ∧
      (source.lineCol offset).2.toNat =
        source.clamp offset - source.lineStart (source.clamp offset) + 1 := by
  have column := countable.column_lt short (source.clamp_le offset)
  rw [lineCol_eq]
  refine ⟨UInt32.toNat_ofNat_of_lt' (countable.line_lt short), ?_⟩
  rw [UInt32.toNat_add, UInt32.toNat_ofNat_of_lt' (Nat.lt_of_succ_lt column)]
  exact Nat.mod_eq_of_lt column

end Countable

theorem passed_starts (source : SourceFile) {offset later : Nat} (le : offset ≤ later) :
    source.passed offset <+: source.passed later := by
  have within : source.passed offset = (source.passed later).takeWhile (· ≤ offset) := by
    rw [passed, passed, List.takeWhile_takeWhile]
    congr 1
    funext start
    simp
    omega
  rw [within]
  exact List.takeWhile_prefix _

/-- A later offset has a later line, or a later column of the same line. -/
theorem lineCol_lt (source : SourceFile) (short : source.bytes.length < UInt32.size)
    {earlier later : Nat} (before : source.clamp earlier < source.clamp later)
    (countable : source.Countable (source.clamp later)) :
    Prod.Lex (· < ·) (· < ·) (source.lineCol earlier) (source.lineCol later) := by
  have inside := source.clamp_le later
  have first : source.Countable (source.clamp earlier) := .inl (by omega)
  obtain ⟨line, column⟩ := first.toNat_lineCol short
  obtain ⟨laterLine, laterColumn⟩ := countable.toNat_lineCol short
  have start := source.passed_starts before.le
  rw [Prod.lex_def, UInt32.lt_iff_toNat_lt, UInt32.lt_iff_toNat_lt, ← UInt32.toNat_inj, line,
    column, laterLine, laterColumn]
  rcases Nat.lt_or_eq_of_le start.length_le with fewer | same
  · exact .inl fewer
  · have sameStart :
        source.lineStart (source.clamp earlier) = source.lineStart (source.clamp later) := by
      rw [lineStart, lineStart, start.eq_of_length same]
    have here := (startsLine_lineStart source (source.clamp earlier)).before
    exact .inr ⟨same, by omega⟩

/-- The place of an offset. It is that of the end if the offset is behind the end. Its line is one
more than the number of line feeds before, its column counts from the start of the line; the line is
one of the text, and its start and the column give the offset back. Whatever a search among the
starts of the lines answers, the place is found by it, and a later offset has a later place.

The starts are sorted, as the search needs it, and have 32 bits. So have lines and columns, but for
the end of a text of as many bytes as can be counted that is one line or nothing but line feeds. -/
theorem lineCol_exact (source : SourceFile) (short : source.bytes.length < UInt32.size) :
    (∀ offset, source.Countable (source.clamp offset) →
      ∃ start, StartsLine source.bytes start (source.clamp offset) ∧
      (source.lineCol offset).1.toNat =
        1 + (source.bytes.take (source.clamp offset)).count newline ∧
      (source.lineCol offset).2.toNat = 1 + (source.clamp offset - start) ∧
      (source.lineCol offset).1.toNat ≤ source.lineCount ∧
      source.lineStarts[(source.lineCol offset).1.toNat - 1]? = some start ∧
      start + (source.lineCol offset).2.toNat - 1 = source.clamp offset) ∧
    (∀ offset, source.Countable (source.clamp offset) →
      (∃ answer, Answers source.lineStarts (source.clamp offset) answer) ∧
      ∀ answer, Answers source.lineStarts (source.clamp offset) answer →
        lookUp? source.lineStarts (source.clamp offset) answer = some (source.lineCol offset)) ∧
    (∀ earlier later, source.clamp earlier < source.clamp later →
      source.Countable (source.clamp later) →
      Prod.Lex (· < ·) (· < ·) (source.lineCol earlier) (source.lineCol later)) ∧
    source.lineStarts.Pairwise (· < ·) ∧ ∀ start ∈ source.lineStarts, start < UInt32.size := by
  refine ⟨fun offset countable =>
      ⟨source.lineStart (source.clamp offset), startsLine_lineStart _ _, ?_⟩,
    fun offset countable => ⟨source.exists_answers _, fun answer answers => ?_⟩,
    fun earlier later => source.lineCol_lt short, source.pairwise_lineStarts,
    fun start member => (le_of_mem_lineStarts member).trans_lt short⟩
  · obtain ⟨before, behind, lines, same, early, _⟩ := source.lineStarts_split (source.clamp offset)
    obtain ⟨line, column⟩ := countable.toNat_lineCol short
    rw [column, line, ← length_passed]
    refine ⟨rfl, Nat.add_comm .., (List.takeWhile_prefix _).length_le, ?_, by omega⟩
    rw [same, lines]
    simp
  · rw [source.lookUp?_eq answers (countable.column_lt short (source.clamp_le offset)), lineCol_eq]

/-- Two lines, with a character of two bytes in the first. -/
def accented : SourceFile := ⟨"accented.gin", "é\nb"⟩

/-- An offset far behind the end has the place of the end, and no search finds another. -/
theorem lineCol_exact_accented :
    lookUp? accented.lineStarts (accented.clamp 9) (.error 2) = some (accented.lineCol 9) ∧
      accented.lineCol 9 = (2, 2) := by
  refine ⟨((lineCol_exact accented (by decide)).2.1 9 (.inl (by decide))).2
    (.error 2) ?_, by decide⟩
  have whole : accented.lineStarts = [0, 3] ++ [] := by decide
  exact .absent whole (by decide) (List.forall_mem_nil _)

/-! ## Places that cannot be counted -/

/-- A text of one character again and again. -/
def repeated (c : Char) (count : Nat) : SourceFile :=
  ⟨"long.gin", String.ofList (List.replicate count c)⟩

section Repeated

variable {c : Char} {byte : UInt8}

theorem bytes_repeated (encoded : String.utf8EncodeChar c = [byte]) (count : Nat) :
    (repeated c count).bytes = List.replicate count byte := by
  rw [bytes_eq, repeated, String.toList_ofList]
  induction count with
  | zero => rfl
  | succ count ih =>
    rw [List.replicate_succ, List.flatMap_cons, encoded, ih, List.replicate_succ]
    rfl

theorem clamp_repeated (encoded : String.utf8EncodeChar c = [byte]) (count : Nat) :
    (repeated c count).clamp count = count := by
  rw [clamp, bytes_repeated encoded, List.length_replicate, Nat.min_self]

/-- The end of a text without line feeds is on the first line. -/
theorem lineCol_repeated (encoded : String.utf8EncodeChar c = [byte]) (other : byte ≠ newline)
    (count : Nat) : (repeated c count).lineCol count = (1, UInt32.ofNat count + 1) := by
  have bytes := bytes_repeated encoded count
  have start : (repeated c count).lineStart count = 0 := by
    have opens := (startsLine_lineStart (repeated c count) count).opens
    cases start : (repeated c count).lineStart count with
    | zero => rfl
    | succ last =>
      have isFeed := List.mem_of_getElem? (opens last start)
      rw [bytes] at isFeed
      exact absurd (List.eq_of_mem_replicate isFeed).symm other
  have none : newline ∉ List.replicate count byte :=
    fun member => other (List.eq_of_mem_replicate member).symm
  rw [lineCol_eq, clamp_repeated encoded, length_passed, bytes, start,
    List.count_eq_zero_of_not_mem fun member => none (List.mem_of_mem_take member)]
  rfl

/-- The end of a text of line feeds is a line of its own. -/
theorem lineCol_feeds (count : Nat) :
    (repeated '\n' count).lineCol count = (UInt32.ofNat (1 + count), 1) := by
  have bytes := bytes_repeated utf8EncodeChar_newline count
  have start : (repeated '\n' count).lineStart count = count := by
    obtain ⟨before, _, within⟩ := startsLine_lineStart (repeated '\n' count) count
    refine Nat.le_antisymm before (Nat.le_of_not_lt fun early => ?_)
    refine within _ (Nat.le_refl _) early ?_
    rw [bytes, List.getElem?_replicate_of_lt early]
  rw [lineCol_eq, clamp_repeated utf8EncodeChar_newline, length_passed, bytes, start,
    List.take_replicate, Nat.min_self, List.count_replicate_self, Nat.sub_self]
  rfl

end Repeated

/-- Texts of as many bytes as can be counted. Where there is one line, its end would have a column
of 33 bits and has column zero; where there are only line feeds, the last line is line zero. -/
theorem lineCol_overflows :
    (repeated 'a' 4294967295).bytes.length < UInt32.size ∧
      (repeated 'a' 4294967295).lineCol 4294967295 = (1, 0) ∧
      (repeated '\n' 4294967295).bytes.length < UInt32.size ∧
      (repeated '\n' 4294967295).lineCol 4294967295 = (0, 1) := by
  have letter : String.utf8EncodeChar 'a' = [97] := by decide
  refine ⟨?_, lineCol_repeated letter (by decide) _, ?_, lineCol_feeds _⟩
  · rw [bytes_repeated letter, List.length_replicate]
    decide
  · rw [bytes_repeated utf8EncodeChar_newline, List.length_replicate]
    decide

end SourceFile

end ConfigBinding
