import ConfigBinding.Proofs.Lexing.LongestMatch

/-!
# Reading by longest matches

A text is read by taking its longest match again and again (`Munches`), from left to right, as long
as blanks and comments are taken or matches that stand for tokens. The lexer gives the tokens of
this reading when it comes to the end of the text. When it is stuck before, the lexer fails there.

The tokens of a text come with the bytes that they are read from. These are pieces of the text, one
behind the other, and only blanks and comments are between them.

Results:
1. `tokenize_eq_ok_iff`, `tokenize_fails_iff`: the lexer reads as far as longest matches go.
2. `Cut.unique`: there is one piece of a text between two bytes.
3. `covers_of_tokenize`: where the lexemes of a text stand.
-/

namespace ConfigBinding

open Computability

namespace Lexer

/-- `Munches offset text lexemes stop left`: from `text`, which begins at the byte `offset`, reading
takes the lexemes and comes to the byte `stop`, with `left` still to be read.
* It may stop at any place.
* A longest match of blanks or of a comment is passed over.
* A longest match that stands for a token is the next lexeme, with its bytes. -/
inductive Munches : Nat → List Char → List Lexeme → Nat → List Char → Prop
  | refl (offset : Nat) (text : List Char) : Munches offset text [] offset text
  | skip {k : Class} {word rest left : List Char} {offset stop : Nat} {lexemes : List Lexeme} :
      Longest k word (word ++ rest) → k.isSkipped = true →
      Munches (offset + byteSize word) rest lexemes stop left →
      Munches offset (word ++ rest) lexemes stop left
  | token {k : Class} {word rest left : List Char} {offset stop : Nat} {token : Token}
      {lexemes : List Lexeme} :
      Longest k word (word ++ rest) → k.isSkipped = false → Denotes k word token →
      Munches (offset + byteSize word) rest lexemes stop left →
      Munches offset (word ++ rest) (⟨token, offset, offset + byteSize word⟩ :: lexemes) stop left

/-! ## The lexer -/

section

variable {k : Class} {word rest : List Char} {c : Char} {cs : List Char}

theorem exists_cons_of_longest {text : List Char} (longest : Longest k word text) :
    ∃ c cs, word = c :: cs := by
  obtain ⟨c, cs, same, _⟩ := opens_of_mem_texts longest.isOf
  exact ⟨c, cs, same⟩

/-- A longest match that is passed over is what the step of the lexer passes over. -/
theorem scan_of_skipped (longest : Longest k word (c :: cs)) (skipped : k.isSkipped = true)
    (whole : c :: cs = word ++ rest) : scan c cs = .skip word rest := by
  have explained := scan_explained c cs
  cases scanned : scan c cs with
  | skip taken after =>
    rw [scanned] at explained
    obtain ⟨same, j, _, also⟩ := explained
    obtain ⟨_, rfl⟩ := longest.unique also
    rw [List.append_cancel_left (whole.symm.trans same)]
  | token read taken after =>
    rw [scanned] at explained
    obtain ⟨_, j, notSkipped, also, _⟩ := explained
    obtain ⟨rfl, _⟩ := longest.unique also
    cases skipped.symm.trans notSkipped
  | failure cause taken =>
    rw [scanned] at explained
    cases explained with
    | unmatched _ none => exact absurd longest.starts (none k word longest.isOf)
    | unconverted also notSkipped _ =>
      obtain ⟨rfl, _⟩ := longest.unique also
      cases skipped.symm.trans notSkipped

/-- A longest match that stands for a token is what the step of the lexer takes. -/
theorem scan_of_denotes {token : Token} (longest : Longest k word (c :: cs))
    (notSkipped : k.isSkipped = false) (denotes : Denotes k word token)
    (whole : c :: cs = word ++ rest) : scan c cs = .token token word rest := by
  have explained := scan_explained c cs
  cases scanned : scan c cs with
  | skip taken after =>
    rw [scanned] at explained
    obtain ⟨_, j, skipped, also⟩ := explained
    obtain ⟨rfl, _⟩ := longest.unique also
    cases skipped.symm.trans notSkipped
  | token read taken after =>
    rw [scanned] at explained
    obtain ⟨same, j, _, also, reads⟩ := explained
    obtain ⟨rfl, rfl⟩ := longest.unique also
    rw [denotes.unique reads, List.append_cancel_left (whole.symm.trans same)]
  | failure cause taken =>
    rw [scanned] at explained
    cases explained with
    | unmatched _ none => exact absurd longest.starts (none k word longest.isOf)
    | unconverted also _ none =>
      obtain ⟨rfl, rfl⟩ := longest.unique also
      exact absurd denotes (none token)

/-- Where reading is stuck, the step of the lexer fails. -/
theorem scan_of_stuck (stuck : Stuck (c :: cs)) :
    ∃ cause taken, scan c cs = .failure cause taken := by
  have explained := scan_explained c cs
  cases scanned : scan c cs with
  | failure cause taken => exact ⟨cause, taken, rfl⟩
  | skip taken after =>
    rw [scanned] at explained
    obtain ⟨_, j, skipped, also⟩ := explained
    cases stuck with
    | unmatched _ none => exact absurd also.starts (none j taken also.isOf)
    | unconverted longest notSkipped _ =>
      obtain ⟨rfl, _⟩ := longest.unique also
      cases skipped.symm.trans notSkipped
  | token read taken after =>
    rw [scanned] at explained
    obtain ⟨_, j, _, also, reads⟩ := explained
    cases stuck with
    | unmatched _ none => exact absurd also.starts (none j taken also.isOf)
    | unconverted longest _ none =>
      obtain ⟨rfl, rfl⟩ := longest.unique also
      exact absurd reads (none read)

end

/-- What a reading takes, the lexer takes, and goes on where the reading stops. -/
theorem Munches.tokensFrom {offset stop : Nat} {text left : List Char} {lexemes : List Lexeme}
    (munches : Munches offset text lexemes stop left) {fuel : Nat} (enough : text.length ≤ fuel) :
    ∃ more, left.length ≤ more ∧
      Lexer.tokensFrom fuel offset text = (Lexer.tokensFrom more stop left).map (lexemes ++ ·) := by
  induction munches generalizing fuel with
  | refl offset text =>
    refine ⟨fuel, enough, ?_⟩
    cases Lexer.tokensFrom fuel offset text <;> rfl
  | @skip k word rest _ offset _ _ longest skipped _ ih =>
    obtain ⟨c, cs, rfl⟩ := exists_cons_of_longest longest
    rw [List.length_append, List.length_cons] at enough
    cases fuel with
    | zero => omega
    | succ fuel =>
      obtain ⟨more, suffices', same⟩ := ih (show rest.length ≤ fuel by omega)
      refine ⟨more, suffices', ?_⟩
      have scanned : scan c (cs ++ rest) = .skip (c :: cs) rest :=
        scan_of_skipped longest skipped rfl
      rw [← same, List.cons_append, Lexer.tokensFrom.eq_def]
      simp only [scanned]
  | @token k word rest _ offset _ token lexemes longest notSkipped denotes _ ih =>
    obtain ⟨c, cs, rfl⟩ := exists_cons_of_longest longest
    rw [List.length_append, List.length_cons] at enough
    cases fuel with
    | zero => omega
    | succ fuel =>
      obtain ⟨more, suffices', same⟩ := ih (show rest.length ≤ fuel by omega)
      refine ⟨more, suffices', ?_⟩
      have scanned : scan c (cs ++ rest) = .token token (c :: cs) rest :=
        scan_of_denotes longest notSkipped denotes rfl
      rw [List.cons_append, Lexer.tokensFrom.eq_def]
      simp only [scanned, same]
      cases Lexer.tokensFrom more _ _ <;> rfl

theorem munches_of_tokensFrom {fuel : Nat} (offset : Nat) {text : List Char}
    (enough : text.length ≤ fuel) :
    (∀ lexemes, tokensFrom fuel offset text = .ok lexemes →
        Munches offset text lexemes (offset + byteSize text) []) ∧
      ∀ error, tokensFrom fuel offset text = .error error →
        ∃ lexemes left, Munches offset text lexemes error.start left ∧ Stuck left := by
  induction fuel generalizing offset text with
  | zero =>
    obtain rfl := List.eq_nil_of_length_eq_zero (Nat.le_zero.mp enough)
    unfold tokensFrom
    refine ⟨fun lexemes read => ?_, fun error read => ?_⟩ <;> cases read
    exact .refl offset []
  | succ fuel ih =>
    cases text with
    | nil =>
      unfold tokensFrom
      refine ⟨fun lexemes read => ?_, fun error read => ?_⟩ <;> cases read
      exact .refl offset []
    | cons c cs =>
      have shorter : (scan c cs).rest.length ≤ fuel :=
        Nat.le_trans (scan_length c cs) (Nat.le_of_succ_le_succ enough)
      have explained := scan_explained c cs
      unfold tokensFrom
      cases scanned : scan c cs with
      | skip taken rest =>
        rw [scanned] at explained shorter
        obtain ⟨whole, k, skipped, longest⟩ := explained
        rw [whole] at longest ⊢
        obtain ⟨success, failure⟩ := ih (offset + byteSize taken) shorter
        refine ⟨fun lexemes read => ?_, fun error read => ?_⟩
        · have munches := success lexemes read
          rw [Nat.add_assoc, ← byteSize_append] at munches
          exact .skip longest skipped munches
        · obtain ⟨lexemes, left, munches, stuck⟩ := failure error read
          exact ⟨lexemes, left, .skip longest skipped munches, stuck⟩
      | token token taken rest =>
        rw [scanned] at explained shorter
        obtain ⟨whole, k, notSkipped, longest, denotes⟩ := explained
        rw [whole] at longest ⊢
        obtain ⟨success, failure⟩ := ih (offset + byteSize taken) shorter
        dsimp only
        cases readMore : tokensFrom fuel (offset + byteSize taken) rest with
        | ok more =>
          refine ⟨fun lexemes read => ?_, fun error read => ?_⟩ <;> cases read
          have munches := success more readMore
          rw [Nat.add_assoc, ← byteSize_append] at munches
          exact .token longest notSkipped denotes munches
        | error error =>
          refine ⟨fun lexemes read => ?_, fun error read => ?_⟩ <;> cases read
          obtain ⟨lexemes, left, munches, stuck⟩ := failure error readMore
          exact ⟨_, left, .token longest notSkipped denotes munches, stuck⟩
      | failure cause taken =>
        rw [scanned] at explained
        refine ⟨fun lexemes read => ?_, fun error read => ?_⟩ <;> cases read
        exact ⟨[], c :: cs, .refl offset _, explained⟩

/-! ## Where the lexemes stand -/

/-- The piece is what the text has from the byte `start` up to the byte `stop`. Both are boundaries
of characters. -/
def Cut (text : List Char) (start stop : Nat) (piece : List Char) : Prop :=
  ∃ before after, text = before ++ (piece ++ after) ∧ start = byteSize before ∧
    stop = start + byteSize piece

/-- Between two bytes a text has one piece. -/
theorem Cut.unique {text piece other : List Char} {start stop : Nat}
    (cut : Cut text start stop piece) (also : Cut text start stop other) : piece = other := by
  -- Characters have at least one byte, so two starts of a text with as many bytes are the same.
  have same {xs ys : List Char} (sizes : byteSize xs = byteSize ys) {more rest : List Char}
      (whole : xs ++ more = ys ++ rest) : xs = ys ∧ more = rest := by
    induction xs generalizing ys with
    | nil =>
      cases ys with
      | nil => exact ⟨rfl, whole⟩
      | cons y ys =>
        have wide := y.utf8Size_pos
        rw [byteSize_nil, byteSize_cons] at sizes
        omega
    | cons x xs ih =>
      cases ys with
      | nil =>
        have wide := x.utf8Size_pos
        rw [byteSize_nil, byteSize_cons] at sizes
        omega
      | cons y ys =>
        obtain ⟨rfl, others⟩ := List.cons_eq_cons.mp whole
        rw [byteSize_cons, byteSize_cons] at sizes
        obtain ⟨rfl, rest⟩ := ih (Nat.add_left_cancel sizes) others
        exact ⟨rfl, rest⟩
  obtain ⟨before, after, rfl, place, size⟩ := cut
  obtain ⟨front, back, whole, placeAlso, sizeAlso⟩ := also
  obtain ⟨rfl, rest⟩ := same (place.symm.trans placeAlso) whole
  exact (same (Nat.add_left_cancel (size.symm.trans sizeAlso)) rest).1

/-- The ranges of bytes before, between and after lexemes, in a text that ends at `stop`. -/
def gaps (start : Nat) : List Lexeme → Nat → List (Nat × Nat)
  | [], stop => [(start, stop)]
  | lexeme :: lexemes, stop => (start, lexeme.start) :: gaps lexeme.stop lexemes stop

/-- Blanks and comments, in any number and order. -/
def spacing : Language Char := (Class.blanks.texts + Class.comment.texts)∗

/-- The lexemes are a text without its blanks and comments.
* None of them is empty, and each ends before the next begins.
* Each stands for a piece of the text, as a text of a class that is not skipped.
* What stands before, between and after them is blanks and comments. -/
structure Covers (text : List Char) (lexemes : List Lexeme) : Prop where
  nonempty : ∀ lexeme ∈ lexemes, lexeme.start < lexeme.stop
  ordered : lexemes.Pairwise fun first second => first.stop ≤ second.start
  sliced : ∀ lexeme ∈ lexemes, ∃ piece, Cut text lexeme.start lexeme.stop piece ∧
    ∃ k : Class, k.isSkipped = false ∧ piece ∈ k.texts ∧ Denotes k piece lexeme.token
  spaced : ∀ gap ∈ gaps 0 lexemes (byteSize text), ∃ piece, Cut text gap.1 gap.2 piece ∧
    piece ∈ spacing

theorem Longest.byteSize_pos {k : Class} {word text : List Char} (longest : Longest k word text) :
    0 < byteSize word := by
  obtain ⟨c, cs, rfl⟩ := exists_cons_of_longest longest
  rw [byteSize_cons]
  have wide := c.utf8Size_pos
  omega

theorem mem_spacing_of_skipped {k : Class} {word text : List Char} (longest : Longest k word text)
    (skipped : k.isSkipped = true) : word ∈ Class.blanks.texts + Class.comment.texts := by
  cases k with
  | blanks => exact .inl longest.isOf
  | comment => exact .inr longest.isOf
  | _ => cases skipped

namespace Munches

variable {offset stop : Nat} {text left : List Char} {lexemes : List Lexeme}

theorem start_le (munches : Munches offset text lexemes stop left) :
    ∀ lexeme ∈ lexemes, offset ≤ lexeme.start := by
  induction munches with
  | refl => exact List.forall_mem_nil _
  | skip _ _ _ ih =>
    exact fun lexeme member => Nat.le_trans (Nat.le_add_right ..) (ih lexeme member)
  | token _ _ _ _ ih =>
    exact List.forall_mem_cons.mpr
      ⟨Nat.le_refl _, fun lexeme member => Nat.le_trans (Nat.le_add_right ..) (ih lexeme member)⟩

theorem nonempty (munches : Munches offset text lexemes stop left) :
    ∀ lexeme ∈ lexemes, lexeme.start < lexeme.stop := by
  induction munches with
  | refl => exact List.forall_mem_nil _
  | skip _ _ _ ih => exact ih
  | token longest _ _ _ ih =>
    exact List.forall_mem_cons.mpr ⟨Nat.lt_add_of_pos_right longest.byteSize_pos, ih⟩

theorem ordered (munches : Munches offset text lexemes stop left) :
    lexemes.Pairwise fun first second => first.stop ≤ second.start := by
  induction munches with
  | refl => exact .nil
  | skip _ _ _ ih => exact ih
  | token _ _ _ more ih => exact .cons more.start_le ih

theorem sliced (munches : Munches offset text lexemes stop left) (before : List Char)
    (place : offset = byteSize before) :
    ∀ lexeme ∈ lexemes, ∃ piece, Cut (before ++ text) lexeme.start lexeme.stop piece ∧
      ∃ k : Class, k.isSkipped = false ∧ piece ∈ k.texts ∧ Denotes k piece lexeme.token := by
  induction munches generalizing before with
  | refl => exact List.forall_mem_nil _
  | @skip k word rest _ _ _ _ _ _ _ ih =>
    have found := ih (before ++ word) (by rw [place, byteSize_append])
    rw [List.append_assoc] at found
    exact found
  | @token k word rest _ _ _ _ _ longest notSkipped denotes _ ih =>
    have found := ih (before ++ word) (by rw [place, byteSize_append])
    rw [List.append_assoc] at found
    exact List.forall_mem_cons.mpr
      ⟨⟨word, ⟨before, rest, rfl, place, rfl⟩, k, notSkipped, longest.isOf, denotes⟩, found⟩

/-- What has been passed over since the last lexeme is part of the next gap. -/
theorem spaced (munches : Munches offset text lexemes stop left) (before passed : List Char)
    (place : offset = byteSize before + byteSize passed) (isSpacing : passed ∈ spacing) :
    ∀ gap ∈ gaps (byteSize before) lexemes stop, ∃ piece,
      Cut (before ++ (passed ++ text)) gap.1 gap.2 piece ∧ piece ∈ spacing := by
  induction munches generalizing before passed with
  | refl offset text =>
    rintro _ (_ | ⟨_, ⟨⟩⟩)
    exact ⟨passed, ⟨before, text, rfl, rfl, place⟩, isSpacing⟩
  | @skip k word rest _ _ _ _ longest skipped _ ih =>
    have more : passed ++ word ∈ spacing :=
      kstar_mul_le_kstar (a := Class.blanks.texts + Class.comment.texts)
        (Language.append_mem_mul isSpacing (mem_spacing_of_skipped longest skipped))
    have found := ih before (passed ++ word)
      (by rw [place, byteSize_append, Nat.add_assoc]) more
    rw [List.append_assoc] at found
    exact found
  | @token k word rest _ offset _ _ _ _ _ _ _ ih =>
    have found := ih (before ++ (passed ++ word)) []
      (by rw [place]; simp [Nat.add_assoc]) (Language.nil_mem_kstar _)
    have size : byteSize (before ++ (passed ++ word)) = offset + byteSize word := by
      rw [place]
      simp [Nat.add_assoc]
    rw [size] at found
    refine List.forall_mem_cons.mpr
      ⟨⟨passed, ⟨before, word ++ rest, rfl, rfl, place⟩, isSpacing⟩, ?_⟩
    simpa using found

end Munches

end Lexer

section

variable {text : String} {lexemes : List Lexeme}

theorem tokenize_eq_ok_iff : tokenize text = .ok lexemes ↔
    Lexer.Munches 0 text.toList lexemes (byteSize text.toList) [] := by
  constructor
  · intro read
    have munches := (Lexer.munches_of_tokensFrom 0 (Nat.le_refl _)).1 lexemes read
    rw [Nat.zero_add] at munches
    exact munches
  · intro munches
    obtain ⟨more, _, same⟩ := munches.tokensFrom (Nat.le_refl _)
    have nothing : Lexer.tokensFrom more (byteSize text.toList) [] = .ok [] := by
      unfold Lexer.tokensFrom
      rfl
    rw [tokenize, same, nothing, Except.map, List.append_nil]

/-- Where a reading is stuck, the step of the lexer fails, and with it the whole text. -/
theorem tokenize_of_stuck {left : List Char} {place : Nat}
    (munches : Lexer.Munches 0 text.toList lexemes place left) (stuck : Lexer.Stuck left) :
    ∃ c cs cause taken, left = c :: cs ∧ Lexer.scan c cs = .failure cause taken ∧
      tokenize text = .error ⟨cause, place, place + byteSize taken⟩ := by
  obtain ⟨more, enough, same⟩ := munches.tokensFrom (Nat.le_refl _)
  obtain ⟨c, cs, rfl⟩ : ∃ c cs, left = c :: cs := by
    cases stuck with
    | unmatched some _ => exact List.exists_cons_of_ne_nil some
    | unconverted longest _ _ =>
      obtain ⟨c, cs, rfl⟩ := Lexer.exists_cons_of_longest longest
      obtain ⟨rest, rfl⟩ := longest.starts
      exact ⟨c, cs ++ rest, rfl⟩
  obtain ⟨cause, taken, failed⟩ := Lexer.scan_of_stuck stuck
  cases more with
  | zero => cases enough
  | succ more =>
    have stops : Lexer.tokensFrom (more + 1) place (c :: cs) =
        .error ⟨cause, place, place + byteSize taken⟩ := by
      rw [Lexer.tokensFrom.eq_def]
      simp only [failed]
    refine ⟨c, cs, cause, taken, rfl, failed, ?_⟩
    rw [tokenize, same, stops]
    rfl

theorem tokenize_fails_iff {place : Nat} :
    (∃ error, tokenize text = .error error ∧ error.start = place) ↔
    ∃ lexemes left, Lexer.Munches 0 text.toList lexemes place left ∧ Lexer.Stuck left := by
  constructor
  · rintro ⟨error, read, rfl⟩
    exact (Lexer.munches_of_tokensFrom 0 (Nat.le_refl _)).2 error read
  · rintro ⟨lexemes, left, munches, stuck⟩
    obtain ⟨_, _, _, _, _, _, failed⟩ := tokenize_of_stuck munches stuck
    exact ⟨_, failed, rfl⟩

theorem covers_of_tokenize (read : tokenize text = .ok lexemes) :
    Lexer.Covers text.toList lexemes := by
  have munches := tokenize_eq_ok_iff.mp read
  exact ⟨munches.nonempty, munches.ordered, munches.sliced [] rfl,
    munches.spaced [] [] rfl (Language.nil_mem_kstar _)⟩

end

/-- The lexer reads by longest matches.
* It gives the lexemes of this reading if it comes to the end of the text, and in no other case.
* The lexemes then are the text without its blanks and comments.
* It fails if the reading is stuck, with an error that begins where it is stuck. -/
theorem tokenize_longest_match (text : String) :
    (∀ lexemes, tokenize text = .ok lexemes ↔
      Lexer.Munches 0 text.toList lexemes (byteSize text.toList) []) ∧
    (∀ lexemes, tokenize text = .ok lexemes → Lexer.Covers text.toList lexemes) ∧
    ∀ place, (∃ error, tokenize text = .error error ∧ error.start = place) ↔
      ∃ lexemes left, Lexer.Munches 0 text.toList lexemes place left ∧ Lexer.Stuck left :=
  ⟨fun _ => tokenize_eq_ok_iff, fun _ => covers_of_tokenize, fun _ => tokenize_fails_iff⟩

end ConfigBinding
