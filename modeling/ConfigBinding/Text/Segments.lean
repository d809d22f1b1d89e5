/-!
# Segments of a text

A text is cut at every occurrence of one separator character, and pieces are put back together
with a separator between them. Dotted names, scopes and file paths are read and written this way.

Results:
1. `split_ne_nil`: every text has at least one piece.
2. `join_split`: joining the pieces with the separator gives the text back.
3. `split_join`: cutting a joined text gives pieces without the separator back.
4. `split_append`: the piece that follows the last separator.
-/

namespace ConfigBinding.Text

/-- The pieces of `cs` between the occurrences of `sep`. The empty text is one empty piece. -/
def splitChars (sep : Char) : List Char → List (List Char)
  | [] => [[]]
  | c :: cs =>
    if c = sep then [] :: splitChars sep cs
    else match splitChars sep cs with
      | [] => [[c]]
      | piece :: pieces => (c :: piece) :: pieces

/-- The pieces of `text` between the occurrences of `sep`. -/
def split (sep : Char) (text : String) : List String :=
  (splitChars sep text.toList).map String.ofList

/-- The pieces with `sep` between each two of them. -/
def join (sep : String) : List String → String
  | [] => ""
  | [piece] => piece
  | piece :: next :: pieces => piece ++ sep ++ join sep (next :: pieces)

/-- The pieces with `sep` between each two of them, on characters. -/
def joinChars (sep : Char) : List (List Char) → List Char
  | [] => []
  | [piece] => piece
  | piece :: next :: pieces => piece ++ sep :: joinChars sep (next :: pieces)

theorem splitChars_ne_nil (sep : Char) (cs : List Char) : splitChars sep cs ≠ [] := by
  cases cs with
  | nil => simp [splitChars]
  | cons c cs =>
    simp only [splitChars]
    split
    · simp
    · split <;> simp

theorem split_ne_nil (sep : Char) (text : String) : split sep text ≠ [] := by
  simp [split, splitChars_ne_nil]

theorem joinChars_splitChars (sep : Char) (cs : List Char) :
    joinChars sep (splitChars sep cs) = cs := by
  induction cs with
  | nil => rfl
  | cons c cs ih =>
    have nonempty := splitChars_ne_nil sep cs
    cases pieces : splitChars sep cs with
    | nil => exact absurd pieces nonempty
    | cons piece rest =>
      rw [pieces] at ih
      by_cases same : c = sep
      · simp [splitChars, same, pieces, joinChars, ih]
      · cases rest <;> simp_all [splitChars, joinChars]

theorem toList_join (sep : Char) (pieces : List String) :
    (join (String.singleton sep) pieces).toList = joinChars sep (pieces.map String.toList) := by
  induction pieces with
  | nil => rfl
  | cons piece pieces ih =>
    cases pieces with
    | nil => rfl
    | cons next pieces => simp_all [join, joinChars]

theorem join_split (sep : Char) (text : String) :
    join (String.singleton sep) (split sep text) = text := by
  apply String.toList_inj.mp
  rw [toList_join, split, List.map_map]
  have same : (String.toList ∘ String.ofList) = id := by
    funext cs
    simp
  rw [same, List.map_id, joinChars_splitChars]

theorem splitChars_of_not_mem {sep : Char} {cs : List Char} (apart : sep ∉ cs) :
    splitChars sep cs = [cs] := by
  induction cs with
  | nil => rfl
  | cons c cs ih =>
    obtain ⟨different, apart⟩ := not_or.mp (mt List.mem_cons.mpr apart)
    rw [splitChars, if_neg fun same => different same.symm, ih apart]

theorem splitChars_append {sep : Char} {piece : List Char} (apart : sep ∉ piece) (cs : List Char) :
    splitChars sep (piece ++ sep :: cs) = piece :: splitChars sep cs := by
  induction piece with
  | nil => rw [List.nil_append, splitChars, if_pos rfl]
  | cons c piece ih =>
    obtain ⟨different, apart⟩ := not_or.mp (mt List.mem_cons.mpr apart)
    rw [List.cons_append, splitChars, if_neg fun same => different same.symm, ih apart]

theorem splitChars_joinChars {sep : Char} {pieces : List (List Char)} (nonempty : pieces ≠ [])
    (apart : ∀ piece ∈ pieces, sep ∉ piece) :
    splitChars sep (joinChars sep pieces) = pieces := by
  induction pieces with
  | nil => exact absurd rfl nonempty
  | cons piece pieces ih =>
    obtain ⟨first, others⟩ := List.forall_mem_cons.mp apart
    cases pieces with
    | nil => exact splitChars_of_not_mem first
    | cons next pieces =>
      rw [joinChars, splitChars_append first, ih (List.cons_ne_nil _ _) others]

theorem split_join {sep : Char} {pieces : List String} (nonempty : pieces ≠ [])
    (apart : ∀ piece ∈ pieces, sep ∉ piece.toList) :
    split sep (join (String.singleton sep) pieces) = pieces := by
  have each : ∀ piece ∈ pieces.map String.toList, sep ∉ piece := by
    intro piece member
    obtain ⟨text, inside, rfl⟩ := List.mem_map.mp member
    exact apart text inside
  have same : (String.ofList ∘ String.toList) = id := by
    funext text
    simp
  rw [split, toList_join, splitChars_joinChars (mt List.map_eq_nil_iff.mp nonempty) each,
    List.map_map, same, List.map_id]

theorem join_concat (sep : String) {pieces : List String} (nonempty : pieces ≠ [])
    (last : String) : join sep (pieces ++ [last]) = join sep pieces ++ sep ++ last := by
  induction pieces with
  | nil => exact absurd rfl nonempty
  | cons piece pieces ih =>
    cases pieces with
    | nil => rfl
    | cons next pieces =>
      have rest := ih (List.cons_ne_nil _ _)
      simp only [List.cons_append] at rest ⊢
      rw [join, rest, join, String.append_assoc, String.append_assoc, String.append_assoc,
        String.append_assoc, String.append_assoc]

theorem not_mem_of_mem_splitChars {sep : Char} {cs piece : List Char}
    (member : piece ∈ splitChars sep cs) : sep ∉ piece := by
  induction cs generalizing piece with
  | nil => simp_all [splitChars]
  | cons c cs ih =>
    rw [splitChars] at member
    split at member
    · rcases List.mem_cons.mp member with rfl | later
      · exact List.not_mem_nil
      · exact ih later
    · rename_i different
      have apart : ∀ rest ∈ splitChars sep cs, sep ∉ c :: rest ∨ sep ∉ rest :=
        fun rest inside => .inr (ih inside)
      split at member
      · rw [List.mem_singleton.mp member]
        simpa using Ne.symm different
      · rename_i first others pieces
        rw [pieces] at ih
        rcases List.mem_cons.mp member with rfl | later
        · exact fun inPiece => (List.mem_cons.mp inPiece).elim (different ·.symm)
            (ih List.mem_cons_self)
        · exact ih (List.mem_cons_of_mem _ later)

theorem not_mem_of_mem_split {sep : Char} {text piece : String}
    (member : piece ∈ split sep text) : sep ∉ piece.toList := by
  obtain ⟨cs, inside, rfl⟩ := List.mem_map.mp member
  rw [String.toList_ofList]
  exact not_mem_of_mem_splitChars inside

/-- A piece that is put behind a text and one more separator is the last piece. -/
theorem split_append {sep : Char} {piece : String} (apart : sep ∉ piece.toList) (text : String) :
    split sep (text ++ String.singleton sep ++ piece) = split sep text ++ [piece] := by
  have whole : text ++ String.singleton sep ++ piece =
      join (String.singleton sep) (split sep text ++ [piece]) := by
    rw [join_concat _ (split_ne_nil sep text), join_split]
  rw [whole, split_join (List.append_ne_nil_of_right_ne_nil _ (List.cons_ne_nil _ _))]
  exact List.forall_mem_append.mpr
    ⟨fun _ => not_mem_of_mem_split, List.forall_mem_singleton.mpr apart⟩

/-- What a joined text has in it is in the separator or in a piece. -/
theorem mem_join {sep : String} {pieces : List String} {c : Char}
    (member : c ∈ (join sep pieces).toList) :
    c ∈ sep.toList ∨ ∃ piece ∈ pieces, c ∈ piece.toList := by
  induction pieces with
  | nil => cases member
  | cons piece pieces ih =>
    cases pieces with
    | nil => exact .inr ⟨piece, List.mem_cons_self, member⟩
    | cons next pieces =>
      rw [join, String.toList_append, String.toList_append, List.mem_append,
        List.mem_append] at member
      rcases member with (first | between) | others
      · exact .inr ⟨piece, List.mem_cons_self, first⟩
      · exact .inl between
      · exact (ih others).imp id fun ⟨other, inside, found⟩ =>
          ⟨other, List.mem_cons_of_mem _ inside, found⟩

end ConfigBinding.Text
