import ConfigBinding.FilePath
import Mathlib.Data.List.DropRight
import Mathlib.Data.List.Induction

/-!
# Paths in normal form

Normalizing walks through the pieces of a path and keeps the components that it has come through. At
each moment these are in normal form themselves (`Settled`): double dots stand only at the start of
a relative path. So a path in normal form is walked through without a step back, and the walk can be
taken up again where another one ended. That is why a directory may be normalized before a path is
joined to it.

A text is a path only as it is read, so each law is stated of texts too: a path that is written and
read again (`parse_toText`) has the same normal form.

Results:
1. `Settled.walk`, `Settled.walk_reverse`: what is walked through is in normal form, and a normal
   form is walked through as it stands.
2. `normalize_normalize`, `normalize_join`: a normal form stays, and a directory may be normalized
   before a path is joined to it.
3. `components_parent?`, `walked_parent?`: what the directory of a path is.
4. `isUri_join`: a path seen from the directory of a path is no address.
-/

namespace ConfigBinding

namespace FilePath

/-! ## Components -/

/-- The components of a path: the pieces that say something, and the dot at the start of a relative
path. -/
def components (path : FilePath) : List String :=
  path.splitDot.1 ++ path.splitDot.2.filter fun piece => !isTrivial piece

theorem splitDot_cases (path : FilePath) :
    (∃ pieces, path = ⟨false, "." :: pieces⟩ ∧ path.splitDot = (["."], pieces)) ∨
      ((∀ pieces, path ≠ ⟨false, "." :: pieces⟩) ∧ path.splitDot = ([], path.pieces)) := by
  obtain ⟨isAbsolute, pieces⟩ := path
  unfold splitDot
  split
  · rename_i others relative dotted
    obtain rfl : isAbsolute = false := relative
    obtain rfl : pieces = "." :: others := dotted
    exact .inl ⟨others, rfl, rfl⟩
  · rename_i plain
    exact .inr ⟨fun others same =>
      plain others (FilePath.mk.inj same).1 (FilePath.mk.inj same).2, rfl⟩

theorem splitDot_append (path : FilePath) : path.splitDot.1 ++ path.splitDot.2 = path.pieces := by
  rcases splitDot_cases path with ⟨pieces, rfl, _⟩ | ⟨_, same⟩
  · rfl
  · rw [same, List.nil_append]

theorem isTrivial_of_splitDot {path : FilePath} {piece : String}
    (member : piece ∈ path.splitDot.1) : isTrivial piece = true := by
  rcases splitDot_cases path with ⟨_, _, same⟩ | ⟨_, same⟩
  · rw [same] at member
    rw [List.mem_singleton.mp member]
    rfl
  · rw [same] at member
    cases member

/-- Only the dot at the start of a relative path is a component that says nothing. -/
theorem components_of_trivial {path : FilePath} {last : String}
    (isLast : path.components.getLast? = some last) (trivial : isTrivial last = true) :
    path.isAbsolute = false ∧ path.components = [last] := by
  rw [components, List.getLast?_append] at isLast
  cases final : (path.splitDot.2.filter fun piece => !isTrivial piece).getLast? with
  | some piece =>
    rw [final, Option.some_or, Option.some.injEq] at isLast
    have kept := (List.mem_filter.mp (List.mem_of_getLast? final)).2
    rw [isLast, trivial] at kept
    cases kept
  | none =>
    rw [final, Option.none_or] at isLast
    rw [components, List.getLast?_eq_none_iff.mp final, List.append_nil]
    rcases splitDot_cases path with ⟨pieces, rfl, same⟩ | ⟨_, same⟩
    · rw [same] at isLast ⊢
      exact ⟨rfl, congrArg ([·]) (Option.some.inj isLast)⟩
    · rw [same] at isLast
      cases isLast

/-! ## Walking -/

/-- A component that is neither empty nor made of dots alone. -/
structure IsName (component : String) : Prop where
  nontrivial : isTrivial component = false
  not_up : component ≠ ".."

/-- Components in normal form, innermost first: double dots stand only at the start of a relative
path. -/
inductive Settled (isAbsolute : Bool) : List String → Prop
  | start : Settled isAbsolute []
  | up {outer : List String} :
      isAbsolute = false → (∀ component ∈ outer, component = "..") → Settled isAbsolute outer →
        Settled isAbsolute (".." :: outer)
  | name {component : String} {outer : List String} :
      IsName component → Settled isAbsolute outer → Settled isAbsolute (component :: outer)

section Walk

variable {isAbsolute : Bool} {passed : List String} {component : String}

theorem walk_trivial (trivial : isTrivial component = true) :
    walk isAbsolute passed component = passed :=
  if_pos trivial

theorem walk_name (isName : IsName component) :
    walk isAbsolute passed component = component :: passed := by
  unfold walk
  rw [if_neg (Bool.eq_false_iff.mp isName.nontrivial), if_neg isName.not_up]

theorem walk_up : walk isAbsolute passed ".." =
    match passed with
    | [] => if isAbsolute then [] else [".."]
    | last :: outer => if last = ".." then ".." :: last :: outer else outer := rfl

theorem Settled.walk (settled : Settled isAbsolute passed) (component : String) :
    Settled isAbsolute (walk isAbsolute passed component) := by
  by_cases trivial : isTrivial component = true
  · rw [walk_trivial trivial]
    exact settled
  by_cases up : component = ".."
  · subst up
    rw [walk_up]
    cases settled with
    | start =>
      cases isAbsolute with
      | true => exact .start
      | false => exact .up rfl nofun .start
    | up relative all outer =>
      exact .up relative (List.forall_mem_cons.mpr ⟨rfl, all⟩) (.up relative all outer)
    | name isName outer =>
      dsimp only
      rw [if_neg isName.not_up]
      exact outer
  · have isName : IsName component := ⟨Bool.eq_false_iff.mpr trivial, up⟩
    rw [walk_name isName]
    exact .name isName settled

theorem Settled.foldl_walk (settled : Settled isAbsolute passed) (pieces : List String) :
    Settled isAbsolute (pieces.foldl (FilePath.walk isAbsolute) passed) := by
  induction pieces generalizing passed with
  | nil => exact settled
  | cons piece pieces ih => exact ih (settled.walk piece)

/-- A normal form is walked through as it stands. -/
theorem Settled.walk_reverse (settled : Settled isAbsolute passed) :
    passed.reverse.foldl (FilePath.walk isAbsolute) [] = passed := by
  induction settled with
  | start => rfl
  | @up outer relative all _ ih =>
    rw [List.reverse_cons, List.foldl_append, ih, List.foldl_cons, List.foldl_nil, walk_up]
    cases outer with
    | nil => rw [relative]; rfl
    | cons last outer => exact if_pos (all last List.mem_cons_self)
  | name isName _ ih =>
    rw [List.reverse_cons, List.foldl_append, ih, List.foldl_cons, List.foldl_nil,
      walk_name isName]

/-- Pieces that say nothing make no difference to a walk. -/
theorem foldl_walk_filter (pieces : List String) :
    (pieces.filter fun piece => !isTrivial piece).foldl (walk isAbsolute) passed =
      pieces.foldl (walk isAbsolute) passed := by
  induction pieces generalizing passed with
  | nil => rfl
  | cons piece pieces ih =>
    cases trivial : isTrivial piece with
    | true => simp [trivial, walk_trivial trivial, ih]
    | false => simp [trivial, ih]

/-- Components in normal form are double dots and names behind them. -/
theorem Settled.reverse_eq (settled : Settled isAbsolute passed) :
    ∃ ups names, passed.reverse = List.replicate ups ".." ++ names ∧
      (∀ name ∈ names, IsName name) ∧ (isAbsolute = true → ups = 0) := by
  induction settled with
  | start => exact ⟨0, [], rfl, nofun, fun _ => rfl⟩
  | @up outer relative all _ _ =>
    refine ⟨outer.length + 1, [], ?_, nofun, fun absolute => ?_⟩
    · rw [List.append_nil, List.reverse_eq_iff, List.reverse_replicate, List.replicate_succ,
        List.eq_replicate_of_mem all, List.length_replicate]
    · rw [relative] at absolute
      cases absolute
  | @name component outer isName _ ih =>
    obtain ⟨ups, names, same, all, absolute⟩ := ih
    refine ⟨ups, names ++ [component], ?_, ?_, absolute⟩
    · rw [List.reverse_cons, same, List.append_assoc]
    · exact List.forall_mem_append.mpr ⟨all, List.forall_mem_singleton.mpr isName⟩

end Walk

/-! ## Normal forms -/

section Normal

variable {path dir other : FilePath}

/-- The components that a walk through a path ends with, innermost first. -/
def walked (path : FilePath) : List String := path.pieces.foldl (walk path.isAbsolute) []

theorem normalize_eq (path : FilePath) :
    path.normalize = ⟨path.isAbsolute, path.walked.reverse⟩ := rfl

theorem settled_walked (path : FilePath) : Settled path.isAbsolute path.walked :=
  Settled.start.foldl_walk path.pieces

theorem walked_normalize (path : FilePath) : path.normalize.walked = path.walked :=
  path.settled_walked.walk_reverse

theorem normalize_normalize (path : FilePath) : path.normalize.normalize = path.normalize := by
  rw [normalize_eq path.normalize, walked_normalize, normalize_eq]

/-- A walk through a path that is joined to a directory goes on where that through the directory
ended. -/
theorem normalize_join_eq (relative : path.isAbsolute = false) :
    (dir.join path).normalize =
      ⟨dir.isAbsolute, (path.pieces.foldl (walk dir.isAbsolute) dir.walked).reverse⟩ := by
  have goesOn (outer : List String)
      (same : outer.foldl (walk dir.isAbsolute) [] = dir.walked) :
      (⟨dir.isAbsolute, outer ++ path.pieces⟩ : FilePath).normalize =
        ⟨dir.isAbsolute, (path.pieces.foldl (walk dir.isAbsolute) dir.walked).reverse⟩ := by
    rw [normalize_eq, walked, List.foldl_append, same]
  unfold join
  rw [if_neg (Bool.eq_false_iff.mp relative)]
  dsimp only
  split
  · rename_i slash
    obtain ⟨outer, same⟩ := List.getLast?_eq_some_iff.mp slash
    refine goesOn _ ?_
    rw [walked, same, List.dropLast_concat, List.foldl_append]
    rfl
  · exact goesOn _ rfl

/-- To join a path, all that counts of the directory is its normal form. -/
theorem join_congr (same : dir.normalize = other.normalize) (path : FilePath) :
    (dir.join path).normalize = (other.join path).normalize := by
  obtain ⟨absolute, components⟩ := FilePath.mk.inj same
  cases relative : path.isAbsolute with
  | true => rw [join, join, if_pos relative, if_pos relative]
  | false =>
    rw [normalize_join_eq relative, normalize_join_eq relative, absolute,
      show dir.walked = other.walked from List.reverse_inj.mp components]

theorem normalize_join (dir path : FilePath) :
    (dir.join path).normalize = (dir.normalize.join path).normalize :=
  join_congr dir.normalize_normalize.symm path

/-- A path is itself when it is seen from where it starts. -/
theorem normalize_join_of_here (here : dir.normalize = ⟨false, []⟩) (path : FilePath) :
    (dir.join path).normalize = path.normalize := by
  have same : dir.normalize = normalize ⟨false, []⟩ := here
  rw [join_congr same]
  cases relative : path.isAbsolute with
  | true => rw [join, if_pos relative]
  | false =>
    rw [normalize_join_eq relative, normalize_eq path, walked, walked, relative]
    rfl

theorem walked_eq_components (path : FilePath) :
    path.walked = path.components.foldl (walk path.isAbsolute) [] := by
  have dots : path.splitDot.1.filter (fun piece => !isTrivial piece) = [] :=
    List.filter_eq_nil_iff.mpr fun piece member => by simp [isTrivial_of_splitDot member]
  rw [walked, ← foldl_walk_filter path.pieces, ← foldl_walk_filter path.components,
    ← splitDot_append path, components, List.filter_append, List.filter_append, dots,
    List.filter_filter]
  simp

theorem isTrivial_of_mem_normalize {piece : String} (member : piece ∈ path.normalize.pieces) :
    isTrivial piece = false := by
  obtain ⟨ups, names, same, all, _⟩ := path.settled_walked.reverse_eq
  rw [normalize_eq, same] at member
  rcases List.mem_append.mp member with inUps | inNames
  · rw [List.eq_of_mem_replicate inUps]
    rfl
  · exact (all piece inNames).nontrivial

/-- A path in normal form is made of its components. -/
theorem components_normalize (path : FilePath) :
    path.normalize.components = path.normalize.pieces := by
  have noDot : path.normalize.splitDot = ([], path.normalize.pieces) := by
    unfold splitDot
    split
    · rename_i pieces _ same
      have dot : "." ∈ path.normalize.pieces := same ▸ List.mem_cons_self
      cases isTrivial_of_mem_normalize dot
    · rfl
  rw [components, noDot, List.nil_append, List.filter_eq_self]
  exact fun piece member => by rw [isTrivial_of_mem_normalize member]; rfl

end Normal

/-! ## Texts -/

/-- The path is read as it is written, if it has pieces. -/
structure Spelled (path : FilePath) : Prop where
  apart : ∀ piece ∈ path.pieces, '/' ∉ piece.toList
  /-- What starts with a slash is absolute. -/
  relative : path.isAbsolute = false → ∀ piece pieces, path.pieces ≠ "" :: piece :: pieces

/-- A text is read as one of two paths, after it was cut at the slashes. -/
theorem parse_cases (text : String) :
    (∃ piece pieces, Text.split '/' text = "" :: piece :: pieces ∧
      parse text = ⟨true, piece :: pieces⟩) ∨
    ((∀ piece pieces, Text.split '/' text ≠ "" :: piece :: pieces) ∧
      parse text = ⟨false, Text.split '/' text⟩) := by
  unfold parse
  split
  · rename_i piece pieces cut
    exact .inl ⟨piece, pieces, cut, rfl⟩
  · rename_i other
    exact .inr ⟨other, rfl⟩

theorem spelled_parse (text : String) : (parse text).Spelled := by
  have apart : ∀ piece ∈ Text.split '/' text, '/' ∉ piece.toList :=
    fun piece => Text.not_mem_of_mem_split
  rcases parse_cases text with ⟨piece, pieces, cut, same⟩ | ⟨other, same⟩
  · rw [cut] at apart
    rw [same]
    exact ⟨(List.forall_mem_cons.mp apart).2, nofun⟩
  · rw [same]
    exact ⟨apart, fun _ => other⟩

theorem parse_pieces_ne_nil (text : String) : (parse text).pieces ≠ [] := by
  rcases parse_cases text with ⟨piece, pieces, _, same⟩ | ⟨_, same⟩
  · rw [same]
    exact List.cons_ne_nil _ _
  · rw [same]
    exact Text.split_ne_nil '/' text

namespace Spelled

variable {path dir : FilePath}

theorem parse_toText (spelled : path.Spelled) (nonempty : path.pieces ≠ []) :
    parse path.toText = path := by
  obtain ⟨isAbsolute, pieces⟩ := path
  cases isAbsolute with
  | true =>
    obtain ⟨piece, others, rfl⟩ := List.exists_cons_of_ne_nil nonempty
    have cut : Text.split '/' (toText ⟨true, piece :: others⟩) = "" :: piece :: others := by
      have apart : ∀ part ∈ "" :: piece :: others, '/' ∉ part.toList :=
        List.forall_mem_cons.mpr ⟨List.not_mem_nil, spelled.apart⟩
      have joined := Text.split_join (List.cons_ne_nil _ _) apart
      exact joined
    rcases parse_cases (toText ⟨true, piece :: others⟩) with ⟨first, rest, same, read⟩ | ⟨other, _⟩
    · rw [read, (List.cons.inj (same.symm.trans cut)).2]
    · exact absurd cut (other piece others)
  | false =>
    have cut : Text.split '/' (toText ⟨false, pieces⟩) = pieces := by
      rw [toText, if_neg Bool.false_ne_true, String.empty_append]
      exact Text.split_join nonempty spelled.apart
    rcases parse_cases (toText ⟨false, pieces⟩) with ⟨piece, others, same, _⟩ | ⟨_, same⟩
    · exact absurd (cut.symm.trans same) (spelled.relative rfl piece others)
    · rw [same, cut]

/-- A path that is written and read again has the same normal form. -/
theorem normalize_parse_toText (spelled : path.Spelled) :
    (parse path.toText).normalize = path.normalize := by
  by_cases nonempty : path.pieces = []
  · obtain ⟨isAbsolute, pieces⟩ := path
    obtain rfl : pieces = [] := nonempty
    cases isAbsolute <;> decide
  · rw [spelled.parse_toText nonempty]

theorem of_start (spelled : path.Spelled) (sameRoot : dir.isAbsolute = path.isAbsolute)
    (start : dir.pieces <+: path.pieces) : dir.Spelled := by
  obtain ⟨behind, whole⟩ := start
  refine ⟨fun piece member => ?_, fun dirRelative piece pieces slash => ?_⟩
  · exact spelled.apart piece (whole ▸ List.mem_append_left behind member)
  · exact spelled.relative (sameRoot ▸ dirRelative) piece (pieces ++ behind)
      (by rw [← whole, slash, List.cons_append, List.cons_append])

theorem join (spelled : path.Spelled) (dirSpelled : dir.Spelled) : (dir.join path).Spelled := by
  cases relative : path.isAbsolute with
  | true =>
    rw [FilePath.join, if_pos relative]
    exact spelled
  | false =>
    unfold FilePath.join
    rw [if_neg (Bool.eq_false_iff.mp relative)]
    dsimp only
    split
    · rename_i slash
      obtain ⟨outer, same⟩ := List.getLast?_eq_some_iff.mp slash
      have apart := same ▸ dirSpelled.apart
      rw [same, List.dropLast_concat]
      refine ⟨List.forall_mem_append.mpr ⟨(List.forall_mem_append.mp apart).1, spelled.apart⟩, ?_⟩
      intro dirRelative piece pieces start
      cases outer with
      | nil => exact spelled.relative relative piece pieces start
      | cons first outer =>
        obtain rfl : first = "" := (List.cons.inj start).1
        cases outer with
        | nil => exact dirSpelled.relative dirRelative _ _ same
        | cons second outer => exact dirSpelled.relative dirRelative _ _ same
    · rename_i noSlash
      refine ⟨List.forall_mem_append.mpr ⟨dirSpelled.apart, spelled.apart⟩, ?_⟩
      intro dirRelative piece pieces start
      match outer : dir.pieces with
      | [] =>
        rw [outer] at start
        exact spelled.relative relative piece pieces start
      | [first] =>
        rw [outer] at start noSlash
        exact noSlash (congrArg some (List.cons.inj start).1)
      | first :: second :: others =>
        rw [outer] at start
        obtain rfl : first = "" := (List.cons.inj start).1
        exact dirSpelled.relative dirRelative _ _ outer

end Spelled

theorem mem_walk {isAbsolute : Bool} {passed : List String} {component piece : String}
    (member : piece ∈ walk isAbsolute passed component) :
    piece ∈ passed ∨ piece = component ∨ piece = ".." := by
  unfold walk at member
  split at member
  · exact .inl member
  split at member
  · split at member
    · split at member
      · cases member
      · exact .inr (.inr (List.mem_singleton.mp member))
    · split at member
      · exact (List.mem_cons.mp member).elim (fun same => .inr (.inr same)) .inl
      · exact .inl (List.mem_cons_of_mem _ member)
  · exact (List.mem_cons.mp member).elim (fun same => .inr (.inl same)) .inl

theorem mem_foldl_walk {isAbsolute : Bool} {passed pieces : List String} {piece : String}
    (member : piece ∈ pieces.foldl (walk isAbsolute) passed) :
    piece ∈ passed ∨ piece ∈ pieces ∨ piece = ".." := by
  induction pieces generalizing passed with
  | nil => exact .inl member
  | cons next pieces ih =>
    rcases ih member with before | later | up
    · rcases mem_walk before with old | same | up
      · exact .inl old
      · exact .inr (.inl (same ▸ List.mem_cons_self))
      · exact .inr (.inr up)
    · exact .inr (.inl (List.mem_cons_of_mem _ later))
    · exact .inr (.inr up)

theorem Spelled.normalize {path : FilePath} (spelled : path.Spelled) :
    path.normalize.Spelled := by
  refine ⟨fun piece member => ?_, fun relative piece pieces start => ?_⟩
  · rcases mem_foldl_walk (List.mem_reverse.mp member) with none | inside | rfl
    · cases none
    · exact spelled.apart piece inside
    · decide
  · have empty : "" ∈ path.normalize.pieces := start ▸ List.mem_cons_self
    cases isTrivial_of_mem_normalize empty

/-- The components of a path in normal form that is written and read again. -/
theorem Spelled.components_parse_toText {path : FilePath} (spelled : path.Spelled) :
    (parse path.normalize.toText).components = path.normalize.pieces := by
  by_cases nonempty : path.normalize.pieces = []
  · rw [normalize_eq] at nonempty ⊢
    dsimp only at nonempty
    rw [nonempty]
    cases path.isAbsolute <;> decide
  · rw [spelled.normalize.parse_toText nonempty, components_normalize]

/-- The text of the normal form of the path that a text is read as. -/
def normalText (text : String) : String := (parse text).normalize.toText

/-- The text of a path as seen from a directory. -/
def joinText (dir text : String) : String := ((parse dir).join (parse text)).toText

theorem normalize_parse_normalText (text : String) :
    (parse (normalText text)).normalize = (parse text).normalize :=
  (spelled_parse text).normalize.normalize_parse_toText.trans (normalize_normalize _)

theorem normalText_joinText (dir text : String) :
    normalText (joinText dir text) = ((parse dir).join (parse text)).normalize.toText :=
  congrArg toText ((spelled_parse text).join (spelled_parse dir)).normalize_parse_toText

theorem isAbsolute_parse_normalText (text : String) :
    (parse (normalText text)).isAbsolute = (parse text).isAbsolute := by
  have same := congrArg isAbsolute (normalize_parse_normalText text)
  rwa [normalize_eq, normalize_eq] at same

/-! ## Directories -/

section Parent

variable {path dir : FilePath}

theorem dropTrivialEnd_concat (pieces : List String) (last : String) :
    dropTrivialEnd (pieces ++ [last]) =
      if isTrivial last then dropTrivialEnd pieces else pieces ++ [last] :=
  List.rdropWhile_concat ..

theorem filter_dropTrivialEnd (pieces : List String) :
    (dropTrivialEnd pieces).filter (fun piece => !isTrivial piece) =
      pieces.filter fun piece => !isTrivial piece := by
  induction pieces using List.reverseRecOn with
  | nil => rfl
  | append_singleton pieces last ih =>
    rw [dropTrivialEnd_concat]
    split
    · rename_i trivial
      rw [ih, List.filter_append]
      simp [trivial]
    · rfl

theorem dropTrivialEnd_starts (pieces : List String) : dropTrivialEnd pieces <+: pieces :=
  List.rdropWhile_prefix _ pieces

theorem isTrivial_getLast?_dropTrivialEnd {pieces : List String} {last : String}
    (isLast : (dropTrivialEnd pieces).getLast? = some last) : isTrivial last = false := by
  induction pieces using List.reverseRecOn with
  | nil => cases isLast
  | append_singleton pieces final ih =>
    rw [dropTrivialEnd_concat] at isLast
    split at isLast
    · exact ih isLast
    · rename_i nontrivial
      rw [List.getLast?_concat, Option.some.injEq] at isLast
      rw [← isLast]
      exact Bool.eq_false_iff.mpr nontrivial

/-- What a path starts with has the dot of the path, if there is one. -/
theorem splitDot_of_start {inner : List String} (start : inner <+: path.splitDot.2) :
    splitDot ⟨path.isAbsolute, path.splitDot.1 ++ inner⟩ = (path.splitDot.1, inner) := by
  rcases splitDot_cases path with ⟨pieces, rfl, _⟩ | ⟨plain, same⟩
  · rfl
  rw [same] at start ⊢
  obtain ⟨behind, whole⟩ := start
  rcases splitDot_cases ⟨path.isAbsolute, [] ++ inner⟩ with ⟨pieces, dotted, _⟩ | ⟨_, alike⟩
  · obtain ⟨relative, rfl⟩ := FilePath.mk.inj dotted
    refine absurd ?_ (plain (pieces ++ behind))
    rw [← relative, ← List.cons_append, whole]
  · exact alike

/-- A path lies in its directory: the directory is how the path starts, and has all its components
but the last. -/
theorem components_parent? (isParent : path.parent? = some dir) :
    dir.isAbsolute = path.isAbsolute ∧ dir.pieces <+: path.pieces ∧
      dir.pieces.getLast? ≠ some "" ∧ ∃ last, path.components = dir.components ++ [last] := by
  unfold parent? at isParent
  dsimp only at isParent
  split at isParent
  · rename_i last outer rest
    obtain rfl := Option.some.inj isParent
    have inner : dropTrivialEnd path.splitDot.2 = outer.reverse ++ [last] := by
      rw [List.reverse_eq_iff.mp rest, List.reverse_cons]
    have nontrivial : isTrivial last = false :=
      isTrivial_getLast?_dropTrivialEnd (inner ▸ List.getLast?_concat)
    have start : dropTrivialEnd outer.reverse <+: path.splitDot.2 :=
      ((dropTrivialEnd_starts _).trans (List.prefix_append _ [last])).trans
        (inner ▸ dropTrivialEnd_starts path.splitDot.2)
    refine ⟨rfl, ?_, ?_, last, ?_⟩
    · rw [← splitDot_append path]
      exact (List.prefix_append_right_inj _).mpr start
    · dsimp only
      rw [List.getLast?_append]
      cases final : (dropTrivialEnd outer.reverse).getLast? with
      | some piece =>
        have nonempty := isTrivial_getLast?_dropTrivialEnd final
        rintro ⟨⟩
        cases nonempty
      | none =>
        rw [Option.none_or]
        rcases splitDot_cases path with ⟨_, _, same⟩ | ⟨_, same⟩ <;> rw [same] <;> simp
    · rw [components, components, splitDot_of_start start, filter_dropTrivialEnd,
        ← filter_dropTrivialEnd path.splitDot.2, inner, List.filter_append, List.append_assoc]
      simp [nontrivial]
  · rename_i rest dotted
    obtain rfl := Option.some.inj isParent
    rcases splitDot_cases path with ⟨pieces, rfl, same⟩ | ⟨_, same⟩
    · have nothing : pieces.filter (fun piece => !isTrivial piece) = [] := by
        rw [← filter_dropTrivialEnd, show dropTrivialEnd pieces = [] from
          List.reverse_eq_nil_iff.mp rest]
        rfl
      refine ⟨rfl, List.nil_prefix, nofun, ".", ?_⟩
      rw [components, same, nothing]
      rfl
    · rw [same] at dotted
      cases dotted
  · cases isParent

/-- A path without a directory has no components. -/
theorem components_of_parent?_eq_none (noParent : path.parent? = none) : path.components = [] := by
  unfold parent? at noParent
  dsimp only at noParent
  split at noParent
  · cases noParent
  · cases noParent
  · rename_i rest noDot
    rw [components, noDot, ← filter_dropTrivialEnd, List.reverse_eq_nil_iff.mp rest]
    rfl

/-- The directory of a normal form is the normal form of the directory, if the path ends with a
name. -/
theorem walked_parent? {last : String} (isParent : path.parent? = some dir)
    (isLast : path.components.getLast? = some last) (isName : IsName last) :
    path.walked = last :: dir.walked := by
  obtain ⟨sameRoot, _, _, final, whole⟩ := components_parent? isParent
  rw [whole, List.getLast?_concat, Option.some.injEq] at isLast
  rw [walked_eq_components, whole, List.foldl_append, ← sameRoot, ← walked_eq_components,
    isLast, List.foldl_cons, List.foldl_nil, walk_name isName]

end Parent

/-! ## Addresses -/

/-- The scheme of an address, with its colon. -/
def IsScheme (text : String) : Prop :=
  ∃ scheme, text.toList = scheme ++ [':'] ∧ scheme ≠ [] ∧ ∀ c ∈ scheme, isSchemeChar c = true

theorem isUri_of_toList {text : String} {scheme rest : List Char} (nonempty : scheme ≠ [])
    (all : ∀ c ∈ scheme, isSchemeChar c = true)
    (spelled : text.toList = scheme ++ ':' :: '/' :: '/' :: rest) : isUri text = true := by
  have taken : text.toList.takeWhile isSchemeChar = scheme := by
    rw [spelled, List.takeWhile_append_of_pos all, List.takeWhile_cons, if_neg (by decide),
      List.append_nil]
  unfold isUri
  dsimp only
  rw [taken, spelled, List.drop_left]
  simpa using nonempty

/-- An address is read as a relative path with an empty piece behind the scheme. -/
theorem isUri_iff (text : String) :
    isUri text = true ↔ ∃ scheme next others,
      parse text = ⟨false, scheme :: "" :: next :: others⟩ ∧ IsScheme scheme := by
  constructor
  · intro uri
    obtain ⟨nonempty, starts⟩ := Bool.and_eq_true_iff.mp uri
    obtain ⟨behind, whole⟩ := List.takeWhile_prefix isSchemeChar (l := text.toList)
    have all : ∀ c ∈ text.toList.takeWhile isSchemeChar, isSchemeChar c = true :=
      fun c => List.mem_takeWhile_imp
    generalize text.toList.takeWhile isSchemeChar = scheme at nonempty whole starts all
    rw [← whole, List.drop_left] at starts
    obtain ⟨rest, rfl⟩ := List.isPrefixOf_iff_prefix.mp starts
    have apart : '/' ∉ scheme ++ [':'] := by
      refine fun slash => (List.mem_append.mp slash).elim (fun inScheme => ?_) (by decide)
      exact absurd (all _ inScheme) (by decide)
    obtain ⟨next, others, pieces⟩ :=
      List.exists_cons_of_ne_nil (Text.splitChars_ne_nil '/' rest)
    have cut : Text.split '/' text = String.ofList (scheme ++ [':']) :: "" ::
        String.ofList next :: others.map String.ofList := by
      have regrouped : text.toList = (scheme ++ [':']) ++ '/' :: ([] ++ '/' :: rest) := by
        rw [← whole]
        simp
      rw [Text.split, regrouped, Text.splitChars_append apart,
        Text.splitChars_append List.not_mem_nil, pieces]
      rfl
    refine ⟨String.ofList (scheme ++ [':']), String.ofList next, others.map String.ofList, ?_,
      scheme, String.toList_ofList .., by simpa using nonempty, all⟩
    rcases parse_cases text with ⟨piece, pieces, slash, _⟩ | ⟨_, read⟩
    · have empty := congrArg String.toList (List.cons.inj (cut.symm.trans slash)).1
      simp at empty
    · rw [read, cut]
  · rintro ⟨first, next, others, same, scheme, spelled, nonempty, all⟩
    have whole : text.toList =
        scheme ++ ':' :: '/' :: '/' :: (Text.join "/" (next :: others)).toList := by
      rw [← toText_parse text, same, toText, if_neg Bool.false_ne_true, String.empty_append,
        Text.join, Text.join, String.toList_append, String.toList_append, String.toList_append,
        spelled]
      simp
    exact isUri_of_toList nonempty all whole

/-- A normal form is no address: it has no empty pieces. -/
theorem isUri_normalText (text : String) : isUri (normalText text) = false := by
  refine Bool.eq_false_iff.mpr fun uri => ?_
  obtain ⟨scheme, next, others, read, _⟩ := (isUri_iff _).mp uri
  by_cases nonempty : (parse text).normalize.pieces = []
  · rw [normalText, normalize_eq] at read
    rw [normalize_eq] at nonempty
    rw [show (parse text).walked.reverse = [] from nonempty] at read
    revert read
    cases (parse text).isAbsolute <;> exact nofun
  · rw [normalText, (spelled_parse text).normalize.parse_toText nonempty] at read
    have member : "" ∈ (parse text).normalize.pieces := by simp [read]
    cases isTrivial_of_mem_normalize member

/-- A path is no address when it is seen from the directory of a path that is none. -/
theorem isUri_join {text id : String} {dir : FilePath} (noUri : isUri text = false)
    (idNoUri : isUri id = false) (isParent : (parse id).parent? = some dir) :
    isUri (dir.join (parse text)).toText = false := by
  refine Bool.eq_false_iff.mpr fun uri => ?_
  obtain ⟨scheme, next, others, read, isScheme⟩ := (isUri_iff _).mp uri
  cases relative : (parse text).isAbsolute with
  | true =>
    rw [join, if_pos relative, toText_parse] at uri
    rw [uri] at noUri
    cases noUri
  | false =>
    obtain ⟨sameRoot, start, noSlash, _⟩ := components_parent? isParent
    have dirSpelled : dir.Spelled := (spelled_parse id).of_start sameRoot start
    have joined : dir.join (parse text) = ⟨dir.isAbsolute, dir.pieces ++ (parse text).pieces⟩ := by
      rw [join, if_neg (Bool.eq_false_iff.mp relative), if_neg noSlash]
    have nonempty : (dir.join (parse text)).pieces ≠ [] := by
      rw [joined]
      exact List.append_ne_nil_of_right_ne_nil _ (parse_pieces_ne_nil text)
    rw [((spelled_parse text).join dirSpelled).parse_toText nonempty, joined] at read
    obtain ⟨dirRelative, pieces⟩ := FilePath.mk.inj read
    -- The two slashes would stand in the path, between the two, or in the directory.
    match outer : dir.pieces with
    | [] =>
      rw [outer, List.nil_append] at pieces
      have address : isUri text = true :=
        (isUri_iff text).mpr ⟨scheme, next, others, by rw [← relative, ← pieces], isScheme⟩
      rw [noUri] at address
      cases address
    | [first] =>
      rw [outer] at pieces
      exact (spelled_parse text).relative relative next others (List.cons.inj pieces).2
    | [first, second] =>
      rw [outer] at pieces noSlash
      exact noSlash (congrArg some (List.cons.inj (List.cons.inj pieces).2).1)
    | first :: second :: third :: rest =>
      rw [outer] at pieces start
      obtain ⟨behind, whole⟩ := start
      obtain ⟨rfl, later⟩ := List.cons.inj pieces
      obtain ⟨rfl, _⟩ := List.cons.inj later
      have address : isUri id = true :=
        (isUri_iff id).mpr ⟨first, third, rest ++ behind, by
          rw [← dirRelative, sameRoot, ← List.cons_append, ← List.cons_append, ← List.cons_append,
            whole], isScheme⟩
      rw [idNoUri] at address
      cases address

end FilePath

end ConfigBinding
