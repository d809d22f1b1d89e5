import ConfigBinding.Proofs.NormalPaths
import ConfigBinding.Source.Loader

/-!
# Looking up sources in memory

A path is looked up under names in normal form: first as it is seen from the directory of the
including file, then by itself. What is found under a name is the text that was last inserted under
it. The names themselves are kept as they were inserted, so a name that is not in normal form is
never found, though its normal form may be the one that is looked up.

Results:
1. `load_eq`: the names under which a path is looked up, for paths that are no addresses.
2. `load_normal_id`: a file that is named by its normal form includes the same sources.
3. `load_finds`: which source is found, told from what was inserted.
4. `normalText_canonical`: what a normal form is, and what it may stand for.
-/

namespace ConfigBinding

open FilePath

namespace MemorySources

/-! ## The names that are looked up -/

/-- The names under which a path is looked up: its normal form as seen from the directory of the
including file, and its own. -/
def wanted (path : String) (including : Option String) : List String :=
  ((including.bind directoryOf?).map fun dir => (dir.join (parse path)).normalize.toText).toList
    ++ [normalText path]

/-- The source under a name. -/
def source? (sources : MemorySources) (name : String) : Option LoadedSource :=
  (Entries.get? name sources.files).map fun text => ⟨name, text⟩

theorem spelling_of_not_isUri {path : FilePath} (noUri : isUri path.toText = false) :
    spelling path = path.normalize.toText := by
  rw [spelling, if_neg (Bool.eq_false_iff.mp noUri)]

theorem spelled_directory {id : String} {dir : FilePath} (isParent : directoryOf? id = some dir) :
    dir.Spelled := by
  obtain ⟨sameRoot, start, _⟩ := components_parent? isParent
  exact (spelled_parse id).of_start sameRoot start

/-- In the directory where a path starts, it is looked up under its own name twice. -/
theorem findSome?_source?_here (sources : MemorySources) {dir : FilePath}
    (here : dir.normalize = ⟨false, []⟩) (path : String) :
    [(dir.join (parse path)).normalize.toText, normalText path].findSome? sources.source? =
      [normalText path].findSome? sources.source? := by
  rw [normalize_join_of_here here, ← normalText]
  cases found : sources.source? (normalText path) <;> simp [found]

/-- The first of the wanted names that is there is found. -/
theorem load_eq (sources : MemorySources) {path : String} {including : Option String}
    (noUri : isUri path = false) (idNoUri : ∀ id ∈ including, isUri id = false) :
    sources.load path including =
      match (wanted path including).findSome? sources.source? with
      | some source => .ok source
      | none => .error .notInMemory := by
  have direct : spelling (parse path) = normalText path :=
    spelling_of_not_isUri ((toText_parse path).symm ▸ noUri)
  have same : (candidates path including).findSome? sources.source? =
      (wanted path including).findSome? sources.source? := by
    rw [candidates, if_neg (Bool.eq_false_iff.mp noUri), wanted, direct]
    cases isParent : including.bind directoryOf? with
    | none => rfl
    | some dir =>
      obtain ⟨id, isId, isParent⟩ := Option.bind_eq_some_iff.mp isParent
      dsimp only
      split
      · rename_i empty
        have here : dir.normalize = ⟨false, []⟩ := by
          rw [← (spelled_directory isParent).normalize_parse_toText, String.isEmpty_iff.mp empty]
          decide
        exact (sources.findSome?_source?_here here path).symm
      · rw [spelling_of_not_isUri (isUri_join noUri (idNoUri id isId) isParent)]
        rfl
  rw [load, ← same]
  rfl

/-! ## Seen from a normal form -/

section NormalIds

variable {id : String} {dir : FilePath}

theorem components_normalText (text : String) :
    (parse (normalText text)).components = (parse text).walked.reverse :=
  (spelled_parse text).components_parse_toText

theorem directoryOf?_eq_none {text : String} (nothing : (parse text).components = []) :
    directoryOf? text = none := by
  refine Option.eq_none_iff_forall_ne_some.mpr fun dir isParent => ?_
  obtain ⟨_, _, _, last, whole⟩ := components_parent? isParent
  rw [nothing] at whole
  exact List.append_ne_nil_of_right_ne_nil _ (List.cons_ne_nil _ _) whole.symm

/-- The directory of a normal form is the normal form of the directory. -/
theorem directory_normalText {last : String} (isParent : directoryOf? id = some dir)
    (isLast : (parse id).components.getLast? = some last) (isName : IsName last) :
    ∃ other, directoryOf? (normalText id) = some other ∧ other.normalize = dir.normalize := by
  have whole : (parse (normalText id)).components = dir.walked.reverse ++ [last] := by
    rw [components_normalText, walked_parent? isParent isLast isName, List.reverse_cons]
  cases found : directoryOf? (normalText id) with
  | none =>
    rw [components_of_parent?_eq_none found] at whole
    exact absurd whole.symm (List.append_ne_nil_of_right_ne_nil _ (List.cons_ne_nil _ _))
  | some other =>
    obtain ⟨sameRoot, _, _, final, same⟩ := components_parent? found
    have outer : other.components = dir.walked.reverse :=
      (List.append_inj' (same.symm.trans whole) rfl).1
    have root : other.isAbsolute = dir.isAbsolute := by
      rw [sameRoot, isAbsolute_parse_normalText, (components_parent? isParent).1]
    refine ⟨other, rfl, ?_⟩
    rw [normalize_eq, normalize_eq, walked_eq_components other, outer, root,
      dir.settled_walked.walk_reverse]

/-- The file `.` has no directory when it is named by its normal form. -/
theorem directory_normalText_dot {last : String} (isParent : directoryOf? id = some dir)
    (isLast : (parse id).components.getLast? = some last) (trivial : isTrivial last = true) :
    directoryOf? (normalText id) = none ∧ dir.normalize = ⟨false, []⟩ := by
  obtain ⟨relative, alone⟩ := components_of_trivial isLast trivial
  obtain ⟨sameRoot, _, _, final, whole⟩ := components_parent? isParent
  have outer : dir.components = [] :=
    (List.append_inj' (whole.symm.trans (alone.trans (List.nil_append _).symm)) rfl).1
  constructor
  · refine directoryOf?_eq_none ?_
    rw [components_normalText, walked_eq_components, alone, List.foldl_cons, List.foldl_nil,
      walk_trivial trivial, List.reverse_nil]
  · rw [normalize_eq, walked_eq_components, outer, sameRoot, relative, List.foldl_nil,
      List.reverse_nil]

/-- What is wanted by a file that is named by its normal form. -/
theorem findSome?_wanted_normalText (noUp : (parse id).components.getLast? ≠ some "..")
    (sources : MemorySources) (path : String) :
    (wanted path (some (normalText id))).findSome? sources.source? =
      (wanted path (some id)).findSome? sources.source? := by
  rw [wanted, wanted, Option.bind_some, Option.bind_some]
  cases isParent : directoryOf? id with
  | none =>
    have nothing : (parse (normalText id)).components = [] := by
      rw [components_normalText, walked_eq_components, components_of_parent?_eq_none isParent,
        List.foldl_nil, List.reverse_nil]
    rw [directoryOf?_eq_none nothing]
  | some dir =>
    obtain ⟨_, _, _, last, whole⟩ := components_parent? isParent
    have isLast : (parse id).components.getLast? = some last := whole ▸ List.getLast?_concat
    cases trivial : isTrivial last with
    | true =>
      obtain ⟨noDirectory, here⟩ := directory_normalText_dot isParent isLast trivial
      rw [noDirectory]
      exact (sources.findSome?_source?_here here path).symm
    | false =>
      have isName : IsName last := ⟨trivial, fun up => noUp (up ▸ isLast)⟩
      obtain ⟨other, found, same⟩ := directory_normalText isParent isLast isName
      rw [found, Option.map_some, Option.map_some, join_congr same]

/-- A file that is named by its normal form includes the same sources. -/
theorem load_normal_id (sources : MemorySources) (noUri : isUri id = false)
    (noUp : (parse id).components.getLast? ≠ some "..") (path : String) :
    sources.load path (some (normalText id)) = sources.load path (some id) := by
  cases uri : isUri path with
  | true => rw [load, load, candidates, candidates, if_pos uri, if_pos uri]
  | false =>
    rw [load_eq sources uri (by simpa using isUri_normalText id),
      load_eq sources uri (by simpa using noUri), findSome?_wanted_normalText noUp]

end NormalIds

/-! ## What is inserted -/

/-- The sources after texts were inserted one after the other. -/
def ofInserts (inserts : List (String × String)) : MemorySources :=
  inserts.foldl (fun sources entry => sources.insert entry.1 entry.2) empty

/-- The text was inserted under such a name, and none later. -/
def LastInserted (named : String → Prop) (inserts : List (String × String)) (text : String) :
    Prop :=
  ∃ before name after, inserts = before ++ (name, text) :: after ∧ named name ∧
    ∀ entry ∈ after, ¬ named entry.1

/-- The source is what was last inserted under a name that is like the first of the wanted names
that there is any for. -/
def Finds (alike : String → String → Prop) (inserts : List (String × String)) :
    List String → LoadedSource → Prop
  | [], _ => False
  | name :: names, source =>
    (LastInserted (alike name) inserts source.text ∧ source.id = name) ∨
      ((∀ entry ∈ inserts, ¬ alike name entry.1) ∧ Finds alike inserts names source)

section Inserts

variable {inserts : List (String × String)} {named : String → Prop} {text : String}

theorem files_ofInserts (inserts : List (String × String)) :
    (ofInserts inserts).files = Entries.ofList inserts := by
  have all : ∀ sources : MemorySources,
      (inserts.foldl (fun sources entry => sources.insert entry.1 entry.2) sources).files =
        inserts.foldl (fun table entry => Entries.insert entry.1 entry.2 table) sources.files := by
    induction inserts with
    | nil => exact fun _ => rfl
    | cons entry inserts ih => exact fun sources => ih (sources.insert entry.1 entry.2)
  exact all empty

theorem lastInserted_nil : ¬ LastInserted named [] text := by
  rintro ⟨before, name, after, whole, _⟩
  cases before <;> cases whole

/-- The latest insertion counts if its name is such a name; otherwise it makes no difference. -/
theorem lastInserted_concat (entry : String × String) :
    LastInserted named (inserts ++ [entry]) text ↔
      (named entry.1 ∧ entry.2 = text) ∨ (¬ named entry.1 ∧ LastInserted named inserts text) := by
  constructor
  · rintro ⟨before, name, after, whole, isNamed, last⟩
    rcases List.eq_nil_or_concat' after with rfl | ⟨after, final, rfl⟩
    · obtain ⟨_, same⟩ := List.append_inj' whole rfl
      obtain rfl := List.singleton_inj.mp same
      exact .inl ⟨isNamed, rfl⟩
    · rw [← List.cons_append, ← List.append_assoc] at whole
      obtain ⟨rfl, same⟩ := List.append_inj' whole rfl
      obtain rfl := List.singleton_inj.mp same
      obtain ⟨earlier, now⟩ := List.forall_mem_append.mp last
      exact .inr ⟨now entry List.mem_cons_self, before, name, after, rfl, isNamed, earlier⟩
  · rintro (⟨isNamed, rfl⟩ | ⟨unnamed, before, name, after, rfl, isNamed, last⟩)
    · exact ⟨inserts, entry.1, [], rfl, isNamed, nofun⟩
    · refine ⟨before, name, after ++ [entry], by simp, isNamed, ?_⟩
      exact List.forall_mem_append.mpr ⟨last, List.forall_mem_singleton.mpr unnamed⟩

/-- What is found under a name is the text that was last inserted under it. -/
theorem get?_ofInserts {name : String} :
    Entries.get? name (ofInserts inserts).files = some text ↔
      LastInserted (· = name) inserts text := by
  rw [files_ofInserts]
  induction inserts using List.reverseRecOn with
  | nil => exact iff_of_false nofun lastInserted_nil
  | append_singleton inserts entry ih =>
    rw [lastInserted_concat, ← ih, Entries.ofList, List.foldl_append, List.foldl_cons,
      List.foldl_nil, Entries.get?_insert]
    split
    · rename_i same
      simp [same]
    · rename_i different
      simp [different, Entries.ofList]

theorem exists_lastInserted_iff :
    (∃ text, LastInserted named inserts text) ↔ ∃ entry ∈ inserts, named entry.1 := by
  constructor
  · rintro ⟨text, before, name, after, rfl, isNamed, _⟩
    exact ⟨(name, text), by simp, isNamed⟩
  · rintro ⟨entry, member, isNamed⟩
    induction inserts using List.reverseRecOn with
    | nil => cases member
    | append_singleton inserts final ih =>
      by_cases latest : named final.1
      · exact ⟨final.2, (lastInserted_concat final).mpr (.inl ⟨latest, rfl⟩)⟩
      · have earlier : entry ∈ inserts := by
          refine (List.mem_append.mp member).resolve_right fun same => latest ?_
          exact List.mem_singleton.mp same ▸ isNamed
        obtain ⟨text, last⟩ := ih earlier
        exact ⟨text, (lastInserted_concat final).mpr (.inr ⟨latest, last⟩)⟩

theorem get?_ofInserts_eq_none {name : String} :
    Entries.get? name (ofInserts inserts).files = none ↔ ∀ entry ∈ inserts, entry.1 ≠ name := by
  have some? : (∃ text, Entries.get? name (ofInserts inserts).files = some text) ↔
      ∃ entry ∈ inserts, entry.1 = name :=
    (exists_congr fun _ => get?_ofInserts).trans exists_lastInserted_iff
  rw [Option.eq_none_iff_forall_ne_some]
  exact not_exists.symm.trans (some?.not.trans (by simp only [not_exists, not_and, ne_eq]))

theorem LastInserted.congr {other : String → Prop}
    (same : ∀ entry ∈ inserts, named entry.1 ↔ other entry.1) :
    LastInserted named inserts text ↔ LastInserted other inserts text := by
  refine exists_congr fun before => exists_congr fun name => exists_congr fun after => ?_
  refine and_congr_right fun whole => and_congr (same (name, text) (by simp [whole])) ?_
  exact forall₂_congr fun entry member => not_congr (same entry (by simp [whole, member]))

end Inserts

/-! ## What is found -/

section Finds

variable {inserts : List (String × String)} {alike other : String → String → Prop}
  {names : List String} {source : LoadedSource}

theorem exists_finds_iff :
    (∃ source, Finds alike inserts names source) ↔
      ∃ entry ∈ inserts, ∃ name ∈ names, alike name entry.1 := by
  induction names with
  | nil => simp [Finds]
  | cons name names ih =>
    constructor
    · rintro ⟨source, ⟨last, _⟩ | ⟨_, later⟩⟩
      · obtain ⟨entry, member, isAlike⟩ := exists_lastInserted_iff.mp ⟨_, last⟩
        exact ⟨entry, member, name, List.mem_cons_self, isAlike⟩
      · obtain ⟨entry, member, other, inNames, isAlike⟩ := ih.mp ⟨source, later⟩
        exact ⟨entry, member, other, List.mem_cons_of_mem _ inNames, isAlike⟩
    · rintro ⟨entry, member, other, inNames, isAlike⟩
      by_cases any : ∃ entry ∈ inserts, alike name entry.1
      · obtain ⟨text, last⟩ := exists_lastInserted_iff.mpr any
        exact ⟨⟨name, text⟩, .inl ⟨last, rfl⟩⟩
      · have none : ∀ entry ∈ inserts, ¬ alike name entry.1 := by simpa using any
        rcases List.mem_cons.mp inNames with rfl | later
        · exact absurd isAlike (none entry member)
        · obtain ⟨source, found⟩ := ih.mpr ⟨entry, member, other, later, isAlike⟩
          exact ⟨source, .inr ⟨none, found⟩⟩

theorem Finds.congr
    (same : ∀ name ∈ names, ∀ entry ∈ inserts, alike name entry.1 ↔ other name entry.1) :
    Finds alike inserts names source ↔ Finds other inserts names source := by
  induction names with
  | nil => rfl
  | cons name names ih =>
    obtain ⟨first, later⟩ := List.forall_mem_cons.mp same
    exact or_congr (and_congr_left fun _ => LastInserted.congr first)
      (and_congr (forall₂_congr fun entry member => not_congr (first entry member)) (ih later))

/-- The first of the names that is there is found, with the text that was last inserted under it. -/
theorem findSome?_source?_iff :
    names.findSome? (ofInserts inserts).source? = some source ↔
      Finds (fun name inserted => inserted = name) inserts names source := by
  induction names with
  | nil => simp [Finds]
  | cons name names ih =>
    rw [List.findSome?_cons, Finds, ← get?_ofInserts, ← ih, ← get?_ofInserts_eq_none, source?]
    cases found : Entries.get? name (ofInserts inserts).files with
    | none => simp
    | some text =>
      obtain ⟨id, content⟩ := source
      simp [eq_comm, and_comm]

theorem normalText_of_mem_wanted {path name : String} {including : Option String}
    (member : name ∈ wanted path including) : normalText name = name := by
  have normal {path : FilePath} (spelled : path.Spelled) :
      normalText path.normalize.toText = path.normalize.toText := by
    rw [normalText, spelled.normalize.normalize_parse_toText, normalize_normalize]
  rcases List.mem_append.mp member with inDirectory | direct
  · obtain ⟨dir, isParent, rfl⟩ := Option.map_eq_some_iff.mp (Option.mem_toList.mp inDirectory)
    obtain ⟨id, _, isParent⟩ := Option.bind_eq_some_iff.mp isParent
    exact normal ((spelled_parse path).join (spelled_directory isParent))
  · rw [List.mem_singleton.mp direct]
    exact normal (spelled_parse path)

end Finds

/-- What a path finds among the inserted texts, if neither it nor the including file is an address:
the text that was last inserted under the first of the wanted names that there is. If a name whose
normal form is wanted is always inserted in normal form, names count by their normal forms: a path
is found if its normal form is that of an inserted name, and then it is the text that was last
inserted under such a name. -/
theorem load_finds (inserts : List (String × String)) {path : String} {including : Option String}
    (noUri : isUri path = false) (idNoUri : ∀ id ∈ including, isUri id = false) :
    (∀ source, (ofInserts inserts).load path including = .ok source ↔
      Finds (fun name inserted => inserted = name) inserts (wanted path including) source) ∧
    ((∀ entry ∈ inserts, normalText entry.1 ∈ wanted path including →
        normalText entry.1 = entry.1) →
      (∀ source, (ofInserts inserts).load path including = .ok source ↔
        Finds (fun name inserted => normalText inserted = name) inserts
          (wanted path including) source) ∧
      ((∃ source, (ofInserts inserts).load path including = .ok source) ↔
        ∃ entry ∈ inserts, normalText entry.1 ∈ wanted path including)) := by
  have verbatim (source : LoadedSource) : (ofInserts inserts).load path including = .ok source ↔
      Finds (fun name inserted => inserted = name) inserts (wanted path including) source := by
    rw [load_eq _ noUri idNoUri, ← findSome?_source?_iff]
    cases (wanted path including).findSome? (ofInserts inserts).source? <;> simp
  refine ⟨verbatim, fun normal => ?_⟩
  have same : ∀ name ∈ wanted path including, ∀ entry ∈ inserts,
      entry.1 = name ↔ normalText entry.1 = name := by
    intro name isWanted entry member
    constructor
    · rintro rfl
      exact normalText_of_mem_wanted isWanted
    · rintro rfl
      exact (normal entry member isWanted).symm
  have likely (source : LoadedSource) : (ofInserts inserts).load path including = .ok source ↔
      Finds (fun name inserted => normalText inserted = name) inserts
        (wanted path including) source :=
    (verbatim source).trans (Finds.congr same)
  refine ⟨likely, ?_⟩
  rw [exists_congr likely, exists_finds_iff]
  simp

/-- Of two texts under one name the later one is found, and a file next to the including one comes
first. -/
theorem load_finds_later :
    (ofInserts [("runs/a.gin", "A = 1"), ("a.gin", "A = 2"), ("runs/a.gin", "A = 3")]).load
      "./a.gin" (some "runs/./top.gin") = .ok ⟨"runs/a.gin", "A = 3"⟩ := by
  have names : wanted "./a.gin" (some "runs/./top.gin") = ["runs/a.gin", "a.gin"] := by
    decide
  refine (((load_finds _ (by decide) (by decide)).2 (by decide)).1 _).mpr ?_
  rw [names]
  refine .inl ⟨⟨[("runs/a.gin", "A = 1"), ("a.gin", "A = 2")], "runs/a.gin", [], rfl, ?_, nofun⟩,
    rfl⟩
  decide

/-- A name that is not in normal form is not even found by itself. -/
theorem spelled_name_not_found :
    (ofInserts [("./a.gin", "A = 1")]).load "./a.gin" none = .error .notInMemory ∧
      Finds (fun name inserted => normalText inserted = name) [("./a.gin", "A = 1")]
        (wanted "./a.gin" none) ⟨"a.gin", "A = 1"⟩ := by
  constructor
  · decide
  · have names : wanted "./a.gin" none = ["a.gin"] := by decide
    rw [names]
    exact .inl ⟨⟨[], "./a.gin", [], rfl, by decide, nofun⟩, rfl⟩

end MemorySources

namespace FilePath

/-- The normal form of a path, and what stays when a path is replaced by its normal form:
normalizing again changes nothing; no dots are left, and double dots stand only at the start of a
relative path; the path stays absolute or relative; what is joined to it has the same normal form;
and a file that is named by it includes the same sources. Only where the path is an address, or
ends with double dots and so names a directory, a file may include others. -/
theorem normalText_canonical (text : String) :
    normalText (normalText text) = normalText text ∧
    "." ∉ (parse (normalText text)).components ∧
    (∃ ups names, (parse (normalText text)).components = List.replicate ups ".." ++ names ∧
      ".." ∉ names ∧ ((parse text).isAbsolute = true → ups = 0)) ∧
    (parse (normalText text)).isAbsolute = (parse text).isAbsolute ∧
    (∀ path, normalText (joinText text path) = normalText (joinText (normalText text) path)) ∧
    (isUri text = false → (parse text).components.getLast? ≠ some ".." →
      ∀ (sources : MemorySources) path,
        sources.load path (some (normalText text)) = sources.load path (some text)) := by
  have whole : (parse (normalText text)).components = (parse text).normalize.pieces :=
    (spelled_parse text).components_parse_toText
  refine ⟨?_, fun dot => ?_, ?_, isAbsolute_parse_normalText text, fun path => ?_,
    fun noUri noUp sources => sources.load_normal_id noUri noUp⟩
  · rw [normalText, normalize_parse_normalText, ← normalText]
  · rw [whole] at dot
    cases isTrivial_of_mem_normalize dot
  · obtain ⟨ups, names, same, all, absolute⟩ := (parse text).settled_walked.reverse_eq
    exact ⟨ups, names, whole.trans same, fun up => (all _ up).not_up rfl, absolute⟩
  · rw [normalText_joinText, normalText_joinText, join_congr (normalize_parse_normalText text)]

/-- A file includes what stands next to it, whether its name has a detour or not. -/
theorem normalText_canonical_detour :
    MemorySources.load ⟨[("d/a.gin", "A = 1")]⟩ "a.gin" (some (normalText "d/x/../f.gin")) =
      MemorySources.load ⟨[("d/a.gin", "A = 1")]⟩ "a.gin" (some "d/x/../f.gin") := by
  obtain ⟨_, _, _, _, _, resolved⟩ := normalText_canonical "d/x/../f.gin"
  exact resolved (by decide) (by decide) ⟨[("d/a.gin", "A = 1")]⟩ "a.gin"

/-- A name that ends with double dots and an address are seen from other directories than their
normal forms. -/
theorem load_unlike_normalText :
    (normalText "d/f.gin/x/.." = "d/f.gin" ∧
      MemorySources.load ⟨[("d/a.gin", "A = 1")]⟩ "a.gin" (some "d/f.gin") =
        .ok ⟨"d/a.gin", "A = 1"⟩ ∧
      MemorySources.load ⟨[("d/a.gin", "A = 1")]⟩ "a.gin" (some "d/f.gin/x/..") =
        .error .notInMemory) ∧
    (normalText "gs://d/f.gin" = "gs:/d/f.gin" ∧
      MemorySources.load ⟨[("gs:/d/a.gin", "A = 1")]⟩ "a.gin" (some "gs:/d/f.gin") =
        .ok ⟨"gs:/d/a.gin", "A = 1"⟩ ∧
      MemorySources.load ⟨[("gs:/d/a.gin", "A = 1")]⟩ "a.gin" (some "gs://d/f.gin") =
        .error .notInMemory) := by
  decide

end FilePath

end ConfigBinding
