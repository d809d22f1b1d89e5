/-!
# Entries in order of first insertion

A table is a list of entries in the order in which their keys were first inserted. Inserting a key
that is there replaces its value and keeps its place.

Results:
1. `mem_insert`, `mem_ofList`: what a table holds was inserted.
2. `get?_insert`: what is found after an insertion.
3. `get?_update`: what is found after a change of one value.
4. `keys_insert`: an insertion adds a key at the end, or none.
5. `nodup_keys_ofList`, `ofList_of_nodup`: a table has each key once, and entries that have each key
   once are a table.
-/

namespace ConfigBinding.Entries

variable {κ α : Type} [DecidableEq κ]

def get? (key : κ) : List (κ × α) → Option α
  | [] => none
  | (k, a) :: entries => if k = key then some a else get? key entries

def contains (key : κ) (entries : List (κ × α)) : Bool := (get? key entries).isSome

def insert (key : κ) (a : α) : List (κ × α) → List (κ × α)
  | [] => [(key, a)]
  | (k, b) :: entries => if k = key then (k, a) :: entries else (k, b) :: insert key a entries

/-- The value of `key` changed by `change`, which is given what is there. -/
def update (key : κ) (change : Option α → α) (entries : List (κ × α)) : List (κ × α) :=
  insert key (change (get? key entries)) entries

/-- The table that arises from inserting the entries one after the other. -/
def ofList (entries : List (κ × α)) : List (κ × α) :=
  entries.foldl (fun table entry => insert entry.1 entry.2 table) []

theorem mem_of_get? {key : κ} {a : α} {entries : List (κ × α)} (found : get? key entries = some a) :
    (key, a) ∈ entries := by
  induction entries with
  | nil => cases found
  | cons entry entries ih =>
    rw [get?] at found
    split at found
    · rename_i same
      cases found
      rw [← same]
      exact List.mem_cons_self
    · exact List.mem_cons_of_mem _ (ih found)

theorem mem_insert {key : κ} {a : α} {entries : List (κ × α)} {entry : κ × α}
    (member : entry ∈ insert key a entries) : entry = (key, a) ∨ entry ∈ entries := by
  induction entries with
  | nil => exact .inl (List.mem_singleton.mp member)
  | cons head entries ih =>
    rw [insert] at member
    split at member
    · rename_i same
      rcases List.mem_cons.mp member with rfl | rest
      · exact .inl (by rw [same])
      · exact .inr (List.mem_cons_of_mem _ rest)
    · rcases List.mem_cons.mp member with rfl | rest
      · exact .inr List.mem_cons_self
      · exact (ih rest).imp id (List.mem_cons_of_mem _)

/-- A table holds nothing but the entries that it arises from. -/
theorem mem_ofList {entries : List (κ × α)} {entry : κ × α} (member : entry ∈ ofList entries) :
    entry ∈ entries := by
  have all : ∀ table : List (κ × α),
      entry ∈ entries.foldl (fun table entry => insert entry.1 entry.2 table) table →
      entry ∈ table ∨ entry ∈ entries := by
    clear member
    induction entries with
    | nil => exact fun _ => .inl
    | cons head entries ih =>
      intro table member
      rcases ih _ member with early | late
      · rcases mem_insert early with rfl | old
        · exact .inr List.mem_cons_self
        · exact .inl old
      · exact .inr (List.mem_cons_of_mem _ late)
  rcases all [] member with none | member
  · cases none
  · exact member

theorem get?_insert (key other : κ) (a : α) (entries : List (κ × α)) :
    get? other (insert key a entries) = if key = other then some a else get? other entries := by
  induction entries with
  | nil => rfl
  | cons entry entries ih =>
    obtain ⟨k, b⟩ := entry
    rw [insert]
    split
    · rename_i same
      subst same
      simp only [get?]
      split <;> rfl
    · rename_i different
      simp only [get?, ih]
      split
      · rename_i found
        subst found
        rw [if_neg (fun same => different same.symm)]
      · rfl

theorem get?_update (key other : κ) (change : Option α → α) (entries : List (κ × α)) :
    get? other (update key change entries) =
      if key = other then some (change (get? key entries)) else get? other entries :=
  get?_insert ..

theorem keys_insert (key : κ) (a : α) (entries : List (κ × α)) :
    (insert key a entries).map Prod.fst =
      if key ∈ entries.map Prod.fst then entries.map Prod.fst
      else entries.map Prod.fst ++ [key] := by
  induction entries with
  | nil => rfl
  | cons entry entries ih =>
    obtain ⟨k, b⟩ := entry
    rw [insert]
    split
    · rename_i same
      simp [same]
    · rename_i different
      have apart : ¬ key = k := fun same => different same.symm
      simp only [List.map_cons, List.mem_cons, apart, false_or, ih]
      split <;> rfl

theorem nodup_keys_insert {key : κ} {a : α} {entries : List (κ × α)}
    (nodup : (entries.map Prod.fst).Nodup) : ((insert key a entries).map Prod.fst).Nodup := by
  rw [keys_insert]
  split
  · exact nodup
  · rename_i fresh
    refine List.nodup_append.mpr ⟨nodup, List.pairwise_singleton _ key, ?_⟩
    rintro old member new inLast rfl
    rw [List.mem_singleton.mp inLast] at member
    exact fresh member

theorem nodup_keys_ofList (entries : List (κ × α)) : ((ofList entries).map Prod.fst).Nodup := by
  have all : ∀ table : List (κ × α), (table.map Prod.fst).Nodup →
      ((entries.foldl (fun table entry => insert entry.1 entry.2 table) table).map
        Prod.fst).Nodup := by
    induction entries with
    | nil => exact fun _ nodup => nodup
    | cons entry entries ih => exact fun _ nodup => ih _ (nodup_keys_insert nodup)
  exact all [] List.nodup_nil

theorem insert_of_not_mem {key : κ} (a : α) {entries : List (κ × α)}
    (fresh : key ∉ entries.map Prod.fst) : insert key a entries = entries ++ [(key, a)] := by
  induction entries with
  | nil => rfl
  | cons entry entries ih =>
    obtain ⟨k, b⟩ := entry
    have apart : ¬ k = key := fun same => fresh (same ▸ List.mem_cons_self)
    rw [insert, if_neg apart, ih fun member => fresh (List.mem_cons_of_mem _ member)]
    rfl

theorem ofList_of_nodup {entries : List (κ × α)} (nodup : (entries.map Prod.fst).Nodup) :
    ofList entries = entries := by
  have all : ∀ table : List (κ × α), ((table ++ entries).map Prod.fst).Nodup →
      entries.foldl (fun table entry => insert entry.1 entry.2 table) table = table ++ entries := by
    clear nodup
    induction entries with
    | nil => exact fun table _ => (List.append_nil table).symm
    | cons entry entries ih =>
      intro table nodup
      have fresh : entry.1 ∉ table.map Prod.fst := by
        rw [List.map_append, List.map_cons, List.nodup_append] at nodup
        exact fun member => nodup.2.2 _ member _ List.mem_cons_self rfl
      rw [List.foldl_cons, insert_of_not_mem entry.2 fresh]
      rw [List.append_cons] at nodup
      exact (ih _ nodup).trans (List.append_cons table entry entries).symm
  exact all [] nodup

end ConfigBinding.Entries
