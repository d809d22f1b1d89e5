import ConfigBinding.DottedName

/-!
# Scopes

A scope is a path of segments with a slash between them. The root scope has none. A binding in a
scope also holds in the scopes below it, so a parameter is looked up in a scope and then in each
scope that encloses it.

Results:
1. `mem_ancestors`: the scopes in which a parameter is looked up are the prefixes of its own.
2. `toText_parse`: a text reads as the scope that is written as this text.
3. `splitTarget_qualify`: a name in a scope is taken apart again.
-/

namespace ConfigBinding

/-- A scope, outermost segment first. -/
structure Scope where
  segments : List String
deriving DecidableEq, Repr

namespace Scope

def root : Scope := ⟨[]⟩

def isRoot (scope : Scope) : Bool := scope.segments.isEmpty

/-- The scope written as `text`; the empty text is the root. -/
def parse (text : String) : Scope :=
  if text = "" then root else ⟨Text.split '/' text⟩

def toText (scope : Scope) : String := Text.join "/" scope.segments

instance : ToString Scope := ⟨toText⟩

/-- A name as it is written in a scope: the scope stands before it unless it is the root. -/
def qualify (scope : Scope) (name : String) : String :=
  if scope.isRoot then name else scope.toText ++ "/" ++ name

/-- The prefixes of a list, longest first. -/
def prefixesDown : List String → List (List String)
  | [] => [[]]
  | segment :: segments => (prefixesDown segments).map (segment :: ·) ++ [[]]

/-- The scope itself and all that enclose it, innermost first. -/
def ancestors (scope : Scope) : List Scope := (prefixesDown scope.segments).map Scope.mk

/-- The scope and the symbol of a text such as `train/models.Encoder`: the symbol is what follows
the last slash. -/
def splitTarget (text : String) : Scope × String :=
  let pieces := Text.split '/' text
  match pieces.dropLast, pieces.getLast? with
  | [], _ => (root, text)
  | outer, some symbol => (parse (Text.join "/" outer), symbol)
  | _, none => (root, text)

theorem toText_parse (text : String) : (parse text).toText = text := by
  unfold parse
  split
  · rename_i empty
    subst empty
    rfl
  · exact Text.join_split '/' text

theorem parse_toText {scope : Scope} (nonempty : ∀ segment ∈ scope.segments, segment ≠ "")
    (apart : ∀ segment ∈ scope.segments, '/' ∉ segment.toList) : parse scope.toText = scope := by
  obtain ⟨segments⟩ := scope
  cases segments with
  | nil => rfl
  | cons segment segments =>
    have written : toText ⟨segment :: segments⟩ ≠ "" := by
      have first := nonempty segment List.mem_cons_self
      cases segments with
      | nil => exact first
      | cons next segments =>
        intro empty
        rw [toText, Text.join, String.append_eq_empty_iff, String.append_eq_empty_iff] at empty
        exact first empty.1.1
    rw [parse, if_neg written]
    exact congrArg Scope.mk (Text.split_join (List.cons_ne_nil _ _) apart)

/-- A name without slashes is told from the scope in front of it, if this is one that a text reads
as. The scope may have empty segments. -/
theorem splitTarget_qualify {scope : Scope} {name : String}
    (readsBack : parse scope.toText = scope) (apart : '/' ∉ name.toList) :
    splitTarget (scope.qualify name) = (scope, name) := by
  unfold qualify
  split
  · rename_i isRoot
    have pieces : Text.split '/' name = [name] := by
      rw [Text.split, Text.splitChars_of_not_mem apart, List.map_singleton, String.ofList_toList]
    have same : scope = root := congrArg mk (List.isEmpty_iff.mp isRoot)
    rw [splitTarget, pieces, same]
    rfl
  · have pieces : Text.split '/' (scope.toText ++ "/" ++ name) =
        Text.split '/' scope.toText ++ [name] := Text.split_append apart _
    obtain ⟨first, others, outer⟩ := List.exists_cons_of_ne_nil (Text.split_ne_nil '/' scope.toText)
    have joined : Text.join "/" (first :: others) = scope.toText :=
      outer ▸ Text.join_split '/' scope.toText
    rw [splitTarget, pieces, outer]
    simp only [List.dropLast_concat, List.getLast?_concat, joined, readsBack]

theorem qualify_append (scope : Scope) (name more : String) :
    scope.qualify name ++ more = scope.qualify (name ++ more) := by
  unfold qualify
  split
  · rfl
  · rw [String.append_assoc]

theorem mem_prefixesDown {segments start : List String} :
    start ∈ prefixesDown segments ↔ start <+: segments := by
  induction segments generalizing start with
  | nil => simp [prefixesDown]
  | cons segment segments ih =>
    cases start with
    | nil => simp [prefixesDown]
    | cons head tail => simp [prefixesDown, ih, and_comm]; grind

theorem mem_ancestors {scope outer : Scope} :
    outer ∈ scope.ancestors ↔ outer.segments <+: scope.segments := by
  rw [← mem_prefixesDown]
  simp only [ancestors, List.mem_map]
  constructor
  · rintro ⟨segments, member, rfl⟩
    exact member
  · intro member
    exact ⟨outer.segments, member, rfl⟩

end Scope

end ConfigBinding
