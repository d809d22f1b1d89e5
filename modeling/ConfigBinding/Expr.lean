import ConfigBinding.DottedName
import ConfigBinding.Number.Binary64
import ConfigBinding.Scope
import ConfigBinding.Source.Span

/-!
# Value expressions

What stands on the right of a binding or of a macro definition. An expression is plain data: a
literal, a container, the name of a macro, or a reference to a configurable. It is not evaluated
here; macros and references keep their names until a configuration is resolved.

Every node carries the span that it was read from. Two expressions mean the same when they differ in
spans alone (`Expr.withoutSpans`).

Results:
1. `Expr.induction`: what holds of an expression if it holds of its parts holds of all.
-/

namespace ConfigBinding

/-- A constant of the language. -/
inductive Literal
  | none
  | bool (value : Bool)
  | int (value : Int64)
  | float (value : Binary64)
  | str (text : String)
deriving DecidableEq

/-- A reference to a configurable: `@scope/symbol`, with `()` behind it if it is a call. -/
structure Reference where
  scope : Scope
  symbol : DottedName
  call : Bool
deriving DecidableEq, Repr

/-- A value expression. A mapping keeps its entries in the order in which they are written, also
those with a key that comes again later. -/
inductive Expr
  | literal (value : Literal) (span : Span)
  | list (items : List Expr) (span : Span)
  | tuple (items : List Expr) (span : Span)
  | map (entries : List (String × Expr)) (span : Span)
  | macroRef (name : DottedName) (span : Span)
  | reference (target : Reference) (span : Span)

namespace Expr

def span : Expr → Span
  | .literal _ span | .list _ span | .tuple _ span | .map _ span
  | .macroRef _ span | .reference _ span => span

/-- The same expression under another span. -/
def withSpan (span : Span) : Expr → Expr
  | .literal value _ => .literal value span
  | .list items _ => .list items span
  | .tuple items _ => .tuple items span
  | .map entries _ => .map entries span
  | .macroRef name _ => .macroRef name span
  | .reference target _ => .reference target span

/-- The macro that marks a parameter as required. It has no definition. -/
def requiredMacro : DottedName := ⟨["gin", "REQUIRED"]⟩

def isRequiredMarker : Expr → Bool
  | .macroRef name _ => decide (name = requiredMacro)
  | _ => false

mutual

/-- The macros that an expression names at any depth, in order, with the span of each. The required
marker is none of them. -/
def macroRefs : Expr → List (DottedName × Span)
  | .literal _ _ => []
  | .list items _ => macroRefsOfItems items
  | .tuple items _ => macroRefsOfItems items
  | .map entries _ => macroRefsOfEntries entries
  | .macroRef name span => if name = requiredMacro then [] else [(name, span)]
  | .reference _ _ => []

def macroRefsOfItems : List Expr → List (DottedName × Span)
  | [] => []
  | item :: items => item.macroRefs ++ macroRefsOfItems items

def macroRefsOfEntries : List (String × Expr) → List (DottedName × Span)
  | [] => []
  | (_, value) :: entries => value.macroRefs ++ macroRefsOfEntries entries

end

mutual

/-- The references in an expression at any depth, in order. -/
def references : Expr → List Reference
  | .literal _ _ => []
  | .list items _ => referencesOfItems items
  | .tuple items _ => referencesOfItems items
  | .map entries _ => referencesOfEntries entries
  | .macroRef _ _ => []
  | .reference target _ => [target]

def referencesOfItems : List Expr → List Reference
  | [] => []
  | item :: items => item.references ++ referencesOfItems items

def referencesOfEntries : List (String × Expr) → List Reference
  | [] => []
  | (_, value) :: entries => value.references ++ referencesOfEntries entries

end

mutual

/-- The expression with the symbol of every reference renamed. -/
def mapReferences (rename : DottedName → DottedName) : Expr → Expr
  | .literal value span => .literal value span
  | .list items span => .list (mapReferencesInItems rename items) span
  | .tuple items span => .tuple (mapReferencesInItems rename items) span
  | .map entries span => .map (mapReferencesInEntries rename entries) span
  | .macroRef name span => .macroRef name span
  | .reference target span =>
    .reference ⟨target.scope, rename target.symbol, target.call⟩ span

def mapReferencesInItems (rename : DottedName → DottedName) : List Expr → List Expr
  | [] => []
  | item :: items => item.mapReferences rename :: mapReferencesInItems rename items

def mapReferencesInEntries (rename : DottedName → DottedName) :
    List (String × Expr) → List (String × Expr)
  | [] => []
  | (key, value) :: entries =>
    (key, value.mapReferences rename) :: mapReferencesInEntries rename entries

end

mutual

/-- The expression with every span moved by `move`. -/
def mapSpans (move : Span → Span) : Expr → Expr
  | .literal value span => .literal value (move span)
  | .list items span => .list (mapSpansInItems move items) (move span)
  | .tuple items span => .tuple (mapSpansInItems move items) (move span)
  | .map entries span => .map (mapSpansInEntries move entries) (move span)
  | .macroRef name span => .macroRef name (move span)
  | .reference target span => .reference target (move span)

def mapSpansInItems (move : Span → Span) : List Expr → List Expr
  | [] => []
  | item :: items => item.mapSpans move :: mapSpansInItems move items

def mapSpansInEntries (move : Span → Span) : List (String × Expr) → List (String × Expr)
  | [] => []
  | (key, value) :: entries => (key, value.mapSpans move) :: mapSpansInEntries move entries

end

/-- What an expression says, wherever it stands. -/
def withoutSpans (e : Expr) : Expr := e.mapSpans fun _ => Span.zero 0

theorem macroRefsOfItems_eq (items : List Expr) :
    macroRefsOfItems items = items.flatMap macroRefs := by
  induction items with
  | nil => rfl
  | cons item items ih => rw [macroRefsOfItems, ih, List.flatMap_cons]

theorem macroRefsOfEntries_eq (entries : List (String × Expr)) :
    macroRefsOfEntries entries = entries.flatMap fun entry => entry.2.macroRefs := by
  induction entries with
  | nil => rfl
  | cons entry entries ih => rw [macroRefsOfEntries, ih, List.flatMap_cons]

theorem referencesOfItems_eq (items : List Expr) :
    referencesOfItems items = items.flatMap references := by
  induction items with
  | nil => rfl
  | cons item items ih => rw [referencesOfItems, ih, List.flatMap_cons]

theorem referencesOfEntries_eq (entries : List (String × Expr)) :
    referencesOfEntries entries = entries.flatMap fun entry => entry.2.references := by
  induction entries with
  | nil => rfl
  | cons entry entries ih => rw [referencesOfEntries, ih, List.flatMap_cons]

theorem mapReferencesInItems_eq (rename : DottedName → DottedName) (items : List Expr) :
    mapReferencesInItems rename items = items.map (mapReferences rename) := by
  induction items with
  | nil => rfl
  | cons item items ih => rw [mapReferencesInItems, ih, List.map_cons]

theorem mapReferencesInEntries_eq (rename : DottedName → DottedName)
    (entries : List (String × Expr)) :
    mapReferencesInEntries rename entries =
      entries.map fun entry => (entry.1, entry.2.mapReferences rename) := by
  induction entries with
  | nil => rfl
  | cons entry entries ih => rw [mapReferencesInEntries, ih, List.map_cons]

theorem mapSpansInItems_eq (move : Span → Span) (items : List Expr) :
    mapSpansInItems move items = items.map (mapSpans move) := by
  induction items with
  | nil => rfl
  | cons item items ih => rw [mapSpansInItems, ih, List.map_cons]

theorem mapSpansInEntries_eq (move : Span → Span) (entries : List (String × Expr)) :
    mapSpansInEntries move entries =
      entries.map fun entry => (entry.1, entry.2.mapSpans move) := by
  induction entries with
  | nil => rfl
  | cons entry entries ih => rw [mapSpansInEntries, ih, List.map_cons]

theorem withoutSpans_list (items : List Expr) (span : Span) :
    (list items span).withoutSpans = .list (items.map withoutSpans) (Span.zero 0) := by
  rw [withoutSpans, mapSpans, mapSpansInItems_eq]
  rfl

theorem withoutSpans_tuple (items : List Expr) (span : Span) :
    (tuple items span).withoutSpans = .tuple (items.map withoutSpans) (Span.zero 0) := by
  rw [withoutSpans, mapSpans, mapSpansInItems_eq]
  rfl

theorem withoutSpans_map (entries : List (String × Expr)) (span : Span) :
    (map entries span).withoutSpans =
      .map (entries.map (Prod.map id withoutSpans)) (Span.zero 0) := by
  rw [withoutSpans, mapSpans, mapSpansInEntries_eq]
  rfl

/-! ## Induction -/

@[elab_as_elim]
theorem induction {P : Expr → Prop}
    (literal : ∀ value span, P (.literal value span))
    (list : ∀ items span, (∀ item ∈ items, P item) → P (.list items span))
    (tuple : ∀ items span, (∀ item ∈ items, P item) → P (.tuple items span))
    (map : ∀ entries span, (∀ entry ∈ entries, P entry.2) → P (.map entries span))
    (macroRef : ∀ name span, P (.macroRef name span))
    (reference : ∀ target span, P (.reference target span)) (e : Expr) : P e := by
  refine @Expr.rec P (fun items => ∀ item ∈ items, P item)
    (fun entries => ∀ entry ∈ entries, P entry.2) (fun entry => P entry.2)
    literal list tuple map macroRef reference ?_ ?_ ?_ ?_ ?_ e
  · exact fun _ member => nomatch member
  · exact fun _ _ first rest => List.forall_mem_cons.mpr ⟨first, rest⟩
  · exact fun _ member => nomatch member
  · exact fun _ _ first rest => List.forall_mem_cons.mpr ⟨first, rest⟩
  · exact fun _ _ holds => holds

end Expr

end ConfigBinding
