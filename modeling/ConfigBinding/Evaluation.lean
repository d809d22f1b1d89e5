import ConfigBinding.Value.Params

/-!
# Evaluation of expressions

An expression is evaluated from left to right. What macros and references mean is given, and so is
the monad in which they mean something; all else means itself. In a mapping a key that comes again
takes the new value at its first place.

Results:
1. `Composes.evaluate`: what holds of macros and references, and step by step, holds of expressions.
-/

namespace ConfigBinding.Expr

variable {m : Type → Type} [Monad m]

mutual

/-- The value of an expression. -/
def evaluate (onMacro : DottedName → Span → m Value)
    (onReference : Reference → Span → m Value) : Expr → m Value
  | .literal value _ => pure (Value.ofLiteral value)
  | .list items _ => do
    let values ← evaluateItems onMacro onReference items
    return .list values
  | .tuple items _ => do
    let values ← evaluateItems onMacro onReference items
    return .tuple values
  | .map entries _ => do
    let values ← evaluateEntries onMacro onReference entries
    return .map (Entries.ofList values)
  | .macroRef name span => onMacro name span
  | .reference target span => onReference target span

def evaluateItems (onMacro : DottedName → Span → m Value)
    (onReference : Reference → Span → m Value) : List Expr → m (List Value)
  | [] => pure []
  | item :: items => do
    let value ← evaluate onMacro onReference item
    let values ← evaluateItems onMacro onReference items
    return value :: values

def evaluateEntries (onMacro : DottedName → Span → m Value)
    (onReference : Reference → Span → m Value) :
    List (String × Expr) → m (List (String × Value))
  | [] => pure []
  | (key, e) :: entries => do
    let value ← evaluate onMacro onReference e
    let values ← evaluateEntries onMacro onReference entries
    return (key, value) :: values

end

/-! ## Step by step -/

/-- The property holds of what only gives a value, and of one step behind another if it holds of
both. -/
structure Composes (P : (α : Type) → m α → Prop) : Prop where
  pure {α : Type} (a : α) : P α (pure a)
  bind {α β : Type} {first : m α} {next : α → m β} :
    P α first → (∀ a, P β (next a)) → P β (first >>= next)

namespace Composes

variable {P : (α : Type) → m α → Prop} {onMacro : DottedName → Span → m Value}
  {onReference : Reference → Span → m Value}

mutual

/-- The property holds of an expression if it holds of macros and of the references in it. -/
theorem evaluate (composes : Composes P) (macros : ∀ name span, P Value (onMacro name span))
    {e : Expr}
    (references : ∀ target ∈ e.references, ∀ span, P Value (onReference target span)) :
    P Value (e.evaluate onMacro onReference) := by
  cases e with
  | literal value span => exact composes.pure _
  | list items span =>
    exact composes.bind (composes.evaluateItems macros references) fun _ => composes.pure _
  | tuple items span =>
    exact composes.bind (composes.evaluateItems macros references) fun _ => composes.pure _
  | map entries span =>
    exact composes.bind (composes.evaluateEntries macros references) fun _ => composes.pure _
  | macroRef name span => exact macros name span
  | reference target span => exact references target (List.mem_singleton_self target) span

theorem evaluateItems (composes : Composes P) (macros : ∀ name span, P Value (onMacro name span))
    {items : List Expr}
    (references : ∀ target ∈ referencesOfItems items, ∀ span,
      P Value (onReference target span)) :
    P (List Value) (Expr.evaluateItems onMacro onReference items) := by
  cases items with
  | nil => exact composes.pure _
  | cons item items =>
    obtain ⟨first, others⟩ := List.forall_mem_append.mp references
    refine composes.bind (composes.evaluate macros first) fun _ => ?_
    exact composes.bind (composes.evaluateItems macros others) fun _ => composes.pure _

theorem evaluateEntries (composes : Composes P) (macros : ∀ name span, P Value (onMacro name span))
    {entries : List (String × Expr)}
    (references : ∀ target ∈ referencesOfEntries entries, ∀ span,
      P Value (onReference target span)) :
    P (List (String × Value)) (Expr.evaluateEntries onMacro onReference entries) := by
  cases entries with
  | nil => exact composes.pure _
  | cons entry entries =>
    obtain ⟨first, others⟩ := List.forall_mem_append.mp references
    refine composes.bind (composes.evaluate macros first) fun _ => ?_
    exact composes.bind (composes.evaluateEntries macros others) fun _ => composes.pure _

end

end Composes

end ConfigBinding.Expr
