import ConfigBinding.Error

/-!
# Attempts

An attempt changes a state and may fail on the way. What it changed before it failed stays: who
wants the former state back has to keep it.

Results:
1. `ok_of_bind`, `error_of_bind`: of two steps without a state, the first that fails gives the
   error.
2. `bind_ok`, `bind_error`: the second of two attempts runs only if the first succeeds, in the state
   that the first left.
3. `forEach_append`: a list is worked off in parts.
4. `keeps_bind`: what two attempts keep is kept by one after the other.
5. `agree_bind`: attempts agree if their steps do, from the states that come about.
-/

namespace ConfigBinding

/-! ## Results of steps -/

theorem ok_of_bind {ε α β : Type} {first : Except ε α} {next : α → Except ε β} {b : β}
    (run : first >>= next = .ok b) : ∃ a, first = .ok a ∧ next a = .ok b := by
  cases first with
  | error error => cases run
  | ok a => exact ⟨a, rfl, run⟩

theorem error_of_bind {ε α β : Type} {first : Except ε α} {next : α → Except ε β} {error : ε}
    (run : first >>= next = .error error) :
    first = .error error ∨ ∃ a, first = .ok a ∧ next a = .error error := by
  cases first with
  | error early =>
    cases run
    exact .inl rfl
  | ok a => exact .inr ⟨a, rfl, run⟩

theorem ok_bind {ε α β : Type} {first : Except ε α} {next : α → Except ε β} {a : α}
    (run : first = .ok a) : first >>= next = next a := by
  rw [run]
  rfl

/-! ## Attempts -/

/-- What changes a state of type `σ` and gives a value of type `α` or an error. -/
def Attempt (σ α : Type) : Type := σ → Except ConfigError α × σ

namespace Attempt

variable {σ α β : Type}

def pure (a : α) : Attempt σ α := fun s => (.ok a, s)

def fail (error : ConfigError) : Attempt σ α := fun s => (.error error, s)

def bind (first : Attempt σ α) (next : α → Attempt σ β) : Attempt σ β := fun s =>
  match first s with
  | (.ok a, s) => next a s
  | (.error error, s) => (.error error, s)

instance : Monad (Attempt σ) where
  pure := pure
  bind := bind

def get : Attempt σ σ := fun s => (.ok s, s)

def modify (change : σ → σ) : Attempt σ Unit := fun s => (.ok (), change s)

/-- What does not depend on the state and does not change it. -/
def ofExcept (result : Except ConfigError α) : Attempt σ α := fun s => (result, s)

/-- Changes the state for as long as `act` runs. What `leave` changes is changed also if that
fails. -/
def within (enter leave : σ → σ) (act : Attempt σ α) : Attempt σ α := fun s =>
  let (result, t) := act (enter s)
  (result, leave t)

/-- Goes on with `handler` if `act` fails, in the state that it left. -/
def recover (act : Attempt σ α) (handler : ConfigError → Attempt σ α) : Attempt σ α := fun s =>
  match act s with
  | (.ok a, t) => (.ok a, t)
  | (.error error, t) => handler error t

instance : MonadExceptOf ConfigError (Attempt σ) where
  throw := fail
  tryCatch := recover

/-- Changes the state if that is possible. -/
def tryModify (change : σ → Except ConfigError σ) : Attempt σ Unit := fun s =>
  match change s with
  | .ok next => (.ok (), next)
  | .error error => (.error error, s)

/-- Works off a list up to the first failure. -/
def forEach (act : α → Attempt σ Unit) : List α → Attempt σ Unit
  | [] => pure ()
  | a :: as => bind (act a) fun _ => forEach act as

theorem bind_ok {first : Attempt σ α} {next : α → Attempt σ β} {s t : σ} {a : α}
    (run : first s = (.ok a, t)) : (first >>= next) s = next a t := by
  change bind first next s = _
  rw [bind, run]

theorem bind_error {first : Attempt σ α} {next : α → Attempt σ β} {s t : σ} {error : ConfigError}
    (run : first s = (.error error, t)) : (first >>= next) s = (.error error, t) := by
  change bind first next s = _
  rw [bind, run]

theorem ok_of_bind_run {first : Attempt σ α} {next : α → Attempt σ β} {s t : σ} {b : β}
    (run : (first >>= next) s = (.ok b, t)) :
    ∃ a middle, first s = (.ok a, middle) ∧ next a middle = (.ok b, t) := by
  cases begun : first s with
  | mk result middle =>
    cases result with
    | ok a =>
      rw [bind_ok begun] at run
      exact ⟨a, middle, rfl, run⟩
    | error error =>
      rw [bind_error begun] at run
      cases run

theorem error_of_bind_run {first : Attempt σ α} {next : α → Attempt σ β} {s t : σ}
    {error : ConfigError} (run : (first >>= next) s = (.error error, t)) :
    first s = (.error error, t) ∨
      ∃ a middle, first s = (.ok a, middle) ∧ next a middle = (.error error, t) := by
  cases begun : first s with
  | mk result middle =>
    cases result with
    | ok a =>
      rw [bind_ok begun] at run
      exact .inr ⟨a, middle, rfl, run⟩
    | error early =>
      rw [bind_error begun] at run
      cases run
      exact .inl rfl

theorem bind_assoc {γ : Type} (first : Attempt σ α) (next : α → Attempt σ β)
    (last : β → Attempt σ γ) :
    first >>= next >>= last = first >>= fun a => next a >>= last := by
  funext s
  cases begun : first s with
  | mk result t =>
    cases result with
    | ok a =>
      rw [bind_ok begun]
      change bind (bind first next) last s = bind (next a) last t
      rw [bind, bind, begun]
      rfl
    | error error =>
      rw [bind_error begun]
      change bind (bind first next) last s = _
      rw [bind, bind, begun]

theorem get_bind (next : σ → Attempt σ β) (s : σ) : (get >>= next) s = next s s := rfl

theorem tryModify_eq_ok {change : σ → Except ConfigError σ} {s t : σ} :
    tryModify change s = (.ok (), t) ↔ change s = .ok t := by
  unfold tryModify
  cases change s with
  | ok next => simp
  | error error => simp

theorem forEach_append (act : α → Attempt σ Unit) (as bs : List α) :
    forEach act (as ++ bs) = forEach act as >>= fun _ => forEach act bs := by
  induction as with
  | nil => rfl
  | cons a as ih =>
    funext s
    change bind (act a) (fun _ => forEach act (as ++ bs)) s
      = bind (bind (act a) fun _ => forEach act as) (fun _ => forEach act bs) s
    rw [ih]
    simp only [bind]
    cases act a s with
    | mk result t => cases result <;> rfl

/-! ## What attempts keep -/

/-- The attempt keeps the property of states, also when it fails. -/
def Keeps (I : σ → Prop) (act : Attempt σ α) : Prop := ∀ s, I s → I (act s).2

variable {I : σ → Prop}

theorem keeps_pure (a : α) : Keeps I (Pure.pure a : Attempt σ α) := fun _ holds => holds

theorem keeps_fail (error : ConfigError) : Keeps I (fail error : Attempt σ α) :=
  fun _ holds => holds

theorem keeps_bind {first : Attempt σ α} {next : α → Attempt σ β} (firstKeeps : Keeps I first)
    (nextKeeps : ∀ a, Keeps I (next a)) : Keeps I (first >>= next) := by
  intro s holds
  have middle := firstKeeps s holds
  cases run : first s with
  | mk result t =>
    rw [run] at middle
    cases result with
    | ok a =>
      rw [bind_ok run]
      exact nextKeeps a t middle
    | error error =>
      rw [bind_error run]
      exact middle

theorem keeps_ofExcept_bind {result : Except ConfigError α} {next : α → Attempt σ β}
    (nextKeeps : ∀ a, result = .ok a → Keeps I (next a)) : Keeps I (ofExcept result >>= next) := by
  cases result with
  | ok a => exact nextKeeps a rfl
  | error error => exact keeps_fail error

theorem keeps_within {enter leave : σ → σ} {act : Attempt σ α} (enters : ∀ s, I s → I (enter s))
    (leaves : ∀ s, I s → I (leave s)) (keeps : Keeps I act) : Keeps I (within enter leave act) :=
  fun s holds => leaves _ (keeps _ (enters s holds))

theorem keeps_tryModify {change : σ → Except ConfigError σ}
    (changeKeeps : ∀ s t, I s → change s = .ok t → I t) : Keeps I (tryModify change) := by
  intro s holds
  unfold tryModify
  cases changed : change s with
  | ok t => exact changeKeeps s t holds changed
  | error error => exact holds

/-! ## Attempts that agree -/

/-- The attempts do the same from each state with the property. -/
def Agree (I : σ → Prop) (first second : Attempt σ α) : Prop := ∀ s, I s → first s = second s

theorem agree_refl (act : Attempt σ α) : Agree I act act := fun _ _ => rfl

theorem agree_bind {first firstToo : Attempt σ α} {next nextToo : α → Attempt σ β}
    (begins : Agree I first firstToo) (keeps : Keeps I firstToo)
    (goesOn : ∀ a, Agree I (next a) (nextToo a)) :
    Agree I (first >>= next) (firstToo >>= nextToo) := by
  intro s holds
  have same := begins s holds
  have after := keeps s holds
  cases run : firstToo s with
  | mk result t =>
    rw [run] at same after
    cases result with
    | ok a =>
      rw [bind_ok same, bind_ok run]
      exact goesOn a t after
    | error error => rw [bind_error same, bind_error run]

end Attempt

end ConfigBinding
