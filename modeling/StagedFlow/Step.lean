import StagedFlow.Fault

/-!
Computations with a state that survives failure. A failed step still says what state it left, for
whoever handles the failure goes on from there. Main definitions: `Step` and its monad,
`Step.mapError`, `Step.onFirst`.
-/
set_option autoImplicit false

namespace StagedFlow

/-- A computation over states `σ` that ends with a value, an error `ε`, a crash or without fuel. -/
def Step (σ ε α : Type) : Type :=
  σ → Except (Halt ε) α × σ

namespace Step

variable {σ ρ ε δ α β : Type}

@[inline] def done (a : α) : Step σ ε α :=
  fun s => (.ok a, s)

@[inline] def andThen (x : Step σ ε α) (f : α → Step σ ε β) : Step σ ε β :=
  fun s => match x s with
    | (.ok a, s) => f a s
    | (.error h, s) => (.error h, s)

instance : Monad (Step σ ε) where
  pure := done
  bind := andThen

def halt (h : Halt ε) : Step σ ε α :=
  fun s => (.error h, s)

def fail (e : ε) : Step σ ε α :=
  halt (.error e)

def modify (f : σ → σ) : Step σ ε Unit :=
  fun s => (.ok ⟨⟩, f s)

/-- A result that does not depend on the state. -/
def ofExcept : Except (Halt ε) α → Step σ ε α
  | .ok a => done a
  | .error h => halt h

/-- A result that can only fail with a fault. -/
def ofFault (x : Except Fault α) : Step σ Fault α :=
  ofExcept (Outcome.ofFault x)

/-- Errors moved to another type. -/
def mapError (f : ε → δ) (x : Step σ ε α) : Step σ δ α :=
  fun s => match x s with
    | (.ok a, s) => (.ok a, s)
    | (.error h, s) => (.error (h.map f), s)

/-- A step on the first part of a pair of states. -/
def onFirst (x : Step σ ε α) : Step (σ × ρ) ε α :=
  fun (s, r) => match x s with
    | (result, s) => (result, (s, r))

@[simp] theorem pure_apply (a : α) (s : σ) : (pure a : Step σ ε α) s = (.ok a, s) := rfl

theorem bind_apply (x : Step σ ε α) (f : α → Step σ ε β) (s : σ) :
    (x >>= f) s = match x s with
      | (.ok a, s) => f a s
      | (.error h, s) => (.error h, s) := rfl

theorem bind_of_ok {x : Step σ ε α} {f : α → Step σ ε β} {s s' : σ} {a : α}
    (h : x s = (.ok a, s')) : (x >>= f) s = f a s' := by
  rw [bind_apply, h]

theorem bind_of_error {x : Step σ ε α} {f : α → Step σ ε β} {s s' : σ} {e : Halt ε}
    (h : x s = (.error e, s')) : (x >>= f) s = (.error e, s') := by
  rw [bind_apply, h]

instance : LawfulMonad (Step σ ε) := LawfulMonad.mk' _
  (fun x => by
    funext s
    show andThen x _ s = x s
    simp only [andThen]
    rcases h : x s with ⟨r, s'⟩
    cases r <;> rfl)
  (fun _ _ => rfl)
  (fun x f g => by
    funext s
    show andThen (andThen x f) g s = andThen x (fun a => andThen (f a) g) s
    simp only [andThen]
    rcases h : x s with ⟨r, s'⟩
    cases r <;> rfl)

end Step

end StagedFlow
