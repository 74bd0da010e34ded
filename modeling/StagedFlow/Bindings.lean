/-!
Finite maps as lists of pairs in the order in which their keys first came in. Main definitions:
`Bindings.find?`, `Bindings.insert`, `Bindings.erase`.
-/
set_option autoImplicit false

namespace StagedFlow

/-- Values bound to keys. -/
abbrev Bindings (κ α : Type) := List (κ × α)

namespace Bindings

variable {κ α : Type} [DecidableEq κ]

def find? : Bindings κ α → κ → Option α
  | [], _ => none
  | (k, v) :: rest, key => if k = key then some v else find? rest key

def contains (b : Bindings κ α) (key : κ) : Bool :=
  (find? b key).isSome

/-- Bind a key; a key that is bound already keeps its place. -/
def insert : Bindings κ α → κ → α → Bindings κ α
  | [], key, value => [(key, value)]
  | (k, v) :: rest, key, value =>
    if k = key then (key, value) :: rest else (k, v) :: insert rest key value

def erase (b : Bindings κ α) (key : κ) : Bindings κ α :=
  b.filter fun e => e.1 ≠ key

/-- Bind several keys in turn; a key or a value without a partner is left out. -/
def insertAll (b : Bindings κ α) : List κ → List α → Bindings κ α
  | key :: keys, value :: values => insertAll (b.insert key value) keys values
  | _, _ => b

@[simp] theorem find?_nil (key : κ) : find? ([] : Bindings κ α) key = none := rfl

@[simp] theorem find?_insert_self (b : Bindings κ α) (key : κ) (value : α) :
    find? (insert b key value) key = some value := by
  induction b with
  | nil => simp [insert, find?]
  | cons e rest ih =>
    obtain ⟨k, v⟩ := e
    by_cases h : k = key
    · simp [insert, find?, h]
    · simp [insert, find?, h, ih]

theorem find?_insert_of_ne (b : Bindings κ α) {key other : κ} (value : α) (h : key ≠ other) :
    find? (insert b key value) other = find? b other := by
  induction b with
  | nil => simp [insert, find?, h]
  | cons e rest ih =>
    obtain ⟨k, v⟩ := e
    by_cases hk : k = key
    · subst hk
      simp [insert, find?, h]
    · by_cases ho : k = other
      · subst ho
        simp [insert, find?, hk]
      · simp [insert, find?, hk, ho, ih]

end Bindings

end StagedFlow
