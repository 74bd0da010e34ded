/-!
Sets of names, as lists without repetitions in the order in which the names came in. Main
definitions: `Names.add`, `Names.union`, `Names.without`, `Names.sorted`.
-/
set_option autoImplicit false

namespace StagedFlow

abbrev Names := List String

namespace Names

def add (ns : Names) (name : String) : Names :=
  if name ∈ ns then ns else ns ++ [name]

def union (ns : Names) (more : List String) : Names :=
  more.foldl add ns

def ofList (names : List String) : Names :=
  union [] names

def without (ns : Names) (gone : List String) : Names :=
  ns.filter (· ∉ gone)

/-- The names that both sets have. -/
def inter (ns others : Names) : Names :=
  ns.filter (· ∈ others)

def subset (ns others : Names) : Bool :=
  ns.all (· ∈ others)

def sorted (ns : Names) : List String :=
  ns.mergeSort (· ≤ ·)

@[simp] theorem mem_add {ns : Names} {name x : String} : x ∈ add ns name ↔ x ∈ ns ∨ x = name := by
  unfold add
  split <;> simp_all

@[simp] theorem mem_union {more : List String} {ns : Names} {x : String} :
    x ∈ union ns more ↔ x ∈ ns ∨ x ∈ more := by
  unfold union
  induction more generalizing ns with
  | nil => simp
  | cons name rest ih => simp [ih, or_assoc]

@[simp] theorem mem_without {ns : Names} {gone : List String} {x : String} :
    x ∈ without ns gone ↔ x ∈ ns ∧ x ∉ gone := by
  simp [without]

end Names

end StagedFlow
