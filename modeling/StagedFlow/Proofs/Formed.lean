import StagedFlow.Proofs.ArrayOps
import StagedFlow.Proofs.Evaluation

/-!
Values whose arrays are well-formed. Everything that the host makes of such values is of that kind
again: results of operations and of functions, items, elements and rows. Main definitions: `Makes`,
`Value.FormedBy`, `Value.Formed`, `NDArray.Inherited`. Main results: `Op.makes_apply`,
`Value.inherits_toArray?`.
-/
set_option autoImplicit false

namespace StagedFlow

/-! ## Results that have a property -/

section Makes

variable {ε α β γ : Type}

/-- If there is a value, it has the property `Q`. -/
def Makes (x : Except ε α) (Q : α → Prop) : Prop :=
  ∀ a, x = .ok a → Q a

variable {x : Except ε α} {P Q : α → Prop}

theorem makes_any (x : Except ε α) : Makes x fun _ => True :=
  fun _ _ => trivial

theorem makes_ok {a : α} (h : Q a) : Makes (.ok a : Except ε α) Q := by
  rintro b ⟨⟩
  exact h

theorem makes_error (e : ε) : Makes (.error e : Except ε α) Q := by
  rintro a ⟨⟩

theorem makes_bind {f : α → Except ε β} {R : β → Prop} (hx : Makes x P)
    (hf : ∀ a, P a → Makes (f a) R) : Makes (x >>= f) R := by
  cases x with
  | error e => exact makes_error e
  | ok a => exact hf a (hx a rfl)

theorem makes_map {f : α → β} {R : β → Prop} (hx : Makes x fun a => R (f a)) :
    Makes (x.map f) R := by
  cases x with
  | error e => exact makes_error e
  | ok a => exact makes_ok (hx a rfl)

theorem makes_mapM {f : γ → Except ε α} (items : List γ) (h : ∀ c ∈ items, Makes (f c) Q) :
    Makes (items.mapM f) fun as => ∀ a ∈ as, Q a :=
  fun _ has => forall_of_mapM_eq_ok h has

theorem makes_ofFault {x : Except Fault α} (h : Makes x Q) : Makes (Outcome.ofFault x) Q := by
  cases x with
  | error f => exact makes_error _
  | ok a => exact makes_ok (h a rfl)

end Makes

/-! ## Values -/

/-- All arrays in a value have the property `P`. -/
inductive Value.FormedBy (P : NDArray → Prop) : Value → Prop
  | scalar (s : Scalar) : FormedBy P (.scalar s)
  | none : FormedBy P .none
  | str (s : String) : FormedBy P (.str s)
  | list {items : List Value} (h : ∀ v ∈ items, FormedBy P v) : FormedBy P (.list items)
  | tuple {items : List Value} (h : ∀ v ∈ items, FormedBy P v) : FormedBy P (.tuple items)
  | dict {entries : List (Value × Value)} (hkeys : ∀ e ∈ entries, FormedBy P e.1)
    (hvalues : ∀ e ∈ entries, FormedBy P e.2) : FormedBy P (.dict entries)
  | range {start stop step : Value} (hstart : FormedBy P start) (hstop : FormedBy P stop)
    (hstep : FormedBy P step) : FormedBy P (.range start stop step)
  | enumerate {inner : Value} (start : Int64) (h : FormedBy P inner) :
    FormedBy P (.enumerate inner start)
  | array {a : NDArray} (h : P a) : FormedBy P (.array a)
  | traced (id : Nat) (type : ArrayType) : FormedBy P (.traced id type)

/-- All arrays in a value are well-formed. -/
abbrev Value.Formed (v : Value) : Prop :=
  v.FormedBy NDArray.WellFormed

theorem Value.formed_pair {a b : Value} (ha : a.Formed) (hb : b.Formed) :
    ∀ v ∈ [a, b], v.Formed := by
  simpa using And.intro ha hb

/-! ## Arrays -/

namespace NDArray

/-- What holds of every array that is made, and of the rows of an array of which it holds. -/
class Inherited (P : NDArray → Prop) : Prop where
  make {shape : List Nat} {cells : Cells} {a : NDArray} : NDArray.make shape cells = .ok a → P a
  row {a b : NDArray} {i : Int64} : P a → a.index i = .ok (.array b) → P b

theorem makes_slice (c : Cells) (offset count : Nat) :
    Makes (c.slice offset count) fun d => d.size = count := by
  by_cases h : offset + count ≤ c.size
  · exact fun d hd => ((ends_slice (E := fun _ => True) h).of_ok hd).1
  · unfold Cells.slice
    rw [if_neg h]
    exact makes_error _

/-- What stands at an index is a scalar, or a row with as many elements as its axes have places. -/
theorem makes_index_row (a : NDArray) (i : Int64) : Makes (a.index i) fun v =>
    (∃ s, v = .scalar s) ∨ ∃ n inner cells, a.shape = n :: inner ∧ position? i n ≠ none ∧
      v = .array ⟨inner, cells⟩ ∧ cells.size = shapeSize inner := by
  unfold index
  split
  · exact makes_error _
  next n inner hshape =>
  split
  · exact makes_error _
  split
  · exact makes_error _
  next row hrow =>
  split
  · exact makes_map fun s _ => .inl ⟨s, rfl⟩
  · refine makes_map fun cells h => .inr ⟨n, inner, cells, hshape, ?_, rfl, ?_⟩
    · simp [hrow]
    · exact makes_slice _ _ _ cells h

instance : Inherited WellFormed where
  make h := (make_eq_ok h).2
  row _ h := by
    obtain ⟨s, hs⟩ | ⟨n, inner, cells, -, -, hv, hsize⟩ := makes_index_row _ _ _ h
    · cases hs
    · cases hv
      exact hsize

variable {P : NDArray → Prop} [Inherited P]

theorem makes_ofScalars (shape : List Nat) (scalars : List Scalar) :
    Makes (ofScalars shape scalars) P :=
  fun _ h => Inherited.make h

theorem makes_mapM (a : NDArray) (f : Scalar → Outcome Scalar) : Makes (a.mapM f) P :=
  makes_bind (makes_any _) fun _ _ => makes_ofScalars _ _

theorem makes_zipWithM (a b : NDArray) (f : Scalar → Scalar → Outcome Scalar) :
    Makes (a.zipWithM b f) P := by
  unfold zipWithM
  split
  · exact makes_bind (makes_any _) fun _ _ => makes_ofScalars _ _
  · exact makes_error _

theorem makes_kron (a b : NDArray) : Makes (a.kron b) P := by
  unfold kron
  split
  · refine makes_bind (makes_any _) fun _ _ => ?_
    exact makes_bind (makes_any _) fun _ _ => makes_ofScalars _ _
  · refine makes_bind (makes_any _) fun _ _ => makes_bind (makes_any _) fun _ _ => ?_
    exact makes_bind (makes_any _) fun _ _ => makes_ofScalars _ _
  · exact makes_error _

theorem makes_index {a : NDArray} (ha : P a) (i : Int64) :
    Makes (a.index i) (Value.FormedBy P) := by
  intro v hv
  obtain ⟨s, rfl⟩ | ⟨n, inner, cells, -, -, rfl, -⟩ := makes_index_row a i v hv
  · exact .scalar s
  · exact .array (Inherited.row ha hv)

theorem makes_rows {a : NDArray} (ha : P a) :
    Makes a.rows fun items => ∀ v ∈ items, v.FormedBy P := by
  unfold rows
  split
  · exact makes_error _
  · exact StagedFlow.makes_mapM _ fun _ _ => makes_index ha _

end NDArray

/-! ## Operations -/

namespace Value

variable {P : NDArray → Prop}

theorem makes_objectProduct {a b : Value} (ha : a.FormedBy P) (hb : b.FormedBy P)
    {x : Outcome Value} (h : objectProduct a b = some x) : Makes x (FormedBy P) := by
  have hrepeated : ∀ {v : Value} {n : Int64}, v.FormedBy P → v.repeated n = some x →
      Makes x (FormedBy P) := by
    intro v n hv hx
    cases hv with
    | str s =>
      obtain rfl := Option.some.inj hx
      unfold repeatText
      split
      · exact makes_ok (.str _)
      · split
        · exact makes_error _
        · exact makes_ok (.str _)
    | list hitems =>
      obtain rfl := Option.some.inj hx
      unfold repeatList
      split
      · exact makes_ok (.list (by simp))
      · split
        · exact makes_error _
        · refine makes_ok (.list fun v hv => ?_)
          obtain ⟨l, hl, hv⟩ := List.mem_flatten.mp hv
          rw [List.eq_of_mem_replicate hl] at hv
          exact hitems v hv
    | _ => cases hx
  unfold objectProduct at h
  split at h
  · exact hrepeated ha h
  · exact hrepeated hb h
  · cases h

theorem makes_objectBinary (op : BinaryOp) {a b : Value} (ha : a.FormedBy P) (hb : b.FormedBy P) :
    Makes (objectBinary op a b) (FormedBy P) := by
  have happend : ∀ {vs ws : List Value}, (∀ v ∈ vs, v.FormedBy P) → (∀ w ∈ ws, w.FormedBy P) →
      ∀ v ∈ vs ++ ws, v.FormedBy P :=
    fun hvs hws v hv => (List.mem_append.mp hv).elim (hvs v) (hws v)
  unfold objectBinary
  split
  · exact makes_ok (.scalar _)
  · exact makes_ok (.scalar _)
  · exact makes_ok (.str _)
  · cases ha with
    | list hvs => cases hb with | list hws => exact makes_ok (.list (happend hvs hws))
  · cases ha with
    | tuple hvs => cases hb with | tuple hws => exact makes_ok (.tuple (happend hvs hws))
  · rcases hx : objectProduct a b with _ | x
    · exact makes_error _
    · exact makes_objectProduct ha hb hx
  · split
    · exact makes_ok (.scalar _)
    · exact makes_error _
  · exact makes_error _

variable [NDArray.Inherited P]

theorem makes_binary (op : BinaryOp) {a b : Value} (ha : a.FormedBy P) (hb : b.FormedBy P) :
    Makes (binary op a b) (FormedBy P) := by
  unfold binary
  split
  · refine makes_bind (makes_any _) fun _ _ => ?_
    exact makes_bind (NDArray.makes_zipWithM _ _ _) fun _ h => makes_ok (.array h)
  · exact makes_bind (NDArray.makes_mapM _ _) fun _ h => makes_ok (.array h)
  · exact makes_bind (NDArray.makes_mapM _ _) fun _ h => makes_ok (.array h)
  · exact makes_bind (makes_any _) fun _ _ => makes_ok (.scalar _)
  · exact makes_objectBinary op ha hb

theorem makes_negate (v : Value) : Makes v.negate (FormedBy P) := by
  unfold negate
  split
  · exact makes_bind (makes_any _) fun _ _ => makes_ok (.scalar _)
  · exact makes_bind (NDArray.makes_mapM _ _) fun _ h => makes_ok (.array h)
  · exact makes_error _

theorem makes_logical (op : LogicalOp) (args : List Value) :
    Makes (logical op args) (FormedBy P) := by
  unfold logical
  split
  · exact makes_bind (NDArray.makes_mapM _ _) fun _ h => makes_ok (.array h)
  · exact makes_bind (makes_any _) fun _ _ => makes_ok (.scalar _)
  · exact makes_error _
  · refine makes_bind (makes_any _) fun _ _ => ?_
    exact makes_bind (NDArray.makes_zipWithM _ _ _) fun _ h => makes_ok (.array h)
  · exact makes_bind (NDArray.makes_mapM _ _) fun _ h => makes_ok (.array h)
  · exact makes_bind (NDArray.makes_mapM _ _) fun _ h => makes_ok (.array h)
  · refine makes_bind (makes_any _) fun _ _ => ?_
    exact makes_bind (makes_any _) fun _ _ => makes_ok (.scalar _)
  · exact makes_error _

theorem makes_itemAt {α : Type} (items : List α) (i : Int64) :
    Makes (itemAt items i) fun item => item ∈ items := by
  unfold itemAt
  split
  · exact makes_error _
  · split
    · next h => exact makes_ok (List.mem_of_getElem? h)
    · exact makes_error _

theorem makes_index {base : Value} (hbase : base.FormedBy P) (i : Value) :
    Makes (base.index i) (FormedBy P) := by
  cases hbase with
  | array h => exact makes_bind (makes_any _) fun _ _ => NDArray.makes_index h _
  | list h => exact makes_bind (makes_any _) fun _ _ v hv => h v (makes_itemAt _ _ v hv)
  | tuple h => exact makes_bind (makes_any _) fun _ _ v hv => h v (makes_itemAt _ _ v hv)
  | str s =>
    refine makes_bind (makes_any _) fun _ _ => ?_
    exact makes_bind (makes_any _) fun _ _ => makes_ok (.str _)
  | dict _ hvalues =>
    unfold index lookup
    simp only
    split
    · next e h => exact makes_ok (hvalues e (List.mem_of_find?_eq_some h))
    · exact makes_error _
  | _ => exact makes_error _

theorem makes_convert (elem : ElemType) (v : Value) : Makes (v.convert elem) (FormedBy P) := by
  unfold convert
  split
  · refine makes_bind (makes_any _) fun _ _ => ?_
    refine makes_bind (P := P) ?_ fun _ h => makes_ok (.array h)
    exact fun a h => NDArray.Inherited.make h
  · exact makes_ofFault (makes_map fun s _ => .scalar s)
  · exact makes_ofFault (makes_map fun s _ => .scalar s)

/-- The array that a value writes has the property of the arrays in the value. -/
theorem inherits_toArray? {v : Value} (hv : v.FormedBy P) {a : NDArray} (h : v.toArray? = .ok a) :
    P a := by
  cases hv with
  | array hform =>
    rw [toArray?] at h
    cases h
    exact hform
  | list _ =>
    rw [toArray?] at h
    obtain ⟨⟨inner, flat⟩, -, hmade⟩ := Outcome.bind_eq_ok h
    exact NDArray.makes_ofScalars _ _ _ (Search.ofOutcome_eq_ok hmade)
  | tuple _ =>
    rw [toArray?] at h
    obtain ⟨⟨inner, flat⟩, -, hmade⟩ := Outcome.bind_eq_ok h
    exact NDArray.makes_ofScalars _ _ _ (Search.ofOutcome_eq_ok hmade)
  | _ => simp [toArray?, Search.missing] at h

end Value

theorem Op.makes_apply (op : Op) {args : List Value} (hargs : ∀ v ∈ args, v.Formed) :
    Makes (op.apply args) Value.Formed := by
  unfold Op.apply
  split
  · exact Value.makes_binary _ (hargs _ (by simp)) (hargs _ (by simp))
  · exact Value.makes_negate _
  · exact Value.makes_logical _ _
  · exact Value.makes_index (hargs _ (by simp)) _
  · exact makes_bind (NDArray.makes_kron _ _) fun _ h => makes_ok (.array h)
  · exact makes_error _
  · exact Value.makes_convert _ _
  · exact makes_error _

/-! ## Functions -/

theorem makes_rangeBound {v : Value} (hv : v.Formed) : Makes (rangeBound v) Value.Formed := by
  unfold rangeBound
  split
  · exact makes_ok hv
  · exact makes_ok (.scalar _)
  · split
    · exact makes_ok hv
    · exact makes_error _
  · exact makes_error _

theorem makes_makeRange {bounds : List Value} (hbounds : ∀ v ∈ bounds, v.Formed) :
    Makes (makeRange bounds) Value.Formed := by
  unfold makeRange
  simp only
  split <;> split
  · exact makes_error _
  · exact makes_ok (.range (.scalar _) (hbounds _ (by simp)) (.scalar _))
  · exact makes_error _
  · exact makes_ok (.range (hbounds _ (by simp)) (hbounds _ (by simp)) (.scalar _))
  · exact makes_error _
  · exact makes_ok (.range (hbounds _ (by simp)) (hbounds _ (by simp)) (hbounds _ (by simp)))
  · exact makes_error _
  · exact makes_ok (.range (.scalar _) .none (.scalar _))

theorem makes_makeArray {v : Value} (hv : v.Formed) : Makes (makeArray v) Value.Formed := by
  unfold makeArray
  split
  · exact makes_ok hv
  split
  · exact makes_error _
  refine makes_bind (P := fun found => ∀ a, found = some a → a.WellFormed) ?_ fun found hfound => ?_
  · rintro _ h a rfl
    obtain ⟨b, hb, hsome⟩ | ⟨-, hnone⟩ := Search.optional_eq_ok h
    · cases hsome
      exact Value.inherits_toArray? hv hb
    · cases hnone
  · split
    · exact makes_ok (.array (hfound _ rfl))
    · exact makes_bind (NDArray.makes_ofScalars _ _) fun a h => makes_ok (.array h)
    · exact makes_error _

theorem makes_dictItems {v : Value} (hv : v.Formed) : Makes (dictItems v) Value.Formed := by
  cases hv with
  | dict hkeys hvalues =>
    refine makes_ok (.list fun item hitem => ?_)
    obtain ⟨e, he, rfl⟩ := List.mem_map.mp hitem
    exact .tuple (Value.formed_pair (hkeys e he) (hvalues e he))
  | _ => exact makes_error _

/-! ## The items of a loop -/

theorem makes_numbered (start : Int64) {items : List Value} (hitems : ∀ v ∈ items, v.Formed) :
    Makes (numbered start items) fun values => ∀ v ∈ values, v.Formed := by
  refine makes_mapM _ fun e he => ?_
  obtain ⟨item, k⟩ := e
  refine makes_bind (makes_any _) fun n _ => makes_ok ?_
  exact .tuple (Value.formed_pair (.scalar _) (hitems _ (List.fst_mem_of_mem_zipIdx he)))

/-- All items that are still to come are formed. -/
def Feed.Formed : Feed → Prop
  | items vs => ∀ v ∈ vs, v.Formed
  | counting _ _ => True

theorem Feed.Formed.next? {feed rest : Feed} {v : Value} (h : feed.Formed)
    (hnext : feed.next? = some (v, rest)) : v.Formed ∧ rest.Formed := by
  cases feed with
  | items vs =>
    cases vs with
    | nil => cases hnext
    | cons w ws =>
      cases hnext
      exact ⟨h v (by simp), fun w hw => h w (by simp [hw])⟩
  | counting c k =>
    simp only [Feed.next?] at hnext
    split at hnext
    · cases hnext
      exact ⟨.scalar _, trivial⟩
    · cases hnext

/-- The value that elements are taken from is formed. -/
def Elements.Formed : Elements → Prop
  | index => True
  | counted _ _ => True
  | rows array => array.Formed
  | numbered inner _ => inner.Formed

theorem Value.makes_elements {v : Value} (hv : v.Formed) :
    Makes v.elements fun r => r.2.Formed := by
  induction hv with
  | enumerate start _ ih =>
    rw [Value.elements]
    exact makes_map fun r hr => ih r hr
  | range _ _ _ =>
    rw [Value.elements]
    split
    · exact makes_ok trivial
    · exact makes_error _
  | array h =>
    rw [Value.elements]
    exact makes_ok (.array h)
  | traced id type =>
    rw [Value.elements]
    split
    · exact makes_ok (.traced id type)
    · exact makes_error _
  | list h =>
    rintro ⟨count, elements⟩ hok
    obtain ⟨a, ha, -, rfl⟩ := itemElements_eq_ok hok
    exact .array (inherits_toArray? (.list h) ha)
  | tuple h =>
    rintro ⟨count, elements⟩ hok
    obtain ⟨a, ha, -, rfl⟩ := itemElements_eq_ok hok
    exact .array (inherits_toArray? (.tuple h) ha)
  | _ => exact makes_error _

end StagedFlow
