import StagedFlow.Proofs.GraphRuns
import StagedFlow.Proofs.Scoping

/-!
Operations on host objects that hold placeholders. The tracer carries such an operation out at once,
long before the placeholders have values. Sums and products of containers come to the same as the
operation on the values that the placeholders get. Equality does where the values do not change it,
and so where the placeholders have no say in it. Main definitions: `Value.parts`, `Value.Apart`,
`Value.Decided`. Main results: `Value.Decided.same_eq`, `Value.binary_materialize`,
`Tracer.fold_commutes`.
-/
set_option autoImplicit false

namespace StagedFlow

/-! ## Values and their parts -/

section

variable {s : Store}

theorem length_materializeAll {vs ws : List Value} (h : materializeAll s vs = .ok ws) :
    ws.length = vs.length := by
  induction vs generalizing ws with
  | nil =>
    cases h
    rfl
  | cons v vs ih =>
    obtain ⟨w, -, h⟩ := Outcome.bind_eq_ok h
    obtain ⟨ws', hws', h⟩ := Outcome.bind_eq_ok h
    cases h
    rw [List.length_cons, List.length_cons, ih hws']

theorem materializeAll_append {vs ws vs' ws' : List Value} (hvs : materializeAll s vs = .ok vs')
    (hws : materializeAll s ws = .ok ws') :
    materializeAll s (vs ++ ws) = .ok (vs' ++ ws') := by
  induction vs generalizing vs' with
  | nil =>
    cases hvs
    exact hws
  | cons v vs ih =>
    obtain ⟨w, hw, hvs⟩ := Outcome.bind_eq_ok hvs
    obtain ⟨rest, hrest, hvs⟩ := Outcome.bind_eq_ok hvs
    cases hvs
    rw [List.cons_append, materializeAll, hw, ih hrest]
    rfl

theorem materializeAll_replicate {vs ws : List Value} (h : materializeAll s vs = .ok ws)
    (count : Nat) :
    materializeAll s (List.replicate count vs).flatten =
      .ok (List.replicate count ws).flatten := by
  induction count with
  | zero => rfl
  | succ count ih =>
    rw [List.replicate_succ, List.replicate_succ, List.flatten_cons, List.flatten_cons]
    exact materializeAll_append h ih

theorem getElem?_materializeAll {vs ws : List Value} (h : materializeAll s vs = .ok ws) {k : Nat}
    {v : Value} (hv : vs[k]? = some v) : ∃ w, ws[k]? = some w ∧ materialize s v = .ok w := by
  induction vs generalizing ws k with
  | nil => cases hv
  | cons u vs ih =>
    obtain ⟨w, hw, h⟩ := Outcome.bind_eq_ok h
    obtain ⟨rest, hrest, h⟩ := Outcome.bind_eq_ok h
    cases h
    cases k with
    | zero =>
      cases hv
      exact ⟨w, rfl, hw⟩
    | succ k => exact ih hrest hv

end

theorem Scalar.typeName_of_same {x y : Scalar} (h : x.same y = true) : x.typeName = y.typeName := by
  cases x <;> cases y <;> first | rfl | simp [Scalar.same] at h

namespace Value

/-- The keys and the values of entries in one list. -/
def entryParts : List (Value × Value) → List Value
  | [] => []
  | (k, v) :: rest => k :: v :: entryParts rest

/-- The values that a value is made of. -/
def parts : Value → List Value
  | list items => items
  | tuple items => items
  | dict entries => entryParts entries
  | range start stop step => [start, stop, step]
  | enumerate inner _ => [inner]
  | _ => []

variable {s : Store} {v w a b a' b' : Value}

theorem entryParts_materialize {entries entries' : List (Value × Value)}
    (h : materializeEntries s entries = .ok entries') :
    materializeAll s (entryParts entries) = .ok (entryParts entries') := by
  induction entries generalizing entries' with
  | nil =>
    cases h
    rfl
  | cons e entries ih =>
    obtain ⟨k, hk, h⟩ := Outcome.bind_eq_ok h
    obtain ⟨v, hv, h⟩ := Outcome.bind_eq_ok h
    obtain ⟨rest, hrest, h⟩ := Outcome.bind_eq_ok h
    cases h
    rw [entryParts, materializeAll, hk, materializeAll, hv, ih hrest]
    rfl

/-- A value that is no placeholder keeps its type, and its parts are replaced one by one. -/
theorem parts_materialize (hv : v.isTraced = false) (h : materialize s v = .ok w) :
    w.isTraced = false ∧ w.typeName = v.typeName ∧ materializeAll s v.parts = .ok w.parts := by
  cases v with
  | traced id type => cases hv
  | list items =>
    obtain ⟨ws, hws, h⟩ := Outcome.bind_eq_ok h
    cases h
    exact ⟨rfl, rfl, hws⟩
  | tuple items =>
    obtain ⟨ws, hws, h⟩ := Outcome.bind_eq_ok h
    cases h
    exact ⟨rfl, rfl, hws⟩
  | dict entries =>
    obtain ⟨es, hes, h⟩ := Outcome.bind_eq_ok h
    cases h
    exact ⟨rfl, rfl, entryParts_materialize hes⟩
  | range start stop step =>
    obtain ⟨start', hstart, h⟩ := Outcome.bind_eq_ok h
    obtain ⟨stop', hstop, h⟩ := Outcome.bind_eq_ok h
    obtain ⟨step', hstep, h⟩ := Outcome.bind_eq_ok h
    cases h
    refine ⟨rfl, rfl, ?_⟩
    rw [parts, materializeAll, hstart, materializeAll, hstop, materializeAll, hstep]
    rfl
  | enumerate inner start =>
    obtain ⟨inner', hinner, h⟩ := Outcome.bind_eq_ok h
    cases h
    refine ⟨rfl, rfl, ?_⟩
    rw [parts, materializeAll, hinner]
    rfl
  | _ =>
    cases h
    exact ⟨rfl, rfl, rfl⟩

theorem sameList_entryParts {xs ys : List (Value × Value)} (h : sameEntries xs ys = true) :
    sameList (entryParts xs) (entryParts ys) = true := by
  induction xs generalizing ys with
  | nil =>
    cases ys with
    | nil => rfl
    | cons e ys => simp [sameEntries] at h
  | cons e xs ih =>
    cases ys with
    | nil => simp [sameEntries] at h
    | cons e' ys =>
      simp only [sameEntries, Bool.and_eq_true] at h
      simp [entryParts, sameList, h.1.1, h.1.2, ih h.2]

/-- Equal values have one type and equal parts. -/
theorem parts_same (h : a.same b = true) :
    a.typeName = b.typeName ∧ sameList a.parts b.parts = true := by
  cases a with
  | scalar x =>
    cases b with
    | scalar y => exact ⟨Scalar.typeName_of_same h, rfl⟩
    | _ => cases h
  | list xs =>
    cases b with
    | list ys => exact ⟨rfl, h⟩
    | _ => cases h
  | tuple xs =>
    cases b with
    | tuple ys => exact ⟨rfl, h⟩
    | _ => cases h
  | dict xs =>
    cases b with
    | dict ys => exact ⟨rfl, sameList_entryParts h⟩
    | _ => cases h
  | range start stop step =>
    cases b with
    | range start' stop' step' =>
      simp only [same, Bool.and_eq_true] at h
      simp [parts, sameList, typeName, h]
    | _ => cases h
  | enumerate inner start =>
    cases b with
    | enumerate inner' start' =>
      simp only [same, Bool.and_eq_true] at h
      simp [parts, sameList, typeName, h]
    | _ => cases h
  | _ => cases b <;> first | exact ⟨rfl, rfl⟩ | cases h

theorem length_of_sameList {xs ys : List Value} (h : sameList xs ys = true) :
    xs.length = ys.length := by
  induction xs generalizing ys with
  | nil =>
    cases ys with
    | nil => rfl
    | cons y ys => simp [sameList] at h
  | cons x xs ih =>
    cases ys with
    | nil => simp [sameList] at h
    | cons y ys =>
      simp only [sameList, Bool.and_eq_true] at h
      rw [List.length_cons, List.length_cons, ih h.2]

theorem same_of_sameList {xs ys : List Value} (h : sameList xs ys = true) {k : Nat} {x y : Value}
    (hx : xs[k]? = some x) (hy : ys[k]? = some y) : x.same y = true := by
  induction xs generalizing ys k with
  | nil => cases hx
  | cons x₀ xs ih =>
    cases ys with
    | nil => cases hy
    | cons y₀ ys =>
      simp only [sameList, Bool.and_eq_true] at h
      cases k with
      | zero =>
        cases hx
        cases hy
        exact h.1
      | succ k => exact ih h.2 hx hy

/-! ## Equality -/

/-- Values that differ at a place where neither of them has a placeholder. -/
inductive Apart : Value → Value → Prop
  | known {a b : Value} (ha : a.placeholders = []) (hb : b.placeholders = [])
    (h : a.same b = false) : Apart a b
  | types {a b : Value} (ha : a.isTraced = false) (hb : b.isTraced = false)
    (h : a.typeName ≠ b.typeName) : Apart a b
  | count {a b : Value} (ha : a.isTraced = false) (hb : b.isTraced = false)
    (h : a.parts.length ≠ b.parts.length) : Apart a b
  | part {a b x y : Value} {k : Nat} (hx : a.parts[k]? = some x) (hy : b.parts[k]? = some y)
    (h : Apart x y) : Apart a b

/-- Whatever the store has for one of these placeholders is equal to itself; a float that is no
number is not. -/
def SelfSame (s : Store) (ps : List (Nat × ArrayType)) : Prop :=
  ∀ p ∈ ps, ∀ v, Bindings.find? s p.1 = some v → v.same v = true

/-- The placeholders have no say in whether two values are equal: the values differ elsewhere, or
they are equal as they are, and what their placeholders stand for is equal to itself. -/
def Decided (s : Store) (a b : Value) : Prop :=
  a.Apart b ∨ (a.same b = true ∧ SelfSame s a.placeholders)

theorem isTraced_of_part {x : Value} {k : Nat} (h : a.parts[k]? = some x) : a.isTraced = false := by
  cases a <;> first | rfl | cases h

mutual

/-- A value without placeholders stands for itself. -/
theorem materialize_of_nil : ∀ {v : Value}, v.placeholders = [] → materialize s v = .ok v
  | .traced id type, h => by cases h
  | .list items, h => by
    rw [materialize, materializeAll_of_nil h]
    rfl
  | .tuple items, h => by
    rw [materialize, materializeAll_of_nil h]
    rfl
  | .dict entries, h => by
    rw [materialize, materializeEntries_of_nil h]
    rfl
  | .range start stop step, h => by
    simp only [placeholders, List.append_eq_nil_iff] at h
    rw [materialize, materialize_of_nil h.1, materialize_of_nil h.2.1, materialize_of_nil h.2.2]
    rfl
  | .enumerate inner start, h => by
    rw [materialize, materialize_of_nil (v := inner) h]
    rfl
  | .scalar x, _ => rfl
  | .none, _ => rfl
  | .str text, _ => rfl
  | .array a, _ => rfl

theorem materializeAll_of_nil : ∀ {vs : List Value}, placeholdersOf vs = [] →
    materializeAll s vs = .ok vs
  | [], _ => rfl
  | v :: vs, h => by
    simp only [placeholdersOf, List.append_eq_nil_iff] at h
    rw [materializeAll, materialize_of_nil h.1, materializeAll_of_nil h.2]
    rfl

theorem materializeEntries_of_nil : ∀ {entries : List (Value × Value)},
    entryPlaceholders entries = [] → materializeEntries s entries = .ok entries
  | [], _ => rfl
  | (k, v) :: rest, h => by
    simp only [entryPlaceholders, List.append_eq_nil_iff] at h
    rw [materializeEntries, materialize_of_nil h.1, materialize_of_nil h.2.1,
      materializeEntries_of_nil h.2.2]
    rfl

end

theorem Apart.not_same (h : a.Apart b) : a.same b = false := by
  rw [← Bool.not_eq_true]
  intro hsame
  induction h with
  | known _ _ hdiffer =>
    rw [hdiffer] at hsame
    cases hsame
  | types _ _ hdiffer => exact hdiffer (parts_same hsame).1
  | count _ _ hdiffer => exact hdiffer (length_of_sameList (parts_same hsame).2)
  | part hx hy _ ih => exact ih (same_of_sameList (parts_same hsame).2 hx hy)

/-- Values that differ away from their placeholders differ whatever these stand for. -/
theorem Apart.materialize (h : a.Apart b) (ha : materialize s a = .ok a')
    (hb : materialize s b = .ok b') : a'.Apart b' := by
  induction h generalizing a' b' with
  | known hna hnb hdiffer =>
    obtain rfl := Except.ok.inj ((materialize_of_nil hna).symm.trans ha)
    obtain rfl := Except.ok.inj ((materialize_of_nil hnb).symm.trans hb)
    exact .known hna hnb hdiffer
  | types hta htb hdiffer =>
    obtain ⟨hta', htypeA, -⟩ := parts_materialize hta ha
    obtain ⟨htb', htypeB, -⟩ := parts_materialize htb hb
    exact .types hta' htb' (by rwa [htypeA, htypeB])
  | count hta htb hdiffer =>
    obtain ⟨hta', -, hpartsA⟩ := parts_materialize hta ha
    obtain ⟨htb', -, hpartsB⟩ := parts_materialize htb hb
    refine .count hta' htb' ?_
    rwa [length_materializeAll hpartsA, length_materializeAll hpartsB]
  | part hx hy _ ih =>
    obtain ⟨-, -, hpartsA⟩ := parts_materialize (isTraced_of_part hx) ha
    obtain ⟨-, -, hpartsB⟩ := parts_materialize (isTraced_of_part hy) hb
    obtain ⟨x', hx', hmx⟩ := getElem?_materializeAll hpartsA hx
    obtain ⟨y', hy', hmy⟩ := getElem?_materializeAll hpartsB hy
    exact .part hx' hy' (ih hmx hmy)

mutual

/-- Equal values stay equal if what their placeholders stand for is equal to itself. -/
theorem same_materialize : ∀ {a b a' b' : Value}, a.same b = true → SelfSame s a.placeholders →
    materialize s a = .ok a' → materialize s b = .ok b' → a'.same b' = true
  | .traced i type, b, a', b', h, hself, ha, hb => by
    cases b with
    | traced j type' =>
      simp only [same, Bool.and_eq_true, beq_iff_eq] at h
      obtain ⟨rfl, rfl⟩ := h
      obtain rfl : a' = b' := Except.ok.inj (ha.symm.trans hb)
      rw [materialize, Store.operand] at ha
      split at ha
      · next v hfound =>
        cases ha
        exact hself (i, type) (by simp [placeholders]) a' hfound
      · cases ha
    | _ => cases h
  | .list xs, b, a', b', h, hself, ha, hb => by
    cases b with
    | list ys =>
      obtain ⟨xs', hxs, ha⟩ := Outcome.bind_eq_ok ha
      obtain ⟨ys', hys, hb⟩ := Outcome.bind_eq_ok hb
      cases ha
      cases hb
      exact sameList_materialize h hself hxs hys
    | _ => cases h
  | .tuple xs, b, a', b', h, hself, ha, hb => by
    cases b with
    | tuple ys =>
      obtain ⟨xs', hxs, ha⟩ := Outcome.bind_eq_ok ha
      obtain ⟨ys', hys, hb⟩ := Outcome.bind_eq_ok hb
      cases ha
      cases hb
      exact sameList_materialize h hself hxs hys
    | _ => cases h
  | .dict xs, b, a', b', h, hself, ha, hb => by
    cases b with
    | dict ys =>
      obtain ⟨xs', hxs, ha⟩ := Outcome.bind_eq_ok ha
      obtain ⟨ys', hys, hb⟩ := Outcome.bind_eq_ok hb
      cases ha
      cases hb
      exact sameEntries_materialize h hself hxs hys
    | _ => cases h
  | .range start stop step, b, a', b', h, hself, ha, hb => by
    cases b with
    | range start₁ stop₁ step₁ =>
      obtain ⟨start', hstart, ha⟩ := Outcome.bind_eq_ok ha
      obtain ⟨stop', hstop, ha⟩ := Outcome.bind_eq_ok ha
      obtain ⟨step', hstep, ha⟩ := Outcome.bind_eq_ok ha
      obtain ⟨start₁', hstart₁, hb⟩ := Outcome.bind_eq_ok hb
      obtain ⟨stop₁', hstop₁, hb⟩ := Outcome.bind_eq_ok hb
      obtain ⟨step₁', hstep₁, hb⟩ := Outcome.bind_eq_ok hb
      cases ha
      cases hb
      simp only [same, Bool.and_eq_true] at h ⊢
      refine ⟨⟨same_materialize h.1.1 (fun p hp => hself p ?_) hstart hstart₁,
        same_materialize h.1.2 (fun p hp => hself p ?_) hstop hstop₁⟩,
        same_materialize h.2 (fun p hp => hself p ?_) hstep hstep₁⟩ <;> simp [placeholders, hp]
    | _ => cases h
  | .enumerate inner start, b, a', b', h, hself, ha, hb => by
    cases b with
    | enumerate inner₁ start₁ =>
      obtain ⟨inner', hinner, ha⟩ := Outcome.bind_eq_ok ha
      obtain ⟨inner₁', hinner₁, hb⟩ := Outcome.bind_eq_ok hb
      cases ha
      cases hb
      simp only [same, Bool.and_eq_true] at h ⊢
      exact ⟨same_materialize h.1 hself hinner hinner₁, h.2⟩
    | _ => cases h
  | .scalar x, b, a', b', h, _, ha, hb => by
    cases b with
    | scalar y =>
      cases ha
      cases hb
      exact h
    | _ => cases h
  | .none, b, a', b', h, _, ha, hb => by
    cases b with
    | none =>
      cases ha
      cases hb
      exact h
    | _ => cases h
  | .str text, b, a', b', h, _, ha, hb => by
    cases b with
    | str text' =>
      cases ha
      cases hb
      exact h
    | _ => cases h
  | .array x, b, a', b', h, _, ha, hb => by
    cases b with
    | array y =>
      cases ha
      cases hb
      exact h
    | _ => cases h
termination_by structural a => a

theorem sameList_materialize : ∀ {xs ys xs' ys' : List Value}, sameList xs ys = true →
    SelfSame s (placeholdersOf xs) → materializeAll s xs = .ok xs' →
    materializeAll s ys = .ok ys' → sameList xs' ys' = true
  | [], ys, xs', ys', h, _, hxs, hys => by
    cases ys with
    | nil =>
      cases hxs
      cases hys
      rfl
    | cons y ys => simp [sameList] at h
  | x :: xs, ys, xs', ys', h, hself, hxs, hys => by
    cases ys with
    | nil => simp [sameList] at h
    | cons y ys =>
      obtain ⟨x', hx, hxs⟩ := Outcome.bind_eq_ok hxs
      obtain ⟨xs', hxs', hxs⟩ := Outcome.bind_eq_ok hxs
      obtain ⟨y', hy, hys⟩ := Outcome.bind_eq_ok hys
      obtain ⟨ys', hys', hys⟩ := Outcome.bind_eq_ok hys
      cases hxs
      cases hys
      simp only [sameList, Bool.and_eq_true] at h ⊢
      refine ⟨same_materialize h.1 (fun p hp => hself p ?_) hx hy,
        sameList_materialize h.2 (fun p hp => hself p ?_) hxs' hys'⟩ <;>
        simp [placeholdersOf, hp]
termination_by structural xs => xs

theorem sameEntries_materialize : ∀ {xs ys xs' ys' : List (Value × Value)},
    sameEntries xs ys = true → SelfSame s (entryPlaceholders xs) →
    materializeEntries s xs = .ok xs' → materializeEntries s ys = .ok ys' →
    sameEntries xs' ys' = true
  | [], ys, xs', ys', h, _, hxs, hys => by
    cases ys with
    | nil =>
      cases hxs
      cases hys
      rfl
    | cons y ys => simp [sameEntries] at h
  | (k, v) :: xs, ys, xs', ys', h, hself, hxs, hys => by
    cases ys with
    | nil => simp [sameEntries] at h
    | cons e ys =>
      obtain ⟨k', hk, hxs⟩ := Outcome.bind_eq_ok hxs
      obtain ⟨v', hv, hxs⟩ := Outcome.bind_eq_ok hxs
      obtain ⟨xs', hxs', hxs⟩ := Outcome.bind_eq_ok hxs
      obtain ⟨l', hl, hys⟩ := Outcome.bind_eq_ok hys
      obtain ⟨w', hw, hys⟩ := Outcome.bind_eq_ok hys
      obtain ⟨ys', hys', hys⟩ := Outcome.bind_eq_ok hys
      cases hxs
      cases hys
      simp only [sameEntries, Bool.and_eq_true] at h ⊢
      refine ⟨⟨same_materialize h.1.1 (fun p hp => hself p ?_) hk hl,
        same_materialize h.1.2 (fun p hp => hself p ?_) hv hw⟩,
        sameEntries_materialize h.2 (fun p hp => hself p ?_) hxs' hys'⟩ <;>
        simp [entryPlaceholders, hp]
termination_by structural xs => xs

end

theorem Decided.same_eq (h : a.Decided s b) (ha : materialize s a = .ok a')
    (hb : materialize s b = .ok b') : a'.same b' = a.same b := by
  rcases h with hapart | ⟨hsame, hself⟩
  · rw [hapart.not_same, (hapart.materialize ha hb).not_same]
  · rw [hsame, same_materialize hsame hself ha hb]

/-! ## Operations -/

/-- Whether a value is a number or an array of numbers. -/
def isNumeric : Value → Bool
  | scalar _ => true
  | array _ => true
  | _ => false

theorem placeholders_of_isNumeric (h : v.isNumeric = true) : v.placeholders = [] := by
  cases v <;> first | rfl | cases h

theorem isNumeric_eq (v : Value) :
    v.isNumeric = decide (v.typeName ∈ ["bool", "int", "float", "array"]) := by
  cases v with
  | scalar x => cases x <;> rfl
  | _ => rfl

/-- A number stands for itself, and what is no number does not become one. -/
theorem eq_or_not_isNumeric (hv : v.isTraced = false) (h : materialize s v = .ok w) :
    w = v ∨ (v.isNumeric = false ∧ w.isNumeric = false) := by
  rcases hnumeric : v.isNumeric
  · rw [isNumeric_eq, (parts_materialize hv h).2.1, ← isNumeric_eq]
    exact .inr ⟨rfl, hnumeric⟩
  · rw [materialize_of_nil (placeholders_of_isNumeric hnumeric)] at h
    exact .inl (Except.ok.inj h).symm

theorem toInt?_of_not_isNumeric (h : v.isNumeric = false) : v.toInt? = Option.none := by
  cases v <;> first | rfl | cases h

theorem toInt?_materialize (hv : v.isTraced = false) (h : materialize s v = .ok w) :
    w.toInt? = v.toInt? := by
  rcases eq_or_not_isNumeric hv h with rfl | ⟨hnv, hnw⟩
  · rfl
  · rw [toInt?_of_not_isNumeric hnv, toInt?_of_not_isNumeric hnw]

theorem binary_eq_objectBinary (op : BinaryOp) (h : (a.isNumeric && b.isNumeric) = false) :
    binary op a b = objectBinary op a b := by
  cases a <;> first | rfl | (cases b <;> first | rfl | cases h)

/-- What is made of values without placeholders stands for itself. -/
theorem Within.materialize_eq {r : Value} (h : r.Within [a, b]) (ha : a.placeholders = [])
    (hb : b.placeholders = []) : materialize s r = .ok r := by
  refine materialize_of_nil (List.subset_nil.mp ?_)
  simpa [Within, placeholdersOf, ha, hb] using h

theorem repeatList_materialize {items ws : List Value} {n : Int64} {r : Value}
    (hitems : materializeAll s items = .ok ws) (h : repeatList items n = .ok r) :
    ∃ r', materialize s r = .ok r' ∧ repeatList ws n = .ok r' := by
  have hlength : ws.length = items.length := length_materializeAll hitems
  have hempty : ws.isEmpty = items.isEmpty := by
    rw [Bool.eq_iff_iff, List.isEmpty_iff_length_eq_zero, List.isEmpty_iff_length_eq_zero, hlength]
  unfold repeatList at h ⊢
  rw [hempty, hlength]
  split at h
  · next hnone =>
    cases h
    exact ⟨_, rfl, if_pos hnone⟩
  · next hsome =>
    split at h
    · cases h
    · next hroom =>
      cases h
      refine ⟨.list (List.replicate (repeatCount n) ws).flatten, ?_, ?_⟩
      · rw [materialize, materializeAll_replicate hitems]
        rfl
      · rw [if_neg hsome, if_neg hroom]

theorem repeated_materialize {n : Int64} {r : Value} (hv : materialize s v = .ok w)
    (h : v.repeated n = some (.ok r)) :
    ∃ r', materialize s r = .ok r' ∧ w.repeated n = some (.ok r') := by
  cases v with
  | str text =>
    cases hv
    have hnil : r.placeholders = [] := List.subset_nil.mp (regular_repeated h)
    exact ⟨r, materialize_of_nil hnil, h⟩
  | list items =>
    obtain ⟨ws, hws, hv⟩ := Outcome.bind_eq_ok hv
    cases hv
    obtain ⟨r', hr', hagain⟩ := repeatList_materialize hws (Option.some.inj h)
    exact ⟨r', hr', congrArg some hagain⟩
  | _ => cases h

theorem objectProduct_materialize {r : Value} (hta : a.isTraced = false) (htb : b.isTraced = false)
    (ha : materialize s a = .ok a') (hb : materialize s b = .ok b')
    (h : objectProduct a b = some (.ok r)) :
    ∃ r', materialize s r = .ok r' ∧ objectProduct a' b' = some (.ok r') := by
  unfold objectProduct at h ⊢
  rw [toInt?_materialize hta ha, toInt?_materialize htb hb]
  split at h
  · exact repeated_materialize ha h
  · exact repeated_materialize hb h
  · cases h

/-- What an operation on host objects makes before the placeholders have values, it makes of their
values too; of equality this asks that the placeholders have no say. -/
theorem objectBinary_materialize {op : BinaryOp} {r : Value} (hta : a.isTraced = false)
    (htb : b.isTraced = false) (ha : materialize s a = .ok a') (hb : materialize s b = .ok b')
    (hsame : op = .eq ∨ op = .ne → a'.same b' = a.same b) (h : objectBinary op a b = .ok r) :
    ∃ r', materialize s r = .ok r' ∧ objectBinary op a' b' = .ok r' := by
  have hknown : a.placeholders = [] → b.placeholders = [] → a' = a → b' = b →
      ∃ r', materialize s r = .ok r' ∧ objectBinary op a' b' = .ok r' := by
    rintro hna hnb rfl rfl
    exact ⟨r, ((regular_objectBinary op a' b').of_ok h).materialize_eq hna hnb, h⟩
  have hmade := h
  unfold objectBinary at hmade
  split at hmade
  · cases hmade
    refine ⟨_, rfl, ?_⟩
    rw [← hsame (.inl rfl)]
    rfl
  · cases hmade
    refine ⟨_, rfl, ?_⟩
    rw [← hsame (.inr rfl)]
    rfl
  · exact hknown rfl rfl (Except.ok.inj ha).symm (Except.ok.inj hb).symm
  · obtain ⟨xs, hxs, ha⟩ := Outcome.bind_eq_ok ha
    obtain ⟨ys, hys, hb⟩ := Outcome.bind_eq_ok hb
    cases ha
    cases hb
    cases hmade
    refine ⟨_, ?_, rfl⟩
    rw [materialize, materializeAll_append hxs hys]
    rfl
  · obtain ⟨xs, hxs, ha⟩ := Outcome.bind_eq_ok ha
    obtain ⟨ys, hys, hb⟩ := Outcome.bind_eq_ok hb
    cases ha
    cases hb
    cases hmade
    refine ⟨_, ?_, rfl⟩
    rw [materialize, materializeAll_append hxs hys]
    rfl
  · rcases hproduct : objectProduct a b with _ | x
    · rw [hproduct] at hmade
      cases hmade
    · rw [hproduct] at hmade
      obtain rfl : x = .ok r := hmade
      obtain ⟨r', hr', hagain⟩ := objectProduct_materialize hta htb ha hb hproduct
      refine ⟨r', hr', ?_⟩
      show (objectProduct a' b').getD _ = .ok r'
      rw [hagain]
      rfl
  · exact hknown rfl rfl (Except.ok.inj ha).symm (Except.ok.inj hb).symm
  · cases hmade

/-- Operands that are not both numbers do not become two numbers. -/
theorem not_both_isNumeric (hta : a.isTraced = false) (htb : b.isTraced = false)
    (ha : materialize s a = .ok a') (hb : materialize s b = .ok b')
    (h : (a.isNumeric && b.isNumeric) = false) : (a'.isNumeric && b'.isNumeric) = false := by
  rcases eq_or_not_isNumeric hta ha with rfl | ⟨-, hna⟩
  · rcases eq_or_not_isNumeric htb hb with rfl | ⟨-, hnb⟩
    · exact h
    · rw [hnb, Bool.and_false]
  · rw [hna, Bool.false_and]

theorem eq_of_both_isNumeric (ha : materialize s a = .ok a') (hb : materialize s b = .ok b')
    (h : (a.isNumeric && b.isNumeric) = true) : a' = a ∧ b' = b := by
  rw [Bool.and_eq_true] at h
  rw [materialize_of_nil (placeholders_of_isNumeric h.1)] at ha
  rw [materialize_of_nil (placeholders_of_isNumeric h.2)] at hb
  exact ⟨(Except.ok.inj ha).symm, (Except.ok.inj hb).symm⟩

/-- The same of every binary operation, for arrays and numbers hold no placeholders. -/
theorem binary_materialize {op : BinaryOp} {r : Value} (hta : a.isTraced = false)
    (htb : b.isTraced = false) (ha : materialize s a = .ok a') (hb : materialize s b = .ok b')
    (hsame : op = .eq ∨ op = .ne → a'.same b' = a.same b) (h : binary op a b = .ok r) :
    ∃ r', materialize s r = .ok r' ∧ binary op a' b' = .ok r' := by
  rcases hnumeric : a.isNumeric && b.isNumeric
  · rw [binary_eq_objectBinary op hnumeric] at h
    rw [binary_eq_objectBinary op (not_both_isNumeric hta htb ha hb hnumeric)]
    exact objectBinary_materialize hta htb ha hb hsame h
  · obtain ⟨rfl, rfl⟩ := eq_of_both_isNumeric ha hb hnumeric
    rw [Bool.and_eq_true] at hnumeric
    exact ⟨r, ((regular_binary op a' b').of_ok h).materialize_eq
      (placeholders_of_isNumeric hnumeric.1) (placeholders_of_isNumeric hnumeric.2), h⟩

/-- An equality that was answered for good is one that the values of the placeholders keep. -/
theorem same_eq_of_binary {op : BinaryOp} {r r' : Value} (hta : a.isTraced = false)
    (htb : b.isTraced = false) (ha : materialize s a = .ok a') (hb : materialize s b = .ok b')
    (hr : materialize s r = .ok r') (h : binary op a b = .ok r) (h' : binary op a' b' = .ok r')
    (hop : op = .eq ∨ op = .ne) : a'.same b' = a.same b := by
  rcases hnumeric : a.isNumeric && b.isNumeric
  · rw [binary_eq_objectBinary op hnumeric] at h
    rw [binary_eq_objectBinary op (not_both_isNumeric hta htb ha hb hnumeric)] at h'
    rcases hop with rfl | rfl
    · cases h
      cases hr
      exact Scalar.bool.inj (scalar.inj (Except.ok.inj h'))
    · cases h
      cases hr
      exact Bool.not_inj (Scalar.bool.inj (scalar.inj (Except.ok.inj h')))
  · obtain ⟨rfl, rfl⟩ := eq_of_both_isNumeric ha hb hnumeric
    rfl

end Value

/-- Operations that the tracer carries out at once come to what they come to when the placeholders
in their operands have values, except that equality must not change with the values. It does not
change where it is decided without the placeholders. -/
theorem Tracer.fold_commutes {op : BinaryOp} {a b r : Value} {s : Store} {t t' : Tracer}
    (hta : a.isTraced = false) (htb : b.isTraced = false)
    (hbound : ∀ p ∈ a.placeholders ++ b.placeholders, (Bindings.find? s p.1).isSome)
    (hfold : Tracer.apply (.binary op) [a, b] t = (.ok r, t')) :
    ∃ a' b' r', materialize s a = .ok a' ∧ materialize s b = .ok b' ∧ materialize s r = .ok r' ∧
      (Value.binary op a' b' = .ok r' ↔ (op = .eq ∨ op = .ne → a'.same b' = a.same b)) ∧
      (a.Decided s b → a'.same b' = a.same b) := by
  obtain ⟨a', ha⟩ := exists_materialize a fun p hp => hbound p (List.mem_append_left _ hp)
  obtain ⟨b', hb⟩ := exists_materialize b fun p hp => hbound p (List.mem_append_right _ hp)
  have hhost : ¬ [a, b].any Value.isTraced = true := by simp [hta, htb]
  have hmade : Value.binary op a b = .ok r := by
    unfold Tracer.apply at hfold
    rw [if_neg hhost] at hfold
    exact congrArg Prod.fst hfold
  have hwithin : r.placeholders ⊆ a.placeholders ++ b.placeholders := by
    simpa [Value.Within, Value.placeholdersOf] using (Value.regular_binary op a b).of_ok hmade
  obtain ⟨r', hr⟩ := exists_materialize r fun p hp => hbound p (hwithin hp)
  refine ⟨a', b', r', ha, hb, hr, ⟨fun hagain => ?_, fun hsame => ?_⟩, fun h => h.same_eq ha hb⟩
  · exact Value.same_eq_of_binary hta htb ha hb hr hmade hagain
  · obtain ⟨r'', hr'', hagain⟩ := Value.binary_materialize hta htb ha hb hsame hmade
    rwa [Except.ok.inj (hr.symm.trans hr'')]

/-- The lists `[%0, 1]` and `[%0, 2]` differ in their second items, whatever `%0` stands for. -/
theorem Tracer.fold_commutes_second_item :
    ∃ a' b' r', materialize [(0, .int 5)] (.list [.traced 0 (.scalar .int), .int 1]) = .ok a' ∧
      materialize [(0, .int 5)] (.list [.traced 0 (.scalar .int), .int 2]) = .ok b' ∧
      materialize [(0, .int 5)] (.bool false) = .ok r' ∧ Value.binary .eq a' b' = .ok r' := by
  have hfold : Tracer.apply (.binary .eq) [.list [.traced 0 (.scalar .int), .int 1],
      .list [.traced 0 (.scalar .int), .int 2]] (.start true) = (.ok (.bool false), .start true) :=
    rfl
  obtain ⟨a', b', r', ha, hb, hr, hiff, hdecided⟩ :=
    Tracer.fold_commutes (s := [(0, .int 5)]) rfl rfl (by decide) hfold
  exact ⟨a', b', r', ha, hb, hr,
    hiff.mpr fun _ => hdecided (.inl (.part (k := 1) rfl rfl (.known rfl rfl rfl)))⟩

/-- Where placeholders have a say in an equality, the tracer answers too early: `[%0] == [5]` is
false at once, and the lists are equal when `%0` stands for 5. -/
theorem Tracer.early_equality_fails :
    Tracer.apply (.binary .eq) [.list [.traced 0 (.scalar .int)], .list [.int 5]] (.start true) =
        (.ok (.bool false), .start true) ∧
      materialize [(0, .int 5)] (.list [.traced 0 (.scalar .int)]) = .ok (.list [.int 5]) ∧
      materialize [(0, .int 5)] (.list [.int 5]) = .ok (.list [.int 5]) ∧
      materialize [(0, .int 5)] (.bool false) = .ok (.bool false) ∧
      Value.binary .eq (.list [.int 5]) (.list [.int 5]) = .ok (.bool true) :=
  ⟨rfl, rfl, rfl, rfl, rfl⟩

end StagedFlow
