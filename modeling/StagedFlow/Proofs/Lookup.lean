import StagedFlow.Bindings

/-!
Looking up keys in finite maps after they have changed. Main results: `Bindings.find?_erase`,
`Bindings.find?_foldl_erase`, `Bindings.find?_insertAll_of_notMem`,
`Bindings.find?_insertAll_of_mem`.
-/
set_option autoImplicit false

namespace StagedFlow.Bindings

variable {κ α : Type} [DecidableEq κ]

theorem find?_cons (k : κ) (v : α) (b : Bindings κ α) (x : κ) :
    find? ((k, v) :: b) x = if k = x then some v else find? b x := rfl

theorem find?_insert (b : Bindings κ α) (key x : κ) (value : α) :
    find? (insert b key value) x = if key = x then some value else find? b x := by
  by_cases h : key = x
  · rw [if_pos h, h, find?_insert_self]
  · rw [if_neg h, find?_insert_of_ne b value h]

theorem insert_insert (b : Bindings κ α) (key : κ) (first second : α) :
    insert (insert b key first) key second = insert b key second := by
  induction b with
  | nil => simp [insert]
  | cons e rest ih =>
    obtain ⟨k, v⟩ := e
    by_cases hk : k = key
    · simp [insert, hk]
    · simp [insert, hk, ih]

/-- A key that is bound anew comes last; the others stay where they are. -/
theorem keys_prefix_insert (b : Bindings κ α) (key : κ) (value : α) :
    b.map Prod.fst <+: (insert b key value).map Prod.fst := by
  induction b with
  | nil => exact List.nil_prefix
  | cons e rest ih =>
    obtain ⟨k, v⟩ := e
    by_cases hk : k = key
    · simp [insert, hk]
    · simpa [insert, hk] using ih

theorem find?_erase (b : Bindings κ α) (key x : κ) :
    find? (erase b key) x = if x = key then none else find? b x := by
  induction b with
  | nil => simp [erase, find?]
  | cons e rest ih =>
    obtain ⟨k, v⟩ := e
    by_cases hk : k = key
    · have he : erase ((k, v) :: rest) key = erase rest key := by simp [erase, hk]
      rw [he, ih, find?_cons]
      by_cases hx : x = key
      · rw [if_pos hx, if_pos hx]
      · have hkx : k ≠ x := fun h => hx (by rw [← h, hk])
        rw [if_neg hx, if_neg hx, if_neg hkx]
    · have he : erase ((k, v) :: rest) key = (k, v) :: erase rest key := by simp [erase, hk]
      rw [he, find?_cons, ih, find?_cons]
      by_cases hkx : k = x
      · have hx : x ≠ key := fun h => hk (by rw [hkx, h])
        rw [if_pos hkx, if_neg hx, if_pos hkx]
      · rw [if_neg hkx, if_neg hkx]

theorem find?_foldl_erase (keys : List κ) (b : Bindings κ α) (x : κ) :
    find? (keys.foldl erase b) x = if x ∈ keys then none else find? b x := by
  induction keys generalizing b with
  | nil => simp
  | cons key rest ih =>
    rw [List.foldl_cons, ih, find?_erase]
    by_cases hr : x ∈ rest
    · simp [hr]
    · by_cases hx : x = key
      · simp [hx]
      · simp [hr, hx]

theorem find?_of_mem {b : Bindings κ α} (hnodup : (b.map Prod.fst).Nodup) {x : κ} {v : α}
    (h : (x, v) ∈ b) : find? b x = some v := by
  induction b with
  | nil => cases h
  | cons e rest ih =>
    obtain ⟨k, u⟩ := e
    rw [List.map_cons, List.nodup_cons] at hnodup
    rw [find?_cons]
    rcases List.mem_cons.mp h with heq | hrest
    · obtain ⟨rfl, rfl⟩ := Prod.mk.inj heq
      rw [if_pos rfl]
    · have hx : x ∈ rest.map Prod.fst := List.mem_map_of_mem hrest
      have hne : k ≠ x := fun hk => hnodup.1 (hk ▸ hx)
      rw [if_neg hne, ih hnodup.2 hrest]

theorem mem_of_find? {b : Bindings κ α} {x : κ} {v : α} (h : find? b x = some v) : (x, v) ∈ b := by
  induction b with
  | nil => cases h
  | cons e rest ih =>
    obtain ⟨k, u⟩ := e
    rw [find?_cons] at h
    split at h
    · next hk =>
      cases h
      rw [hk]
      exact List.mem_cons_self
    · exact List.mem_cons_of_mem _ (ih h)

/-! ## Several keys at once -/

theorem find?_insertAll_of_notMem {keys : List κ} {x : κ} (h : x ∉ keys) (values : List α)
    (b : Bindings κ α) : find? (insertAll b keys values) x = find? b x := by
  induction keys generalizing values b with
  | nil => cases values <;> rfl
  | cons key rest ih =>
    cases values with
    | nil => rfl
    | cons value values =>
      rw [insertAll, ih (fun hr => h (List.mem_cons_of_mem key hr))]
      exact find?_insert_of_ne b value (fun hk => h (hk ▸ List.mem_cons_self))

/-- A key that got a partner is bound to one of its partners. -/
theorem find?_insertAll_of_mem {keys : List κ} {values : List α} {x : κ}
    (hlen : keys.length = values.length) (h : x ∈ keys) (b : Bindings κ α) :
    ∃ v, (x, v) ∈ keys.zip values ∧ find? (insertAll b keys values) x = some v := by
  induction keys generalizing values b with
  | nil => cases h
  | cons key rest ih =>
    cases values with
    | nil => cases hlen
    | cons value values =>
      by_cases hr : x ∈ rest
      · obtain ⟨v, hv, hf⟩ := ih (Nat.succ.inj hlen) hr (insert b key value)
        exact ⟨v, List.mem_cons_of_mem _ hv, hf⟩
      · have hx : x = key := (List.mem_cons.mp h).resolve_right hr
        subst hx
        refine ⟨value, List.mem_cons_self, ?_⟩
        rw [insertAll, find?_insertAll_of_notMem hr, find?_insert_self]

theorem find?_insertAll_isSome {keys : List κ} {values : List α} {x : κ}
    (hlen : keys.length = values.length) (h : x ∈ keys) (b : Bindings κ α) :
    (find? (insertAll b keys values) x).isSome := by
  obtain ⟨v, -, hf⟩ := find?_insertAll_of_mem hlen h b
  rw [hf]
  rfl

/-- What keys are bound to does not depend on what was there before. -/
theorem find?_insertAll_congr {keys : List κ} {values : List α} {x : κ}
    (hlen : keys.length = values.length) (h : x ∈ keys) (b b' : Bindings κ α) :
    find? (insertAll b keys values) x = find? (insertAll b' keys values) x := by
  induction keys generalizing values b b' with
  | nil => cases h
  | cons key rest ih =>
    cases values with
    | nil => cases hlen
    | cons value values =>
      rw [insertAll, insertAll]
      by_cases hr : x ∈ rest
      · exact ih (Nat.succ.inj hlen) hr _ _
      · have hx : x = key := (List.mem_cons.mp h).resolve_right hr
        rw [find?_insertAll_of_notMem hr, find?_insertAll_of_notMem hr, hx, find?_insert_self,
          find?_insert_self]

theorem insertAll_nil (b : Bindings κ α) (keys : List κ) : insertAll b keys [] = b := by
  cases keys <;> rfl

theorem insertAll_append {keys : List κ} {values : List α} (hlen : keys.length = values.length)
    (more : List κ) (others : List α) (b : Bindings κ α) :
    insertAll b (keys ++ more) (values ++ others) =
      insertAll (insertAll b keys values) more others := by
  induction keys generalizing values b with
  | nil =>
    cases values with
    | nil => rfl
    | cons value values => cases hlen
  | cons key rest ih =>
    cases values with
    | nil => cases hlen
    | cons value values => exact ih (Nat.succ.inj hlen) (b.insert key value)

theorem forall_find?_insert {P : α → Prop} {b : Bindings κ α} {value : α}
    (h : ∀ x v, find? b x = some v → P v) (hvalue : P value) (key : κ) :
    ∀ x v, find? (insert b key value) x = some v → P v := by
  intro x v hx
  rw [find?_insert] at hx
  split at hx
  · cases hx
    exact hvalue
  · exact h x v hx

theorem forall_find?_insertAll {P : α → Prop} {keys : List κ} {values : List α} {b : Bindings κ α}
    (h : ∀ x v, find? b x = some v → P v) (hvalues : ∀ v ∈ values, P v) :
    ∀ x v, find? (insertAll b keys values) x = some v → P v := by
  induction keys generalizing b values with
  | nil => cases values <;> exact h
  | cons key keys ih =>
    cases values with
    | nil => exact h
    | cons value values =>
      exact ih (forall_find?_insert h (hvalues value (by simp)) key) fun v hv =>
        hvalues v (by simp [hv])

/-- Binding keys takes no binding away. -/
theorem isSome_find?_insertAll (keys : List κ) (values : List α) (b : Bindings κ α) (x : κ)
    (h : (find? b x).isSome) : (find? (insertAll b keys values) x).isSome := by
  induction keys generalizing values b with
  | nil => cases values <;> exact h
  | cons key rest ih =>
    cases values with
    | nil => exact h
    | cons value values =>
      rw [insertAll]
      refine ih values (insert b key value) ?_
      rw [find?_insert]
      split
      · rfl
      · exact h

end StagedFlow.Bindings
