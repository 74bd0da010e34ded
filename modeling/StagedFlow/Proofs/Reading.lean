import StagedFlow.Exec.Expr
import StagedFlow.Program.Constant
import StagedFlow.Proofs.Contract
import StagedFlow.Proofs.Lookup

/-!
What expressions read and what assignments bind. The value of an expression depends on the names
that it uses and on nothing else of an environment; an assignment binds all names of its target, to
values that do not depend on the environment. Main definitions: `Env.AgreeOn`, `Target.parts`. Main
results: `Expr.eval_congr`, `Target.assign_eq`.
-/
set_option autoImplicit false

namespace StagedFlow

/-! ## Environments that agree -/

namespace Env

variable {names others : List String} {env env' : Env}

/-- Each of the names has the same value in both environments, or in none of them. -/
def AgreeOn (names : List String) (env env' : Env) : Prop :=
  ∀ x ∈ names, Bindings.find? env x = Bindings.find? env' x

theorem AgreeOn.mono (h : AgreeOn names env env') (hsub : others ⊆ names) :
    AgreeOn others env env' :=
  fun x hx => h x (hsub hx)

theorem AgreeOn.lookup {name : String} (h : AgreeOn names env env') (hname : name ∈ names) :
    env.lookup name = env'.lookup name := by
  rw [Env.lookup, Env.lookup, h name hname]

theorem AgreeOn.insertAll {keys : List String} {values : List Value}
    (hlen : keys.length = values.length)
    (h : ∀ x ∈ names, x ∉ keys → Bindings.find? env x = Bindings.find? env' x) :
    AgreeOn names (Bindings.insertAll env keys values) (Bindings.insertAll env' keys values) := by
  intro x hx
  by_cases hkey : x ∈ keys
  · exact Bindings.find?_insertAll_congr hlen hkey env env'
  · rw [Bindings.find?_insertAll_of_notMem hkey, Bindings.find?_insertAll_of_notMem hkey]
    exact h x hx hkey

end Env

namespace Expr

variable {env env' : Env}

mutual

/-- An expression has the same value in environments that agree on what it uses. -/
theorem eval_congr : ∀ {e : Expr}, Env.AgreeOn e.uses env env' → e.eval env = e.eval env'
  | literal l, _ => rfl
  | var name, h => by
    rw [eval, eval, h.lookup List.mem_cons_self]
  | binary op left right, h => by
    rw [eval, eval, eval_congr (h.mono (List.subset_append_left _ _)),
      eval_congr (h.mono (List.subset_append_right _ _))]
  | neg operand, h => by
    rw [eval, eval, eval_congr (e := operand) h]
  | and left right, h => by
    rw [eval, eval, eval_congr (h.mono (List.subset_append_left _ _)),
      eval_congr (h.mono (List.subset_append_right _ _))]
  | or left right, h => by
    rw [eval, eval, eval_congr (h.mono (List.subset_append_left _ _)),
      eval_congr (h.mono (List.subset_append_right _ _))]
  | not operand, h => by
    rw [eval, eval, eval_congr (e := operand) h]
  | list items, h => by
    rw [eval, eval, evalAll_congr h]
  | tuple items, h => by
    rw [eval, eval, evalAll_congr h]
  | dict entries, h => by
    rw [eval, eval, evalEntries_congr h]
  | index base i, h => by
    rw [eval, eval, eval_congr (h.mono (List.subset_append_left _ _)),
      eval_congr (h.mono (List.subset_append_right _ _))]
  | call function args, h => by
    rw [eval, eval, evalAll_congr h]

theorem evalAll_congr : ∀ {es : List Expr}, Env.AgreeOn (usesOf es) env env' →
    evalAll env es = evalAll env' es
  | [], _ => rfl
  | e :: rest, h => by
    rw [evalAll, evalAll, eval_congr (h.mono (List.subset_append_left _ _)),
      evalAll_congr (h.mono (List.subset_append_right _ _))]

theorem evalEntries_congr : ∀ {es : List (Expr × Expr)}, Env.AgreeOn (usesOfEntries es) env env' →
    evalEntries env es = evalEntries env' es
  | [], _ => rfl
  | (k, v) :: rest, h => by
    have hboth := h.mono (List.subset_append_left (k.uses ++ v.uses) _)
    rw [evalEntries, evalEntries, eval_congr (hboth.mono (List.subset_append_left _ _)),
      eval_congr (hboth.mono (List.subset_append_right _ _)),
      evalEntries_congr (h.mono (List.subset_append_right _ _))]

end

end Expr

/-! ## Assignment -/

theorem length_mapM_eq_ok {σ ε α β : Type} {f : α → Step σ ε β} :
    ∀ {items : List α} {values : List β} {s s' : σ},
      items.mapM f s = (.ok values, s') → values.length = items.length
  | [], values, s, s', h => by
    rw [List.mapM_nil] at h
    cases h
    rfl
  | a :: rest, values, s, s', h => by
    rw [List.mapM_cons] at h
    obtain ⟨b, s₁, -, h₁⟩ := Step.bind_eq_ok h
    obtain ⟨bs, s₂, hrest, h₂⟩ := Step.bind_eq_ok h₁
    cases h₂
    rw [List.length_cons, List.length_cons, length_mapM_eq_ok hrest]

/-- A value is split into as many parts as are wanted. -/
theorem Value.length_split {v : Value} {arity : Nat} {parts : List Value} {t t' : Tracer}
    (h : v.split arity t = (.ok parts, t')) : parts.length = arity := by
  have hitems : itemsByIndex v arity t = (.ok parts, t') → parts.length = arity := fun h => by
    rw [length_mapM_eq_ok h, List.length_range]
  have hcounted : ∀ {found : Nat} {items : Step Tracer Fault (List Value)} {fault : Fault},
      (items t = (.ok parts, t') → parts.length = found ∨ parts.length = arity) →
      (if found = arity then items else Step.fail fault) t = (.ok parts, t') →
      parts.length = arity := by
    intro found items fault hlength hif
    by_cases hfound : found = arity
    · rw [if_pos hfound] at hif
      rcases hlength hif with hfound' | harity
      · rw [hfound', hfound]
      · exact harity
    · rw [if_neg hfound] at hif
      cases hif
  cases v with
  | list items =>
    refine hcounted (fun hdone => .inl ?_) h
    cases hdone
    rfl
  | tuple items =>
    refine hcounted (fun hdone => .inl ?_) h
    cases hdone
    rfl
  | array a =>
    simp only [split] at h
    split at h
    · cases h
    · exact hcounted (fun hdone => .inr (hitems hdone)) h
  | traced id type =>
    rcases hleading : type.leading? with _ | length
    · simp only [split, hleading] at h
      cases h
    · simp only [split, hleading] at h
      exact hcounted (fun hdone => .inr (hitems hdone)) h
  | _ => cases h

namespace Target

mutual

/-- The values that the names of a target get, in order. -/
def parts : Target → Value → Step Tracer Fault (List Value)
  | name _, v => return [v]
  | tuple items, v => do
    let values ← v.split items.length
    partsOf items values

def partsOf : List Target → List Value → Step Tracer Fault (List Value)
  | t :: ts, v :: vs => do
    let first ← t.parts v
    let rest ← partsOf ts vs
    return first ++ rest
  | _, _ => return []

end

mutual

theorem length_parts : ∀ {target : Target} {v : Value} {values : List Value} {t t' : Tracer},
    target.parts v t = (.ok values, t') → target.names.length = values.length
  | name _, v, values, t, t', h => by
    cases h
    rfl
  | tuple items, v, values, t, t', h => by
    obtain ⟨vs, t₁, hsplit, hparts⟩ := Step.bind_eq_ok h
    exact length_partsOf (Value.length_split hsplit).symm hparts

theorem length_partsOf : ∀ {targets : List Target} {vs values : List Value} {t t' : Tracer},
    targets.length = vs.length → partsOf targets vs t = (.ok values, t') →
      (namesOf targets).length = values.length
  | [], vs, values, t, t', hlen, h => by
    cases h
    rfl
  | target :: rest, [], values, t, t', hlen, h => by
    cases hlen
  | target :: rest, v :: vs, values, t, t', hlen, h => by
    obtain ⟨first, t₁, hfirst, h₁⟩ := Step.bind_eq_ok h
    obtain ⟨others, t₂, hothers, h₂⟩ := Step.bind_eq_ok h₁
    cases h₂
    rw [namesOf, List.length_append, List.length_append, length_parts hfirst,
      length_partsOf (Nat.succ.inj hlen) hothers]

end

mutual

/-- An assignment binds the names of the target to its parts. -/
theorem assign_eq : ∀ (target : Target) (v : Value) (env : Env),
    target.assign v env = do
      let values ← target.parts v
      return Bindings.insertAll env target.names values
  | name _, v, env => rfl
  | tuple items, v, env => by
    rw [assign, parts, bind_assoc]
    congr 1
    funext vs
    exact assignAll_eq items vs env

theorem assignAll_eq : ∀ (targets : List Target) (vs : List Value) (env : Env),
    assignAll targets vs env = do
      let values ← partsOf targets vs
      return Bindings.insertAll env (namesOf targets) values
  | [], vs, env => by cases vs <;> rfl
  | target :: rest, [], env => by
    show _ = (Pure.pure (Bindings.insertAll env (namesOf (target :: rest)) []) : Step _ _ _)
    rw [Bindings.insertAll_nil]
    rfl
  | target :: rest, v :: vs, env => by
    funext t
    rw [assignAll, assign_eq target, partsOf, bind_assoc, bind_assoc]
    rcases hfirst : target.parts v t with ⟨h | first, t₁⟩
    · rw [Step.bind_of_error hfirst, Step.bind_of_error hfirst]
    · -- the first target has all its values, so the rest of them goes to the other targets
      rw [Step.bind_of_ok hfirst, Step.bind_of_ok hfirst, pure_bind, assignAll_eq rest, bind_assoc]
      simp only [pure_bind, namesOf, Bindings.insertAll_append (length_parts hfirst)]

end

end Target

end StagedFlow
