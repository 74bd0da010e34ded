import StagedFlow.Proofs.Evaluation
import StagedFlow.Proofs.GraphRuns

/-!
Traced and host environments side by side. A traced value stands for what the store of a running
graph has for it, and two environments agree on names if the traced values of those names stand for
the scalars that the host has. Main definitions: `Store.Reads`, `Store.Later`, `Agrees`,
`Settles`, `HandsOn`. Main results: `Agrees.later`, `Agrees.carries`, `HandsOn.agrees`.
-/
set_option autoImplicit false

namespace StagedFlow

open Tracer

namespace Store

/-- What a value means in a store. Placeholders have numbers below the bound, so that what is
recorded from now on does not touch them. -/
inductive Reads (s : Store) (bound : Nat) : Value → Value → Prop
  | host {v : Value} (h : v.isTraced = false) : Reads s bound v v
  | traced {id : Nat} {type : ArrayType} {w : Value} (old : id < bound)
      (found : Bindings.find? s id = some w) : Reads s bound (.traced id type) w

/-- A store in which the values below a bound are as they were, and a bound that has only grown. -/
structure Later (bound : Nat) (s : Store) (bound' : Nat) (s' : Store) : Prop where
  bounds : bound ≤ bound'
  same : ∀ id, id < bound → Bindings.find? s' id = Bindings.find? s id

theorem Later.refl (bound : Nat) (s : Store) : Later bound s bound s :=
  ⟨Nat.le_refl bound, fun _ _ => rfl⟩

theorem Later.trans {bound bound' bound'' : Nat} {s s' s'' : Store} (h : Later bound s bound' s')
    (h' : Later bound' s' bound'' s'') : Later bound s bound'' s'' where
  bounds := Nat.le_trans h.bounds h'.bounds
  same := fun id hid => (h'.same id (Nat.lt_of_lt_of_le hid h.bounds)).trans (h.same id hid)

theorem Later.insertAll {bound bound' bound'' : Nat} {s s' : Store} (h : Later bound s bound' s')
    {ids : List Nat} (hids : ∀ id ∈ ids, bound ≤ id) (hbound : bound' ≤ bound'')
    (values : List Value) : Later bound s bound'' (Bindings.insertAll s' ids values) where
  bounds := Nat.le_trans h.bounds hbound
  same := fun id hid => by
    have hnew : id ∉ ids := fun hmem => Nat.not_lt.mpr (hids id hmem) hid
    rw [Bindings.find?_insertAll_of_notMem hnew]
    exact h.same id hid

variable {s s' : Store} {bound bound' : Nat} {v w : Value}

theorem Reads.later (h : Reads s bound v w) (hs : Later bound s bound' s') :
    Reads s' bound' v w := by
  cases h with
  | host h => exact .host h
  | traced old found =>
    exact .traced (Nat.lt_of_lt_of_le old hs.bounds) ((hs.same _ old).trans found)

theorem Reads.eq_of_host (h : Reads s bound v w) (hv : v.isTraced = false) : w = v := by
  cases h with
  | host _ => rfl
  | traced _ _ => cases hv

/-- An operand has the meaning of its value. -/
theorem Reads.operand (h : Reads s bound v w) {operand : Operand} {type : ArrayType}
    (hoperand : operandOf v = .ok (operand, type)) : s.operand operand = .ok w := by
  cases h with
  | traced old found =>
    cases hoperand
    simp only [Store.operand, found]
  | host h =>
    have hconst : operand = .const v := by
      cases v with
      | traced => cases h
      | scalar x => cases hoperand; rfl
      | array a => cases hoperand; rfl
      | _ => cases hoperand
    rw [hconst]
    rfl

theorem operands_cons_eq_ok {operand : Operand} {operands : List Operand} {values : List Value}
    (h : s.operands (operand :: operands) = .ok values) :
    ∃ v vs, s.operand operand = .ok v ∧ s.operands operands = .ok vs ∧ values = v :: vs := by
  rw [Store.operands, List.mapM_cons] at h
  obtain ⟨v, hv, h₁⟩ := Outcome.bind_eq_ok h
  obtain ⟨vs, hvs, h₂⟩ := Outcome.bind_eq_ok h₁
  exact ⟨v, vs, hv, hvs, (Except.ok.inj h₂).symm⟩

/-- New placeholders read what was bound to them. -/
theorem reads_placeholders {start : Nat} {types : List ArrayType} {values : List Value}
    (hlen : types.length = values.length) (hbound : start + types.length ≤ bound) (s : Store) :
    List.Forall₂ (Reads (Bindings.insertAll s (List.range' start types.length) values) bound)
      (placeholders (List.range' start types.length) types) values := by
  induction types generalizing start values s with
  | nil =>
    cases values with
    | nil => exact .nil
    | cons _ _ => cases hlen
  | cons type types ih =>
    cases values with
    | nil => cases hlen
    | cons value values =>
      rw [List.length_cons] at hbound
      rw [List.length_cons, List.range'_succ]
      refine .cons (.traced (by omega) ?_) (ih (Nat.succ.inj hlen) (by omega) _)
      have hnew : start ∉ List.range' (start + 1) types.length := by
        simp only [List.mem_range'_1]
        omega
      rw [Bindings.insertAll, Bindings.find?_insertAll_of_notMem hnew,
        Bindings.find?_insert_self]

end Store

/-- Recorded nodes that ran have changed nothing that was there before. -/
theorem Tracer.Appends.later {t t' : Tracer} {nodes : List Node} (h : t.Appends nodes t')
    {s s' : Store} (hrun : RunsTo nodes s s') :
    Store.Later t.nextValue s t'.nextValue s' where
  bounds := h.nextValue
  same := fun id hid => hrun.find? fun hmem => Nat.not_lt.mpr (h.binders id hmem).1 hid

/-- Numbers that were issued for nothing do not matter to a store. -/
theorem Tracer.Appends.later_self {t t' : Tracer} (h : t.Appends [] t') (s : Store) :
    Store.Later t.nextValue s t'.nextValue s :=
  ⟨h.nextValue, fun _ _ => rfl⟩

/-! ## Environments -/

/-- On the names `live`, what the traced environment has stands for what the host has. -/
def Agrees (s : Store) (bound : Nat) (live : List String) (env host : Env) : Prop :=
  ∀ x ∈ live, ∀ v, Bindings.find? env x = some v →
    ∃ y : Scalar, Bindings.find? host x = some (.scalar y) ∧ s.Reads bound v (.scalar y)

/-- Of the given names, those in `live` have the given values on the host. -/
def Carries (host : Env) (live names : List String) (values : List Value) : Prop :=
  ∀ x w, (x, w) ∈ names.zip values → x ∈ live →
    ∃ y : Scalar, w = .scalar y ∧ Bindings.find? host x = some (.scalar y)

namespace Agrees

variable {s s' : Store} {bound bound' : Nat} {live live' names : List String} {env host : Env}

theorem mono (h : Agrees s bound live env host) (hsub : live' ⊆ live) :
    Agrees s bound live' env host :=
  fun x hx => h x (hsub hx)

theorem later (h : Agrees s bound live env host) (hs : Store.Later bound s bound' s') :
    Agrees s' bound' live env host := by
  intro x hx v hv
  obtain ⟨y, hy, hreads⟩ := h x hx v hv
  exact ⟨y, hy, hreads.later hs⟩

theorem insert (h : Agrees s bound live env host) {name : String} {v : Value} {y : Scalar}
    (hv : s.Reads bound v (.scalar y)) (hlive : ∀ x ∈ live', x ≠ name → x ∈ live) :
    Agrees s bound live' (Bindings.insert env name v)
      (Bindings.insert host name (.scalar y)) := by
  intro x hx u hu
  rw [Bindings.find?_insert] at hu ⊢
  by_cases hname : name = x
  · rw [if_pos hname] at hu
    cases hu
    exact ⟨y, if_pos hname, hv⟩
  · rw [if_neg hname] at hu
    rw [if_neg hname]
    exact h x (hlive x hx (Ne.symm hname)) u hu

/-- Values collected from a traced environment are read from the store as what the host has. -/
theorem carries (h : Agrees s bound live env host) {values outs : List Value}
    {operands : List Operand} {types : List ArrayType} (hcollect : env.collect names = .ok values)
    (hoperands : operandsOf values = .ok (operands, types))
    (houts : s.operands operands = .ok outs) : Carries host live names outs := by
  induction names generalizing values outs operands types with
  | nil => exact fun x w hmem => absurd hmem List.not_mem_nil
  | cons name names ih =>
    obtain ⟨v, vs, hv, hvs, rfl⟩ := Env.collect_cons_eq_ok hcollect
    obtain ⟨operand, type, operands', types', hop, hops, rfl, rfl⟩ :=
      operandsOf_cons_eq_ok hoperands
    obtain ⟨out, outs', hout, houts', rfl⟩ := Store.operands_cons_eq_ok houts
    intro x w hmem hx
    rcases List.mem_cons.mp hmem with heq | hmem
    · obtain ⟨rfl, rfl⟩ := Prod.mk.inj heq
      obtain ⟨y, hy, hreads⟩ := h _ hx v hv
      rw [hreads.operand hop] at hout
      exact ⟨y, (Except.ok.inj hout).symm, hy⟩
    · exact ih hvs hops houts' x w hmem hx

end Agrees

theorem mem_zip_of_forall₂ {α β γ : Type} {R : β → γ → Prop} {names : List α} {vs : List β}
    {ws : List γ} (h : List.Forall₂ R vs ws) {x : α} {v : β} (hmem : (x, v) ∈ names.zip vs) :
    ∃ w, (x, w) ∈ names.zip ws ∧ R v w := by
  induction h generalizing names with
  | nil => simp at hmem
  | cons hR _ ih =>
    cases names with
    | nil => cases hmem
    | cons name names =>
      rcases List.mem_cons.mp hmem with heq | hmem
      · obtain ⟨rfl, rfl⟩ := Prod.mk.inj heq
        exact ⟨_, List.mem_cons_self, hR⟩
      · obtain ⟨w, hw, hR⟩ := ih hmem
        exact ⟨w, List.mem_cons_of_mem _ hw, hR⟩

/-! ## Steps -/

/-- All names but the given ones have the values that they had. -/
def Env.ChangesOnly (names : List String) (host host' : Env) : Prop :=
  ∀ x, x ∉ names → Bindings.find? host' x = Bindings.find? host x

namespace Env.ChangesOnly

variable {names names' : List String} {host host' host'' : Env}

theorem refl (names : List String) (host : Env) : ChangesOnly names host host :=
  fun _ _ => rfl

theorem trans (h : ChangesOnly names host host') (h' : ChangesOnly names host' host'') :
    ChangesOnly names host host'' :=
  fun x hx => (h' x hx).trans (h x hx)

theorem mono (h : ChangesOnly names host host') (hsub : names ⊆ names') :
    ChangesOnly names' host host' :=
  fun x hx => h x fun hmem => hx (hsub hmem)

theorem insert {name : String} (hname : name ∈ names) (host : Env) (v : Value) :
    ChangesOnly names host (Bindings.insert host name v) := by
  intro x hx
  exact Bindings.find?_insert_of_ne host v fun heq => hx (heq ▸ hname)

end Env.ChangesOnly

/-- A traced step has come to `env'` and the step on the host from `host` to `host'`. They agree on
what is live after the step, which was live before it if the step does not assign it. -/
structure Settles (s : Store) (bound : Nat) (before after names : List String)
    (host env' host' : Env) : Prop where
  agrees : Agrees s bound after env' host'
  only : Env.ChangesOnly names host host'
  survives : ∀ x ∈ after, x ∉ names → x ∈ before

namespace Settles

variable {s s' : Store} {bound bound' : Nat}
  {before mid after before' after' names names' : List String} {host host' host'' env' env'' : Env}

theorem trans (h : Settles s bound before mid names host env' host')
    (h' : Settles s' bound' mid after names host' env'' host'') :
    Settles s' bound' before after names host env'' host'' where
  agrees := h'.agrees
  only := h.only.trans h'.only
  survives := fun x hx hname => h.survives x (h'.survives x hx hname) hname

theorem mono (h : Settles s bound before after names host env' host') (hbefore : before ⊆ before')
    (hafter : after' ⊆ after) (hnames : names ⊆ names') :
    Settles s bound before' after' names' host env' host' where
  agrees := h.agrees.mono hafter
  only := h.only.mono hnames
  survives := fun x hx hname =>
    hbefore (h.survives x (hafter hx) fun hmem => hname (hnames hmem))

end Settles

/-- A part of a block hands values on: on the host, which came from `host` to `host'`, the names
that are live after it have these values. -/
structure HandsOn (host host' : Env) (before after names outputs : List String)
    (values : List Value) : Prop where
  carries : Carries host' after outputs values
  only : Env.ChangesOnly names host host'
  survives : ∀ x ∈ after, x ∉ names → x ∈ before
  length : outputs.length = values.length

namespace HandsOn

variable {host host' host'' env : Env} {before mid after names outputs inputs : List String}
  {values passed vs : List Value} {s s' : Store} {bound bound' : Nat}

theorem trans (h : HandsOn host host' before mid names inputs passed)
    (h' : HandsOn host' host'' mid after names outputs values) :
    HandsOn host host'' before after names outputs values where
  carries := h'.carries
  only := h.only.trans h'.only
  survives := fun x hx hname => h.survives x (h'.survives x hx hname) hname
  length := h'.length

/-- Bound to names, the values that are handed on make the environments agree: the other names are
as they were on both sides. -/
theorem agrees (h : HandsOn host host' before after names outputs values)
    (hagree : Agrees s bound before env host) (hlater : Store.Later bound s bound' s')
    (hreads : List.Forall₂ (s'.Reads bound') vs values)
    (hnames : ∀ x ∈ names, x ∈ after → x ∈ outputs) :
    Agrees s' bound' after (Bindings.insertAll env outputs vs) host' := by
  intro x hx v hv
  have hlen : outputs.length = vs.length := h.length.trans hreads.length_eq.symm
  by_cases hname : x ∈ outputs
  · obtain ⟨u, hmem, hu⟩ := Bindings.find?_insertAll_of_mem hlen hname env
    obtain rfl : u = v := Option.some.inj (hu.symm.trans hv)
    obtain ⟨w, hmem', hread⟩ := mem_zip_of_forall₂ hreads hmem
    obtain ⟨y, rfl, hy⟩ := h.carries x w hmem' hx
    exact ⟨y, hy, hread⟩
  · have hkept : x ∉ names := fun hmem => hname (hnames x hmem hx)
    rw [Bindings.find?_insertAll_of_notMem hname] at hv
    rw [h.only x hkept]
    exact hagree.later hlater x (h.survives x hx hkept) v hv

theorem settles (h : HandsOn host host' before after names outputs values)
    (hagree : Agrees s bound before env host) (hlater : Store.Later bound s bound' s')
    (hreads : List.Forall₂ (s'.Reads bound') vs values)
    (hnames : ∀ x ∈ names, x ∈ after → x ∈ outputs) :
    Settles s' bound' before after names host (Bindings.insertAll env outputs vs) host' :=
  ⟨h.agrees hagree hlater hreads hnames, h.only, h.survives⟩

end HandsOn

end StagedFlow
