import StagedFlow.Exec.Expr
import StagedFlow.Exec.Iteration
import StagedFlow.Proofs.Evolution

/-!
What evaluation does to a tracer. Expressions, assignments and the items of a loop only add nodes to
the current region, and if the values that they start from are known to the tracer, then so are
those that they lead to. Main definitions: `Env.Known`, `Feed.Known`, `Elements.Known`. Main
results: `Expr.keeps_eval`, `Target.keeps_assign`, `Feed.keeps_of`, `Elements.keeps_element`.
-/
set_option autoImplicit false

namespace StagedFlow

open Tracer

/-! ## Environments -/

/-- All values of the environment are known. -/
def Env.Known (t : Tracer) (env : Env) : Prop :=
  ∀ name v, Bindings.find? env name = some v → t.Knows v

namespace Env

variable {t : Tracer} {env : Env}

theorem Known.insert {v : Value} (h : env.Known t) (hv : t.Knows v) (name : String) :
    Known t (Bindings.insert env name v) :=
  Bindings.forall_find?_insert h hv name

theorem Known.insertAll {names : List String} {values : List Value} (h : env.Known t)
    (hvalues : ∀ v ∈ values, t.Knows v) : Known t (Bindings.insertAll env names values) :=
  Bindings.forall_find?_insertAll h hvalues

theorem lookup_eq_ok {name : String} {v : Value} (h : env.lookup name = .ok v) :
    Bindings.find? env name = some v := by
  unfold lookup at h
  split at h
  · next hfind => rw [hfind, Except.ok.inj h]
  · cases h

theorem collect_cons_eq_ok {name : String} {names : List String} {values : List Value}
    (h : env.collect (name :: names) = .ok values) :
    ∃ v vs, Bindings.find? env name = some v ∧ env.collect names = .ok vs ∧ values = v :: vs := by
  unfold collect at h
  rcases hv : env.lookup name with e | v
  · rw [hv] at h
    cases h
  rcases hvs : env.collect names with e | vs
  · rw [hv, hvs] at h
    cases h
  rw [hv, hvs] at h
  cases h
  exact ⟨v, vs, lookup_eq_ok hv, rfl, rfl⟩

/-- What holds of all values of an environment holds of those that are collected. -/
theorem forall_collect {P : Value → Prop} {names : List String} {values : List Value}
    (h : ∀ name v, Bindings.find? env name = some v → P v)
    (hvalues : env.collect names = .ok values) : ∀ v ∈ values, P v := by
  induction names generalizing values with
  | nil =>
    cases hvalues
    intro v hv
    cases hv
  | cons name names ih =>
    obtain ⟨v, vs, hv, hvs, rfl⟩ := collect_cons_eq_ok hvalues
    intro w hw
    rcases List.mem_cons.mp hw with rfl | hw
    · exact h name _ hv
    · exact ih hvs w hw

theorem Known.collect {names : List String} {values : List Value} (h : env.Known t)
    (hvalues : env.collect names = .ok values) : ∀ v ∈ values, t.Knows v :=
  forall_collect h hvalues

end Env

theorem Tracer.Evolves.known {known : Prop} {t t' : Tracer} (h : Evolves known t t')
    (ht : t.Numbered) {env : Env} (henv : env.Known t) : env.Known t' :=
  fun name v hv => h.knows ht (henv name v hv)

theorem Tracer.knows_pair {t : Tracer} {v w : Value} (hv : t.Knows v) (hw : t.Knows w) :
    ∀ u ∈ [v, w], t.Knows u := by
  simpa using And.intro hv hw

namespace Eval

variable {known : Prop} {t : Tracer} {α : Type}

theorem keeps_ofExcept {x : Except RunError α} {Q : α → Tracer → Prop}
    (h : ∀ a, x = .ok a → Q a t) : (Eval.ofExcept x).Keeps (protocol known) t Q := by
  cases x with
  | ok a => exact .done (h a rfl)
  | error e => exact .fail

theorem keeps_ofFault {x : Except Fault α} {Q : α → Tracer → Prop}
    (h : ∀ a, x = .ok a → Q a t) : (Eval.ofFault x).Keeps (protocol known) t Q :=
  .mapError (.ofFault h)

theorem keeps_ofOutcome {x : Outcome α} {Q : α → Tracer → Prop}
    (h : ∀ a, x = .ok a → Q a t) : (Eval.ofOutcome x).Keeps (protocol known) t Q :=
  .mapError (.ofExcept h)

theorem keeps_apply (op : Op) {args : List Value} (hargs : known → ∀ v ∈ args, t.Knows v) :
    (Eval.apply op args).Keeps (protocol known) t fun v t' => known → t'.Knows v :=
  .mapError (Tracer.keeps_apply op hargs)

end Eval

/-! ## Functions -/

theorem forall_of_mapM_eq_ok {ε α β : Type} {f : α → Except ε β} {P : β → Prop} {as : List α}
    {bs : List β} (hf : ∀ a ∈ as, ∀ b, f a = .ok b → P b) (h : as.mapM f = .ok bs) :
    ∀ b ∈ bs, P b := by
  induction as generalizing bs with
  | nil =>
    cases h
    intro b hb
    cases hb
  | cons a as ih =>
    rw [List.mapM_cons] at h
    rcases hb : f a with e | b
    · rw [hb] at h
      cases h
    rcases hbs : as.mapM f with e | bs'
    · rw [hb, hbs] at h
      cases h
    rw [hb, hbs] at h
    cases h
    intro c hc
    rcases List.mem_cons.mp hc with rfl | hc
    · exact hf a (by simp) _ hb
    · exact ih (fun a' ha' => hf a' (by simp [ha'])) hbs c hc

namespace Builtin

variable {known : Prop} {t : Tracer}

theorem knows_rangeBound {v w : Value} (hv : t.Knows v) (h : rangeBound v = .ok w) : t.Knows w := by
  unfold rangeBound at h
  split at h
  · cases h
    exact hv
  · cases h
    exact knows_of_nil rfl
  · split at h
    · cases h
      exact hv
    · cases h
  · cases h

theorem knows_range {start stop step : Value} (hstart : t.Knows start) (hstop : t.Knows stop)
    (hstep : t.Knows step) : t.Knows (.range start stop step) := by
  intro p hp
  simp only [Value.placeholders, List.mem_append] at hp
  rcases hp with hp | hp | hp
  · exact hstart p hp
  · exact hstop p hp
  · exact hstep p hp

theorem knows_makeRange {bounds : List Value} {w : Value} (hbounds : ∀ v ∈ bounds, t.Knows v)
    (h : makeRange bounds = .ok w) : t.Knows w := by
  have hint : ∀ n, t.Knows (.int n) := fun _ => knows_of_nil rfl
  unfold makeRange at h
  simp only at h
  split at h <;> split at h
  · cases h
  · cases h
    exact knows_range (hint 0) (hbounds _ (by simp)) (hint 1)
  · cases h
  · cases h
    exact knows_range (hbounds _ (by simp)) (hbounds _ (by simp)) (hint 1)
  · cases h
  · cases h
    exact knows_range (hbounds _ (by simp)) (hbounds _ (by simp)) (hbounds _ (by simp))
  · cases h
  · cases h
    exact knows_range (hint 0) (knows_of_nil rfl) (hint 1)

theorem knows_makeArray {v w : Value} (hv : t.Knows v) (h : makeArray v = .ok w) : t.Knows w := by
  unfold makeArray at h
  split at h
  · cases h
    exact hv
  split at h
  · cases h
  obtain ⟨found, -, h⟩ := Outcome.bind_eq_ok h
  split at h
  · cases h
    exact knows_of_nil rfl
  · obtain ⟨a, -, h⟩ := Outcome.bind_eq_ok h
    cases h
    exact knows_of_nil rfl
  · cases h

theorem knows_dictItems {v w : Value} (hv : t.Knows v) (h : dictItems v = .ok w) : t.Knows w := by
  cases v with
  | dict entries =>
    cases h
    refine knows_list.mpr fun item hitem => ?_
    obtain ⟨e, he, rfl⟩ := List.mem_map.mp hitem
    have hentry := knows_dict.mp hv e he
    exact knows_tuple.mpr (knows_pair hentry.1 hentry.2)
  | _ => cases h

theorem keeps_convertTo (elem : ElemType) {v : Value} (hv : known → t.Knows v) :
    (convertTo elem v).Keeps (protocol known) t fun w t' => known → t'.Knows w := by
  unfold convertTo
  split
  · refine Tracer.keeps_apply _ fun hk w hw => ?_
    rw [List.mem_singleton.mp hw]
    exact hv hk
  · exact .ofExcept fun w hw _ => knows_of_nil ((Value.regular_convert elem v).of_ok hw)

theorem keeps_call (f : Builtin) {args : List Value} (hargs : known → ∀ v ∈ args, t.Knows v) :
    (f.call args).Keeps (protocol known) t fun w t' => known → t'.Knows w := by
  have hhead : known → t.Knows (args.headD .none) := by
    intro hk
    cases args with
    | nil => exact knows_of_nil rfl
    | cons v vs => exact hargs hk v (by simp)
  unfold call
  split
  · cases f with
    | range =>
      refine .ofFault fun w hw hk => ?_
      rcases hbounds : args.mapM rangeBound with f | bounds
      · rw [hbounds] at hw
        cases hw
      rw [hbounds] at hw
      refine knows_makeRange (forall_of_mapM_eq_ok (fun v hv b hb => ?_) hbounds) hw
      exact knows_rangeBound (hargs hk v hv) hb
    | enumerate =>
      refine .ofFault fun w hw hk => ?_
      split at hw
      · next start _ =>
        rcases hstart : start.toIndex with f | i
        · rw [hstart] at hw
          cases hw
        · rw [hstart] at hw
          cases hw
          exact hhead hk
      · cases hw
        exact hhead hk
    | len =>
      refine .ofFault fun w hw _ => knows_of_nil ?_
      rcases hlen : valueLength (args.headD .none) with f | n
      · rw [hlen] at hw
        cases hw
      · rw [hlen] at hw
        cases hw
        rfl
    | int => exact keeps_convertTo .int hhead
    | float => exact keeps_convertTo .float hhead
    | array => exact .ofExcept fun w hw hk => knows_makeArray (hhead hk) hw
    | kron => exact Tracer.keeps_apply .kron hargs
    | items => exact .ofFault fun w hw hk => knows_dictItems (hhead hk) hw
  · exact .fail

end Builtin

/-! ## Expressions -/

namespace Expr

variable {known : Prop} {t : Tracer}

theorem keeps_evalLogical (op : LogicalOp) {left : Value} {right : Eval Value}
    (hleft : known → t.Knows left)
    (hright : right.Keeps (protocol known) t fun v t' => known → t'.Knows v) :
    (evalLogical op left right).Keeps (protocol known) t fun v t' => known → t'.Knows v := by
  unfold evalLogical
  split
  · refine hright.bind fun w t' ht h hw => ?_
    split
    · exact Eval.keeps_apply _ fun hk => knows_pair (Evolves.knows h ht (hleft hk)) (hw hk)
    · exact .fail
  · intro ht
    refine Step.Keeps.bind (Q := fun _ t' => t' = t) (Eval.keeps_ofFault fun _ _ => rfl)
      (fun truth t' _ _ ht' => ?_) ht
    subst ht'
    split
    · exact .pure hleft
    · exact hright

theorem keeps_evalNot {v : Value} (hv : known → t.Knows v) :
    (evalNot v).Keeps (protocol known) t fun w t' => known → t'.Knows w := by
  unfold evalNot
  split
  · refine Eval.keeps_apply _ fun hk w hw => ?_
    rw [List.mem_singleton.mp hw]
    exact hv hk
  · refine Step.Keeps.bind (Q := fun _ _ => True) (Eval.keeps_ofFault fun _ _ => trivial) ?_
    exact fun truth t' _ _ _ => .pure fun _ => knows_of_nil rfl

theorem keeps_evalIndex {base i : Value} (hbase : known → t.Knows base) (hi : known → t.Knows i) :
    (evalIndex base i).Keeps (protocol known) t fun w t' => known → t'.Knows w := by
  unfold evalIndex
  split
  · exact Eval.keeps_apply _ fun hk => knows_pair (hbase hk) (hi hk)
  · refine .mapError (.ofExcept fun w hw hk => ?_)
    exact knows_of_subset ((Value.regular_index base i).of_ok hw) (hbase hk)

mutual

/-- The value of an expression is known if the environment is. -/
theorem keeps_eval {env : Env} : ∀ (e : Expr) (t : Tracer), (known → env.Known t) →
    (e.eval env).Keeps (protocol known) t fun v t' => known → t'.Knows v
  | literal l, t, _ => by
    refine .done fun _ => knows_of_nil ?_
    cases l <;> rfl
  | var name, t, henv => by
    exact Eval.keeps_ofExcept fun v hv hk => henv hk name v (Env.lookup_eq_ok hv)
  | binary op left right, t, henv => by
    refine (keeps_eval left t henv).bind fun a t' ht h ha => ?_
    refine (keeps_eval right t' fun hk => Evolves.known h ht (henv hk)).bind
      fun b t'' ht' h' hb => ?_
    exact Eval.keeps_apply _ fun hk => knows_pair (Evolves.knows h' ht' (ha hk)) (hb hk)
  | neg operand, t, henv => by
    refine (keeps_eval operand t henv).bind fun a t' ht h ha => ?_
    refine Eval.keeps_apply _ fun hk v hv => ?_
    rw [List.mem_singleton.mp hv]
    exact ha hk
  | and left right, t, henv => by
    refine (keeps_eval left t henv).bind fun a t' ht h ha => ?_
    exact keeps_evalLogical .and ha
      (keeps_eval right t' fun hk => Evolves.known h ht (henv hk))
  | or left right, t, henv => by
    refine (keeps_eval left t henv).bind fun a t' ht h ha => ?_
    exact keeps_evalLogical .or ha
      (keeps_eval right t' fun hk => Evolves.known h ht (henv hk))
  | not operand, t, henv => by
    exact (keeps_eval operand t henv).bind fun a t' ht h ha => keeps_evalNot ha
  | list items, t, henv => by
    exact (keeps_evalAll items t henv).bind fun vs t' _ _ hvs =>
      .pure fun hk => knows_list.mpr (hvs hk)
  | tuple items, t, henv => by
    exact (keeps_evalAll items t henv).bind fun vs t' _ _ hvs =>
      .pure fun hk => knows_tuple.mpr (hvs hk)
  | dict entries, t, henv => by
    exact (keeps_evalEntries entries t henv).bind fun es t' _ _ hes =>
      .pure fun hk => knows_dict.mpr (hes hk)
  | index base i, t, henv => by
    refine (keeps_eval base t henv).bind fun a t' ht h ha => ?_
    refine (keeps_eval i t' fun hk => Evolves.known h ht (henv hk)).bind
      fun b t'' ht' h' hb => ?_
    exact keeps_evalIndex (fun hk => Evolves.knows h' ht' (ha hk)) hb
  | call function args, t, henv => by
    exact (keeps_evalAll args t henv).bind fun vs t' _ _ hvs =>
      .mapError (Builtin.keeps_call function hvs)

theorem keeps_evalAll {env : Env} : ∀ (es : List Expr) (t : Tracer), (known → env.Known t) →
    (evalAll env es).Keeps (protocol known) t fun vs t' => known → ∀ v ∈ vs, t'.Knows v
  | [], t, _ => .pure fun _ v hv => by cases hv
  | e :: rest, t, henv => by
    refine (keeps_eval e t henv).bind fun a t' ht h ha => ?_
    refine (keeps_evalAll rest t' fun hk => Evolves.known h ht (henv hk)).bind
      fun vs t'' ht' h' hvs => .pure fun hk v hv => ?_
    rcases List.mem_cons.mp hv with rfl | hv
    · exact Evolves.knows h' ht' (ha hk)
    · exact hvs hk v hv

theorem keeps_evalEntries {env : Env} : ∀ (es : List (Expr × Expr)) (t : Tracer),
    (known → env.Known t) → (evalEntries env es).Keeps (protocol known) t
      fun vs t' => known → ∀ e ∈ vs, t'.Knows e.1 ∧ t'.Knows e.2
  | [], t, _ => .pure fun _ e he => by cases he
  | (k, v) :: rest, t, henv => by
    refine (keeps_eval k t henv).bind fun a t' ht h ha => ?_
    have henv' : known → env.Known t' := fun hk => Evolves.known h ht (henv hk)
    refine (keeps_eval v t' henv').bind fun b t'' ht' h' hb => ?_
    have henv'' : known → env.Known t'' := fun hk => Evolves.known h' ht' (henv' hk)
    refine (keeps_evalEntries rest t'' henv'').bind fun es t₃ ht'' h'' hes => .pure fun hk e he => ?_
    rcases List.mem_cons.mp he with rfl | he
    · exact ⟨Evolves.knows h'' ht'' (Evolves.knows h' ht' (ha hk)), Evolves.knows h'' ht'' (hb hk)⟩
    · exact hes hk e he

end

end Expr

/-! ## Assignment -/

variable {known : Prop} {t : Tracer}

theorem Tracer.keeps_applyEach {v : Value} (hv : known → t.Knows v) (indices : List Nat) :
    (indices.mapM fun i => Tracer.apply .index [v, .int (Int64.ofNat i)]).Keeps (protocol known) t
      fun items t' => known → ∀ w ∈ items, t'.Knows w := by
  intro ht
  refine Step.Keeps.mono (Q := fun items t' => ∀ w ∈ items, known → t'.Knows w)
    (Step.Keeps.mapM indices t (fun i _ t' h => ?_) ?_) (fun _ _ _ _ h hk w hw => h w hw hk) ht
  · exact Tracer.keeps_apply _ fun hk =>
      knows_pair (Evolves.knows h ht (hv hk)) (knows_of_nil rfl)
  · exact fun w t' t'' ht' h' hw hk => Evolves.knows h' ht' (hw hk)

theorem Value.keeps_split {v : Value} (hv : known → t.Knows v) (arity : Nat) :
    (v.split arity).Keeps (protocol known) t fun items t' => known → ∀ w ∈ items, t'.Knows w := by
  cases v with
  | list items =>
    unfold split
    simp only
    split
    · exact .done fun hk => knows_list.mp (hv hk)
    · exact .fail
  | tuple items =>
    unfold split
    simp only
    split
    · exact .done fun hk => knows_tuple.mp (hv hk)
    · exact .fail
  | array a =>
    unfold split
    simp only
    split
    · exact .fail
    split
    · exact Tracer.keeps_applyEach hv _
    · exact .fail
  | traced id type =>
    unfold split
    simp only
    split
    · split
      · exact Tracer.keeps_applyEach hv _
      · exact .fail
    · exact .fail
  | _ => exact .fail

namespace Target

mutual

theorem keeps_assign : ∀ (target : Target) {v : Value} {env : Env} {t : Tracer},
    (known → t.Knows v) → (known → env.Known t) →
    (target.assign v env).Keeps (protocol known) t fun env' t' => known → env'.Known t'
  | name n, v, env, t, hv, henv => .pure fun hk => (henv hk).insert (hv hk) n
  | tuple items, v, env, t, hv, henv => by
    refine (Value.keeps_split hv items.length).bind fun parts t' ht h hparts => ?_
    exact keeps_assignAll items hparts fun hk => Evolves.known h ht (henv hk)

theorem keeps_assignAll : ∀ (targets : List Target) {vs : List Value} {env : Env} {t : Tracer},
    (known → ∀ v ∈ vs, t.Knows v) → (known → env.Known t) →
    (assignAll targets vs env).Keeps (protocol known) t fun env' t' => known → env'.Known t'
  | target :: targets, v :: vs, env, t, hvs, henv => by
    refine (keeps_assign target (fun hk => hvs hk v (by simp)) henv).bind fun env' t' ht h henv' => ?_
    refine keeps_assignAll targets (fun hk w hw => ?_) henv'
    exact Evolves.knows h ht (hvs hk w (by simp [hw]))
  | [], _, _, _, _, henv => by
    unfold assignAll
    exact .pure henv
  | _ :: _, [], _, _, _, henv => .pure henv

end

end Target

/-! ## The items of a loop -/

theorem Counting.items_eq_ok {c : Counting} {vs : List Value} (h : c.items = .ok vs) :
    vs = c.values.map Value.int := by
  unfold items at h
  split at h
  · cases h
  · exact (Except.ok.inj h).symm

namespace Value

theorem knows_numbered {start : Int64} {items : List Value} {values : List Value}
    (hitems : ∀ v ∈ items, t.Knows v) (h : numbered start items = .ok values) :
    ∀ v ∈ values, t.Knows v := by
  refine forall_of_mapM_eq_ok (fun e he w hw => ?_) h
  obtain ⟨item, k⟩ := e
  simp only at hw
  rcases hn : checkedInt64 (start.toInt + k) with f | n
  · rw [hn] at hw
    cases hw
  rw [hn] at hw
  cases hw
  exact knows_tuple.mpr
    (knows_pair (knows_of_nil rfl) (hitems _ (List.fst_mem_of_mem_zipIdx he)))

theorem keeps_hostItems : ∀ {v : Value} {t : Tracer}, (known → t.Knows v) →
    v.hostItems.Keeps (protocol known) t fun items t' => known → ∀ w ∈ items, t'.Knows w
  | .enumerate inner start, t, hv => by
    refine (keeps_hostItems (v := inner) hv).bind fun items t' _ _ hitems => ?_
    exact .ofExcept fun values hvalues hk => knows_numbered (hitems hk) hvalues
  | .range start stop step, t, _ => by
    unfold hostItems
    split
    · split
      · exact .fail
      · refine .ofExcept fun items hitems _ w hw => ?_
        rw [Counting.items_eq_ok hitems] at hw
        obtain ⟨n, -, rfl⟩ := List.mem_map.mp hw
        exact knows_of_nil rfl
    · exact .fail
  | .array a, t, _ => by
    unfold hostItems
    split
    · exact .fail
    · exact .ofExcept fun items hitems _ w hw =>
        knows_of_nil ((NDArray.regular_rows a).of_ok hitems w hw)
  | .traced id type, t, hv => by
    unfold hostItems
    split
    · exact Tracer.keeps_applyEach hv _
    · exact .fail
  | .list items, t, hv => .done fun hk => knows_list.mp (hv hk)
  | .tuple items, t, hv => .done fun hk => knows_tuple.mp (hv hk)
  | .dict entries, t, hv => by
    refine .done fun hk w hw => ?_
    obtain ⟨e, he, rfl⟩ := List.mem_map.mp hw
    exact (knows_dict.mp (hv hk) e he).1
  | .str s, t, _ => by
    refine .done fun _ w hw => ?_
    obtain ⟨c, -, rfl⟩ := List.mem_map.mp hw
    exact knows_of_nil rfl
  | .scalar _, t, _ => .fail
  | .none, t, _ => .fail

end Value

/-- All items that are still to come are known. -/
def Feed.Known (t : Tracer) : Feed → Prop
  | items vs => ∀ v ∈ vs, t.Knows v
  | counting _ _ => True

theorem Feed.Known.mono {feed : Feed} {t' : Tracer} (hfeed : feed.Known t)
    (h : ∀ v, t.Knows v → t'.Knows v) : feed.Known t' := by
  cases feed with
  | items vs => exact fun v hv => h v (hfeed v hv)
  | counting _ _ => trivial

theorem Feed.Known.next? {feed rest : Feed} {v : Value} (h : feed.Known t)
    (hnext : feed.next? = some (v, rest)) : t.Knows v ∧ rest.Known t := by
  cases feed with
  | items vs =>
    cases vs with
    | nil => cases hnext
    | cons w ws =>
      cases hnext
      exact ⟨h v (by simp), fun w hw => h w (by simp [hw])⟩
  | counting c k =>
    simp only [Feed.next?] at hnext
    split at hnext
    · cases hnext
      exact ⟨knows_of_nil rfl, trivial⟩
    · cases hnext

theorem Feed.keeps_of {v : Value} (hv : known → t.Knows v) :
    (Feed.of v).Keeps (protocol known) t fun feed t' => known → feed.Known t' := by
  unfold Feed.of
  split
  · split
    · exact .map (Value.keeps_hostItems hv)
    · exact .done fun _ => trivial
  · exact .map (Value.keeps_hostItems hv)

/-- The value that elements are taken from is known. -/
def Elements.Known (t : Tracer) : Elements → Prop
  | index => True
  | counted _ _ => True
  | rows array => t.Knows array
  | numbered inner _ => inner.Known t

namespace Elements

theorem Known.mono {elements : Elements} {t' : Tracer} (hel : elements.Known t)
    (h : ∀ v, t.Knows v → t'.Knows v) : elements.Known t' := by
  induction elements with
  | index => trivial
  | counted _ _ => trivial
  | rows array => exact h array hel
  | numbered inner _ ih => exact ih hel

theorem keeps_element {i : Value} : ∀ {elements : Elements} {t : Tracer},
    (known → elements.Known t) → (known → t.Knows i) →
    (elements.element i).Keeps (protocol known) t fun v t' => known → t'.Knows v
  | index, t, _, hi => .pure hi
  | counted start step, t, _, hi => by
    refine Step.Keeps.bind (Q := fun v t' => known → t'.Knows v)
      (Tracer.keeps_apply _ fun hk => knows_pair (hi hk) (knows_of_nil rfl)) ?_
    exact fun scaled t' _ _ hscaled =>
      Tracer.keeps_apply _ fun hk => knows_pair (knows_of_nil rfl) (hscaled hk)
  | rows array, t, hel, hi => by
    exact Tracer.keeps_apply _ fun hk => knows_pair (hel hk) (hi hk)
  | numbered inner first, t, hel, hi => by
    refine Step.Keeps.bind (Q := fun v t' => known → t'.Knows v)
      (Tracer.keeps_apply _ fun hk => knows_pair (hi hk) (knows_of_nil rfl))
      fun number t' ht h hnumber => ?_
    have hi' : known → t'.Knows i := fun hk => Evolves.knows h ht (hi hk)
    have hinner : known → inner.Known t' := fun hk =>
      Known.mono (hel hk) fun _ => Evolves.knows h ht
    refine (keeps_element hinner hi').bind fun item t'' ht' h' hitem => .pure fun hk => ?_
    exact knows_tuple.mpr (knows_pair (Evolves.knows h' ht' (hnumber hk)) (hitem hk))

end Elements

/-- The bounds of a counted loop are known. -/
def Tracer.LoopRange.Known (t : Tracer) (range : LoopRange) : Prop :=
  ∀ v ∈ [range.start, range.stop, range.step], t.Knows v

theorem Tracer.LoopRange.known_of_ints (start stop step : Int64) :
    LoopRange.Known t ⟨.int start, .int stop, .int step⟩ := by
  intro v hv
  simp only [List.mem_cons, List.not_mem_nil, or_false] at hv
  rcases hv with rfl | rfl | rfl <;> exact knows_of_nil rfl

namespace Value

theorem itemElements_eq_ok {v : Value} {n count : Nat} {elements : Elements}
    (h : v.itemElements n = .ok (count, elements)) :
    ∃ a, v.toArray? = .ok a ∧ count = n ∧ elements = .rows (.array a) := by
  obtain ⟨found, hfound, h⟩ := Outcome.bind_eq_ok h
  obtain ⟨a, ha, rfl⟩ | ⟨-, rfl⟩ := Search.optional_eq_ok hfound
  · cases h
    exact ⟨a, ha, rfl, rfl⟩
  · cases h

theorem known_elements : ∀ {v : Value} {count : Nat} {elements : Elements}, t.Knows v →
    v.elements = .ok (count, elements) → elements.Known t
  | .enumerate inner start, _, elements, hv, h => by
    rcases hinner : inner.elements with f | ⟨count', elements'⟩
    · simp only [Value.elements, hinner] at h
      cases h
    · simp only [Value.elements, hinner] at h
      cases h
      have hknown : elements'.Known t := known_elements (v := inner) hv hinner
      exact hknown
  | .range start stop step, _, elements, _, h => by
    unfold Value.elements at h
    split at h
    · cases h
      trivial
    · cases h
  | .array a, _, elements, hv, h => by
    cases h
    exact hv
  | .traced id type, _, elements, hv, h => by
    unfold Value.elements at h
    split at h
    · cases h
      exact hv
    · cases h
  | .list items, _, elements, _, h => by
    obtain ⟨a, -, -, rfl⟩ := itemElements_eq_ok h
    exact knows_of_nil rfl
  | .tuple items, _, elements, _, h => by
    obtain ⟨a, -, -, rfl⟩ := itemElements_eq_ok h
    exact knows_of_nil rfl
  | .dict _, _, _, _, h => by cases h
  | .str _, _, _, _, h => by cases h
  | .scalar _, _, _, _, h => by cases h
  | .none, _, _, _, h => by cases h

theorem loopRange_eq (v : Value) :
    v.loopRange = match v.counting? with
      | some c => .ok (⟨.int c.start, .int c.stop, .int c.step⟩, .index)
      | Option.none => v.elements.map fun (count, elements) => (.upTo count, elements) := by
  cases v with
  | range start stop step =>
    unfold loopRange
    cases (Value.range start stop step).counting? <;> rfl
  | _ => rfl

theorem known_loopRange {v : Value} {range : LoopRange} {elements : Elements} (hv : t.Knows v)
    (h : v.loopRange = .ok (range, elements)) : range.Known t ∧ elements.Known t := by
  rw [loopRange_eq] at h
  split at h
  · cases h
    exact ⟨LoopRange.known_of_ints _ _ _, trivial⟩
  · rcases hel : v.elements with f | ⟨count, elements'⟩
    · rw [hel] at h
      cases h
    rw [hel] at h
    cases h
    exact ⟨LoopRange.known_of_ints _ _ _, known_elements hv hel⟩

end Value

end StagedFlow
