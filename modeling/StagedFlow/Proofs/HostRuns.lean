import StagedFlow.Exec.Run
import StagedFlow.Proofs.Contract

/-!
Runs on the host that come to an end, put together from their parts. A step on host values returns
from every state and leaves it as it is; a part of a run yields what it returns with all fuel from
some amount on. Main definitions: `Step.Returns`, `Step.Yields`. Main results: for each part of a
run in eager mode, what it yields if its own parts do.
-/
set_option autoImplicit false

namespace StagedFlow

namespace Step

variable {S ρ ε δ α β : Type}

/-- The step returns a value from every state, which it leaves as it is. -/
def Returns (x : Step S ε α) (a : α) : Prop :=
  ∀ s, x s = (.ok a, s)

namespace Returns

variable {x : Step S ε α} {a : α}

theorem pure (a : α) : (Pure.pure a : Step S ε α).Returns a := fun _ => rfl

theorem bind {f : α → Step S ε β} {b : β} (hx : x.Returns a) (hf : (f a).Returns b) :
    (x >>= f).Returns b :=
  fun s => (bind_of_ok (hx s)).trans (hf s)

theorem mapError {f : ε → δ} (h : x.Returns a) : (x.mapError f).Returns a :=
  fun s => by rw [Step.mapError, h s]

theorem onFirst (h : x.Returns a) : (x.onFirst : Step (S × ρ) ε α).Returns a :=
  fun (s, _) => by rw [Step.onFirst, h s]

end Returns

/-- From some fuel on, the step returns a value. -/
def Yields (x : Nat → Step S ε α) (a : α) : Prop :=
  ∃ least, ∀ n, least ≤ n → (x n).Returns a

namespace Yields

variable {x : Nat → Step S ε α} {y : Nat → Step S ε β} {a : α} {b : β}

theorem both (hx : Yields x a) (hy : Yields y b) :
    ∃ least, ∀ n, least ≤ n → (x n).Returns a ∧ (y n).Returns b := by
  obtain ⟨m, hm⟩ := hx
  obtain ⟨k, hk⟩ := hy
  exact ⟨max m k, fun n hn => ⟨hm n (by omega), hk n (by omega)⟩⟩

/-- One more unit of fuel for a step that spends one. -/
theorem succ {P : Nat → Prop} (h : ∃ least, ∀ n, least ≤ n → P n)
    (hx : ∀ n, P n → (x (n + 1)).Returns a) : Yields x a := by
  obtain ⟨m, hm⟩ := h
  refine ⟨m + 1, fun n hn => ?_⟩
  obtain ⟨k, rfl⟩ : ∃ k, n = k + 1 := ⟨n - 1, by omega⟩
  exact hx k (hm k (by omega))

/-- A step that needs nothing but one unit of fuel. -/
theorem of_succ (hx : ∀ n, (x (n + 1)).Returns a) : Yields x a :=
  succ (P := fun _ => True) ⟨0, fun _ _ => trivial⟩ fun n _ => hx n

end Yields

end Step

namespace Setting

open Step

variable {c : Setting} {plan : Option FaultPlan} {env env' env'' : Env} {info : BlockInfo}

theorem yields_run_nil : Yields (fun n => c.run n plan [] env) (.next, env) :=
  .of_succ fun n => by
    rw [run]
    exact .pure _

theorem yields_run_cons {s : FlowStmt} {rest : List FlowStmt} {r : Exit × Env}
    (hs : Yields (fun n => c.runStmt n plan s env) (.next, env'))
    (hrest : Yields (fun n => c.run n plan rest env') r) :
    Yields (fun n => c.run n plan (s :: rest) env) r :=
  .succ (hs.both hrest) fun n h => by
    rw [run]
    exact h.1.bind h.2

theorem yields_run_ret {s : FlowStmt} {rest : List FlowStmt} {v : Value}
    (hs : Yields (fun n => c.runStmt n plan s env) (.ret v, env')) :
    Yields (fun n => c.run n plan (s :: rest) env) (.ret v, env') :=
  .succ hs fun n h => by
    rw [run]
    exact h.bind (.pure _)

theorem yields_act {action : Action} {span : Span} {r : Exit × Env}
    (h : (c.act span env action).Returns r) :
    Yields (fun n => c.runStmt n plan (.act action span) env) r :=
  .of_succ fun n => by
    rw [runStmt]
    exact h

theorem yields_cond {arms : List FlowArm} {otherwise : Option (List FlowStmt)}
    (h : Yields (fun n => c.runArms n plan info arms otherwise env) env') :
    Yields (fun n => c.runStmt n plan (.cond info arms otherwise) env) (.next, env') :=
  .succ h fun n h => by
    rw [runStmt]
    exact h.bind (.pure _)

theorem yields_forIn {target : Target} {source : Expr} {body : List FlowStmt}
    {domain : Option Domain} {strategy : Strategy}
    (h : Yields (fun n => c.runFor n plan info target source body strategy env) env') :
    Yields (fun n => c.runStmt n plan (.forIn info target source body domain strategy) env)
      (.next, env') :=
  .succ h fun n h => by
    rw [runStmt]
    exact h.bind (.pure _)

theorem yields_whileDo {condition : Expr} {body : List FlowStmt}
    (h : Yields (fun n => c.runWhile n plan info condition body env) env') :
    Yields (fun n => c.runStmt n plan (.whileDo info condition body) env) (.next, env') :=
  .succ h fun n h => by
    rw [runStmt]
    exact h.bind (.pure _)

theorem yields_runBody {body : List FlowStmt} {exit : Exit}
    (h : Yields (fun n => c.run n plan body env) (exit, env')) :
    Yields (fun n => c.runBody n plan body env) env' :=
  .succ h fun n h => by
    rw [runBody]
    exact h.bind (.pure _)

/-! ## Conditionals -/

section

variable {arm : FlowArm} {rest : List FlowArm} {otherwise : Option (List FlowStmt)}
  {predicate : Value}

theorem yields_runArms_none : Yields (fun n => c.runArms n plan info [] none env) env :=
  .of_succ fun n => by
    rw [runArms]
    exact .pure _

theorem yields_runArms_some {body : List FlowStmt}
    (h : Yields (fun n => c.runBody n plan body env) env') :
    Yields (fun n => c.runArms n plan info [] (some body) env) env' :=
  .succ h fun n h => by
    rw [runArms]
    exact h

theorem yields_runArms_cons (hmode : c.mode = .eager)
    (hpredicate : (arm.condition.eval env).Returns predicate)
    (h : Yields (fun n => c.chooseArm n plan info arm rest otherwise predicate env) env') :
    Yields (fun n => c.runArms n plan info (arm :: rest) otherwise env) env' :=
  .succ h fun n h => by
    rw [runArms]
    refine hpredicate.onFirst.bind ?_
    simpa only [hmode, decide_true, Bool.true_or, if_true] using h

theorem returns_truth {v : Value} {truth : Bool} (h : v.truthy = .ok truth) :
    (Exec.ofEval (Eval.ofFault v.truthy)).Returns truth := by
  rw [h]
  exact .pure truth

theorem yields_chooseArm_true (htruth : predicate.truthy = .ok true)
    (h : Yields (fun n => c.runBody n plan arm.body env) env') :
    Yields (fun n => c.chooseArm n plan info arm rest otherwise predicate env) env' :=
  .succ h fun n h => by
    rw [chooseArm]
    exact (returns_truth htruth).bind h

theorem yields_chooseArm_false (htruth : predicate.truthy = .ok false)
    (h : Yields (fun n => c.runArms n plan info rest otherwise env) env') :
    Yields (fun n => c.chooseArm n plan info arm rest otherwise predicate env) env' :=
  .succ h fun n h => by
    rw [chooseArm]
    exact (returns_truth htruth).bind h

end

/-! ## Loops -/

section

variable {target : Target} {source condition : Expr} {body : List FlowStmt} {items item : Value}
  {feed feed' : Feed} {predicate : Value}

theorem yields_runFor (hmode : c.mode = .eager) {strategy : Strategy}
    (hsource : (source.eval env).Returns items)
    (h : Yields (fun n => c.hostFor n plan target body items env) env') :
    Yields (fun n => c.runFor n plan info target source body strategy env) env' :=
  .succ h fun n h => by
    rw [runFor]
    refine hsource.onFirst.bind ?_
    simpa only [hmode, decide_true, Bool.true_or, if_true] using h

theorem yields_hostFor (hfeed : (Feed.of items).Returns feed)
    (h : Yields (fun n => c.hostEach n plan target body feed env) env') :
    Yields (fun n => c.hostFor n plan target body items env) env' :=
  .succ h fun n h => by
    rw [hostFor]
    exact hfeed.mapError.onFirst.bind h

theorem yields_hostEach_nil (hnext : feed.next? = none) :
    Yields (fun n => c.hostEach n plan target body feed env) env :=
  .of_succ fun n => by
    rw [hostEach, hnext]
    exact .pure _

theorem yields_hostEach_cons (hnext : feed.next? = some (item, feed'))
    {envᵢ : Env} (hassign : (target.assign item env).Returns envᵢ)
    (hbody : Yields (fun n => c.runBody n plan body envᵢ) env')
    (h : Yields (fun n => c.hostEach n plan target body feed' env') env'') :
    Yields (fun n => c.hostEach n plan target body feed env) env'' :=
  .succ (hbody.both h) fun n h => by
    rw [hostEach, hnext]
    exact hassign.mapError.onFirst.bind (h.1.bind h.2)

theorem yields_runWhile (hmode : c.mode = .eager)
    (h : Yields (fun n => c.hostWhile n plan condition body env) env') :
    Yields (fun n => c.runWhile n plan info condition body env) env' :=
  .succ h fun n h => by
    rw [runWhile, if_pos hmode]
    exact h

theorem yields_hostWhile_end (hcondition : (condition.eval env).Returns predicate)
    (htruth : predicate.truthy = .ok false) :
    Yields (fun n => c.hostWhile n plan condition body env) env :=
  .of_succ fun n => by
    rw [hostWhile]
    exact hcondition.onFirst.bind ((returns_truth htruth).bind (.pure _))

theorem yields_hostWhile_round (hcondition : (condition.eval env).Returns predicate)
    (htruth : predicate.truthy = .ok true)
    (hbody : Yields (fun n => c.runBody n plan body env) env')
    (h : Yields (fun n => c.hostWhile n plan condition body env') env'') :
    Yields (fun n => c.hostWhile n plan condition body env) env'' :=
  .succ (hbody.both h) fun n h => by
    rw [hostWhile]
    exact hcondition.onFirst.bind ((returns_truth htruth).bind (h.1.bind h.2))

end

end Setting

end StagedFlow
