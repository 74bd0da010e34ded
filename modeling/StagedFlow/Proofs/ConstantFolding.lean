import StagedFlow.Proofs.Conversion
import StagedFlow.Proofs.FuelRuns

/-!
Folding of conditionals whose predicates are written out. What is left has no such predicate and no
chain without arms, at any depth, and folding leaves it as it is. Its loops are loops of the
statements, so that it can be lowered where they can, but not the other way round: lowering looks at
loops that never run. On the host the folded statements come to what the statements came to,
provided that both can be lowered and that no block is left by `return`: a body that takes the place
of its conditional would then stop the statements after it. Main definitions: `Stmt.isFolded`,
`Stmt.leavesBlock`, `Setting.SameRuns`. Main results: `Stmt.allFolded_foldAll`,
`Stmt.foldAll_of_allFolded`, `Lowering.lower_foldAll`, `Setting.sameRuns_foldAll`,
`Setting.folding_keeps_runs`.
-/
set_option autoImplicit false

namespace StagedFlow

/-! ## Folded statements -/

namespace Stmt

mutual

/-- Whether nothing is left to fold: all chains have arms, and no predicate is written out. -/
def isFolded : Stmt → Bool
  | act _ _ => true
  | choose arms otherwise _ => !arms.isEmpty && armsFolded arms && lastFolded otherwise
  | forIn _ _ body _ => allFolded body
  | whileDo _ body _ => allFolded body

def armsFolded : List Arm → Bool
  | [] => true
  | ⟨condition, body, _⟩ :: rest =>
    condition.constantTruth?.isNone && allFolded body && armsFolded rest

def lastFolded : Option (List Stmt) → Bool
  | none => true
  | some body => allFolded body

def allFolded : List Stmt → Bool
  | [] => true
  | s :: rest => s.isFolded && allFolded rest

end

theorem allFolded_append (xs ys : List Stmt) :
    allFolded (xs ++ ys) = (allFolded xs && allFolded ys) := by
  induction xs with
  | nil => rfl
  | cons x xs ih => rw [List.cons_append, allFolded, allFolded, ih, Bool.and_assoc]

theorem allFolded_foldedChain (span : Span) {chain : List Arm × Option (List Stmt)}
    (harms : armsFolded chain.1 = true) (hlast : lastFolded chain.2 = true) :
    allFolded (foldedChain span chain) = true := by
  obtain ⟨_ | ⟨arm, rest⟩, otherwise⟩ := chain
  · cases otherwise with
    | none => rfl
    | some body => exact hlast
  · simpa [foldedChain, allFolded, isFolded, harms] using hlast

mutual

theorem allFolded_fold : ∀ s : Stmt, allFolded s.fold = true
  | act action span => rfl
  | choose arms none span => by
    have hnone : lastFolded none = true := rfl
    obtain ⟨harms, hlast⟩ := folded_foldArms arms hnone
    exact allFolded_foldedChain span harms hlast
  | choose arms (some body) span => by
    have hbody : lastFolded (some (foldAll body)) = true := allFolded_foldAll body
    obtain ⟨harms, hlast⟩ := folded_foldArms arms hbody
    exact allFolded_foldedChain span harms hlast
  | forIn target source body span => by
    simp only [fold, allFolded, isFolded, allFolded_foldAll body, Bool.and_self]
  | whileDo condition body span => by
    simp only [fold, allFolded, isFolded, allFolded_foldAll body, Bool.and_self]
termination_by structural s => s

theorem folded_foldArms : ∀ (arms : List Arm) {otherwise : Option (List Stmt)},
    lastFolded otherwise = true →
      armsFolded (foldArms arms otherwise).1 = true ∧ lastFolded (foldArms arms otherwise).2 = true
  | [], _, hlast => ⟨rfl, hlast⟩
  | ⟨condition, body, _⟩ :: rest, otherwise, hlast => by
    simp only [foldArms]
    cases htruth : condition.constantTruth? with
    | none =>
      obtain ⟨harms, hlast⟩ := folded_foldArms rest hlast
      refine ⟨?_, hlast⟩
      simp only [armsFolded, htruth, Option.isNone_none, allFolded_foldAll body, harms,
        Bool.and_self]
    | some truth =>
      cases truth with
      | false => exact folded_foldArms rest hlast
      | true => exact ⟨rfl, allFolded_foldAll body⟩
termination_by structural arms => arms

/-- Folding leaves nothing to fold. -/
theorem allFolded_foldAll (body : List Stmt) : allFolded (foldAll body) = true := by
  cases body with
  | nil => rfl
  | cons s rest =>
    rw [foldAll, allFolded_append, allFolded_fold s, allFolded_foldAll rest]
    rfl
termination_by structural body

end

mutual

theorem fold_of_isFolded : ∀ {s : Stmt}, s.isFolded = true → s.fold = [s]
  | act action span, _ => rfl
  | choose [] otherwise span, h => by cases h
  | choose (arm :: rest) none span, h => by
    simp only [isFolded, Bool.and_eq_true] at h
    simp only [fold, foldArms_of_armsFolded h.1.2, foldedChain]
  | choose (arm :: rest) (some body) span, h => by
    simp only [isFolded, lastFolded, Bool.and_eq_true] at h
    simp only [fold, foldAll_of_allFolded h.2, foldArms_of_armsFolded h.1.2, foldedChain]
  | forIn target source body span, h => by
    rw [fold, foldAll_of_allFolded h]
  | whileDo condition body span, h => by
    rw [fold, foldAll_of_allFolded h]

theorem foldArms_of_armsFolded : ∀ {arms : List Arm}, armsFolded arms = true →
    ∀ {otherwise : Option (List Stmt)}, foldArms arms otherwise = (arms, otherwise)
  | [], _, _ => rfl
  | ⟨condition, body, span⟩ :: rest, h, otherwise => by
    simp only [armsFolded, Bool.and_eq_true, Option.isNone_iff_eq_none] at h
    simp only [foldArms, h.1.1, foldAll_of_allFolded h.1.2, foldArms_of_armsFolded h.2]

/-- Folding changes nothing where nothing is left to fold. -/
theorem foldAll_of_allFolded : ∀ {body : List Stmt}, allFolded body = true → foldAll body = body
  | [], _ => rfl
  | s :: rest, h => by
    simp only [allFolded, Bool.and_eq_true] at h
    rw [foldAll, fold_of_isFolded h.1, foldAll_of_allFolded h.2]
    rfl

end

/-! ## Returns -/

mutual

/-- Whether there is a `return` in a statement, at any depth. -/
def returns : Stmt → Bool
  | act action _ => action.isReturn
  | choose arms otherwise _ => armsReturn arms || lastReturns otherwise
  | forIn _ _ body _ => returnsIn body
  | whileDo _ body _ => returnsIn body

def armsReturn : List Arm → Bool
  | [] => false
  | ⟨_, body, _⟩ :: rest => returnsIn body || armsReturn rest

def lastReturns : Option (List Stmt) → Bool
  | none => false
  | some body => returnsIn body

def returnsIn : List Stmt → Bool
  | [] => false
  | s :: rest => s.returns || returnsIn rest

end

/-- Whether a `return` is nested in a statement, where it would leave a block. -/
def leavesBlock : Stmt → Bool
  | act _ _ => false
  | s => s.returns

theorem leavesBlock_of_returns {s : Stmt} (h : s.returns = false) : s.leavesBlock = false := by
  cases s with
  | act action span => rfl
  | _ => exact h

theorem leavesBlock_of_returnsIn {body : List Stmt} (h : returnsIn body = false) :
    ∀ s ∈ body, s.leavesBlock = false := by
  induction body with
  | nil => simp
  | cons s rest ih =>
    rw [returnsIn, Bool.or_eq_false_iff] at h
    intro s' hs'
    rcases List.mem_cons.mp hs' with rfl | hs'
    · exact leavesBlock_of_returns h.1
    · exact ih h.2 s' hs'

end Stmt

/-! ## Loops that are left -/

/-- The loops in the last body of a chain. -/
def lastLoops : Option (List Stmt) → List (Target × Expr)
  | none => []
  | some body => loopsIn body

theorem Stmt.loops_choose (arms : List Arm) (otherwise : Option (List Stmt)) (span : Span) :
    (Stmt.choose arms otherwise span).loops = armsLoops arms ++ lastLoops otherwise := by
  cases otherwise <;> simp only [Stmt.loops, lastLoops]

theorem loopsIn_append (xs ys : List Stmt) : loopsIn (xs ++ ys) = loopsIn xs ++ loopsIn ys := by
  induction xs with
  | nil => rfl
  | cons x xs ih => rw [List.cons_append, loopsIn, loopsIn, ih, List.append_assoc]

theorem append_subset_append {α : Type} {xs xs' ys ys' : List α} (h : xs ⊆ xs') (h' : ys ⊆ ys') :
    xs ++ ys ⊆ xs' ++ ys' :=
  List.append_subset.mpr
    ⟨List.Subset.trans h (List.subset_append_left _ _),
      List.Subset.trans h' (List.subset_append_right _ _)⟩

theorem loopsIn_foldedChain (span : Span) (chain : List Arm × Option (List Stmt)) :
    loopsIn (foldedChain span chain) = armsLoops chain.1 ++ lastLoops chain.2 := by
  obtain ⟨_ | ⟨arm, rest⟩, otherwise⟩ := chain
  · cases otherwise <;> rfl
  · rw [foldedChain, loopsIn, Stmt.loops_choose, loopsIn, List.append_nil]
    exact List.cons_ne_nil arm rest

mutual

theorem Stmt.loops_fold (s : Stmt) : loopsIn s.fold ⊆ s.loops := by
  cases s with
  | act action span => exact List.Subset.refl _
  | choose arms otherwise span =>
    cases otherwise with
    | none =>
      rw [Stmt.fold, loopsIn_foldedChain, Stmt.loops_choose]
      exact loops_foldArms arms none
    | some body =>
      rw [Stmt.fold, loopsIn_foldedChain, Stmt.loops_choose]
      refine List.Subset.trans (loops_foldArms arms (some (foldAll body))) ?_
      exact append_subset_append (List.Subset.refl _) (loopsIn_foldAll body)
  | forIn target source body span =>
    rw [Stmt.fold, loopsIn, loopsIn, List.append_nil, Stmt.loops, Stmt.loops]
    exact List.cons_subset_cons _ (loopsIn_foldAll body)
  | whileDo condition body span =>
    rw [Stmt.fold, loopsIn, loopsIn, List.append_nil, Stmt.loops, Stmt.loops]
    exact loopsIn_foldAll body
termination_by structural s

theorem loops_foldArms (arms : List Arm) (otherwise : Option (List Stmt)) :
    armsLoops (foldArms arms otherwise).1 ++ lastLoops (foldArms arms otherwise).2 ⊆
      armsLoops arms ++ lastLoops otherwise := by
  cases arms with
  | nil => exact List.Subset.refl _
  | cons arm rest =>
    obtain ⟨condition, body, span⟩ := arm
    have hbody := loopsIn_foldAll body
    have hrest := loops_foldArms rest otherwise
    rw [foldArms, armsLoops, List.append_assoc]
    split
    · exact List.Subset.trans hrest (List.subset_append_right _ _)
    · exact List.Subset.trans hbody (List.subset_append_left _ _)
    · rw [armsLoops, List.append_assoc]
      exact append_subset_append hbody hrest
termination_by structural arms

/-- Folding drops loops and adds none. -/
theorem loopsIn_foldAll (body : List Stmt) : loopsIn (foldAll body) ⊆ loopsIn body := by
  cases body with
  | nil => exact List.Subset.refl _
  | cons s rest =>
    rw [foldAll, loopsIn_append, loopsIn]
    exact append_subset_append s.loops_fold (loopsIn_foldAll rest)
termination_by structural body

end

namespace Lowering

variable {l l' : Lowering} {body : List Stmt} {id id' : Nat}

theorem crash?_eq_none_iff : l.crash? body = none ↔
    ∀ loop ∈ loopsIn body, (Domain.ofExpr? l.constants loop.2 loop.1).crash? = none :=
  List.findSome?_eq_none_iff

theorem exists_lower_iff : (∃ lowered, l.lower body id = .ok lowered) ↔
    ∀ loop ∈ loopsIn body, (Domain.ofExpr? l.constants loop.2 loop.1).crash? = none := by
  rw [← crash?_eq_none_iff]
  constructor
  · rintro ⟨lowered, h⟩
    exact (lower_eq_ok h).1
  · intro h
    exact ⟨lowerAll l body id, by rw [lower, h]⟩

/-- Where statements can be lowered, so can what is left of them. -/
theorem lower_foldAll (hsame : l'.constants = l.constants)
    (h : ∃ lowered, l.lower body id = .ok lowered) :
    ∃ folded, l'.lower (foldAll body) id' = .ok folded := by
  rw [exists_lower_iff] at h ⊢
  intro loop hloop
  rw [hsame]
  exact h loop (loopsIn_foldAll body hloop)

end Lowering

/-! ## Predicates that are written out -/

/-- A predicate that is written out has a value with that truth in every environment. -/
theorem Expr.returns_of_constantTruth? : ∀ {e : Expr} {truth : Bool},
    e.constantTruth? = some truth → ∃ v, v.truthy = .ok truth ∧ ∀ env, (e.eval env).Returns v
  | literal (.bool b), _, h => by
    cases h
    exact ⟨.bool b, rfl, fun env s => by rw [eval]; rfl⟩
  | literal .none, _, h => by
    cases h
    exact ⟨.none, rfl, fun env s => by rw [eval]; rfl⟩
  | not operand, _, h => by
    rw [constantTruth?, Option.map_eq_some_iff] at h
    obtain ⟨inner, hinner, rfl⟩ := h
    obtain ⟨v, htruth, hv⟩ := returns_of_constantTruth? hinner
    have hhost : v.isTraced = false := by
      cases v with
      | traced id type => cases htruth
      | _ => rfl
    refine ⟨.bool !inner, rfl, fun env => ?_⟩
    rw [eval]
    refine (hv env).bind ?_
    rw [evalNot, hhost, htruth]
    exact .pure _

/-! ## Runs of several statements -/

theorem lowerAll_append (l : Lowering) (xs ys : List Stmt) (id : Nat) :
    (lowerAll l (xs ++ ys) id).1 =
      (lowerAll l xs id).1 ++ (lowerAll l ys (lowerAll l xs id).2.1).1 := by
  induction xs generalizing id with
  | nil => rfl
  | cons x xs ih =>
    simp only [List.cons_append, lowerAll]
    rw [ih]

namespace Setting

open Step

variable {c : Setting} {plan : Option FaultPlan} {env : Env}

theorem alike_onward {k k' : Nat → Env → Exec (Exit × Env)}
    (h : ∀ env, Alike (fun n => k n env) fun n => k' n env) (r : Exit × Env) :
    Alike (fun n => onward (k n) r) fun n => onward (k' n) r := by
  obtain ⟨exit, env⟩ := r
  cases exit with
  | next => exact h env
  | ret v => exact .const _

theorem alike_runBody {body body' : List FlowStmt}
    (h : Alike (fun n => c.run n plan body env) fun n => c.run n plan body' env) :
    Alike (fun n => c.runBody n plan body env) fun n => c.runBody n plan body' env :=
  .spends_both (spends_runBody body) (spends_runBody body') (h.bind fun _ => .const _)

section Eager

variable (hmode : c.mode = .eager)

include hmode

theorem alike_run_one (s : FlowStmt) :
    Alike (fun n => c.runStmt n plan s env) fun n => c.run n plan [s] env := by
  have hend : onward (fun env => pure (.next, env)) = pure := by
    funext r
    obtain ⟨exit, env⟩ := r
    cases exit <;> rfl
  have hlast : ∀ env, Alike (fun n => c.run n plan [] env) fun _ => pure (.next, env) :=
    fun env => .of_spends spends_run_nil (.const _)
  refine .symm (.of_spends (spends_run s []) ?_)
  have hfirst : Alike (fun n => c.runStmt n plan s env) fun n => c.runStmt n plan s env :=
    .refl (stable_runStmt hmode s)
  have hbind := hfirst.bind fun r => alike_onward hlast r
  simpa only [hend, bind_pure] using hbind

/-- Statements after others run when those are done, unless one of them returned. -/
theorem alike_append (xs ys : List FlowStmt) (env : Env) :
    Alike (fun n => c.run n plan (xs ++ ys) env)
      fun n => c.run n plan xs env >>= onward (c.run n plan ys) := by
  have hys : ∀ env, Alike (fun n => c.run n plan ys env) fun n => c.run n plan ys env :=
    fun env => .refl (stable_run hmode ys)
  induction xs generalizing env with
  | nil =>
    have hnil : Alike (fun n => c.run n plan [] env) fun _ => pure (.next, env) :=
      .of_spends spends_run_nil (.const _)
    have hbind := hnil.bind fun r => alike_onward hys r
    simp only [pure_bind] at hbind
    exact hbind.symm
  | cons x xs ih =>
    have hfirst : Alike (fun n => c.run n plan (x :: xs) env)
        fun n => c.runStmt n plan x env >>= onward (c.run n plan xs) :=
      .of_spends (spends_run x xs) (.refl ((stable_run hmode (x :: xs)).spent (spends_run x xs)))
    have hboth := hfirst.bind fun r => alike_onward hys r
    simp only [bind_assoc, onward_bind] at hboth
    refine .trans (.of_spends (spends_run x (xs ++ ys)) ?_) hboth.symm
    exact (Alike.refl (stable_runStmt hmode x)).bind fun r => alike_onward ih r

/-! ## Conditionals -/

theorem alike_runArms {arm arm' : FlowArm} {rest rest' : List FlowArm} {info info' : BlockInfo}
    {otherwise otherwise' : Option (List FlowStmt)} (hcondition : arm'.condition = arm.condition)
    (hbody : Alike (fun n => c.runBody n plan arm.body env) fun n => c.runBody n plan arm'.body env)
    (hrest : Alike (fun n => c.runArms n plan info rest otherwise env)
      fun n => c.runArms n plan info' rest' otherwise' env) :
    Alike (fun n => c.runArms n plan info (arm :: rest) otherwise env)
      fun n => c.runArms n plan info' (arm' :: rest') otherwise' env := by
  refine .spends_both (spends_runArms hmode arm rest otherwise)
    (spends_runArms hmode arm' rest' otherwise') ?_
  rw [hcondition]
  refine (Alike.const _).bind fun predicate => ?_
  refine .spends_both (spends_chooseArm arm rest otherwise predicate)
    (spends_chooseArm arm' rest' otherwise' predicate) ?_
  refine (Alike.const _).bind fun truth => ?_
  cases truth with
  | true => exact hbody
  | false => exact hrest

/-- Where the predicate of an arm is written out, the choice is made. -/
theorem alike_runArms_known {arm : FlowArm} {rest : List FlowArm} {info : BlockInfo}
    {otherwise : Option (List FlowStmt)} {truth : Bool}
    (h : arm.condition.constantTruth? = some truth) :
    Alike (fun n => c.runArms n plan info (arm :: rest) otherwise env) fun n =>
      if truth then c.runBody n plan arm.body env
      else c.runArms n plan info rest otherwise env := by
  obtain ⟨v, htruth, hv⟩ := Expr.returns_of_constantTruth? h
  have hvalue : ∀ n, (Exec.ofEval (arm.condition.eval env) >>= fun predicate =>
      c.chooseArm n plan info arm rest otherwise predicate env) =
      c.chooseArm n plan info arm rest otherwise v env :=
    fun n => funext fun s => bind_of_ok ((hv env).onFirst s)
  have hchoice : ∀ n, (Exec.ofEval (Eval.ofFault v.truthy) >>= fun truth =>
      if truth then c.runBody n plan arm.body env
      else c.runArms n plan info rest otherwise env) =
      if truth then c.runBody n plan arm.body env
      else c.runArms n plan info rest otherwise env :=
    fun n => funext fun s => bind_of_ok (returns_truth htruth s)
  refine .of_spends (spends_runArms hmode arm rest otherwise) ?_
  simp only [hvalue]
  refine .of_spends (spends_chooseArm arm rest otherwise v) ?_
  simp only [hchoice]
  cases truth with
  | true => exact .refl (stable_runBody hmode arm.body)
  | false => exact .refl (stable_runArms hmode rest otherwise)

end Eager

/-! ## Statements that do not return -/

/-- Whatever the step comes to, control goes on after it. -/
def Proceeds (x : Exec (Exit × Env)) : Prop :=
  (x >>= fun r => pure (.next, r.2)) = x

theorem Proceeds.onward {x : Exec (Exit × Env)} (hx : Proceeds x) (k : Env → Exec (Exit × Env)) :
    (x >>= Setting.onward k) = x >>= fun r => k r.2 := by
  have hnext : (x >>= fun r => pure (.next, r.2)) = x := hx
  calc
    (x >>= Setting.onward k)
      = (x >>= fun r => pure (.next, r.2)) >>= Setting.onward k := by rw [hnext]
    _ = x >>= fun r => k r.2 := by rw [bind_assoc]; rfl

theorem proceeds_next (x : Exec Env) : Proceeds (x >>= fun env => pure (.next, env)) := by
  unfold Proceeds
  rw [bind_assoc]
  rfl

theorem proceeds_act {action : Action} (h : action.isReturn = false) (span : Span) :
    Proceeds (c.act span env action) := by
  unfold Proceeds
  cases action with
  | assign target value => simp only [act, bind_assoc, pure_bind]
  | update name op value => simp only [act, bind_assoc, pure_bind]
  | eval expr => simp only [act, bind_assoc, pure_bind]
  | ret value => cases h
  | raise message => rfl
  | pass => rfl

theorem proceeds_runStmt {s : Stmt} (h : s.returns = false) (l : Lowering) (id n : Nat) :
    Proceeds (c.runStmt n plan (s.lower l id).1 env) := by
  cases n with
  | zero =>
    rw [runStmt]
    rfl
  | succ n =>
    cases s with
    | act action span =>
      rw [Stmt.lower, runStmt]
      exact proceeds_act h span
    | choose arms otherwise span =>
      cases otherwise with
      | none =>
        rw [Stmt.lower, runStmt]
        exact proceeds_next _
      | some body =>
        rw [Stmt.lower, runStmt]
        exact proceeds_next _
    | forIn target source body span =>
      rw [Stmt.lower, runStmt]
      exact proceeds_next _
    | whileDo condition body span =>
      rw [Stmt.lower, runStmt]
      exact proceeds_next _

theorem proceeds_run {body : List Stmt} (h : Stmt.returnsIn body = false) (l : Lowering)
    (id n : Nat) (env : Env) : Proceeds (c.run n plan (lowerAll l body id).1 env) := by
  induction body generalizing id n env with
  | nil =>
    cases n with
    | zero =>
      rw [run]
      rfl
    | succ n => rfl
  | cons s rest ih =>
    rw [Stmt.returnsIn, Bool.or_eq_false_iff] at h
    cases n with
    | zero =>
      rw [run]
      rfl
    | succ n =>
      unfold Proceeds
      simp only [lowerAll]
      rw [run_cons, (proceeds_runStmt h.1 l id n).onward, bind_assoc]
      exact bind_congr fun r => ih h.2 _ n r.2

/-! ## Lowered statements -/

/-- The last body of a chain, lowered. -/
def lowerLast (l : Lowering) (otherwise : Option (List Stmt)) (id : Nat) :
    Option (List FlowStmt) :=
  otherwise.map fun body => (lowerAll l body id).1

theorem lower_choose (l : Lowering) (arms : List Arm) (otherwise : Option (List Stmt)) (span : Span)
    (id : Nat) :
    ∃ info l' id', ((Stmt.choose arms otherwise span).lower l id).1 =
      .cond info (lowerArms l' arms (id + 1)).1 (lowerLast l' otherwise id') := by
  refine ⟨l.opened id .conditional span, l.inside (l.opened id .conditional span),
    (lowerArms (l.inside (l.opened id .conditional span)) arms (id + 1)).2.1, ?_⟩
  cases otherwise <;> rfl

/-- Wherever they stand, the statements come to the same. -/
def SameRuns (c : Setting) (plan : Option FaultPlan) (body body' : List Stmt) : Prop :=
  ∀ (l : Lowering) (id : Nat) (l' : Lowering) (id' : Nat) (env : Env),
    Alike (fun n => c.run n plan (lowerAll l body id).1 env)
      fun n => c.run n plan (lowerAll l' body' id').1 env

/-- One chain can take the place of another: it comes to the same, and if its last body takes its
place in turn, control goes on after it. -/
structure Replaces (c : Setting) (plan : Option FaultPlan) (arms : List Arm)
    (otherwise : Option (List Stmt)) (chain : List Arm × Option (List Stmt)) : Prop where
  runs : ∀ (l : Lowering) (id next : Nat) (l' : Lowering) (id' next' : Nat) (info info' : BlockInfo)
    (env : Env),
    Alike (fun n => c.runArms n plan info (lowerArms l arms id).1 (lowerLast l otherwise next) env)
      fun n => c.runArms n plan info' (lowerArms l' chain.1 id').1
        (lowerLast l' chain.2 next') env
  proceeds : ∀ body, chain.2 = some body → ∀ (l : Lowering) (id : Nat) (env : Env),
    Alike (fun n => c.run n plan (lowerAll l body id).1 env >>= fun r => pure (.next, r.2))
      fun n => c.run n plan (lowerAll l body id).1 env

section Chains

variable {arms : List Arm} {otherwise : Option (List Stmt)}
  {chain : List Arm × Option (List Stmt)} {condition : Expr} {body body' : List Stmt} {span : Span}

theorem SameRuns.runBody (h : c.SameRuns plan body body') (l : Lowering) (id : Nat) (l' : Lowering)
    (id' : Nat) (env : Env) :
    Alike (fun n => c.runBody n plan (lowerAll l body id).1 env)
      fun n => c.runBody n plan (lowerAll l' body' id').1 env :=
  alike_runBody (h l id l' id' env)

/-- What comes to the same as statements that do not return does not return either. -/
theorem SameRuns.proceeds (h : c.SameRuns plan body body') (hreturns : Stmt.returnsIn body = false)
    (l : Lowering) (id : Nat) (env : Env) :
    Alike (fun n => c.run n plan (lowerAll l body' id).1 env >>= fun r => pure (.next, r.2))
      fun n => c.run n plan (lowerAll l body' id).1 env := by
  have hnext : ∀ n, (c.run n plan (lowerAll l body id).1 env >>= fun r => pure (.next, r.2)) =
      c.run n plan (lowerAll l body id).1 env := fun n => proceeds_run hreturns l id n env
  have hbind := (h l id l id env).bind fun r => Alike.const (pure (Exit.next, r.2))
  simp only [hnext] at hbind
  exact hbind.symm.trans (h l id l id env)

theorem replaces_none : c.Replaces plan [] none ([], none) where
  runs _ _ _ _ _ _ _ _ _ := .spends_both spends_runArms_none spends_runArms_none (.const _)
  proceeds _ hbody := by cases hbody

theorem replaces_some (h : c.SameRuns plan body body') (hreturns : Stmt.returnsIn body = false) :
    c.Replaces plan [] (some body) ([], some body') where
  runs l _ next l' _ next' _ _ env :=
    .spends_both (spends_runArms_some _) (spends_runArms_some _) (h.runBody l next l' next' env)
  proceeds body hbody := by
    cases hbody
    exact h.proceeds hreturns

variable (hmode : c.mode = .eager)

include hmode

theorem Replaces.cons (h : c.Replaces plan arms otherwise chain)
    (hbody : c.SameRuns plan body body') :
    c.Replaces plan (⟨condition, body, span⟩ :: arms) otherwise
      (⟨condition, body', span⟩ :: chain.1, chain.2) where
  runs l id next l' id' next' info info' env := by
    refine alike_runArms hmode rfl ?_ ?_
    · exact hbody.runBody l _ l' _ env
    · exact h.runs l _ next l' _ next' info info' env
  proceeds := h.proceeds

theorem Replaces.of_false (h : c.Replaces plan arms otherwise chain)
    (hfalse : condition.constantTruth? = some false) :
    c.Replaces plan (⟨condition, body, span⟩ :: arms) otherwise chain where
  runs l id next l' id' next' info info' env := by
    refine (alike_runArms_known hmode hfalse).trans ?_
    exact h.runs l _ next l' id' next' info info' env
  proceeds := h.proceeds

theorem replaces_of_true (hbody : c.SameRuns plan body body')
    (hreturns : Stmt.returnsIn body = false) (htrue : condition.constantTruth? = some true) :
    c.Replaces plan (⟨condition, body, span⟩ :: arms) otherwise ([], some body') where
  runs l id next l' id' next' info info' env := by
    refine (alike_runArms_known hmode htrue).trans (.symm (.of_spends (spends_runArms_some _) ?_))
    exact (hbody.runBody l _ l' _ env).symm
  proceeds := (replaces_some hbody hreturns).proceeds

/-- A folded chain comes to what the chain came to. -/
theorem Replaces.alike (h : c.Replaces plan arms otherwise chain) (l : Lowering) (id : Nat)
    (l' : Lowering) (id' : Nat) (env : Env) :
    Alike (fun n => c.runStmt n plan ((Stmt.choose arms otherwise span).lower l id).1 env)
      fun n => c.run n plan (lowerAll l' (foldedChain span chain) id').1 env := by
  obtain ⟨info, l₁, id₁, hlower⟩ := lower_choose l arms otherwise span id
  rw [hlower]
  refine .of_spends (spends_cond _ _) ?_
  obtain ⟨_ | ⟨arm, rest⟩, last⟩ := chain
  · have hruns := h.runs l₁ (id + 1) id₁ l' id' id' info info env
    cases last with
    | none =>
      -- nothing is left of the chain
      have hnone := hruns.trans (.of_spends spends_runArms_none (.const _))
      refine (hnone.bind fun env => Alike.const (pure (Exit.next, env))).trans ?_
      exact .symm (.of_spends spends_run_nil (.const _))
    | some body =>
      -- the last body takes the place of the chain
      have hbody := hruns.trans (.of_spends (spends_runArms_some _) (.of_spends (spends_runBody _)
        ((Alike.refl (stable_run hmode _)).bind fun _ => .const _)))
      have hbind := hbody.bind fun env => Alike.const (pure (Exit.next, env))
      simp only [bind_assoc, pure_bind] at hbind
      exact hbind.trans (h.proceeds body rfl l' id' env)
  · obtain ⟨info', l₂, id₂, hlower'⟩ := lower_choose l' (arm :: rest) last span id'
    have hone : (lowerAll l' (foldedChain span (arm :: rest, last)) id').1 =
        [((Stmt.choose (arm :: rest) last span).lower l' id').1] := rfl
    rw [hone, hlower']
    refine .trans ?_ (alike_run_one hmode _)
    refine .symm (.of_spends (spends_cond _ _) (.symm ?_))
    exact (h.runs l₁ (id + 1) id₁ l₂ (id' + 1) id₂ info info' env).bind fun _ => .const _

end Chains

/-! ## Loops -/

section Loops

variable (hmode : c.mode = .eager) {body body' : List Stmt} (hbody : c.SameRuns plan body body')

include hmode hbody

theorem SameRuns.forIn (target : Target) (source : Expr) (span : Span) (l : Lowering) (id : Nat)
    (l' : Lowering) (id' : Nat) (env : Env) :
    Alike (fun n => c.runStmt n plan ((Stmt.forIn target source body span).lower l id).1 env)
      fun n => c.runStmt n plan ((Stmt.forIn target source body' span).lower l' id').1 env := by
  rw [Stmt.lower, Stmt.lower]
  refine .spends_both (spends_forIn ..) (spends_forIn ..) (Alike.bind ?_ fun _ => .const _)
  refine .spends_both (spends_runFor hmode ..) (spends_runFor hmode ..) ?_
  refine (Alike.const _).bind fun items => ?_
  refine .spends_both (spends_hostFor ..) (spends_hostFor ..) ?_
  exact (Alike.const _).bind fun feed =>
    alike_hostEach hmode (hbody.runBody _ _ _ _) target feed env

theorem SameRuns.whileDo (condition : Expr) (span : Span) (l : Lowering) (id : Nat)
    (l' : Lowering) (id' : Nat) (env : Env) :
    Alike (fun n => c.runStmt n plan ((Stmt.whileDo condition body span).lower l id).1 env)
      fun n => c.runStmt n plan ((Stmt.whileDo condition body' span).lower l' id').1 env := by
  rw [Stmt.lower, Stmt.lower]
  refine .spends_both (spends_whileDo ..) (spends_whileDo ..) (Alike.bind ?_ fun _ => .const _)
  refine .spends_both (spends_runWhile hmode ..) (spends_runWhile hmode ..) ?_
  exact alike_hostWhile hmode (hbody.runBody _ _ _ _) condition env

end Loops

/-! ## Folding -/

section Folding

variable (hmode : c.mode = .eager)

include hmode

mutual

/-- The statements that take the place of one come to what it came to. -/
theorem alike_fold : ∀ (s : Stmt), s.leavesBlock = false →
    ∀ (l : Lowering) (id : Nat) (l' : Lowering) (id' : Nat) (env : Env),
      Alike (fun n => c.runStmt n plan (s.lower l id).1 env)
        fun n => c.run n plan (lowerAll l' s.fold id').1 env
  | .act action span, _, _, _, _, _, _ => alike_run_one hmode _
  | .choose arms none span, h, l, id, l', id', env => by
    simp only [Stmt.leavesBlock, Stmt.returns, Bool.or_eq_false_iff] at h
    exact (replaces_foldArms arms h.1 replaces_none).alike hmode l id l' id' env
  | .choose arms (some body) span, h, l, id, l', id', env => by
    simp only [Stmt.leavesBlock, Stmt.returns, Stmt.lastReturns, Bool.or_eq_false_iff] at h
    have hbody := sameRuns_foldAll body (Stmt.leavesBlock_of_returnsIn h.2)
    exact (replaces_foldArms arms h.1 (replaces_some hbody h.2)).alike hmode l id l' id' env
  | .forIn target source body span, h, l, id, l', id', env => by
    have hbody := sameRuns_foldAll body (Stmt.leavesBlock_of_returnsIn h)
    exact (hbody.forIn hmode target source span l id l' id' env).trans (alike_run_one hmode _)
  | .whileDo condition body span, h, l, id, l', id', env => by
    have hbody := sameRuns_foldAll body (Stmt.leavesBlock_of_returnsIn h)
    exact (hbody.whileDo hmode condition span l id l' id' env).trans (alike_run_one hmode _)

theorem replaces_foldArms : ∀ (arms : List Arm), Stmt.armsReturn arms = false →
    ∀ {otherwise folded : Option (List Stmt)}, c.Replaces plan [] otherwise ([], folded) →
      c.Replaces plan arms otherwise (foldArms arms folded)
  | [], _, _, _, hlast => hlast
  | ⟨condition, body, span⟩ :: rest, h, otherwise, folded, hlast => by
    rw [Stmt.armsReturn, Bool.or_eq_false_iff] at h
    have hbody := sameRuns_foldAll body (Stmt.leavesBlock_of_returnsIn h.1)
    have hrest := replaces_foldArms rest h.2 hlast
    rw [foldArms]
    cases htruth : condition.constantTruth? with
    | none => exact hrest.cons hmode hbody
    | some truth =>
      cases truth with
      | false => exact hrest.of_false hmode htruth
      | true => exact replaces_of_true hmode hbody h.1 htruth

/-- Folded statements come to what the statements came to. -/
theorem sameRuns_foldAll : ∀ (body : List Stmt), (∀ s ∈ body, s.leavesBlock = false) →
    c.SameRuns plan body (foldAll body)
  | [], _, _, _, _, _, _ => .spends_both spends_run_nil spends_run_nil (.const _)
  | s :: rest, h, l, id, l', id', env => by
    have hfirst := alike_fold s (h s (by simp)) l id l' id'
    have hrest := sameRuns_foldAll rest fun s' hs' => h s' (by simp [hs'])
    rw [foldAll, lowerAll_append]
    refine .trans ?_ (alike_append hmode _ _ env).symm
    refine .of_spends (spends_run _ _) ?_
    exact (hfirst env).bind fun r => alike_onward (fun env => hrest _ _ _ _ env) r

end

end Folding

/-- Statements are lowered unless looking at the source of one of their loops crashes. Then the
folded statements are lowered too, and folding keeps what statements come to on the host: with
enough fuel both lists have the same result and leave the same state, or both never have enough.
What is folded stays as it is, and has nothing left to fold. -/
theorem folding_keeps_runs (c : Setting) (plan : Option FaultPlan) (body : List Stmt)
    (l l' : Lowering) (id id' : Nat) (env : Env) (s : Tracer × Journal) :
    ((∃ lowered, l.lower body id = .ok lowered) ↔ ∀ loop ∈ loopsIn body,
      (Domain.ofExpr? l.constants loop.2 loop.1).crash? = none) ∧
    (l'.constants = l.constants → (∃ lowered, l.lower body id = .ok lowered) →
      ∃ folded, l'.lower (foldAll body) id' = .ok folded) ∧
    (c.mode = .eager → (∀ stmt ∈ body, stmt.leavesBlock = false) →
      ∀ lowered folded, l.lower body id = .ok lowered → l'.lower (foldAll body) id' = .ok folded →
      (∃ r least, r.1 ≠ .error .outOfFuel ∧ ∀ n, least ≤ n →
        c.run n plan lowered.1 env s = r ∧ c.run n plan folded.1 env s = r) ∨
      ∀ n, (c.run n plan lowered.1 env s).1 = .error .outOfFuel ∧
        (c.run n plan folded.1 env s).1 = .error .outOfFuel) ∧
    foldAll (foldAll body) = foldAll body ∧ Stmt.allFolded (foldAll body) = true := by
  have hfolded := Stmt.allFolded_foldAll body
  refine ⟨Lowering.exists_lower_iff, Lowering.lower_foldAll, ?_,
    Stmt.foldAll_of_allFolded hfolded, hfolded⟩
  intro hmode hbody lowered folded hlowered hfold
  obtain ⟨-, rfl⟩ := Lowering.lower_eq_ok hlowered
  obtain ⟨-, rfl⟩ := Lowering.lower_eq_ok hfold
  exact (sameRuns_foldAll hmode body hbody l id l' id' env).agree s

/-- A chain with a predicate on either side of one that is not known, and a chain without arms. -/
def ladder : FunctionDef :=
  ⟨"ladder", [⟨"x", none⟩],
    [.choose
        [⟨.literal (.bool false), [.act .pass .unknown], .unknown⟩,
          ⟨.var "x", [.act (.assign (.name "y") (.literal (.int 1))) .unknown], .unknown⟩,
          ⟨.not (.literal .none),
            [.choose [] (some [.act (.assign (.name "y") (.literal (.int 2))) .unknown]) .unknown],
            .unknown⟩,
          ⟨.var "z", [.act .pass .unknown], .unknown⟩]
        none .unknown,
      .act (.ret (some (.var "y"))) .unknown],
    none, none, .unknown⟩

def hostLadder : Setting :=
  ⟨⟨"ladder", none, ladder.params, (lowerAll ⟨ladder, [], none⟩ ladder.body 0).1, "", []⟩, {},
    .eager⟩

/-- Before folding and after it, `ladder` comes to the same result on a false argument. -/
theorem folding_keeps_runs_ladder :
    ∃ r least, r.1 ≠ .error .outOfFuel ∧ ∀ n, least ≤ n →
      hostLadder.run n none (lowerAll ⟨ladder, [], none⟩ ladder.body 0).1 [("x", .bool false)]
          (.start false, {}) = r ∧
        hostLadder.run n none (lowerAll ⟨ladder, [], none⟩ (foldAll ladder.body) 0).1
          [("x", .bool false)] (.start false, {}) = r := by
  have hends : (hostLadder.run 20 none (lowerAll ⟨ladder, [], none⟩ ladder.body 0).1
      [("x", .bool false)] (.start false, {})).1 =
        .ok (.ret (.int 2), [("x", .bool false), ("y", .int 2)]) := rfl
  obtain ⟨-, -, hkept, -⟩ := folding_keeps_runs hostLadder none ladder.body ⟨ladder, [], none⟩
    ⟨ladder, [], none⟩ 0 0 [("x", .bool false)] (.start false, {})
  obtain hsame | hnever := hkept rfl (by decide) _ _ rfl rfl
  · exact hsame
  · cases hends.symm.trans (hnever 20).1

/-- A loop that never runs, over as many items as the smallest integer has below zero. -/
def deadLoop : List Stmt :=
  [.choose
    [⟨.literal (.bool false),
      [.forIn (.name "i") (.call .range [.neg (.literal (.int Int64.minValue))])
        [.act .pass .unknown] .unknown],
      .unknown⟩]
    none .unknown]

/-- Lowering crashes on a loop that never runs, where folding leaves nothing to lower. -/
theorem deadLoop_crashes :
    (∀ stmt ∈ deadLoop, stmt.leavesBlock = false) ∧
      Lowering.lower ⟨ladder, [], none⟩ deadLoop 0 = .error (.crash .overflow) ∧
      foldAll deadLoop = [] ∧
      Lowering.lower ⟨ladder, [], none⟩ (foldAll deadLoop) 0 = .ok ([], 0, []) := by
  exact ⟨by decide, rfl, rfl, rfl⟩

end Setting

end StagedFlow
