import StagedFlow.Proofs.HostRuns

/-!
Runs on the host with any amount of fuel. Once a run in eager mode has come to a result, more fuel
does not change it, so that two runs can be compared by what they come to, whatever each of them
spends. Main definitions: `Step.Stable`, `Step.Alike`. Main results: `Setting.stable_run`,
`Step.Alike.bind`, `Step.Alike.agree`, `Setting.alike_hostEach`, `Setting.alike_hostWhile`.
-/
set_option autoImplicit false

namespace StagedFlow

namespace Step

variable {S ε α β : Type}

/-! ## More fuel -/

/-- The first step runs out of fuel, or the second does the same as the first. -/
def Below (x y : Step S ε α) : Prop :=
  ∀ s, (x s).1 = .error .outOfFuel ∨ y s = x s

namespace Below

theorem refl (x : Step S ε α) : x.Below x :=
  fun _ => .inr rfl

theorem halt (y : Step S ε α) : (Step.halt .outOfFuel : Step S ε α).Below y :=
  fun _ => .inl rfl

theorem trans {x y z : Step S ε α} (hxy : x.Below y) (hyz : y.Below z) : x.Below z := by
  intro s
  rcases hxy s with hout | hsame
  · exact .inl hout
  · rcases hyz s with hout | hsame'
    · rw [hsame] at hout
      exact .inl hout
    · exact .inr (hsame'.trans hsame)

theorem bind {x y : Step S ε α} {f g : α → Step S ε β} (hx : x.Below y)
    (hf : ∀ a, (f a).Below (g a)) : (x >>= f).Below (y >>= g) := by
  intro s
  rcases hresult : x s with ⟨e | a, s'⟩
  · rcases hx s with hout | hsame
    · rw [hresult] at hout
      cases hout
      exact .inl (by rw [bind_of_error hresult])
    · rw [bind_of_error hresult, bind_of_error (hsame.trans hresult)]
      exact .inr rfl
  · have hsame : y s = (.ok a, s') := by
      rcases hx s with hout | hsame
      · rw [hresult] at hout
        cases hout
      · exact hsame.trans hresult
    rw [bind_of_ok hresult, bind_of_ok hsame]
    exact hf a s'

end Below

/-- Fuel that was enough stays enough, and the result stays the same. -/
def Stable (x : Nat → Step S ε α) : Prop :=
  ∀ n, (x n).Below (x (n + 1))

/-- The first spends one unit of fuel and goes on as the second. -/
structure Spends (x x' : Nat → Step S ε α) : Prop where
  zero : x 0 = Step.halt .outOfFuel
  succ : ∀ n, x (n + 1) = x' n

namespace Stable

variable {x x' : Nat → Step S ε α}

theorem le (hx : Stable x) {n m : Nat} (h : n ≤ m) : (x n).Below (x m) := by
  induction h with
  | refl => exact .refl _
  | step _ ih => exact ih.trans (hx _)

theorem const (x : Step S ε α) : Stable fun _ => x :=
  fun _ => .refl x

theorem bind {f : Nat → α → Step S ε β} (hx : Stable x) (hf : ∀ a, Stable fun n => f n a) :
    Stable fun n => x n >>= f n :=
  fun n => (hx n).bind fun a => hf a n

theorem of_spends (h : Spends x x') (hx : Stable x') : Stable x := by
  intro n
  cases n with
  | zero =>
    rw [h.zero]
    exact .halt _
  | succ n =>
    rw [h.succ, h.succ]
    exact hx n

theorem spent (hx : Stable x) (h : Spends x x') : Stable x' := by
  intro n
  rw [← h.succ, ← h.succ]
  exact hx (n + 1)

theorem eq_of_le (hx : Stable x) {n m : Nat} (h : n ≤ m) {s : S} {r : Except (Halt ε) α × S}
    (hr : x n s = r) (hend : r.1 ≠ .error .outOfFuel) : x m s = r := by
  rcases hx.le h s with hout | hsame
  · rw [hr] at hout
    exact absurd hout hend
  · exact hsame.trans hr

end Stable

/-! ## The same results -/

/-- What the step comes to, the other comes to with some fuel. -/
def Gives (x : Step S ε α) (y : Nat → Step S ε α) : Prop :=
  ∀ s, (x s).1 = .error .outOfFuel ∨ ∃ n, y n s = x s

namespace Gives

variable {x : Step S ε α} {y y' z : Nat → Step S ε α}

theorem halt (y : Nat → Step S ε α) : (Step.halt .outOfFuel : Step S ε α).Gives y :=
  fun _ => .inl rfl

theorem self (y : Nat → Step S ε α) (n : Nat) : (y n).Gives y :=
  fun _ => .inr ⟨n, rfl⟩

theorem const (x : Step S ε α) : x.Gives fun _ => x :=
  .self (fun _ => x) 0

theorem spends (h : Spends y y') (hx : x.Gives y') : x.Gives y := by
  intro s
  rcases hx s with hout | ⟨n, hsame⟩
  · exact .inl hout
  · refine .inr ⟨n + 1, ?_⟩
    rw [h.succ, hsame]

theorem trans (hx : x.Gives y) (hy : ∀ n, (y n).Gives z) : x.Gives z := by
  intro s
  rcases hx s with hout | ⟨n, hsame⟩
  · exact .inl hout
  · have hnext := hy n s
    rwa [hsame] at hnext

theorem bind {f : α → Step S ε β} {g : Nat → α → Step S ε β} (hx : x.Gives y) (hy : Stable y)
    (hf : ∀ a, (f a).Gives fun n => g n a) (hg : ∀ a, Stable fun n => g n a) :
    (x >>= f).Gives fun n => y n >>= g n := by
  intro s
  rcases hresult : x s with ⟨e | a, s'⟩
  · rw [bind_of_error hresult]
    rcases hx s with hout | ⟨n, hsame⟩
    · rw [hresult] at hout
      cases hout
      exact .inl rfl
    · exact .inr ⟨n, bind_of_error (hsame.trans hresult)⟩
  · have hfirst : ∃ n, y n s = (.ok a, s') := by
      rcases hx s with hout | ⟨n, hsame⟩
      · rw [hresult] at hout
        cases hout
      · exact ⟨n, hsame.trans hresult⟩
    obtain ⟨n, hn⟩ := hfirst
    rw [bind_of_ok hresult]
    by_cases hend : (f a s').1 = .error .outOfFuel
    · exact .inl hend
    · -- both parts have enough fuel with the larger of their amounts
      rcases hf a s' with hout | ⟨m, hm⟩
      · exact absurd hout hend
      · have hn' : y (max n m) s = (.ok a, s') :=
          hy.eq_of_le (Nat.le_max_left n m) hn (by simp)
        have hm' : g (max n m) a s' = f a s' :=
          (hg a).eq_of_le (Nat.le_max_right n m) hm hend
        exact .inr ⟨max n m, (bind_of_ok hn').trans hm'⟩

end Gives

/-- Two ways to compute the same: what one comes to with some fuel, so does the other. -/
structure Alike (x y : Nat → Step S ε α) : Prop where
  left : Stable x
  right : Stable y
  there : ∀ n, (x n).Gives y
  back : ∀ n, (y n).Gives x

namespace Alike

variable {x x' y z : Nat → Step S ε α}

theorem refl (hx : Stable x) : Alike x x :=
  ⟨hx, hx, .self x, .self x⟩

theorem const (x : Step S ε α) : Alike (fun _ => x) fun _ => x :=
  .refl (.const x)

theorem symm (h : Alike x y) : Alike y x :=
  ⟨h.right, h.left, h.back, h.there⟩

theorem trans (h : Alike x y) (h' : Alike y z) : Alike x z where
  left := h.left
  right := h'.right
  there n := (h.there n).trans h'.there
  back n := (h'.back n).trans h.back

theorem bind {f g : Nat → α → Step S ε β} (h : Alike x y)
    (hf : ∀ a, Alike (fun n => f n a) fun n => g n a) :
    Alike (fun n => x n >>= f n) fun n => y n >>= g n where
  left := h.left.bind fun a => (hf a).left
  right := h.right.bind fun a => (hf a).right
  there n := (h.there n).bind h.right (fun a => (hf a).there n) fun a => (hf a).right
  back n := (h.back n).bind h.left (fun a => (hf a).back n) fun a => (hf a).left

theorem of_spends (hx : Spends x x') (h : Alike x' y) : Alike x y := by
  refine .trans ⟨h.left.of_spends hx, h.left, fun n => ?_, fun n => ?_⟩ h
  · cases n with
    | zero =>
      rw [hx.zero]
      exact .halt x'
    | succ n =>
      rw [hx.succ]
      exact .self x' n
  · rw [← hx.succ]
    exact .self x (n + 1)

theorem spends_both {y' : Nat → Step S ε α} (hx : Spends x x') (hy : Spends y y')
    (h : Alike x' y') : Alike x y :=
  .of_spends hx (.symm (.of_spends hy h.symm))

/-- The two have the same result with all fuel from some amount on, or never enough fuel. -/
theorem agree (h : Alike x y) (s : S) :
    (∃ r least, r.1 ≠ .error .outOfFuel ∧ ∀ n, least ≤ n → x n s = r ∧ y n s = r) ∨
      ∀ n, (x n s).1 = .error .outOfFuel ∧ (y n s).1 = .error .outOfFuel := by
  by_cases hends : ∃ n, (x n s).1 ≠ .error .outOfFuel
  · obtain ⟨n, hend⟩ := hends
    obtain hout | ⟨m, hm⟩ := h.there n s
    · exact absurd hout hend
    · refine .inl ⟨x n s, max n m, hend, fun k hk => ⟨?_, ?_⟩⟩
      · exact h.left.eq_of_le (by omega) rfl hend
      · exact h.right.eq_of_le (by omega) hm hend
  · have hleft : ∀ n, (x n s).1 = .error .outOfFuel := by
      simpa using hends
    refine .inr fun n => ⟨hleft n, ?_⟩
    rcases h.back n s with hout | ⟨m, hm⟩
    · exact hout
    · rw [← hm]
      exact hleft m

end Alike

end Step

/-! ## Parts of a run -/

namespace Setting

open Step

variable {c : Setting} {plan : Option FaultPlan} {env : Env} {info : BlockInfo}

/-- Go on after a statement, unless it returned. -/
def onward (next : Env → Exec (Exit × Env)) : Exit × Env → Exec (Exit × Env)
  | (.ret v, env) => return (.ret v, env)
  | (.next, env) => next env

theorem run_cons (n : Nat) (s : FlowStmt) (rest : List FlowStmt) :
    c.run (n + 1) plan (s :: rest) env =
      (c.runStmt n plan s env >>= onward (c.run n plan rest)) := by
  rw [run]
  refine bind_congr fun r => ?_
  obtain ⟨exit, env'⟩ := r
  cases exit <;> rfl

theorem onward_bind (k k' : Env → Exec (Exit × Env)) (r : Exit × Env) :
    (onward k r >>= onward k') = onward (fun env => k env >>= onward k') r := by
  obtain ⟨exit, env⟩ := r
  cases exit <;> rfl

theorem runArms_eager (hmode : c.mode = .eager) (n : Nat) (arm : FlowArm) (rest : List FlowArm)
    (otherwise : Option (List FlowStmt)) :
    c.runArms (n + 1) plan info (arm :: rest) otherwise env =
      (Exec.ofEval (arm.condition.eval env) >>= fun predicate =>
        c.chooseArm n plan info arm rest otherwise predicate env) := by
  rw [runArms]
  simp only [hmode, decide_true, Bool.true_or, if_true]

theorem runFor_eager (hmode : c.mode = .eager) (n : Nat) (target : Target) (source : Expr)
    (body : List FlowStmt) (strategy : Strategy) :
    c.runFor (n + 1) plan info target source body strategy env =
      (Exec.ofEval (source.eval env) >>= fun items =>
        c.hostFor n plan target body items env) := by
  rw [runFor]
  simp only [hmode, decide_true, Bool.true_or, if_true]

theorem runWhile_eager (hmode : c.mode = .eager) (n : Nat) (condition : Expr)
    (body : List FlowStmt) :
    c.runWhile (n + 1) plan info condition body env = c.hostWhile n plan condition body env := by
  rw [runWhile, if_pos hmode]

/-- With one unit more than this much fuel, no part of a run comes to another result. -/
structure StableAt (c : Setting) (n : Nat) : Prop where
  run : ∀ plan body env, (c.run n plan body env).Below (c.run (n + 1) plan body env)
  runStmt : ∀ plan s env, (c.runStmt n plan s env).Below (c.runStmt (n + 1) plan s env)
  runBody : ∀ plan body env, (c.runBody n plan body env).Below (c.runBody (n + 1) plan body env)
  runArms : ∀ plan info arms otherwise env,
    (c.runArms n plan info arms otherwise env).Below
      (c.runArms (n + 1) plan info arms otherwise env)
  chooseArm : ∀ plan info arm rest otherwise predicate env,
    (c.chooseArm n plan info arm rest otherwise predicate env).Below
      (c.chooseArm (n + 1) plan info arm rest otherwise predicate env)
  runFor : ∀ plan info target source body strategy env,
    (c.runFor n plan info target source body strategy env).Below
      (c.runFor (n + 1) plan info target source body strategy env)
  hostFor : ∀ plan target body items env,
    (c.hostFor n plan target body items env).Below (c.hostFor (n + 1) plan target body items env)
  hostEach : ∀ plan target body feed env,
    (c.hostEach n plan target body feed env).Below (c.hostEach (n + 1) plan target body feed env)
  runWhile : ∀ plan info condition body env,
    (c.runWhile n plan info condition body env).Below
      (c.runWhile (n + 1) plan info condition body env)
  hostWhile : ∀ plan condition body env,
    (c.hostWhile n plan condition body env).Below (c.hostWhile (n + 1) plan condition body env)

theorem stableAt_zero : c.StableAt 0 where
  run _ _ _ := by
    rw [Setting.run]
    exact .halt _
  runStmt _ _ _ := by
    rw [Setting.runStmt]
    exact .halt _
  runBody _ _ _ := by
    rw [Setting.runBody]
    exact .halt _
  runArms _ _ _ _ _ := by
    rw [Setting.runArms]
    exact .halt _
  chooseArm _ _ _ _ _ _ _ := by
    rw [Setting.chooseArm]
    exact .halt _
  runFor _ _ _ _ _ _ _ := by
    rw [Setting.runFor]
    exact .halt _
  hostFor _ _ _ _ _ := by
    rw [Setting.hostFor]
    exact .halt _
  hostEach _ _ _ _ _ := by
    rw [Setting.hostEach]
    exact .halt _
  runWhile _ _ _ _ _ := by
    rw [Setting.runWhile]
    exact .halt _
  hostWhile _ _ _ _ := by
    rw [Setting.hostWhile]
    exact .halt _

section Parts

variable {n : Nat} (ih : c.StableAt n)

include ih

theorem below_run (body : List FlowStmt) :
    (c.run (n + 1) plan body env).Below (c.run (n + 2) plan body env) := by
  cases body with
  | nil =>
    rw [Setting.run, Setting.run]
    exact .refl _
  | cons s rest =>
    rw [run_cons, run_cons]
    refine (ih.runStmt plan s env).bind fun r => ?_
    obtain ⟨exit, env'⟩ := r
    cases exit with
    | ret v => exact .refl _
    | next => exact ih.run plan rest env'

theorem below_runStmt (s : FlowStmt) :
    (c.runStmt (n + 1) plan s env).Below (c.runStmt (n + 2) plan s env) := by
  cases s with
  | act action span =>
    rw [Setting.runStmt, Setting.runStmt]
    exact .refl _
  | cond info arms otherwise =>
    rw [Setting.runStmt, Setting.runStmt]
    exact (ih.runArms plan info arms otherwise env).bind fun _ => .refl _
  | forIn info target source body domain strategy =>
    rw [Setting.runStmt, Setting.runStmt]
    exact (ih.runFor plan info target source body strategy env).bind fun _ => .refl _
  | whileDo info condition body =>
    rw [Setting.runStmt, Setting.runStmt]
    exact (ih.runWhile plan info condition body env).bind fun _ => .refl _

theorem below_runArms (hmode : c.mode = .eager) (arms : List FlowArm)
    (otherwise : Option (List FlowStmt)) :
    (c.runArms (n + 1) plan info arms otherwise env).Below
      (c.runArms (n + 2) plan info arms otherwise env) := by
  cases arms with
  | nil =>
    cases otherwise with
    | none =>
      rw [Setting.runArms, Setting.runArms]
      exact .refl _
    | some body =>
      rw [Setting.runArms, Setting.runArms]
      exact ih.runBody plan body env
  | cons arm rest =>
    rw [runArms_eager hmode, runArms_eager hmode]
    exact (Below.refl _).bind fun predicate =>
      ih.chooseArm plan info arm rest otherwise predicate env

theorem below_chooseArm (arm : FlowArm) (rest : List FlowArm)
    (otherwise : Option (List FlowStmt)) (predicate : Value) :
    (c.chooseArm (n + 1) plan info arm rest otherwise predicate env).Below
      (c.chooseArm (n + 2) plan info arm rest otherwise predicate env) := by
  rw [Setting.chooseArm, Setting.chooseArm]
  refine (Below.refl _).bind fun truth => ?_
  cases truth with
  | true => exact ih.runBody plan arm.body env
  | false => exact ih.runArms plan info rest otherwise env

theorem below_hostEach (target : Target) (body : List FlowStmt) (feed : Feed) :
    (c.hostEach (n + 1) plan target body feed env).Below
      (c.hostEach (n + 2) plan target body feed env) := by
  rw [Setting.hostEach, Setting.hostEach]
  split
  · exact .refl _
  · next item feed' _ =>
    refine (Below.refl _).bind fun env₁ => ?_
    exact (ih.runBody plan body env₁).bind fun env₂ => ih.hostEach plan target body feed' env₂

theorem below_hostWhile (condition : Expr) (body : List FlowStmt) :
    (c.hostWhile (n + 1) plan condition body env).Below
      (c.hostWhile (n + 2) plan condition body env) := by
  rw [Setting.hostWhile, Setting.hostWhile]
  refine (Below.refl _).bind fun predicate => (Below.refl _).bind fun truth => ?_
  cases truth with
  | true => exact (ih.runBody plan body env).bind fun env' => ih.hostWhile plan condition body env'
  | false => exact .refl _

end Parts

theorem stableAt (hmode : c.mode = .eager) (n : Nat) : c.StableAt n := by
  induction n with
  | zero => exact stableAt_zero
  | succ n ih =>
    exact {
      run := fun _ body _ => below_run ih body
      runStmt := fun _ s _ => below_runStmt ih s
      runBody := fun plan body env => by
        rw [Setting.runBody, Setting.runBody]
        exact (ih.run plan body env).bind fun _ => .refl _
      runArms := fun _ _ arms otherwise _ => below_runArms ih hmode arms otherwise
      chooseArm := fun _ _ arm rest otherwise predicate _ =>
        below_chooseArm ih arm rest otherwise predicate
      runFor := fun plan _ target source body strategy env => by
        rw [runFor_eager hmode, runFor_eager hmode]
        exact (Below.refl _).bind fun items => ih.hostFor plan target body items env
      hostFor := fun plan target body items env => by
        rw [Setting.hostFor, Setting.hostFor]
        exact (Below.refl _).bind fun feed => ih.hostEach plan target body feed env
      hostEach := fun _ target body feed _ => below_hostEach ih target body feed
      runWhile := fun plan _ condition body env => by
        rw [runWhile_eager hmode, runWhile_eager hmode]
        exact ih.hostWhile plan condition body env
      hostWhile := fun _ condition body _ => below_hostWhile ih condition body }

/-- More fuel keeps the result of a run on the host. -/
theorem stable_run (hmode : c.mode = .eager) (body : List FlowStmt) :
    Stable fun n => c.run n plan body env :=
  fun n => (stableAt hmode n).run plan body env

theorem stable_runStmt (hmode : c.mode = .eager) (s : FlowStmt) :
    Stable fun n => c.runStmt n plan s env :=
  fun n => (stableAt hmode n).runStmt plan s env

theorem stable_runBody (hmode : c.mode = .eager) (body : List FlowStmt) :
    Stable fun n => c.runBody n plan body env :=
  fun n => (stableAt hmode n).runBody plan body env

theorem stable_runArms (hmode : c.mode = .eager) (arms : List FlowArm)
    (otherwise : Option (List FlowStmt)) :
    Stable fun n => c.runArms n plan info arms otherwise env :=
  fun n => (stableAt hmode n).runArms plan info arms otherwise env

theorem stable_hostEach (hmode : c.mode = .eager) (target : Target) (body : List FlowStmt)
    (feed : Feed) : Stable fun n => c.hostEach n plan target body feed env :=
  fun n => (stableAt hmode n).hostEach plan target body feed env

theorem stable_hostWhile (hmode : c.mode = .eager) (condition : Expr) (body : List FlowStmt) :
    Stable fun n => c.hostWhile n plan condition body env :=
  fun n => (stableAt hmode n).hostWhile plan condition body env

/-! ## What a run spends on its parts -/

theorem spends_run (s : FlowStmt) (rest : List FlowStmt) :
    Spends (fun n => c.run n plan (s :: rest) env)
      fun n => c.runStmt n plan s env >>= onward (c.run n plan rest) :=
  ⟨by rw [run], fun n => run_cons n s rest⟩

theorem spends_run_nil : Spends (fun n => c.run n plan [] env) fun _ => pure (.next, env) :=
  ⟨by rw [run], fun n => by rw [run]⟩

theorem spends_cond (arms : List FlowArm) (otherwise : Option (List FlowStmt)) :
    Spends (fun n => c.runStmt n plan (.cond info arms otherwise) env)
      fun n => c.runArms n plan info arms otherwise env >>= fun env => pure (.next, env) :=
  ⟨by rw [runStmt], fun n => by rw [runStmt]⟩

theorem spends_forIn (target : Target) (source : Expr) (body : List FlowStmt)
    (domain : Option Domain) (strategy : Strategy) :
    Spends (fun n => c.runStmt n plan (.forIn info target source body domain strategy) env)
      fun n => c.runFor n plan info target source body strategy env >>= fun env =>
        pure (.next, env) :=
  ⟨by rw [runStmt], fun n => by rw [runStmt]⟩

theorem spends_whileDo (condition : Expr) (body : List FlowStmt) :
    Spends (fun n => c.runStmt n plan (.whileDo info condition body) env)
      fun n => c.runWhile n plan info condition body env >>= fun env => pure (.next, env) :=
  ⟨by rw [runStmt], fun n => by rw [runStmt]⟩

theorem spends_runBody (body : List FlowStmt) :
    Spends (fun n => c.runBody n plan body env)
      fun n => c.run n plan body env >>= fun r => pure r.2 :=
  ⟨by rw [runBody], fun n => by rw [runBody]⟩

theorem spends_runArms_some (body : List FlowStmt) :
    Spends (fun n => c.runArms n plan info [] (some body) env) fun n => c.runBody n plan body env :=
  ⟨by rw [runArms], fun n => by rw [runArms]⟩

theorem spends_runArms_none :
    Spends (fun n => c.runArms n plan info [] none env) fun _ => pure env :=
  ⟨by rw [runArms], fun n => by rw [runArms]⟩

theorem spends_runArms (hmode : c.mode = .eager) (arm : FlowArm) (rest : List FlowArm)
    (otherwise : Option (List FlowStmt)) :
    Spends (fun n => c.runArms n plan info (arm :: rest) otherwise env)
      fun n => Exec.ofEval (arm.condition.eval env) >>= fun predicate =>
        c.chooseArm n plan info arm rest otherwise predicate env :=
  ⟨by rw [runArms], fun n => runArms_eager hmode n arm rest otherwise⟩

theorem spends_chooseArm (arm : FlowArm) (rest : List FlowArm)
    (otherwise : Option (List FlowStmt)) (predicate : Value) :
    Spends (fun n => c.chooseArm n plan info arm rest otherwise predicate env)
      fun n => Exec.ofEval (Eval.ofFault predicate.truthy) >>= fun truth =>
        if truth then c.runBody n plan arm.body env else c.runArms n plan info rest otherwise env :=
  ⟨by rw [chooseArm], fun n => by rw [chooseArm]⟩

theorem spends_runFor (hmode : c.mode = .eager) (target : Target) (source : Expr)
    (body : List FlowStmt) (strategy : Strategy) :
    Spends (fun n => c.runFor n plan info target source body strategy env)
      fun n => Exec.ofEval (source.eval env) >>= fun items =>
        c.hostFor n plan target body items env :=
  ⟨by rw [runFor], fun n => runFor_eager hmode n target source body strategy⟩

theorem spends_hostFor (target : Target) (body : List FlowStmt) (items : Value) :
    Spends (fun n => c.hostFor n plan target body items env)
      fun n => Exec.ofTracer (Feed.of items) >>= fun feed =>
        c.hostEach n plan target body feed env :=
  ⟨by rw [hostFor], fun n => by rw [hostFor]⟩

theorem spends_hostEach {target : Target} {body : List FlowStmt} {feed feed' : Feed} {item : Value}
    (hnext : feed.next? = some (item, feed')) :
    Spends (fun n => c.hostEach n plan target body feed env)
      fun n => Exec.ofTracer (target.assign item env) >>= fun env =>
        c.runBody n plan body env >>= fun env => c.hostEach n plan target body feed' env :=
  ⟨by rw [hostEach], fun n => by rw [hostEach, hnext]⟩

theorem spends_hostEach_nil {target : Target} {body : List FlowStmt} {feed : Feed}
    (hnext : feed.next? = none) :
    Spends (fun n => c.hostEach n plan target body feed env) fun _ => pure env :=
  ⟨by rw [hostEach], fun n => by rw [hostEach, hnext]⟩

theorem spends_runWhile (hmode : c.mode = .eager) (condition : Expr) (body : List FlowStmt) :
    Spends (fun n => c.runWhile n plan info condition body env)
      fun n => c.hostWhile n plan condition body env :=
  ⟨by rw [runWhile], fun n => runWhile_eager hmode n condition body⟩

theorem spends_hostWhile (condition : Expr) (body : List FlowStmt) :
    Spends (fun n => c.hostWhile n plan condition body env)
      fun n => Exec.ofEval (condition.eval env) >>= fun predicate =>
        Exec.ofEval (Eval.ofFault predicate.truthy) >>= fun truth =>
          if truth then
            c.runBody n plan body env >>= fun env => c.hostWhile n plan condition body env
          else pure env :=
  ⟨by rw [hostWhile], fun n => by rw [hostWhile]⟩

/-! ## Loops -/

section Loops

variable (hmode : c.mode = .eager) {body body' : List FlowStmt}

include hmode

theorem gives_hostEach
    (hbody : ∀ n env, (c.runBody n plan body env).Gives fun n => c.runBody n plan body' env)
    (target : Target) (n : Nat) (feed : Feed) (env : Env) :
    (c.hostEach n plan target body feed env).Gives
      fun n => c.hostEach n plan target body' feed env := by
  -- the loop on the left has fuel for at most `n` rounds
  induction n generalizing feed env with
  | zero =>
    rw [hostEach]
    exact .halt _
  | succ n ih =>
    rcases hnext : feed.next? with _ | ⟨item, feed'⟩
    · rw [(spends_hostEach_nil hnext).succ]
      exact .spends (spends_hostEach_nil hnext) (.const _)
    · have hrest : ∀ env, Stable fun n => c.hostEach n plan target body' feed' env :=
        fun env => stable_hostEach hmode target body' feed'
      rw [(spends_hostEach hnext).succ]
      refine .spends (spends_hostEach hnext) ?_
      refine (Gives.const _).bind (.const _) (fun env₁ => ?_) fun env₁ =>
        (stable_runBody hmode body').bind hrest
      exact (hbody n env₁).bind (stable_runBody hmode body') (ih feed') hrest

theorem gives_hostWhile
    (hbody : ∀ n env, (c.runBody n plan body env).Gives fun n => c.runBody n plan body' env)
    (condition : Expr) (n : Nat) (env : Env) :
    (c.hostWhile n plan condition body env).Gives
      fun n => c.hostWhile n plan condition body' env := by
  have hrest : ∀ env, Stable fun n => c.hostWhile n plan condition body' env :=
    fun env => stable_hostWhile hmode condition body'
  have hround : ∀ (truth : Bool) (env : Env), Stable fun n =>
      if truth then c.runBody n plan body' env >>= fun env => c.hostWhile n plan condition body' env
      else pure env := by
    intro truth env
    cases truth with
    | true => exact (stable_runBody hmode body').bind hrest
    | false => exact .const _
  induction n generalizing env with
  | zero =>
    rw [hostWhile]
    exact .halt _
  | succ n ih =>
    rw [(spends_hostWhile condition body).succ]
    refine .spends (spends_hostWhile condition body') ?_
    refine (Gives.const _).bind (.const _) (fun predicate => ?_) fun predicate =>
      (Stable.const _).bind fun truth => hround truth env
    refine (Gives.const _).bind (.const _) (fun truth => ?_) fun truth => hround truth env
    cases truth with
    | true => exact (hbody n env).bind (stable_runBody hmode body') ih hrest
    | false => exact .const _

variable (hbody : ∀ env, Alike (fun n => c.runBody n plan body env)
  fun n => c.runBody n plan body' env)

include hbody

/-- Loops over the same items with bodies that come to the same. -/
theorem alike_hostEach (target : Target) (feed : Feed) (env : Env) :
    Alike (fun n => c.hostEach n plan target body feed env)
      fun n => c.hostEach n plan target body' feed env where
  left := stable_hostEach hmode target body feed
  right := stable_hostEach hmode target body' feed
  there n := gives_hostEach hmode (fun n env => (hbody env).there n) target n feed env
  back n := gives_hostEach hmode (fun n env => (hbody env).back n) target n feed env

/-- Loops under the same condition with bodies that come to the same. -/
theorem alike_hostWhile (condition : Expr) (env : Env) :
    Alike (fun n => c.hostWhile n plan condition body env)
      fun n => c.hostWhile n plan condition body' env where
  left := stable_hostWhile hmode condition body
  right := stable_hostWhile hmode condition body'
  there n := gives_hostWhile hmode (fun n env => (hbody env).there n) condition n env
  back n := gives_hostWhile hmode (fun n env => (hbody env).back n) condition n env

end Loops

end Setting

end StagedFlow
