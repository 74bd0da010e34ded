import StagedFlow.Proofs.Execution

/-!
A block whose attempt fails is run by the host as if it had never been attempted: the environment,
the regions and the inputs are the same, the types of all values that there were are the same, and
one warning has come in. Main definitions: `Tracer.NoTrace`, `Setting.Attempts`. Main result:
`Setting.fallback_leaves_no_trace`.
-/
set_option autoImplicit false

namespace StagedFlow

open Tracer

/-- Nothing was recorded between two states of a tracer: numbers were issued, and only values that
got theirs in between may have another type than before. -/
structure Tracer.NoTrace (t t' : Tracer) : Prop where
  session : t'.session = t.session
  root : t'.root = t.root
  openRegions : t'.openRegions = t.openRegions
  inputs : t'.inputs = t.inputs
  nextValue : t.nextValue ≤ t'.nextValue
  nextNode : t.nextNode ≤ t'.nextNode
  types : ∀ id, id < t.nextValue ∨ t'.nextValue ≤ id →
    Bindings.find? t'.types id = Bindings.find? t.types id

theorem Tracer.Appends.noTrace {t t' : Tracer} (h : t.Appends [] t') : t.NoTrace t' where
  session := h.session
  root := h.root_eq
  openRegions := h.openRegions_eq
  inputs := h.inputs
  nextValue := h.nextValue
  nextNode := h.nextNode
  types := h.types

namespace Setting

/-- In the environment `env`, the run `x` of a block comes from the state `s` to the attempt `call`
in the state `s₁`, and `host` runs the block on the host instead. -/
inductive Attempts (c : Setting) (n : Nat) (plan : Option FaultPlan) (env : Env) :
    BlockInfo → Exec Env → Tracer × Journal → Traced Journal (Failure RunError) (List Value) →
      Exec Env → Tracer × Journal → Prop
  | cond {info : BlockInfo} {arm : FlowArm} {rest : List FlowArm}
      {otherwise : Option (List FlowStmt)} {predicate : Value} {init : List Value}
      {s s₁ s₂ : Tracer × Journal}
      (hpredicate : Exec.ofEval (arm.condition.eval env) s = (.ok predicate, s₁))
      (htraced : predicate.isTraced = true) (hinit : c.entering info env s₁ = (.ok init, s₂)) :
    Attempts c n plan env info (c.runArms (n + 1) plan info (arm :: rest) otherwise env) s
      (c.condCall n plan info arm rest otherwise predicate env init)
      (c.chooseArm n plan info arm rest otherwise predicate env) s₂
  | forIn {info : BlockInfo} {target : Target} {source : Expr} {body : List FlowStmt}
      {items : Value} {domain : Domain} {range : LoopRange} {elements : Elements}
      {init : List Value} {s s₁ s₂ : Tracer × Journal}
      (hitems : Exec.ofEval (source.eval env) s = (.ok items, s₁))
      (hdomain : Domain.classify items target = .ok domain)
      (hconvertible : domain.kind.isConvertible = true)
      (hrange : items.loopRange = .ok (range, elements))
      (hinit : c.entering info env s₁ = (.ok init, s₂)) :
    Attempts c n plan env info (c.runFor (n + 1) plan info target source body .primitive env) s
      (c.forCall n plan info target body range elements env init)
      (c.hostFor n plan target body items env) s₂
  | whileDo {info : BlockInfo} {condition : Expr} {body : List FlowStmt} {init : List Value}
      {s s₁ : Tracer × Journal} (hinit : c.entering info env s = (.ok init, s₁)) :
    Attempts c n plan env info (c.runWhile (n + 1) plan info condition body env) s
      (c.whileCall n plan info condition body env init)
      (c.hostWhile n plan condition body env) s₁

section Attempts

variable {c : Setting} {n : Nat} {plan : Option FaultPlan} {env : Env} {info : BlockInfo}
  {x host : Exec Env} {call : Traced Journal (Failure RunError) (List Value)}
  {s s₁ s₂ : Tracer × Journal}

/-- The run of a block that is attempted is the attempt, with the host behind it. -/
theorem Attempts.run_eq (hmode : c.mode = .staged) (h : c.Attempts n plan env info x s call host s₁) :
    ∃ commit, x s = c.tried info call commit host s₁ := by
  cases h with
  | cond hpredicate htraced hinit =>
    refine ⟨Bindings.insertAll env info.outputs, ?_⟩
    rw [runArms_cons, Step.bind_of_ok hpredicate, htraced, hmode]
    exact Step.bind_of_ok hinit
  | forIn hitems hdomain hconvertible hrange hinit =>
    refine ⟨Bindings.insertAll env info.inputs, ?_⟩
    rw [runFor_succ, Step.bind_of_ok hitems, hmode, hdomain, hrange]
    rw [Exec.bind_ofOutcome_ok, Exec.bind_ofOutcome_ok, if_pos hconvertible]
    exact Step.bind_of_ok hinit
  | whileDo hinit =>
    refine ⟨Bindings.insertAll env info.inputs, ?_⟩
    rw [runWhile_succ, hmode]
    exact Step.bind_of_ok hinit

/-- What comes before an attempt adds nodes at most, and the attempt is a call of a primitive. -/
theorem Attempts.calls (hs : s.1.Numbered) (h : c.Attempts n plan env info x s call host s₁) :
    s₁.1.Numbered ∧ Calls False call s₁ := by
  -- nodes are added whatever the placeholders are, so none of them is assumed to be known
  have ih := sound c False n
  cases h with
  | cond hpredicate htraced hinit =>
    have hleads := (Exec.keeps_ofEval (Expr.keeps_eval _ s.1 False.elim) hs).of_ok hpredicate
    have hs' := (Exec.protocol False).keeps hs hleads.1
    obtain ⟨rfl, -⟩ := entering_eq_ok hinit
    exact ⟨hs', calls_condCall ih plan info _ _ _ hs' False.elim False.elim False.elim⟩
  | forIn hitems hdomain hconvertible hrange hinit =>
    have hleads := (Exec.keeps_ofEval (Expr.keeps_eval _ s.1 False.elim) hs).of_ok hitems
    have hs' := (Exec.protocol False).keeps hs hleads.1
    obtain ⟨rfl, -⟩ := entering_eq_ok hinit
    exact ⟨hs', calls_forCall ih plan info _ _ hs' False.elim False.elim False.elim⟩
  | whileDo hinit =>
    obtain ⟨rfl, -⟩ := entering_eq_ok hinit
    exact ⟨hs, calls_whileCall ih plan info _ _ hs False.elim False.elim⟩

theorem tried_of_fallback {commit : List Value → Env} {d : Diagnostic}
    (h : info.attempt c.options.strict call s = (.ok (.fallback d), s₁)) :
    c.tried info call commit host s =
      host (s₁.1, (s₁.2.rewind s.2.diagnostics.length).report c.options d) := by
  have hmark : Exec.mark s = (.ok s.2.diagnostics.length, s) := rfl
  unfold tried
  rw [Step.bind_of_ok hmark, Step.bind_of_ok h]
  rfl

/-- A block whose attempt fails is run by the host as if it had not been attempted, but for one
warning. -/
theorem fallback_leaves_no_trace (hmode : c.mode = .staged) (hs : s.1.Reachable)
    (hattempt : c.Attempts n plan env info x s call host s₁) {d : Diagnostic}
    (hfallback : info.attempt c.options.strict call s₁ = (.ok (.fallback d), s₂)) :
    ∃ s₃ : Tracer × Journal, x s = host s₃ ∧ s₁.1.NoTrace s₃.1 ∧
      s₃.2.diagnostics = s₁.2.diagnostics ++ (if c.options.quiet then [] else [d]) ∧
      ∃ stage e, d = info.primitiveFallback stage e := by
  obtain ⟨commit, hrun⟩ := hattempt.run_eq hmode
  obtain ⟨hs₁, hcall⟩ := hattempt.calls hs.numbered
  have hresult := BlockInfo.ensures_attempt info c.options.strict hs₁ hcall
  obtain ⟨hreported, hnothing, hd⟩ := hresult.of_ok hfallback
  refine ⟨(s₂.1, (s₂.2.rewind s₁.2.diagnostics.length).report c.options d), ?_, ?_, ?_, hd⟩
  · rw [hrun, tried_of_fallback hfallback]
  · exact hnothing.noTrace
  · exact Journal.diagnostics_replaced c.options d hreported

end Attempts

/-! A loop whose body squares an array: its shape does not stay, so the attempt fails after the node
is recorded. -/

section Squaring

/-- Whether an attempt has come to nothing. -/
def fellBack : Except (Halt RunError) Attempt → Bool
  | .ok (.fallback _) => true
  | _ => false

theorem exists_of_fellBack {r : Except (Halt RunError) Attempt × (Tracer × Journal)}
    (h : fellBack r.1 = true) : ∃ d s, r = (.ok (.fallback d), s) := by
  obtain ⟨(e | values | d), s⟩ := r
  · cases h
  · cases h
  · exact ⟨d, s, rfl⟩

def squaringInfo : BlockInfo :=
  ⟨0, .conditionalLoop, ⟨none, "square", 1, none⟩, [⟨"x", true, true, .unknown, []⟩], []⟩

def squaringBody : List FlowStmt :=
  [.act (.assign (.name "x") (.call .kron [.var "x", .var "x"])) .unknown]

theorem fallback_leaves_no_trace_squaring :
    let c : Setting := ⟨default, {}, .staged⟩
    let t := ((Tracer.start true).input ⟨.int, [2]⟩).2
    let x := Value.traced 0 ⟨.int, [2]⟩
    let condition : Expr := .literal (.bool true)
    let call := c.whileCall 9 none squaringInfo condition squaringBody [("x", x)] [x]
    ∃ d s₂, squaringInfo.attempt false call (t, {}) = (.ok (.fallback d), s₂) ∧
      ∃ s₃ : Tracer × Journal,
        c.runWhile (9 + 1) none squaringInfo condition squaringBody [("x", x)] (t, {}) =
          c.hostWhile 9 none condition squaringBody [("x", x)] s₃ ∧
        t.NoTrace s₃.1 ∧ s₃.2.diagnostics = [d] ∧
        ∃ stage e, d = squaringInfo.primitiveFallback stage e := by
  intro c t x condition call
  have hfell : fellBack (squaringInfo.attempt false call (t, {})).1 = true := by decide +kernel
  obtain ⟨d, s₂, hfallback⟩ := exists_of_fellBack hfell
  have hattempt : c.Attempts 9 none [("x", x)] squaringInfo
      (c.runWhile (9 + 1) none squaringInfo condition squaringBody [("x", x)]) (t, {}) call
      (c.hostWhile 9 none condition squaringBody [("x", x)]) (t, {}) := .whileDo rfl
  exact ⟨d, s₂, hfallback,
    fallback_leaves_no_trace rfl (.input _ (.start true)) hattempt hfallback⟩

end Squaring

end Setting

end StagedFlow
