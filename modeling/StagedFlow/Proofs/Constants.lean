import StagedFlow.Proofs.MissingNames

/-!
Names that stand for constants. An expression that is taken for a constant has that value wherever
it has one, and a loop source whose domain is found before the run has this domain whenever it is
evaluated, as long as no name that stands for a constant has another value. Main definitions:
`Env.Holds`, `FlowStmt.Steady`. Main results: `Expr.delivers_constant`, `Domain.delivers_ofExpr?`,
`FunctionDef.convert_steady`.
-/
set_option autoImplicit false

namespace StagedFlow

/-! ## Values of constants -/

/-- A step may be followed by what comes after the only value that it has. -/
theorem Step.Delivers.bind_value {σ ε α β : Type} {x : Step σ ε α} {f : α → Step σ ε β} {a : α}
    {R : β → Prop} (hx : x.Delivers (· = a)) (hf : (f a).Delivers R) : (x >>= f).Delivers R := by
  refine hx.bind fun b hb => ?_
  rw [hb]
  exact hf

/-- Where an outcome halts there is no value. -/
theorem Step.Delivers.ofExcept {σ ε α : Type} {x : Except (Halt ε) α} {Q : α → Prop}
    (h : ∀ a, x = .ok a → Q a) : (Step.ofExcept x : Step σ ε α).Delivers Q := by
  cases x with
  | error e => exact .halt
  | ok a => exact .pure (h a rfl)

theorem Step.Delivers.ofFault {σ α : Type} {x : Except Fault α} {Q : α → Prop}
    (h : ∀ a, x = .ok a → Q a) : (Step.ofFault x : Step σ Fault α).Delivers Q := by
  refine .ofExcept fun a ha => h a ?_
  cases x with
  | error f => cases ha
  | ok b =>
    cases ha
    rfl

theorem Eval.delivers_ofExcept {α : Type} {x : Except RunError α} {Q : α → Prop}
    (h : ∀ a, x = .ok a → Q a) : (Eval.ofExcept x).Delivers Q := by
  cases x with
  | error e => exact .halt
  | ok a => exact .pure (h a rfl)

theorem Value.toIndex_of_toInt? {v : Value} {n : Int64} (h : v.toInt? = some n) :
    v.toIndex = .ok n := by
  unfold toIndex
  rw [h]

/-- The negative of a number, where it has one. -/
theorem Expr.negate_of_negated? {v w : Value} (h : negated? v = .ok w) : v.negate = .ok w := by
  cases v with
  | scalar s =>
    cases s with
    | bool b => cases h
    | int n =>
      rw [negated?] at h
      simp only [Value.negate, Scalar.negate]
      cases hn : checkedInt64 (-n.toInt) with
      | error e =>
        rw [hn] at h
        cases h
      | ok m =>
        rw [hn] at h
        cases h
        rfl
    | float x =>
      cases h
      rfl
  | _ => cases h

theorem Eval.delivers_negated {v w : Value} (h : Expr.negated? v = .ok w) :
    (Eval.apply .neg [v]).Delivers (· = w) := by
  refine .mapError ?_
  intro t u t' hu
  have hhost : [v].any Value.isTraced = false := by
    cases v with
    | traced id type => cases h
    | _ => rfl
  have hvalue : v.negate = .ok u := by
    simp only [Tracer.apply, hhost] at hu
    exact congrArg Prod.fst hu
  exact Except.ok.inj (hvalue.symm.trans (Expr.negate_of_negated? h))

theorem rangeBound_of_toInt? {v : Value} {n : Int64} (h : v.toInt? = some n) :
    rangeBound v = .ok (.int n) := by
  cases v with
  | scalar s =>
    cases s with
    | bool b =>
      cases h
      rfl
    | int m =>
      cases h
      rfl
    | float x => cases h
  | _ => cases h

theorem mapM_rangeBound : ∀ {values : List Value} {ns : List Int64},
    values.mapM Value.toInt? = some ns → values.mapM rangeBound = .ok (ns.map .int)
  | [], ns, h => by
    cases h
    rfl
  | v :: rest, ns, h => by
    rw [List.mapM_cons] at h
    obtain ⟨n, hn, h₁⟩ := Option.bind_eq_some_iff.mp h
    obtain ⟨ms, hms, h₂⟩ := Option.bind_eq_some_iff.mp h₁
    cases h₂
    rw [List.mapM_cons, rangeBound_of_toInt? hn, mapM_rangeBound hms]
    rfl

/-- A range has the bounds that it is called with. -/
theorem makeRange_of_rangeOf? {ns : List Int64} {v w : Value} (h : Expr.rangeOf? ns = .ok v)
    (hw : makeRange (ns.map .int) = .ok w) : w = v := by
  have hrange : ∀ start stop step : Value,
      (if step.same (.int 0) then Except.error (Fault.type .zeroStep)
        else .ok (.range start stop step)) = .ok w → w = .range start stop step := by
    intro start stop step hw
    split at hw
    · cases hw
    · exact (Except.ok.inj hw).symm
  unfold Expr.rangeOf? at h
  split at h
  · cases h
    exact hrange _ _ _ hw
  · cases h
    exact hrange _ _ _ hw
  · cases h
    exact hrange _ _ _ hw
  · cases h

/-- A call with as many arguments as the function takes. -/
theorem Builtin.delivers_call {f : Builtin} {args : List Value} {Q : Value → Prop}
    (h : (f.callWith args).Delivers Q) : (f.call args).Delivers Q := by
  rw [call]
  split
  · exact h
  · exact .halt

theorem delivers_range {values : List Value} {ns : List Int64} {v : Value}
    (hns : values.mapM Value.toInt? = some ns) (hv : Expr.rangeOf? ns = .ok v) :
    (Builtin.range.call values).Delivers (· = v) := by
  refine Builtin.delivers_call (.ofFault fun w hw => ?_)
  rw [mapM_rangeBound hns] at hw
  exact makeRange_of_rangeOf? hv hw

namespace Expr

mutual

/-- A constant has its value wherever it has one. -/
theorem delivers_constant (env : Env) : ∀ {e : Expr} {v : Value}, e.constantValue? = .ok v →
    (e.eval env).Delivers (· = v)
  | literal l, v, h => by
    cases h
    exact .pure rfl
  | neg operand, v, h => by
    obtain ⟨u, hu, hv⟩ := Outcome.bind_eq_ok h
    rw [eval]
    exact (delivers_constant env hu).bind_value (Eval.delivers_negated hv)
  | list items, v, h => by
    obtain ⟨values, hvalues, hv⟩ := Outcome.bind_eq_ok h
    cases hv
    rw [eval]
    exact (delivers_constants env hvalues).bind_value (.pure rfl)
  | tuple items, v, h => by
    obtain ⟨values, hvalues, hv⟩ := Outcome.bind_eq_ok h
    cases hv
    rw [eval]
    exact (delivers_constants env hvalues).bind_value (.pure rfl)
  | dict entries, v, h => by
    obtain ⟨values, hvalues, hv⟩ := Outcome.bind_eq_ok h
    cases hv
    rw [eval]
    exact (delivers_constantEntries env hvalues).bind_value (.pure rfl)
  | call .range args, v, h => by
    obtain ⟨ns, hns, hv⟩ := Outcome.bind_eq_ok h
    rw [eval]
    exact (delivers_constantBounds env hns).bind fun values hvalues =>
      .mapError (delivers_range hvalues hv)

theorem delivers_constants (env : Env) : ∀ {items : List Expr} {values : List Value},
    constantValues? items = .ok values → (evalAll env items).Delivers (· = values)
  | [], values, h => by
    cases h
    exact .pure rfl
  | e :: rest, values, h => by
    obtain ⟨v, hv, h₁⟩ := Outcome.bind_eq_ok h
    obtain ⟨vs, hvs, h₂⟩ := Outcome.bind_eq_ok h₁
    cases h₂
    rw [evalAll]
    refine (delivers_constant env hv).bind_value ?_
    exact (delivers_constants env hvs).bind_value (.pure rfl)

theorem delivers_constantEntries (env : Env) : ∀ {entries : List (Expr × Expr)}
    {values : List (Value × Value)}, constantEntries? entries = .ok values →
      (evalEntries env entries).Delivers (· = values)
  | [], values, h => by
    cases h
    exact .pure rfl
  | (k, e) :: rest, values, h => by
    obtain ⟨key, hkey, h₁⟩ := Outcome.bind_eq_ok h
    obtain ⟨v, hv, h₂⟩ := Outcome.bind_eq_ok h₁
    obtain ⟨vs, hvs, h₃⟩ := Outcome.bind_eq_ok h₂
    cases h₃
    rw [evalEntries]
    refine (delivers_constant env hkey).bind_value ?_
    refine (delivers_constant env hv).bind_value ?_
    exact (delivers_constantEntries env hvs).bind_value (.pure rfl)

theorem delivers_constantBounds (env : Env) : ∀ {items : List Expr} {ns : List Int64},
    constantBounds? items = .ok ns →
      (evalAll env items).Delivers fun values => values.mapM Value.toInt? = some ns
  | [], ns, h => by
    cases h
    exact .pure rfl
  | e :: rest, ns, h => by
    obtain ⟨v, hv, h₁⟩ := Outcome.bind_eq_ok h
    obtain ⟨n, hn, h₂⟩ := Outcome.bind_eq_ok h₁
    obtain ⟨ms, hms, h₃⟩ := Outcome.bind_eq_ok h₂
    cases h₃
    rw [evalAll]
    refine (delivers_constant env hv).bind_value ?_
    refine (delivers_constantBounds env hms).bind fun values hvalues => .pure ?_
    rw [List.mapM_cons, Search.ofOption_eq_ok hn, hvalues]
    rfl

end

end Expr

/-! ## Loop sources -/

/-- Names that stand for constants have no other values than these. -/
def Env.Holds (env : Env) (consts : Constants) : Prop :=
  ∀ n e v, Bindings.find? consts n = some e → Bindings.find? env n = some v →
    e.constantValue? = .ok v

/-- Whether a loop source lists the entries of a dictionary, numbered or not. A name that stands for
a constant never does. -/
def Expr.listsEntries : Expr → Bool
  | .call .items _ => true
  | .call .enumerate (e :: _) => e.listsEntries
  | _ => false

namespace Domain

variable {consts : Constants} {env : Env}

theorem delivers_constant {e : Expr} {d : Domain}
    (h : (e.constantValue? >>= fun v => Search.ofOutcome (ofValue v)) = .ok d) :
    (e.eval env).Delivers fun v => ofValue v = .ok d := by
  obtain ⟨v, hconst, hd⟩ := Outcome.bind_eq_ok h
  refine (Expr.delivers_constant env hconst).mono fun w hw => ?_
  rw [hw]
  exact Search.ofOutcome_eq_ok hd

/-- A name that stands for a constant has the domain of the constant. -/
theorem ofValue_of_read?_var {k : Nat} {name : String} {e : Expr} {v : Value} {d : Domain}
    (hfind : Bindings.find? consts name = some e) (hconst : e.constantValue? = .ok v)
    (h : read? consts (k + 1) (.var name) = .ok d) : ofValue v = .ok d := by
  rw [read?, Constants.resolve, hfind, Option.getD_some] at h
  split at h
  · cases hconst
  · cases hconst
  · cases hconst
    cases h
    rfl
  · obtain ⟨values, -, hv⟩ := Outcome.bind_eq_ok hconst
    cases hv
    cases h
    rfl
  · rw [hconst] at h
    exact Search.ofOutcome_eq_ok h

/-- The first number of a numbering: 0, or the one that is written out. -/
def firstNumber? : List Expr → Search Int64
  | [] => .ok 0
  | e :: _ => do .ofOption (← e.constantValue?).toInt?

theorem read?_enumerate {k : Nat} {args : List Expr} {d : Domain}
    (h : read? consts (k + 1) (.call .enumerate args) = .ok d) :
    ∃ e rest inner start, args = e :: rest ∧ read? consts k e = .ok inner ∧
      firstNumber? rest = .ok start ∧ d = { inner with firstNumber := some start } := by
  cases args with
  | nil => cases h
  | cons e rest =>
    obtain ⟨inner, hinner, h₁⟩ := Outcome.bind_eq_ok (x := read? consts k e) h
    cases rest with
    | nil => exact ⟨e, [], inner, 0, rfl, hinner, rfl, (Except.ok.inj h₁).symm⟩
    | cons e' rest' =>
      obtain ⟨v, hv, h₂⟩ := Outcome.bind_eq_ok (x := e'.constantValue?) h₁
      obtain ⟨start, hstart, h₃⟩ := Outcome.bind_eq_ok h₂
      refine ⟨e, e' :: rest', inner, start, rfl, hinner, ?_, (Except.ok.inj h₃).symm⟩
      rw [firstNumber?, hv]
      exact hstart

/-- The arguments after the first give the first number. -/
def Numbers (values : List Value) (start : Int64) : Prop :=
  values = [] ∧ start = 0 ∨ ∃ s more, values = s :: more ∧ s.toInt? = some start

theorem delivers_numbers {rest : List Expr} {start : Int64} (h : firstNumber? rest = .ok start) :
    (Expr.evalAll env rest).Delivers (Numbers · start) := by
  cases rest with
  | nil =>
    cases h
    exact .pure (.inl ⟨rfl, rfl⟩)
  | cons e more =>
    obtain ⟨s, hconst, hs⟩ := Outcome.bind_eq_ok h
    rw [Expr.evalAll]
    refine (Expr.delivers_constant env hconst).bind_value ?_
    exact .bind_any fun values => .pure (.inr ⟨s, values, rfl, Search.ofOption_eq_ok hs⟩)

theorem delivers_enumerated {v : Value} {vs : List Value} {start : Int64} {inner : Domain}
    (hv : ofValue v = .ok inner) (h : Numbers vs start) :
    (Builtin.enumerate.call (v :: vs)).Delivers fun w =>
      ofValue w = .ok { inner with firstNumber := some start } := by
  have hnumbered : ofValue (.enumerate v start) = .ok { inner with firstNumber := some start } := by
    rw [ofValue, hv]
    rfl
  refine Builtin.delivers_call (.ofFault fun w hw => ?_)
  rcases h with ⟨rfl, rfl⟩ | ⟨s, more, rfl, hs⟩
  · cases hw
    exact hnumbered
  · rw [List.getElem?_cons_succ, List.getElem?_cons_zero] at hw
    dsimp only at hw
    rw [Value.toIndex_of_toInt? hs] at hw
    cases hw
    exact hnumbered

/-- A numbered source has the domain of what is numbered, with the first number. -/
theorem delivers_enumerate {e : Expr} {rest : List Expr} {inner : Domain} {start : Int64}
    (hinner : (e.eval env).Delivers fun v => ofValue v = .ok inner)
    (hstart : firstNumber? rest = .ok start) :
    ((Expr.call .enumerate (e :: rest)).eval env).Delivers fun v =>
      ofValue v = .ok { inner with firstNumber := some start } := by
  have hargs : (Expr.evalAll env (e :: rest)).Delivers fun values =>
      ∃ v vs, values = v :: vs ∧ ofValue v = .ok inner ∧ Numbers vs start := by
    rw [Expr.evalAll]
    refine hinner.bind fun v hv => ?_
    exact (delivers_numbers hstart).bind fun vs hvs => .pure ⟨v, vs, rfl, hv, hvs⟩
  rw [Expr.eval]
  refine hargs.bind ?_
  rintro _ ⟨v, vs, rfl, hv, hvs⟩
  exact .mapError (delivers_enumerated hv hvs)

/-- A source whose domain is found before the run has this domain whenever it is evaluated. -/
theorem delivers_read? (hholds : env.Holds consts) : ∀ {k : Nat} {e : Expr} {d : Domain},
    read? consts k e = .ok d → e.listsEntries = false →
      (e.eval env).Delivers fun v => ofValue v = .ok d
  | 0, e, d, h, _ => by cases h
  | k + 1, e, d, h, hlists => by
    cases e with
    | var name =>
      refine Eval.delivers_ofExcept fun v hv => ?_
      have hfind : Bindings.find? env name = some v := Env.lookup_eq_ok hv
      rcases hconst : Bindings.find? consts name with _ | e
      · rw [read?, Constants.resolve, hconst] at h
        cases h
      · exact ofValue_of_read?_var hconst (hholds name e v hconst hfind) h
    | literal l =>
      cases l with
      | str s =>
        cases h
        exact .pure rfl
      | _ => exact delivers_constant h
    | dict entries =>
      cases h
      rw [Expr.eval]
      exact .bind_any fun entries => .pure rfl
    | call function args =>
      cases function with
      | enumerate =>
        obtain ⟨e, rest, inner, start, rfl, hinner, hstart, rfl⟩ := read?_enumerate h
        exact delivers_enumerate (delivers_read? hholds hinner hlists) hstart
      | items => cases hlists
      | _ => exact delivers_constant h
    | _ => exact delivers_constant h

/-- A loop has the domain that was found before the run, whenever its source is evaluated. -/
theorem delivers_ofExpr? (hholds : env.Holds consts) {source : Expr} {target : Target} {d : Domain}
    (h : ofExpr? consts source target = .ok d) (hlists : source.listsEntries = false) :
    (source.eval env).Delivers fun v => classify v target = .ok d := by
  unfold ofExpr? at h
  cases hread : read? consts (source.numberings + 1 + consts.depth) source with
  | error e =>
    rw [hread] at h
    cases h
  | ok inner =>
    rw [hread] at h
    cases h
    refine (delivers_read? hholds hread hlists).mono fun v hv => ?_
    rw [classify, hv]
    rfl

example :
    ofExpr? [("steps", .call .range [.literal (.int 3)])]
      (.call .enumerate [.var "steps", .literal (.int 1)]) (.tuple [.name "i", .name "k"]) =
    .ok ⟨.fixedRange, .scalar .int, some 1, 2, some 3, "range"⟩ := by
  decide

end Domain

/-! ## Statements that leave constants alone -/

/-- None of the names stands for a constant. -/
def Constants.Spares (consts : Constants) (names : List String) : Prop :=
  ∀ n ∈ names, Bindings.find? consts n = none

theorem Constants.spares_nil (consts : Constants) : consts.Spares [] :=
  fun _ hn => absurd hn List.not_mem_nil

theorem Constants.Spares.mono {consts : Constants} {names more : List String}
    (h : consts.Spares more) (hsub : names ⊆ more) : consts.Spares names :=
  fun n hn => h n (hsub hn)

theorem Constants.spares_append {consts : Constants} {names more : List String} :
    consts.Spares (names ++ more) ↔ consts.Spares names ∧ consts.Spares more :=
  List.forall_mem_append

theorem BlockInfo.spares_inputs {consts : Constants} {info : BlockInfo}
    (h : consts.Spares info.outputs) : consts.Spares info.inputs := by
  refine h.mono fun x hx => ?_
  obtain ⟨v, hv, rfl⟩ := List.mem_map.mp hx
  exact List.mem_map_of_mem (List.mem_filter.mp hv).1

/-- An action gives no value to a name that stands for a constant, or the constant itself. -/
def Action.Steady (consts : Constants) (action : Action) : Prop :=
  consts.Spares action.assigned ∨ ∃ n e v, action = .assign (.name n) e ∧
    Bindings.find? consts n = some e ∧ e.constantValue? = .ok v

/-- The same for a statement outside all blocks, as it was written. -/
def Stmt.Steady (consts : Constants) (s : Stmt) : Prop :=
  consts.Spares s.bound ∨ ∃ n e v span, s = .act (.assign (.name n) e) span ∧
    Bindings.find? consts n = some e ∧ e.constantValue? = .ok v

namespace FlowStmt

mutual

/-- Names that stand for constants get no other values than these and are not handed on by blocks,
and loops have the domains that their sources have by the constants. -/
def Steady (consts : Constants) : FlowStmt → Prop
  | act action _ => action.Steady consts
  | cond info arms otherwise =>
    consts.Spares info.outputs ∧ armsSteady consts arms ∧ lastSteady consts otherwise
  | forIn info target source body domain _ =>
    consts.Spares info.outputs ∧ consts.Spares target.names ∧
      (∀ d, domain = some d → Domain.ofExpr? consts source target = .ok d) ∧
      allSteady consts body
  | whileDo info _ body => consts.Spares info.outputs ∧ allSteady consts body

def armsSteady (consts : Constants) : List FlowArm → Prop
  | [] => True
  | ⟨_, body⟩ :: rest => allSteady consts body ∧ armsSteady consts rest

def lastSteady (consts : Constants) : Option (List FlowStmt) → Prop
  | none => True
  | some body => allSteady consts body

def allSteady (consts : Constants) : List FlowStmt → Prop
  | [] => True
  | s :: rest => s.Steady consts ∧ allSteady consts rest

end

end FlowStmt

/-! ## Environments and actions -/

namespace Env.Holds

variable {consts : Constants} {env : Env}

theorem insertAll (h : env.Holds consts) {names : List String} (hspares : consts.Spares names)
    (values : List Value) : Env.Holds (Bindings.insertAll env names values) consts := by
  intro n e v hconst hv
  have hn : n ∉ names := by
    intro hmem
    rw [hspares n hmem] at hconst
    cases hconst
  rw [Bindings.find?_insertAll_of_notMem hn] at hv
  exact h n e v hconst hv

theorem insert_constant (h : env.Holds consts) {n : String} {e : Expr} {v : Value}
    (hfind : Bindings.find? consts n = some e) (hvalue : e.constantValue? = .ok v) :
    Env.Holds (Bindings.insert env n v) consts := by
  intro m e' w hconst hw
  rw [Bindings.find?_insert] at hw
  by_cases hm : n = m
  · subst hm
    have he : e = e' := Option.some.inj (hfind.symm.trans hconst)
    rw [if_pos rfl] at hw
    rw [← he, hvalue, Option.some.inj hw]
  · rw [if_neg hm] at hw
    exact h m e' w hconst hw

/-- Targets that are not constants leave the constants as they are. -/
theorem delivers_assign (h : env.Holds consts) {target : Target}
    (hspares : consts.Spares target.names) (v : Value) :
    (Exec.ofTracer (target.assign v env)).Delivers (Env.Holds · consts) := by
  refine .onFirst (.mapError ?_)
  rw [Target.assign_eq]
  exact .bind_any fun values => .pure (h.insertAll hspares values)

/-- A steady action leaves the constants as they are. -/
theorem delivers_act (h : env.Holds consts) {action : Action} (hsteady : action.Steady consts)
    (c : Setting) (span : Span) :
    (c.act span env action).Delivers fun r => Env.Holds r.2 consts := by
  rcases hsteady with hspares | ⟨n, e, v, rfl, hfind, hv⟩
  · cases action with
    | assign target value =>
      refine .bind_any fun v => ?_
      exact (h.delivers_assign hspares v).bind fun env₁ h₁ => .pure h₁
    | update name op value =>
      refine .bind_any fun current => .bind_any fun v => .bind_any fun result => .pure ?_
      exact h.insertAll hspares [result]
    | eval expr => exact .bind_any fun _ => .pure h
    | ret value =>
      cases value with
      | none => exact .pure h
      | some value => exact .bind_any fun _ => .pure h
    | raise message => exact .halt
    | pass => exact .pure h
  · have heval : (Exec.ofEval (e.eval env)).Delivers (· = v) :=
      .onFirst (Expr.delivers_constant env hv)
    exact heval.bind_value (.pure (h.insert_constant hfind hv))

end Env.Holds

/-! ## Passes of the conversion -/

section

open FlowStmt

mutual

/-- Statements that bind no name of a constant are steady once their blocks are numbered. -/
theorem steady_lower : ∀ {l : Lowering} {s : Stmt} (id : Nat), l.constants.Spares s.bound →
    (s.lower l id).1.Steady l.constants
  | l, .act action span, id, h => by
    refine .inl ?_
    cases action with
    | _ => exact h
  | l, .choose arms none span, id, h => by
    have harms := (Constants.spares_append.mp h).1
    exact ⟨l.constants.spares_nil, armsSteady_lowerArms (l := l.inside _) _ harms,
      trivial⟩
  | l, .choose arms (some body) span, id, h => by
    obtain ⟨harms, hlast⟩ := Constants.spares_append.mp h
    exact ⟨l.constants.spares_nil, armsSteady_lowerArms (l := l.inside _) _ harms,
      allSteady_lowerAll (l := l.inside _) _ hlast⟩
  | l, .forIn target source body span, id, h => by
    obtain ⟨htarget, hbody⟩ := Constants.spares_append.mp h
    exact ⟨l.constants.spares_nil, htarget, fun d => Search.eq_ok_of_toOption,
      allSteady_lowerAll (l := l.inside _) _ hbody⟩
  | l, .whileDo condition body span, id, h =>
    ⟨l.constants.spares_nil, allSteady_lowerAll (l := l.inside _) _ h⟩

theorem armsSteady_lowerArms : ∀ {l : Lowering} {arms : List Arm} (id : Nat),
    l.constants.Spares (armsBound arms) → armsSteady l.constants (lowerArms l arms id).1
  | _, [], _, _ => trivial
  | l, ⟨_, body, _⟩ :: rest, id, h => by
    obtain ⟨hbody, hrest⟩ := Constants.spares_append.mp h
    exact ⟨allSteady_lowerAll id hbody, armsSteady_lowerArms _ hrest⟩

theorem allSteady_lowerAll : ∀ {l : Lowering} {body : List Stmt} (id : Nat),
    l.constants.Spares (boundIn body) → allSteady l.constants (lowerAll l body id).1
  | _, [], _, _ => trivial
  | l, s :: rest, id, h => by
    obtain ⟨hs, hrest⟩ := Constants.spares_append.mp h
    exact ⟨steady_lower id hs, allSteady_lowerAll _ hrest⟩

end

end

namespace FlowStmt

section

variable {consts : Constants}

/-- No name that leaves the block `b` by the facts after `f` stands for a constant. -/
def Sealed (consts : Constants) (f : BlockInfo → BlockInfo) (b : FlowStmt) : Prop :=
  ∀ info, b.info? = some info → consts.Spares (f info).outputs

mutual

theorem Steady.mapInfo {f : BlockInfo → BlockInfo} : ∀ {s : FlowStmt},
    (∀ b ∈ s.blocks, Sealed consts f b) → s.Steady consts → (s.mapInfo f).Steady consts
  | act _ _, _, h => h
  | cond info arms none, hsealed, h => by
    simp only [blocks, List.append_nil, List.forall_mem_cons] at hsealed
    exact ⟨hsealed.1 info rfl, armsSteady_mapInfoArms hsealed.2 h.2.1, trivial⟩
  | cond info arms (some body), hsealed, h => by
    simp only [blocks, List.forall_mem_cons, List.forall_mem_append] at hsealed
    exact ⟨hsealed.1 info rfl, armsSteady_mapInfoArms hsealed.2.1 h.2.1,
      allSteady_mapInfoAll hsealed.2.2 h.2.2⟩
  | forIn info target source body domain strategy, hsealed, h => by
    simp only [blocks, List.forall_mem_cons] at hsealed
    exact ⟨hsealed.1 info rfl, h.2.1, h.2.2.1, allSteady_mapInfoAll hsealed.2 h.2.2.2⟩
  | whileDo info condition body, hsealed, h => by
    simp only [blocks, List.forall_mem_cons] at hsealed
    exact ⟨hsealed.1 info rfl, allSteady_mapInfoAll hsealed.2 h.2⟩

theorem armsSteady_mapInfoArms {f : BlockInfo → BlockInfo} : ∀ {arms : List FlowArm},
    (∀ b ∈ armBlocks arms, Sealed consts f b) → armsSteady consts arms →
      armsSteady consts (mapInfoArms f arms)
  | [], _, _ => trivial
  | ⟨_, _⟩ :: _, hsealed, h => by
    simp only [armBlocks, List.forall_mem_append] at hsealed
    exact ⟨allSteady_mapInfoAll hsealed.1 h.1, armsSteady_mapInfoArms hsealed.2 h.2⟩

theorem allSteady_mapInfoAll {f : BlockInfo → BlockInfo} : ∀ {body : List FlowStmt},
    (∀ b ∈ blocksOf body, Sealed consts f b) → allSteady consts body →
      allSteady consts (mapInfoAll f body)
  | [], _, _ => trivial
  | _ :: _, hsealed, h => by
    simp only [blocksOf, List.forall_mem_append] at hsealed
    exact ⟨h.1.mapInfo hsealed.1, allSteady_mapInfoAll hsealed.2 h.2⟩

end

theorem spares_finish {info : BlockInfo} (h : consts.Spares info.outputs) (entry : TypeEnv)
    (outcomes : List TypeEnv) : consts.Spares (info.finish entry outcomes).1.outputs := by
  rw [← BlockInfo.outputs_outline, BlockInfo.outline_finish, BlockInfo.outputs_outline]
  exact h

mutual

theorem Steady.typed : ∀ {s : FlowStmt} (env : TypeEnv), s.Steady consts →
    (s.typed env).1.Steady consts
  | act _ _, _, h => h
  | cond _ _ none, env, h => ⟨spares_finish h.1 env _, armsSteady_typedArms env h.2.1, trivial⟩
  | cond _ _ (some _), env, h =>
    ⟨spares_finish h.1 env _, armsSteady_typedArms env h.2.1, allSteady_typedAll env h.2.2⟩
  | forIn _ _ _ _ _ _, env, h =>
    ⟨spares_finish h.1 env _, h.2.1, h.2.2.1, allSteady_typedAll _ h.2.2.2⟩
  | whileDo _ _ _, env, h => ⟨spares_finish h.1 env _, allSteady_typedAll env h.2⟩

theorem armsSteady_typedArms : ∀ {arms : List FlowArm} (env : TypeEnv),
    armsSteady consts arms → armsSteady consts (typedArms arms env).1
  | [], _, _ => trivial
  | ⟨_, _⟩ :: _, env, h => ⟨allSteady_typedAll env h.1, armsSteady_typedArms env h.2⟩

theorem allSteady_typedAll : ∀ {body : List FlowStmt} (env : TypeEnv), allSteady consts body →
    allSteady consts (typedAll body env).1
  | [], _, _ => trivial
  | _ :: _, env, h => ⟨h.1.typed env, allSteady_typedAll _ h.2⟩

end

mutual

theorem Steady.settled : ∀ {s : FlowStmt}, s.Steady consts → s.settled.Steady consts
  | act _ _, h => h
  | cond _ _ none, h => ⟨h.1, armsSteady_settledArms h.2.1, trivial⟩
  | cond _ _ (some _), h => ⟨h.1, armsSteady_settledArms h.2.1, allSteady_settledAll h.2.2⟩
  | forIn _ _ _ _ _ _, h => ⟨h.1, h.2.1, h.2.2.1, allSteady_settledAll h.2.2.2⟩
  | whileDo _ _ _, h => ⟨h.1, allSteady_settledAll h.2⟩

theorem armsSteady_settledArms : ∀ {arms : List FlowArm}, armsSteady consts arms →
    armsSteady consts (settledArms arms)
  | [], _ => trivial
  | ⟨_, _⟩ :: _, h => ⟨allSteady_settledAll h.1, armsSteady_settledArms h.2⟩

theorem allSteady_settledAll : ∀ {body : List FlowStmt}, allSteady consts body →
    allSteady consts (settledAll body)
  | [], _ => trivial
  | _ :: _, h => ⟨h.1.settled, allSteady_settledAll h.2⟩

end

end

end FlowStmt

/-! ## Names that are bound once -/

mutual

/-- A statement assigns the names that it was written to bind. -/
theorem assigned_lower : ∀ (l : Lowering) (s : Stmt) (id : Nat),
    (s.lower l id).1.assigned = s.bound
  | l, .act action span, id => by
    cases action with
    | _ => rfl
  | l, .choose arms none span, id =>
    congrArg (· ++ []) (armsAssigned_lowerArms (l.inside _) arms (id + 1))
  | l, .choose arms (some body) span, id =>
    congrArg₂ (· ++ ·) (armsAssigned_lowerArms (l.inside _) arms (id + 1))
      (assignedIn_lowerAll (l.inside _) body _)
  | l, .forIn target source body span, id =>
    congrArg (target.names ++ ·) (assignedIn_lowerAll (l.inside _) body (id + 1))
  | l, .whileDo condition body span, id => assignedIn_lowerAll (l.inside _) body (id + 1)

theorem armsAssigned_lowerArms : ∀ (l : Lowering) (arms : List Arm) (id : Nat),
    FlowStmt.armsAssigned (lowerArms l arms id).1 = armsBound arms
  | _, [], _ => rfl
  | l, ⟨_, body, _⟩ :: rest, id =>
    congrArg₂ (· ++ ·) (assignedIn_lowerAll l body id) (armsAssigned_lowerArms l rest _)

theorem assignedIn_lowerAll : ∀ (l : Lowering) (body : List Stmt) (id : Nat),
    FlowStmt.assignedIn (lowerAll l body id).1 = boundIn body
  | _, [], _ => rfl
  | l, s :: rest, id =>
    congrArg₂ (· ++ ·) (assigned_lower l s id) (assignedIn_lowerAll l rest _)

end

theorem mem_boundIn {n : String} : ∀ {body : List Stmt},
    n ∈ boundIn body ↔ ∃ s ∈ body, n ∈ s.bound
  | [] => by simp [boundIn]
  | s :: rest => by simp [boundIn, @mem_boundIn n rest]

/-- A name that is bound once is bound by one statement. -/
theorem eq_of_count_boundIn {n : String} {s s' : Stmt} : ∀ {body : List Stmt},
    (boundIn body).count n ≤ 1 → s ∈ body → s' ∈ body → n ∈ s.bound → n ∈ s'.bound → s = s'
  | [], _, hs, _, _, _ => absurd hs List.not_mem_nil
  | t :: rest, hcount, hs, hs', hn, hn' => by
    rw [boundIn, List.count_append] at hcount
    have hboth : ∀ u ∈ rest, n ∈ u.bound → n ∉ t.bound := by
      intro u hu hnu hnt
      have hrest := List.count_pos_iff.mpr (mem_boundIn.mpr ⟨u, hu, hnu⟩)
      have hfirst := List.count_pos_iff.mpr hnt
      omega
    rcases List.mem_cons.mp hs with rfl | hrest
    · rcases List.mem_cons.mp hs' with rfl | hrest'
      · rfl
      · exact absurd hn (hboth s' hrest' hn')
    · rcases List.mem_cons.mp hs' with rfl | hrest'
      · exact absurd hn' (hboth s hrest hn)
      · exact eq_of_count_boundIn (by omega) hrest hrest' hn hn'

/-- A name stands for a constant if the only thing that binds it is a statement of the function,
outside all blocks, that gives it the constant. -/
theorem find?_constantNames {params : List Param} {body : List Stmt} {n : String} {e : Expr}
    (h : Bindings.find? (constantNames params body) n = some e) :
    n ∉ params.map Param.name ∧ (boundIn body).count n ≤ 1 ∧ (∃ v, e.constantValue? = .ok v) ∧
      ∃ span, .act (.assign (.name n) e) span ∈ body := by
  obtain ⟨s, hs, hfound⟩ := List.mem_filterMap.mp (Bindings.mem_of_find? h)
  have hconst := Search.eq_ok_of_toOption hfound
  unfold constantName? at hconst
  split at hconst
  · next m value span =>
    split at hconst
    · next hcount =>
      obtain ⟨v, hv⟩ : ∃ v, value.constantValue? = .ok v := by
        cases hvalue : value.constantValue? with
        | error e =>
          rw [hvalue] at hconst
          cases hconst
        | ok v => exact ⟨v, rfl⟩
      rw [hv] at hconst
      cases hconst
      have hbound : n ∈ boundIn body := mem_boundIn.mpr ⟨_, hs, List.mem_singleton.mpr rfl⟩
      have hpos := List.count_pos_iff.mpr hbound
      rw [namesBound, List.count_append] at hcount
      refine ⟨?_, by omega, ⟨v, hv⟩, span, hs⟩
      intro hparam
      have hparams := List.count_pos_iff.mpr hparam
      omega
    · cases hconst
  · cases hconst

theorem constantNames_spares_params (params : List Param) (body : List Stmt) :
    (constantNames params body).Spares (params.map Param.name) := by
  intro n hn
  rcases hfind : Bindings.find? (constantNames params body) n with _ | e
  · rfl
  · exact absurd hn (find?_constantNames hfind).1

/-- A statement that binds the name of a constant gives it the constant. -/
theorem steady_constantNames (params : List Param) {body : List Stmt} {s : Stmt} (hs : s ∈ body) :
    s.Steady (constantNames params body) := by
  by_cases hspares : (constantNames params body).Spares s.bound
  · exact .inl hspares
  · simp only [Constants.Spares, not_forall, ← ne_eq, Option.ne_none_iff_exists'] at hspares
    obtain ⟨n, hn, e, hfind⟩ := hspares
    obtain ⟨-, hcount, ⟨v, hv⟩, span, hmem⟩ := find?_constantNames hfind
    have heq := eq_of_count_boundIn hcount hs hmem hn (List.mem_singleton.mpr rfl)
    exact .inr ⟨n, e, v, span, heq, hfind, hv⟩

/-! ## Converted functions -/

section

open FlowStmt

/-- Statements of which each leaves constants alone or gives a name its constant. -/
theorem allSteady_lowerAll_of_forall {l : Lowering} : ∀ {body : List Stmt} (id : Nat),
    (∀ s ∈ body, s.Steady l.constants) → allSteady l.constants (lowerAll l body id).1
  | [], _, _ => trivial
  | s :: rest, id, h => by
    obtain ⟨hs, hrest⟩ := List.forall_mem_cons.mp h
    refine ⟨?_, allSteady_lowerAll_of_forall _ hrest⟩
    rcases hs with hspares | ⟨n, e, v, span, rfl, hfind, hv⟩
    · exact steady_lower id hspares
    · exact .inr ⟨n, e, v, rfl, hfind, hv⟩

/-- Their blocks assign no name of a constant. -/
theorem spares_assigned_of_mem_blocksOf {l : Lowering} {b : FlowStmt} : ∀ {body : List Stmt}
    {id : Nat}, (∀ s ∈ body, s.Steady l.constants) →
    b ∈ blocksOf (lowerAll l body id).1 → l.constants.Spares b.assigned
  | [], _, _, hb => absurd hb List.not_mem_nil
  | s :: rest, id, h, hb => by
    obtain ⟨hs, hrest⟩ := List.forall_mem_cons.mp h
    rcases List.mem_append.mp hb with hb | hb
    · rcases hs with hspares | ⟨n, e, v, span, rfl, -⟩
      · refine hspares.mono ?_
        rw [← assigned_lower l s id]
        exact assigned_subset_of_mem_blocks hb
      · cases hb
    · exact spares_assigned_of_mem_blocksOf hrest hb

/-- What leaves a block is assigned in it. -/
theorem Analysis.outputs_annotateInfo {params : List String} {body : List FlowStmt}
    (hnodup : (numbersIn body).Nodup) {b : FlowStmt} (hb : b ∈ blocksOf body) {info : BlockInfo}
    (hinfo : b.info? = some info) :
    ((Analysis.of params body).annotateInfo info).outputs ⊆ b.assigned := by
  intro x hx
  rw [annotateInfo, find?_facts params hnodup hb hinfo] at hx
  obtain ⟨v, hv, rfl⟩ := List.mem_map.mp hx
  obtain ⟨name, hname, rfl⟩ := List.mem_map.mp hv
  exact Names.mem_ofList.mp (List.mem_filter.mp hname).1

end

/-- In a converted function, names that stand for constants get no other values than these. -/
theorem FunctionDef.convert_steady {f : FunctionDef} {options : Options} {f' : FlowFunction}
    (h : (f.convert options).result = .ok f') :
    FlowStmt.allSteady (constantNames f.params (foldAll f.body)) f'.body := by
  rw [convert_of_lower (lower_of_convert h)] at h
  obtain ⟨-, rfl⟩ := of_ite_eq_ok h
  have hbound : ∀ s ∈ foldAll f.body, s.Steady (constantNames f.params (foldAll f.body)) :=
    fun s hs => steady_constantNames f.params hs
  refine FlowStmt.allSteady_settledAll (FlowStmt.allSteady_typedAll _ ?_)
  have hlowered := allSteady_lowerAll_of_forall (l := f.lowering) 0 hbound
  refine FlowStmt.allSteady_mapInfoAll ?_ hlowered
  intro b hb info hinfo
  refine (spares_assigned_of_mem_blocksOf hbound hb).mono ?_
  exact Analysis.outputs_annotateInfo (nodup_numbersIn_lowerAll _ _ _) hb hinfo

end StagedFlow
