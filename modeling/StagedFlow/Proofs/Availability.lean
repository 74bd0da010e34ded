import StagedFlow.Proofs.Binding
import StagedFlow.Proofs.Dataflow

/-!
Which names have values while a function runs. Where statements are judged, a name that is live
after them and has no value then was live and had no value before them, and is none of those that
they assign; so the names that are live and assigned on every path have values. Main definitions:
`Outlook.Backed`, `StillMissing`, `BlockInfo.Loops`, `FlowStmt.Ahead`, `Setting.Completes`. Main
results: `BlockInfo.Loops.binds_inputs`, `FlowStmt.Ahead.binds_outputs`, `Setting.completes`.
-/
set_option autoImplicit false

namespace StagedFlow

/-! ## Names with values -/

/-- What is live and assigned on every path has a value. -/
def Outlook.Backed (p : Outlook) (env : Env) : Prop :=
  ∀ x ∈ p.defined, x ∈ p.live → env.Binds x

theorem Outlook.Backed.grows {p : Outlook} {env env' : Env} (h : p.Backed env)
    (hgrows : env.Grows env') : p.Backed env' :=
  fun x hx hlive => hgrows x (h x hx hlive)

theorem Outlook.Backed.mono {defined live live' : Names} {env : Env}
    (h : Outlook.Backed ⟨defined, live⟩ env) (hsub : live' ⊆ live) :
    Outlook.Backed ⟨defined, live'⟩ env :=
  fun x hx hlive => h x hx (hsub hlive)

/-- The parameters of a function have values when it is called. -/
theorem Outlook.backed_params {params : List String} {args : List Value}
    (hlen : args.length = params.length) (live : Names) :
    Outlook.Backed ⟨Names.ofList params, live⟩ (Bindings.insertAll [] params args) :=
  fun _ hx _ => Env.binds_insertAll hlen.symm [] (Names.mem_ofList.mp hx)

/-- A name that is live after statements and has no value then was live and had no value before
them, and is none of the given names. -/
def StillMissing (before after : Names) (names : List String) (env env' : Env) : Prop :=
  ∀ x ∈ after, ¬env'.Binds x → x ∈ before ∧ ¬env.Binds x ∧ x ∉ names

theorem StillMissing.trans {before mid after : Names} {names more : List String}
    {env env₁ env₂ : Env} (h : StillMissing before mid names env env₁)
    (h' : StillMissing mid after more env₁ env₂) :
    StillMissing before after (names ++ more) env env₂ := by
  intro x hx hmissing
  obtain ⟨hmid, hmissing₁, hmore⟩ := h' x hx hmissing
  obtain ⟨hbefore, hmissing₀, hnames⟩ := h x hmid hmissing₁
  exact ⟨hbefore, hmissing₀, by simp [hnames, hmore]⟩

/-- Nothing that is assigned is missing where all of it has values. -/
theorem StillMissing.of_binds {p q : Outlook} {names : List String} {env env' : Env}
    (hleads : p.Leads names false q) (hgrows : env.Grows env')
    (hnames : ∀ x ∈ names, env'.Binds x) : StillMissing p.live q.live names env env' := by
  intro x hx hmissing
  have hx' : x ∉ names := fun h => hmissing (hnames x h)
  exact ⟨hleads.live rfl x hx hx', fun h => hmissing (hgrows x h), hx'⟩

theorem StillMissing.of_idle {p q : Outlook} {env : Env} (hleads : p.Leads [] false q) :
    StillMissing p.live q.live [] env env :=
  .of_binds hleads (.refl env) fun _ hx => absurd hx List.not_mem_nil

/-- What may be new at an outlook are the assigned names, and these have values. -/
theorem StillMissing.backed {p q : Outlook} {names : List String} {env env' : Env}
    (h : StillMissing p.live q.live names env env') (hleads : p.Leads names false q)
    (hbacked : p.Backed env) : q.Backed env' := by
  intro x hx hlive
  by_cases hbinds : env'.Binds x
  · exact hbinds
  · obtain ⟨hbefore, hmissing, hnames⟩ := h x hlive hbinds
    rcases hleads.adds x hx with hdefined | hassigned
    · exact absurd (hbacked x hdefined hbefore) hmissing
    · exact absurd hassigned hnames

/-! ## Blocks -/

/-- A loop at an outlook. The names in `again` can be read in its next round, those in `after` can
be read after it; all of them are live before the loop, and it carries those that it assigns. -/
structure BlockInfo.Loops (info : BlockInfo) (assigned : List String) (before : Outlook)
    (after again : Names) : Prop where
  after_live : after ⊆ before.live
  again_live : again ⊆ before.live
  reflects : ∃ ends, info.Reflects true assigned ⟨after, [again]⟩ ⟨before.defined, ends⟩

namespace BlockInfo.Loops

variable {info : BlockInfo} {assigned : List String} {before : Outlook} {after again : Names}
  {env : Env}

/-- A loop finds what enters it. -/
theorem binds_inputs (h : info.Loops assigned before after again) (hbacked : before.Backed env) :
    ∀ x ∈ info.inputs, env.Binds x := by
  intro x hx
  obtain ⟨ends, hreflects⟩ := h.reflects
  have hout := (hreflects.inputs x hx).1
  have hlive : x ∈ before.live := by
    rcases BlockFacts.isCarried_loop.mp ((hreflects.outputs x).mp hout).2 with hx | hx
    · exact h.after_live hx
    · exact h.again_live hx
  exact hbacked x (hreflects.before_of_loop hout) hlive

/-- What has no value and can be read after a loop or in its next round is not assigned by it. -/
theorem notMem_assigned (h : info.Loops assigned before after again) (hbacked : before.Backed env)
    {x : String} (hx : x ∈ after ∨ x ∈ again) (hmissing : ¬env.Binds x) : x ∉ assigned := by
  intro hassigned
  obtain ⟨ends, hreflects⟩ := h.reflects
  have hout := (hreflects.outputs x).mpr ⟨hassigned, BlockFacts.isCarried_loop.mpr hx⟩
  have hlive : x ∈ before.live := hx.elim (@h.after_live x) (@h.again_live x)
  exact hmissing (hbacked x (hreflects.before_of_loop hout) hlive)

theorem stillMissing (h : info.Loops assigned before after again) (hbacked : before.Backed env)
    {env' : Env} (hgrows : env.Grows env') :
    StillMissing before.live after assigned env env' := by
  intro x hx hmissing
  have hbefore : ¬env.Binds x := fun hbinds => hmissing (hgrows x hbinds)
  exact ⟨h.after_live hx, hbefore, h.notMem_assigned hbacked (.inl hx) hbefore⟩

end BlockInfo.Loops

namespace FlowStmt

/-- The rounds of a counted loop, from an outlook whose live names are those that can be read in the
next round. -/
def Rounds (target : Target) (body : List FlowStmt) (start : Outlook) : Prop :=
  ∃ entry head ended defined, start.live = entry.without target.names ∧ start.live ⊆ head ∧
    allJudged BlockInfo.Reflects true body ⟨start.defined.union target.names, entry⟩ ended
      ⟨defined, head⟩

/-- The rounds of a conditional loop. -/
def Repeats (condition : Expr) (body : List FlowStmt) (start : Outlook) : Prop :=
  ∃ entry head ended defined, start.live = entry.union condition.uses ∧ start.live ⊆ head ∧
    allJudged BlockInfo.Reflects true body ⟨start.defined, entry⟩ ended ⟨defined, head⟩

/-- What is needed in a round of a counted loop is there once the target is bound. -/
theorem backed_round {defined entry : Names} {names : List String} {env env' : Env}
    (h : Outlook.Backed ⟨defined, entry.without names⟩ env) (hgrows : env.Grows env')
    (hnames : ∀ x ∈ names, env'.Binds x) : Outlook.Backed ⟨defined.union names, entry⟩ env' := by
  intro x hx hentry
  by_cases htarget : x ∈ names
  · exact hnames x htarget
  · have hdefined : x ∈ defined := (Names.mem_union.mp hx).resolve_right htarget
    exact hgrows x (h x hdefined (Names.mem_without.mpr ⟨hentry, htarget⟩))

section

variable {inside ended : Bool} {before after : Outlook} {info : BlockInfo} {body : List FlowStmt}

theorem Judged.rounds {target : Target} {source : Expr} {domain : Option Domain}
    {strategy : Strategy}
    (h : (forIn info target source body domain strategy).Judged BlockInfo.Reflects inside before
      ended after) :
    ended = false ∧ source.uses ⊆ before.live ∧ ∃ again,
      info.Loops (forIn info target source body domain strategy).assigned before after.live again ∧
      Rounds target body ⟨before.defined, again⟩ := by
  obtain ⟨hended, -, hsource, head, entry, bodyEnded, defined, hafter, hhead, hentry, hbody,
    hreflects⟩ := h
  have hagain : entry.without target.names ⊆ head := by
    intro x hx
    obtain ⟨hx, htarget⟩ := Names.mem_without.mp hx
    exact hentry x hx htarget
  exact ⟨hended, hsource, entry.without target.names,
    ⟨List.Subset.trans hafter hhead, List.Subset.trans hagain hhead, _, hreflects⟩,
    entry, head, bodyEnded, defined, rfl, hagain, hbody⟩

theorem Judged.repeats {condition : Expr}
    (h : (whileDo info condition body).Judged BlockInfo.Reflects inside before ended after) :
    ended = false ∧ ∃ again,
      info.Loops (whileDo info condition body).assigned before after.live again ∧
      Repeats condition body ⟨before.defined, again⟩ := by
  obtain ⟨hended, -, head, entry, bodyEnded, defined, hafter, hhead, huses, hentry, hbody,
    hreflects⟩ := h
  have hagain : entry.union condition.uses ⊆ head := by
    intro x hx
    exact (Names.mem_union.mp hx).elim (@hentry x) (@huses x)
  exact ⟨hended, entry.union condition.uses,
    ⟨List.Subset.trans hafter hhead, List.Subset.trans hagain hhead, _, hreflects⟩,
    entry, head, bodyEnded, defined, rfl, hagain, hbody⟩

end

/-- What is ahead in a conditional from an arm on: its variables are those of the whole, and the
names at the ends of the branches that are left. -/
structure Ahead (info : BlockInfo) (arms : List FlowArm) (otherwise : Option (List FlowStmt))
    (before : Outlook) (after : Names) (ends : List (Option Names)) : Prop where
  judged : ∃ entries armEnds entry lastEnd,
    armsJudged BlockInfo.Reflects arms before after entries armEnds ∧
    lastJudged BlockInfo.Reflects otherwise before after entry lastEnd ∧
    ends = armEnds ++ [lastEnd]
  inputs : ∀ x ∈ info.inputs, x ∈ before.defined ∧ x ∈ before.live
  outputs : ∀ x ∈ after, x ∈ armsAssigned arms ++ lastAssigned otherwise → x ∈ info.outputs
  carried : ∀ x ∈ info.outputs,
    x ∈ after ∧ (x ∈ before.defined ∨ ∀ names, some names ∈ ends → x ∈ names)

/-- Statements as a branch of a conditional. -/
def Branch (body : List FlowStmt) (before : Outlook) (after : Names) (ends : List (Option Names)) :
    Prop :=
  ∃ entry ended defined, entry ⊆ before.live ∧ branchEnd ended defined ∈ ends ∧
    allJudged BlockInfo.Reflects true body ⟨before.defined, entry⟩ ended ⟨defined, after⟩

theorem armsJudged_entries
    {tells : Bool → BlockInfo → List String → LiveFacts → DefiniteFacts → Prop}
    {before : Outlook} {after : Names} : ∀ {arms : List FlowArm} {entries : List Names}
    {ends : List (Option Names)}, armsJudged tells arms before after entries ends →
      ∀ entry ∈ entries, entry ⊆ before.live
  | [], _, _, ⟨hentries, _⟩, entry, hentry => by
    subst hentries
    cases hentry
  | ⟨_, _⟩ :: _, _, _, h, entry, hmem => by
    obtain ⟨-, first, ended, defined, moreEntries, moreEnds, rfl, -, hfirst, -, hrest⟩ := h
    rcases List.mem_cons.mp hmem with rfl | hmore
    · exact hfirst
    · exact armsJudged_entries hrest entry hmore

theorem lastJudged_entry {tells : Bool → BlockInfo → List String → LiveFacts → DefiniteFacts → Prop}
    {before : Outlook} {after entry : Names} {otherwise : Option (List FlowStmt)}
    {lastEnd : Option Names} (h : lastJudged tells otherwise before after entry lastEnd) :
    entry ⊆ before.live := by
  cases otherwise with
  | none => exact h.2.1 ▸ h.1
  | some body => exact h.1

/-- At its start all of a conditional is ahead. -/
theorem Judged.ahead {info : BlockInfo} {arms : List FlowArm} {otherwise : Option (List FlowStmt)}
    {inside ended : Bool} {before after : Outlook}
    (h : (cond info arms otherwise).Judged BlockInfo.Reflects inside before ended after) :
    ∃ ends, Ahead info arms otherwise before after.live ends ∧
      ended = (commonNames? ends).isNone := by
  obtain ⟨entries, ends, entry, lastEnd, harms, hlast, hreflects, hended, -⟩ := h
  rw [assigned_cond] at hreflects
  refine ⟨ends ++ [lastEnd], ⟨⟨entries, ends, entry, lastEnd, harms, hlast, rfl⟩, ?_, ?_, ?_⟩,
    hended⟩
  · intro x hx
    rcases (hreflects.inputs x hx).2 with hloop | ⟨hbefore, hentries⟩
    · cases hloop
    · obtain ⟨names, hnames, hmem⟩ := List.any_eq_true.mp hentries
      refine ⟨hbefore, ?_⟩
      rcases List.mem_append.mp hnames with harm | hother
      · exact armsJudged_entries harms names harm (of_decide_eq_true hmem)
      · rw [List.mem_singleton.mp hother] at hmem
        exact lastJudged_entry hlast (of_decide_eq_true hmem)
  · intro x hx hassigned
    exact (hreflects.outputs x).mpr ⟨hassigned, by simp [BlockFacts.isCarried, hx]⟩
  · intro x hx
    have hcarried := ((hreflects.outputs x).mp hx).2
    exact ⟨by simpa [BlockFacts.isCarried] using hcarried, hreflects.ends_of_cond hx⟩

namespace Ahead

variable {info : BlockInfo} {condition : Expr} {body : List FlowStmt} {arms : List FlowArm}
  {otherwise : Option (List FlowStmt)} {before : Outlook} {after : Names}
  {ends : List (Option Names)} {env env' : Env}

theorem leads (h : Ahead info arms otherwise before after ends) {names : Names}
    (hnames : some names ∈ ends) :
    before.Leads (armsAssigned arms ++ lastAssigned otherwise) false ⟨names, after⟩ := by
  obtain ⟨entries, armEnds, entry, lastEnd, harms, hlast, rfl⟩ := h.judged
  exact leads_of_branches (armsJudged_leads harms)
    (fun names hend => lastJudged_leads (hend ▸ hlast)) hnames

theorem condition_live (h : Ahead info (⟨condition, body⟩ :: arms) otherwise before after ends) :
    condition.uses ⊆ before.live := by
  obtain ⟨entries, armEnds, entry, lastEnd, harms, -⟩ := h.judged
  exact harms.1

theorem branch (h : Ahead info (⟨condition, body⟩ :: arms) otherwise before after ends) :
    Branch body before after ends := by
  obtain ⟨entries, armEnds, entry, lastEnd, harms, -, rfl⟩ := h.judged
  obtain ⟨-, first, ended, defined, moreEntries, moreEnds, -, rfl, hfirst, hbody, -⟩ := harms
  exact ⟨first, ended, defined, hfirst, by simp, hbody⟩

theorem rest (h : Ahead info (⟨condition, body⟩ :: arms) otherwise before after ends) :
    ∃ moreEnds, Ahead info arms otherwise before after moreEnds ∧ moreEnds ⊆ ends := by
  obtain ⟨entries, armEnds, entry, lastEnd, harms, hlast, rfl⟩ := h.judged
  obtain ⟨-, first, ended, defined, moreEntries, moreEnds, -, rfl, -, -, hrest⟩ := harms
  have hsub : moreEnds ++ [lastEnd] ⊆ branchEnd ended defined :: moreEnds ++ [lastEnd] :=
    List.subset_cons_self _ _
  refine ⟨moreEnds ++ [lastEnd], ⟨⟨moreEntries, moreEnds, entry, lastEnd, hrest, hlast, rfl⟩,
    h.inputs, fun x hx hassigned => h.outputs x hx ?_, fun x hx => ?_⟩, hsub⟩
  · simp only [armsAssigned, List.append_assoc]
    exact List.mem_append_right _ hassigned
  · obtain ⟨hlive, hdefined⟩ := h.carried x hx
    exact ⟨hlive, hdefined.imp_right fun hends names hnames => hends names (hsub hnames)⟩

theorem last (h : Ahead info [] (some body) before after ends) : Branch body before after ends := by
  obtain ⟨entries, armEnds, entry, lastEnd, -, ⟨hentry, ended, defined, rfl, hbody⟩, rfl⟩ := h.judged
  exact ⟨entry, ended, defined, hentry, by simp, hbody⟩

theorem nothing (h : Ahead info [] none before after ends) :
    after ⊆ before.live ∧ some before.defined ∈ ends := by
  obtain ⟨entries, armEnds, entry, lastEnd, -, ⟨hafter, -, rfl⟩, rfl⟩ := h.judged
  exact ⟨hafter, by simp⟩

/-- Where no branch is left, what the conditional carries was assigned before it. -/
theorem stillMissing_refl (h : Ahead info [] none before after ends) (hbacked : before.Backed env) :
    StillMissing before.live after info.outputs env env := by
  obtain ⟨hafter, hend⟩ := h.nothing
  intro x hx hmissing
  refine ⟨hafter hx, hmissing, fun hout => hmissing (hbacked x ?_ (hafter hx))⟩
  rcases (h.carried x hout).2 with hbefore | hends
  · exact hbefore
  · exact hends _ hend

/-- At the end of a branch that was run through, what the conditional carries has values. -/
theorem stillMissing_branch (h : Ahead info arms otherwise before after ends)
    {entry defined : Names} (hentry : entry ⊆ before.live) (hend : some defined ∈ ends)
    (hbody : allJudged BlockInfo.Reflects true body ⟨before.defined, entry⟩ false ⟨defined, after⟩)
    (hbacked : before.Backed env) (hmissing : StillMissing entry after (assignedIn body) env env') :
    StillMissing before.live after info.outputs env env' := by
  intro x hx hunbound
  obtain ⟨hlive, hbefore, hassigned⟩ := hmissing x hx hunbound
  refine ⟨hentry hlive, hbefore, fun hout => ?_⟩
  have hnot : x ∉ before.defined := fun hdefined => hbefore (hbacked x hdefined (hentry hlive))
  rcases (h.carried x hout).2 with hdefined | hends
  · exact hnot hdefined
  · rcases (allJudged_leads hbody).adds x (hends _ hend) with hdefined | hnew
    · exact hnot hdefined
    · exact hassigned hnew

/-- A conditional that was put into the graph binds what it carries. -/
theorem stillMissing_committed (h : Ahead info arms otherwise before after ends) {names : Names}
    (hend : some names ∈ ends) {values : List Value} (hlen : info.outputs.length = values.length) :
    StillMissing before.live after info.outputs env
      (Bindings.insertAll env info.outputs values) := by
  intro x hx hmissing
  have hout : x ∉ info.outputs := fun hout => hmissing (env.binds_insertAll hlen hout)
  have hassigned : x ∉ armsAssigned arms ++ lastAssigned otherwise :=
    fun hassigned => hout (h.outputs x hx hassigned)
  exact ⟨(h.leads hend).live rfl x hx hassigned,
    fun hbinds => hmissing (env.grows_insertAll _ _ x hbinds), hout⟩

/-- So at its end the values that leave the conditional are found. -/
theorem binds_outputs (h : Ahead info arms otherwise before after ends)
    (hmissing : StillMissing before.live after info.outputs env env') :
    ∀ x ∈ info.outputs, env'.Binds x := by
  intro x hx
  by_cases hbinds : env'.Binds x
  · exact hbinds
  · exact absurd hx (hmissing x (h.carried x hx).1 hbinds).2.2

end Ahead

end FlowStmt

/-! ## Statements that are run through -/

/-- How a statement `inside` a block or not ends: there is no `return` inside a block, and where
control goes on, the statement was to come to its end and `R` holds. -/
def Exit.Completes (inside ended : Bool) (R : Env → Prop) (r : Exit × Env) : Prop :=
  (inside = true → r.1 = .next) ∧ (r.1 = .next → ended = false ∧ R r.2)

theorem Exit.Completes.next {inside : Bool} {R : Env → Prop} {env : Env} (h : R env) :
    Exit.Completes inside false R (.next, env) :=
  ⟨fun _ => rfl, fun _ => ⟨rfl, h⟩⟩

theorem Exit.Completes.ret {inside ended : Bool} {R : Env → Prop} {v : Value} {env : Env}
    (h : inside = true → Exit.ret v = .next) : Exit.Completes inside ended R (.ret v, env) :=
  ⟨h, fun hexit => by cases hexit⟩

namespace Setting

variable {c : Setting} {n : Nat}

theorem completes_act (span : Span) {inside : Bool} {action : Action} {before after : Outlook}
    {env : Env} (hstays : (inside && action.isReturn) = false)
    (hleads : before.Leads action.assigned action.terminates after) :
    (c.act span env action).Delivers (Exit.Completes inside action.terminates
      (StillMissing before.live after.live action.assigned env)) := by
  cases action with
  | assign target value =>
    refine .bind_any fun v => ?_
    refine (target.delivers_assign v env).bind fun env' h => ?_
    exact .pure (.next (.of_binds hleads h.1 h.2))
  | update name op value =>
    refine .bind_any fun current => .bind_any fun v => .bind_any fun result => ?_
    have hlen : [name].length = [result].length := rfl
    exact .pure (.next (.of_binds hleads (env.grows_insertAll [name] [result])
      fun x hx => env.binds_insertAll hlen hx))
  | eval expr =>
    exact .bind_any fun _ => .pure (.next (.of_idle hleads))
  | ret value =>
    obtain rfl : inside = false := by simpa [Action.isReturn] using hstays
    cases value with
    | none => exact .pure (.ret Bool.noConfusion)
    | some value => exact .bind_any fun v => .pure (.ret Bool.noConfusion)
  | raise message => exact .halt
  | pass => exact .pure (.next (.of_idle hleads))

/-- With this much fuel, whatever part of a judged run comes to its end leaves only those names
without a value that it does not assign. -/
structure Completes (c : Setting) (n : Nat) : Prop where
  run : ∀ plan {inside ended body before after} {env : Env},
    FlowStmt.allJudged BlockInfo.Reflects inside body before ended after → before.Backed env →
    (c.run n plan body env).Delivers (Exit.Completes inside ended
      (StillMissing before.live after.live (FlowStmt.assignedIn body) env))
  runStmt : ∀ plan {inside ended stmt before after} {env : Env},
    FlowStmt.Judged BlockInfo.Reflects inside stmt before ended after → before.Backed env →
    (c.runStmt n plan stmt env).Delivers (Exit.Completes inside ended
      (StillMissing before.live after.live stmt.assigned env))
  runBody : ∀ plan {ended body before after} {env : Env},
    FlowStmt.allJudged BlockInfo.Reflects true body before ended after → before.Backed env →
    (c.runBody n plan body env).Delivers fun env' => ended = false ∧
      StillMissing before.live after.live (FlowStmt.assignedIn body) env env'
  runArms : ∀ plan {info arms otherwise before after ends} {env : Env},
    FlowStmt.Ahead info arms otherwise before after ends → before.Backed env →
    (c.runArms n plan info arms otherwise env).Delivers fun env' =>
      (∃ names, some names ∈ ends) ∧ StillMissing before.live after info.outputs env env'
  chooseArm : ∀ plan {info arm rest otherwise predicate before after ends} {env : Env},
    FlowStmt.Ahead info (arm :: rest) otherwise before after ends → before.Backed env →
    (c.chooseArm n plan info arm rest otherwise predicate env).Delivers fun env' =>
      (∃ names, some names ∈ ends) ∧ StillMissing before.live after info.outputs env env'

theorem completes_zero : c.Completes 0 where
  run := fun _ {_ _ _ _ _ _} _ _ => by
    rw [Setting.run]
    exact .halt
  runStmt := fun _ {_ _ _ _ _ _} _ _ => by
    rw [Setting.runStmt]
    exact .halt
  runBody := fun _ {_ _ _ _ _} _ _ => by
    rw [Setting.runBody]
    exact .halt
  runArms := fun _ {_ _ _ _ _ _ _} _ _ => by
    rw [Setting.runArms]
    exact .halt
  chooseArm := fun _ {_ _ _ _ _ _ _ _ _} _ _ => by
    rw [Setting.chooseArm]
    exact .halt

section Parts

variable (ih : c.Completes n) (plan : Option FaultPlan) {inside ended : Bool}
  {before after : Outlook} {env : Env}

include ih

theorem completes_run {body : List FlowStmt}
    (h : FlowStmt.allJudged BlockInfo.Reflects inside body before ended after)
    (hbacked : before.Backed env) :
    (c.run (n + 1) plan body env).Delivers (Exit.Completes inside ended
      (StillMissing before.live after.live (FlowStmt.assignedIn body) env)) := by
  cases body with
  | nil =>
    obtain ⟨rfl, hlive, -⟩ := h
    rw [Setting.run]
    exact .pure (.next fun x hx hmissing => ⟨hlive hx, hmissing, List.not_mem_nil⟩)
  | cons stmt rest =>
    obtain ⟨mid, first, second, hstmt, hrest, rfl⟩ := h
    rw [Setting.run]
    refine (ih.runStmt plan hstmt hbacked).bind ?_
    rintro ⟨exit, env₁⟩ ⟨hinside, hnext⟩
    cases exit with
    | ret v => exact .pure (.ret hinside)
    | next =>
      obtain ⟨rfl, hmissing⟩ := hnext rfl
      refine (ih.run plan hrest (hmissing.backed hstmt.leads hbacked)).mono ?_
      rintro ⟨exit, env₂⟩ ⟨hinside', hnext'⟩
      refine ⟨hinside', fun hexit => ?_⟩
      obtain ⟨rfl, hmissing'⟩ := hnext' hexit
      exact ⟨rfl, hmissing.trans hmissing'⟩

theorem completes_runStmt {stmt : FlowStmt}
    (h : stmt.Judged BlockInfo.Reflects inside before ended after) (hbacked : before.Backed env) :
    (c.runStmt (n + 1) plan stmt env).Delivers (Exit.Completes inside ended
      (StillMissing before.live after.live stmt.assigned env)) := by
  cases stmt with
  | act action span =>
    obtain ⟨hstays, -, rfl, -⟩ := id h
    rw [Setting.runStmt]
    exact completes_act span hstays h.leads
  | cond info arms otherwise =>
    obtain ⟨ends, hahead, hended⟩ := h.ahead
    rw [Setting.runStmt]
    refine (ih.runArms plan hahead hbacked).bind ?_
    rintro env₁ ⟨⟨names, hnames⟩, hmissing⟩
    obtain rfl : ended = false := by
      rcases commonNames?_cases ends with ⟨-, hnone⟩ | ⟨common, hsome, -⟩
      · exact absurd hnames (hnone names)
      · rw [hended, hsome]
        rfl
    refine .pure (.next fun x hx hunbound => ?_)
    obtain ⟨hlive, hbefore, hout⟩ := hmissing x hx hunbound
    refine ⟨hlive, hbefore, fun hassigned => hout (hahead.outputs x hx ?_)⟩
    rwa [← FlowStmt.assigned_cond]
  | forIn info target source body domain strategy =>
    obtain ⟨rfl, -, again, hloops, -⟩ := h.rounds
    rw [Setting.runStmt]
    refine ((growing c n).runFor plan info target source body strategy env).bind
      fun env₁ hgrows => ?_
    exact .pure (.next (hloops.stillMissing hbacked hgrows))
  | whileDo info condition body =>
    obtain ⟨rfl, again, hloops, -⟩ := h.repeats
    rw [Setting.runStmt]
    refine ((growing c n).runWhile plan info condition body env).bind fun env₁ hgrows => ?_
    exact .pure (.next (hloops.stillMissing hbacked hgrows))

theorem completes_branch {body : List FlowStmt} {info : BlockInfo} {arms : List FlowArm}
    {otherwise : Option (List FlowStmt)} {after : Names} {ends : List (Option Names)}
    (hahead : FlowStmt.Ahead info arms otherwise before after ends)
    (hbranch : FlowStmt.Branch body before after ends) (hbacked : before.Backed env) :
    (c.runBody n plan body env).Delivers fun env' =>
      (∃ names, some names ∈ ends) ∧ StillMissing before.live after info.outputs env env' := by
  obtain ⟨entry, ended, defined, hentry, hend, hbody⟩ := hbranch
  refine (ih.runBody plan hbody (hbacked.mono hentry)).mono ?_
  rintro env' ⟨rfl, hmissing⟩
  exact ⟨⟨defined, hend⟩, hahead.stillMissing_branch hentry hend hbody hbacked hmissing⟩

theorem completes_runArms {info : BlockInfo} {arms : List FlowArm}
    {otherwise : Option (List FlowStmt)} {after : Names} {ends : List (Option Names)}
    (h : FlowStmt.Ahead info arms otherwise before after ends) (hbacked : before.Backed env) :
    (c.runArms (n + 1) plan info arms otherwise env).Delivers fun env' =>
      (∃ names, some names ∈ ends) ∧ StillMissing before.live after info.outputs env env' := by
  cases arms with
  | nil =>
    cases otherwise with
    | none =>
      rw [Setting.runArms]
      exact .pure ⟨⟨_, h.nothing.2⟩, h.stillMissing_refl hbacked⟩
    | some body =>
      rw [Setting.runArms]
      exact completes_branch ih plan h h.last hbacked
  | cons arm rest =>
    obtain ⟨condition, body⟩ := arm
    rw [runArms_cons]
    refine .bind_any fun predicate => ?_
    split
    · exact ih.chooseArm plan h hbacked
    · refine .bind_any fun init => delivers_tried ?_ (ih.chooseArm plan h hbacked)
      -- the first branch was run through for the graph, and yielded a value for each name
      have hthen : ∀ args, (do
          let env ← c.runBody n none body (Bindings.insertAll env info.inputs args)
          c.leaving info init info.outputs env).Delivers fun outs =>
            (∃ names, some names ∈ ends) ∧ info.outputs.length = outs.length := by
        intro args
        have hbacked' := hbacked.grows (env.grows_insertAll info.inputs args)
        refine (completes_branch ih none h h.branch hbacked').bind fun env₁ h₁ => ?_
        exact delivers_leaving.mono fun outs hlen => ⟨h₁.1, hlen⟩
      refine FaultPlan.delivers_intercept ((Tracer.delivers_cond hthen).mono ?_)
      rintro values ⟨outs, ⟨⟨names, hnames⟩, hlen⟩, hlen'⟩
      exact ⟨⟨names, hnames⟩, h.stillMissing_committed hnames (hlen.trans hlen')⟩

theorem completes_chooseArm {info : BlockInfo} {arm : FlowArm} {rest : List FlowArm}
    {otherwise : Option (List FlowStmt)} {predicate : Value} {after : Names}
    {ends : List (Option Names)} (h : FlowStmt.Ahead info (arm :: rest) otherwise before after ends)
    (hbacked : before.Backed env) :
    (c.chooseArm (n + 1) plan info arm rest otherwise predicate env).Delivers fun env' =>
      (∃ names, some names ∈ ends) ∧ StillMissing before.live after info.outputs env env' := by
  obtain ⟨condition, body⟩ := arm
  rw [Setting.chooseArm]
  refine .bind_any fun truth => ?_
  split
  · exact completes_branch ih plan h h.branch hbacked
  · obtain ⟨moreEnds, hrest, hsub⟩ := h.rest
    refine (ih.runArms plan hrest hbacked).mono ?_
    rintro env' ⟨⟨names, hnames⟩, hmissing⟩
    exact ⟨⟨names, hsub hnames⟩, hmissing⟩

end Parts

theorem completes_succ (ih : c.Completes n) : c.Completes (n + 1) where
  run := fun plan _ _ _ _ _ _ h hbacked => completes_run ih plan h hbacked
  runStmt := fun plan _ _ _ _ _ _ h hbacked => completes_runStmt ih plan h hbacked
  runBody := fun plan _ _ _ _ _ h hbacked => by
    rw [Setting.runBody]
    refine (ih.run plan h hbacked).bind ?_
    rintro ⟨exit, env'⟩ ⟨hinside, hnext⟩
    exact .pure (hnext (hinside rfl))
  runArms := fun plan _ _ _ _ _ _ _ h hbacked => completes_runArms ih plan h hbacked
  chooseArm := fun plan _ _ _ _ _ _ _ _ _ h hbacked => completes_chooseArm ih plan h hbacked

theorem completes (c : Setting) (n : Nat) : c.Completes n := by
  induction n with
  | zero => exact completes_zero
  | succ n ih => exact completes_succ ih

end Setting

end StagedFlow
