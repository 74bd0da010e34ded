import StagedFlow.Proofs.Dataflow
import StagedFlow.Proofs.LiveHeads

/-!
The ways through a converted function, whichever branches are taken and however often a loop goes
round. A name is live at a point if some way from there reads it before it is assigned, and this is
what the analysis of liveness finds; what the analysis of definite assignment finds is assigned on
every way to the point. Main definitions: `Todo`, `Todo.Goes`, `Todo.Live`, `Todo.Path`,
`Todo.Covered`, `Todo.Secured`. Main results: `Todo.live_of_liveIn`, `Todo.mem_of_live`,
`Todo.Secured.path`.
-/
set_option autoImplicit false

namespace StagedFlow

/-! ## Points and steps -/

/-- Something that is left to do at a point of a program: to run a statement, to decide whether a
loop goes on, or to go round a loop and then decide again. -/
inductive Todo
  | run (s : FlowStmt)
  | check (loop : FlowStmt)
  | round (loop : FlowStmt)

/-- The names that the conditions of some arms read. -/
def FlowStmt.conditionUses (arms : List FlowArm) : List String :=
  arms.flatMap fun arm => arm.condition.uses

/-- The names that are read to decide that a loop does not go on. -/
def FlowStmt.exitUses : FlowStmt → List String
  | whileDo _ condition _ => condition.uses
  | _ => []

namespace Todo

open FlowStmt

/-- A step from one point of a program to the next, with the names that it reads and those that it
then assigns. Which arm is taken and whether a loop goes on is left open. -/
inductive Goes : List Todo → List String → List String → List Todo → Prop
  | act (action : Action) (span : Span) (later : List Todo) (h : action.terminates = false) :
    Goes (run (.act action span) :: later) action.reads action.assigned later
  | stop (action : Action) (span : Span) (later : List Todo) (h : action.terminates = true) :
    Goes (run (.act action span) :: later) action.reads [] []
  | arm (info : BlockInfo) (tried : List FlowArm) (condition : Expr) (body : List FlowStmt)
    (rest : List FlowArm) (otherwise : Option (List FlowStmt)) (later : List Todo) :
    Goes (run (.cond info (tried ++ ⟨condition, body⟩ :: rest) otherwise) :: later)
      (conditionUses tried ++ condition.uses) [] (body.map run ++ later)
  | last (info : BlockInfo) (arms : List FlowArm) (otherwise : Option (List FlowStmt))
    (later : List Todo) :
    Goes (run (.cond info arms otherwise) :: later) (conditionUses arms) []
      ((otherwise.getD []).map run ++ later)
  | forIn (info : BlockInfo) (target : Target) (source : Expr) (body : List FlowStmt)
    (domain : Option Domain) (strategy : Strategy) (later : List Todo) :
    Goes (run (.forIn info target source body domain strategy) :: later) source.uses []
      (check (.forIn info target source body domain strategy) :: later)
  | whileDo (info : BlockInfo) (condition : Expr) (body : List FlowStmt) (later : List Todo) :
    Goes (run (.whileDo info condition body) :: later) [] []
      (check (.whileDo info condition body) :: later)
  | exit (loop : FlowStmt) (later : List Todo) :
    Goes (check loop :: later) loop.exitUses [] later
  | enter (loop : FlowStmt) (later : List Todo) :
    Goes (check loop :: later) [] [] (round loop :: later)
  | forRound (info : BlockInfo) (target : Target) (source : Expr) (body : List FlowStmt)
    (domain : Option Domain) (strategy : Strategy) (later : List Todo) :
    Goes (round (.forIn info target source body domain strategy) :: later) [] target.names
      (body.map run ++ check (.forIn info target source body domain strategy) :: later)
  | whileRound (info : BlockInfo) (condition : Expr) (body : List FlowStmt) (later : List Todo) :
    Goes (round (.whileDo info condition body) :: later) condition.uses []
      (body.map run ++ check (.whileDo info condition body) :: later)

/-- A name is live at a point if some way from there reads it before it is assigned. -/
inductive Live (x : String) : List Todo → Prop
  | now {p q : List Todo} {reads writes : List String} (h : Goes p reads writes q)
    (hx : x ∈ reads) : Live x p
  | later {p q : List Todo} {reads writes : List String} (h : Goes p reads writes q)
    (hx : x ∉ writes) (rest : Live x q) : Live x p

/-- A way from one point to another, with the names that are assigned on it. -/
inductive Path : List Todo → List String → List Todo → Prop
  | here (p : List Todo) : Path p [] p
  | go {p q r : List Todo} {reads writes names : List String} (h : Goes p reads writes q)
    (rest : Path q names r) : Path p (writes ++ names) r

/-- A step that assigns nothing leaves the names live that are live after it. -/
theorem Goes.live {p q : List Todo} {reads : List String} {x : String} (h : Goes p reads [] q)
    (hx : Live x q) : Live x p :=
  .later h List.not_mem_nil hx

theorem live_forRound {info : BlockInfo} {target : Target} {source : Expr} {body : List FlowStmt}
    {domain : Option Domain} {strategy : Strategy} {later : List Todo} {x : String} :
    Live x (round (.forIn info target source body domain strategy) :: later) ↔
      x ∉ target.names ∧ Live x
        (body.map run ++ check (.forIn info target source body domain strategy) :: later) := by
  constructor
  · intro h
    cases h with
    | now h hx =>
      cases h
      cases hx
    | later h hx rest =>
      cases h
      exact ⟨hx, rest⟩
  · rintro ⟨hx, hlive⟩
    exact .later (.forRound ..) hx hlive

theorem live_whileRound {info : BlockInfo} {condition : Expr} {body : List FlowStmt}
    {later : List Todo} {x : String} :
    Live x (round (.whileDo info condition body) :: later) ↔
      x ∈ condition.uses ∨
        Live x (body.map run ++ check (.whileDo info condition body) :: later) := by
  constructor
  · intro h
    cases h with
    | now h hx =>
      cases h
      exact .inl hx
    | later h hx rest =>
      cases h
      exact .inr rest
  · rintro (hx | hlive)
    · exact .now (.whileRound ..) hx
    · exact (Goes.whileRound ..).live hlive

end Todo

/-- The names live before an action: those it reads, and if it comes to its end those live after it
that it does not assign. -/
theorem Action.mem_liveBefore {action : Action} {after : Names} {x : String} :
    x ∈ action.liveBefore after ↔
      x ∈ action.reads ∨ action.terminates = false ∧ x ∉ action.assigned ∧ x ∈ after := by
  cases action with
  | assign target value =>
    simp only [liveBefore, reads, terminates, assigned, Names.mem_union, Names.mem_without,
      true_and, and_comm, or_comm]
  | update name op value =>
    simp only [liveBefore, reads, terminates, assigned, Names.mem_union, Names.mem_add,
      List.mem_cons, List.not_mem_nil, or_false, true_and]
    by_cases hx : x = name <;> simp [hx, or_comm]
  | eval expr => simp [liveBefore, reads, terminates, assigned, or_comm]
  | ret value => cases value <;> simp [liveBefore, reads, terminates, Names.mem_ofList]
  | raise message => simp [liveBefore, reads, terminates]
  | pass => simp [liveBefore, reads, terminates, assigned]

/-! ## What is found live is read on some way -/

/-- What holds of the names at the start, and of what a round keeps if it holds of the head, holds
of all names at the head. -/
theorem forall_liveHead {body : Names → LiveTable → Names × LiveTable} {kept : Names → Names}
    {P : String → Prop}
    (hround : ∀ head table, (∀ x ∈ head, P x) → ∀ x ∈ kept (body head table).1, P x)
    (rounds : Nat) (start : Names) (table : LiveTable) (hstart : ∀ x ∈ start, P x) :
    ∀ x ∈ (liveHead body kept rounds start table).1, P x := by
  induction rounds generalizing start table with
  | zero => exact hstart
  | succ rounds ih =>
    rw [liveHead_succ]
    by_cases hsub : (kept (body start table).1).subset start
    · rw [if_pos hsub]
      exact hstart
    · rw [if_neg hsub]
      refine ih _ _ fun x hx => ?_
      rcases Names.mem_union.mp hx with hx | hx
      · exact hstart x hx
      · exact hround start table hstart x hx

namespace Todo

open FlowStmt

/-- The names live after statements are live at the point `later`, so those found before them are
live at the point before them. -/
def Finds (body : List FlowStmt) (later : List Todo) : Prop :=
  ∀ (after : Names) (table : LiveTable), (∀ x ∈ after, Live x later) →
    ∀ x ∈ (liveIn body after table).1, Live x (body.map run ++ later)

theorem live_forHead {info : BlockInfo} {target : Target} {source : Expr} {body : List FlowStmt}
    {domain : Option Domain} {strategy : Strategy} {later : List Todo} {after : Names}
    (hbody : Finds body (check (.forIn info target source body domain strategy) :: later))
    (hafter : ∀ x ∈ after, Live x later) (rounds : Nat) (table : LiveTable) :
    ∀ x ∈ (liveHead (fun after table => liveIn body after table) (·.without target.names) rounds
        after table).1,
      Live x (check (.forIn info target source body domain strategy) :: later) := by
  refine forall_liveHead (fun head table hhead x hx => ?_) rounds after table fun x hx => ?_
  · obtain ⟨hx, htarget⟩ := Names.mem_without.mp hx
    exact (Goes.enter ..).live (live_forRound.mpr ⟨htarget, hbody head table hhead x hx⟩)
  · exact (Goes.exit ..).live (hafter x hx)

theorem live_whileHead {info : BlockInfo} {condition : Expr} {body : List FlowStmt}
    {later : List Todo} {after : Names}
    (hbody : Finds body (check (.whileDo info condition body) :: later))
    (hafter : ∀ x ∈ after, Live x later) (rounds : Nat) (table : LiveTable) :
    ∀ x ∈ (liveHead (fun after table => liveIn body after table) id rounds
        (after.union condition.uses) table).1,
      Live x (check (.whileDo info condition body) :: later) := by
  refine forall_liveHead (fun head table hhead x hx => ?_) rounds _ table fun x hx => ?_
  · exact (Goes.enter ..).live (live_whileRound.mpr (.inr (hbody head table hhead x hx)))
  · rcases Names.mem_union.mp hx with hx | hx
    · exact (Goes.exit ..).live (hafter x hx)
    · exact .now (.exit ..) hx

mutual

theorem live_of_liveBefore : ∀ (s : FlowStmt) (later : List Todo) (after : Names)
    (table : LiveTable), (∀ x ∈ after, Live x later) →
      ∀ x ∈ (s.liveBefore after table).1, Live x (run s :: later)
  | .act action span, later, after, table, hafter, x, hx => by
    rcases Action.mem_liveBefore.mp hx with hreads | ⟨hends, hassigned, hx⟩
    · cases hends : action.terminates with
      | false => exact .now (.act action span later hends) hreads
      | true => exact .now (.stop action span later hends) hreads
    · exact .later (.act action span later hends) hassigned (hafter x hx)
  | .cond info arms otherwise, later, after, table, hafter, x, hx => by
    rw [liveBefore_cond] at hx
    rcases Names.mem_union.mp hx with hx | hx
    · exact live_of_liveArms arms info [] otherwise later after table hafter x hx
    · exact (Goes.last ..).live (live_of_liveLast otherwise later after _ hafter x hx)
  | .forIn info target source body domain strategy, later, after, table, hafter, x, hx => by
    simp only [liveBefore, Names.mem_union] at hx
    rcases hx with hx | hx
    · exact (Goes.forIn ..).live (live_forHead (live_of_liveIn body _) hafter _ table x hx)
    · exact .now (.forIn ..) hx
  | .whileDo info condition body, later, after, table, hafter, x, hx => by
    simp only [liveBefore] at hx
    exact (Goes.whileDo ..).live (live_whileHead (live_of_liveIn body _) hafter _ table x hx)

theorem live_of_liveArms : ∀ (arms : List FlowArm) (info : BlockInfo) (tried : List FlowArm)
    (otherwise : Option (List FlowStmt)) (later : List Todo) (after : Names) (table : LiveTable),
    (∀ x ∈ after, Live x later) → ∀ x ∈ (liveArms arms after table).1,
      Live x (run (.cond info (tried ++ arms) otherwise) :: later)
  | [], _, _, _, _, _, _, _, _, hx => absurd hx List.not_mem_nil
  | ⟨condition, body⟩ :: rest, info, tried, otherwise, later, after, table, hafter, x, hx => by
    simp only [liveArms, Names.mem_union] at hx
    rcases hx with (hx | hx) | hx
    · exact (Goes.arm ..).live (live_of_liveIn body later after table hafter x hx)
    · exact .now (.arm ..) (List.mem_append_right _ hx)
    · have hrest := live_of_liveArms rest info (tried ++ [⟨condition, body⟩]) otherwise later
        after _ hafter x hx
      rwa [List.append_assoc] at hrest

theorem live_of_liveLast : ∀ (otherwise : Option (List FlowStmt)) (later : List Todo)
    (after : Names) (table : LiveTable), (∀ x ∈ after, Live x later) →
      ∀ x ∈ (liveLast otherwise after table).1, Live x ((otherwise.getD []).map run ++ later)
  | none, _, _, _, hafter => hafter
  | some body, later, after, table, hafter => live_of_liveIn body later after table hafter

/-- What is found live before statements is read on some way from the point before them. -/
theorem live_of_liveIn : ∀ (body : List FlowStmt) (later : List Todo), Finds body later
  | [], _, _, _, hafter => hafter
  | s :: rest, later, after, table, hafter =>
    live_of_liveBefore s (rest.map run ++ later) _ _ (live_of_liveIn rest later after table hafter)

end

/-! ## What some way reads is found live -/

section

variable (hands : Bool → BlockInfo → String → Prop)

/-- From the names at the head of a loop, a round leads to the head again. -/
def Recurs : FlowStmt → List String → Prop
  | .forIn _ target _ body _ _, head =>
    ∃ entry, allThread hands body entry head ∧ ∀ x ∈ entry, x ∉ target.names → x ∈ head
  | .whileDo _ condition body, head =>
    condition.uses ⊆ head ∧ ∃ entry, allThread hands body entry head ∧ entry ⊆ head
  | _, _ => True

/-- The names suffice for all that is left to do at a point. -/
def Covered : List Todo → List String → Prop
  | [], _ => True
  | run s :: later, names => ∃ after, s.Threads hands names after ∧ Covered later after
  | check loop :: later, names | round loop :: later, names =>
    ∃ head after, head ⊆ names ∧ after ⊆ head ∧ Recurs hands loop head ∧ Covered later after

end

variable {hands : Bool → BlockInfo → String → Prop}

/-- The names at the head of a loop suffice where it is decided whether the loop goes on. -/
theorem covered_check {loop : FlowStmt} {later : List Todo} {head after : List String}
    (hrecurs : Recurs hands loop head) (hafter : after ⊆ head)
    (hlater : Covered hands later after) : Covered hands (check loop :: later) head :=
  ⟨head, after, List.Subset.refl head, hafter, hrecurs, hlater⟩

theorem Covered.mono {p : List Todo} {names more : List String} (h : Covered hands p names)
    (hsub : names ⊆ more) : Covered hands p more := by
  cases p with
  | nil => trivial
  | cons first later =>
    cases first with
    | run s =>
      obtain ⟨after, hs, hlater⟩ := h
      exact ⟨after, hs.mono hsub (List.Subset.refl after), hlater⟩
    | check loop =>
      obtain ⟨head, after, hhead, hrest⟩ := h
      exact ⟨head, after, List.Subset.trans hhead hsub, hrest⟩
    | round loop =>
      obtain ⟨head, after, hhead, hrest⟩ := h
      exact ⟨head, after, List.Subset.trans hhead hsub, hrest⟩

theorem covered_append {body : List FlowStmt} {later : List Todo} {names after : List String}
    (hbody : allThread hands body names after) (hlater : Covered hands later after) :
    Covered hands (body.map run ++ later) names := by
  induction body generalizing names with
  | nil => exact hlater.mono hbody
  | cons s rest ih =>
    obtain ⟨mid, hs, hrest⟩ := hbody
    exact ⟨mid, hs, ih hrest⟩

theorem armsThread_append {tried rest : List FlowArm} {condition : Expr} {body : List FlowStmt}
    {names after : List String}
    (h : armsThread hands (tried ++ ⟨condition, body⟩ :: rest) names after) :
    conditionUses tried ++ condition.uses ⊆ names ∧ allThread hands body names after := by
  induction tried with
  | nil => exact ⟨h.1, h.2.1⟩
  | cons arm tried ih =>
    obtain ⟨first, _⟩ := arm
    obtain ⟨hfirst, -, hrest⟩ := h
    obtain ⟨huses, hbody⟩ := ih hrest
    refine ⟨fun x hx => ?_, hbody⟩
    rw [conditionUses, List.flatMap_cons, List.append_assoc] at hx
    exact (List.mem_append.mp hx).elim (@hfirst x) (@huses x)

theorem conditionUses_subset {arms : List FlowArm} {names after : List String}
    (h : armsThread hands arms names after) : conditionUses arms ⊆ names := by
  induction arms with
  | nil => exact List.nil_subset _
  | cons arm rest ih =>
    obtain ⟨first, _⟩ := arm
    obtain ⟨hfirst, -, hrest⟩ := h
    intro x hx
    rw [conditionUses, List.flatMap_cons] at hx
    exact (List.mem_append.mp hx).elim (@hfirst x) (@ih hrest x)

/-- A step reads only what is there, and what suffices after it was there before or is assigned. -/
theorem Covered.step {p q : List Todo} {reads writes names : List String}
    (h : Covered hands p names) (hgoes : Goes p reads writes q) :
    reads ⊆ names ∧
      ∃ names', Covered hands q names' ∧ ∀ x ∈ names', x ∉ writes → x ∈ names := by
  cases hgoes with
  | act action span later hends =>
    obtain ⟨after, hs, hlater⟩ := h
    have hreads : action.reads ⊆ names := fun x hx => hs (Action.mem_liveBefore.mpr (.inl hx))
    have hkept : ∀ x ∈ after, x ∉ action.assigned → x ∈ names :=
      fun x hx hassigned => hs (Action.mem_liveBefore.mpr (.inr ⟨hends, hassigned, hx⟩))
    exact ⟨hreads, after, hlater, hkept⟩
  | stop action span later hends =>
    obtain ⟨after, hs, -⟩ := h
    have hreads : action.reads ⊆ names := fun x hx => hs (Action.mem_liveBefore.mpr (.inl hx))
    exact ⟨hreads, names, trivial, fun x hx _ => hx⟩
  | arm info tried condition body rest otherwise later =>
    obtain ⟨after, ⟨harms, -⟩, hlater⟩ := h
    obtain ⟨huses, hbody⟩ := armsThread_append harms
    exact ⟨huses, names, covered_append hbody hlater, fun x hx _ => hx⟩
  | last info arms otherwise later =>
    obtain ⟨after, ⟨harms, hlast, -⟩, hlater⟩ := h
    refine ⟨conditionUses_subset harms, names, ?_, fun x hx _ => hx⟩
    cases otherwise with
    | none => exact hlater.mono hlast
    | some body => exact covered_append hlast hlater
  | forIn info target source body domain strategy later =>
    obtain ⟨after, ⟨hsource, head, entry, hafter, hhead, hbody, hentry, -⟩, hlater⟩ := h
    have hrecurs : Recurs hands (.forIn info target source body domain strategy) head :=
      ⟨entry, hbody, hentry⟩
    exact ⟨hsource, head, covered_check hrecurs hafter hlater, fun x hx _ => hhead hx⟩
  | whileDo info condition body later =>
    obtain ⟨after, ⟨head, entry, hafter, hhead, hbody, hentry, huses, -⟩, hlater⟩ := h
    have hrecurs : Recurs hands (.whileDo info condition body) head :=
      ⟨huses, entry, hbody, hentry⟩
    exact ⟨List.nil_subset _, head, covered_check hrecurs hafter hlater, fun x hx _ => hhead hx⟩
  | exit loop later =>
    obtain ⟨head, after, hhead, hafter, hrecurs, hlater⟩ := h
    refine ⟨?_, after, hlater, fun x hx _ => hhead (hafter hx)⟩
    cases loop with
    | whileDo info condition body => exact List.Subset.trans hrecurs.1 hhead
    | _ => exact List.nil_subset _
  | enter loop later => exact ⟨List.nil_subset _, names, h, fun x hx _ => hx⟩
  | forRound info target source body domain strategy later =>
    obtain ⟨head, after, hhead, hafter, hrecurs, hlater⟩ := h
    have hagain := covered_check hrecurs hafter hlater
    obtain ⟨entry, hbody, hentry⟩ := hrecurs
    exact ⟨List.nil_subset _, entry, covered_append hbody hagain,
      fun x hx htarget => hhead (hentry x hx htarget)⟩
  | whileRound info condition body later =>
    obtain ⟨head, after, hhead, hafter, hrecurs, hlater⟩ := h
    have hagain := covered_check hrecurs hafter hlater
    obtain ⟨huses, entry, hbody, hentry⟩ := hrecurs
    exact ⟨List.Subset.trans huses hhead, entry, covered_append hbody hagain,
      fun x hx _ => hhead (hentry hx)⟩

/-- Where names suffice, all live names are among them. -/
theorem mem_of_live {p : List Todo} {x : String} (h : Live x p) {names : List String}
    (hnames : Covered hands p names) : x ∈ names := by
  induction h generalizing names with
  | now hgoes hx => exact (hnames.step hgoes).1 hx
  | later hgoes hx _ ih =>
    obtain ⟨-, names', hcovered, hkept⟩ := hnames.step hgoes
    exact hkept x (ih hcovered) hx

/-! ## What is found assigned is assigned on every way -/

section

variable (tells : Bool → BlockInfo → List String → LiveFacts → DefiniteFacts → Prop)

/-- The rounds of a loop are judged from the names assigned before it. -/
def RoundsJudged : FlowStmt → Names → Prop
  | .forIn _ target _ body _ _, before =>
    ∃ entry ended after, allJudged tells true body ⟨before.union target.names, entry⟩ ended after
  | .whileDo _ _ body, before =>
    ∃ entry ended after, allJudged tells true body ⟨before, entry⟩ ended after
  | _, _ => True

/-- All that is left to do at a point is judged from names that have been assigned. Nothing is said
of what stands after a statement that never comes to its end. -/
def Secured : List Todo → List String → Prop
  | [], _ => True
  | run s :: later, names =>
    ∃ inside before ended after, before.defined ⊆ names ∧ s.Judged tells inside before ended after ∧
      (ended = false → Secured later after.defined)
  | check loop :: later, names | round loop :: later, names =>
    ∃ before, before ⊆ names ∧ RoundsJudged tells loop before ∧ Secured later before

end

variable {tells : Bool → BlockInfo → List String → LiveFacts → DefiniteFacts → Prop}

theorem Secured.mono {p : List Todo} {names more : List String} (h : Secured tells p names)
    (hsub : names ⊆ more) : Secured tells p more := by
  cases p with
  | nil => trivial
  | cons first later =>
    cases first with
    | run s =>
      obtain ⟨inside, before, ended, after, hbefore, hrest⟩ := h
      exact ⟨inside, before, ended, after, List.Subset.trans hbefore hsub, hrest⟩
    | check loop =>
      obtain ⟨before, hbefore, hrest⟩ := h
      exact ⟨before, List.Subset.trans hbefore hsub, hrest⟩
    | round loop =>
      obtain ⟨before, hbefore, hrest⟩ := h
      exact ⟨before, List.Subset.trans hbefore hsub, hrest⟩

theorem secured_append {inside : Bool} {body : List FlowStmt} {later : List Todo}
    {before after : Outlook} {ended : Bool} (hbody : allJudged tells inside body before ended after)
    (hlater : ended = false → Secured tells later after.defined) :
    Secured tells (body.map run ++ later) before.defined := by
  induction body generalizing before ended with
  | nil =>
    obtain ⟨hended, -, hdefined⟩ := hbody
    exact hdefined ▸ hlater hended
  | cons s rest ih =>
    obtain ⟨mid, first, second, hs, hrest, hended⟩ := hbody
    refine ⟨inside, before, first, mid, List.Subset.refl _, hs, fun hfirst => ih hrest ?_⟩
    intro hsecond
    exact hlater (by rw [hended, hfirst, hsecond, Bool.or_self])

theorem armsJudged_append {tried rest : List FlowArm} {condition : Expr} {body : List FlowStmt}
    {before : Outlook} {after : Names} {entries : List Names} {ends : List (Option Names)}
    (h : armsJudged tells (tried ++ ⟨condition, body⟩ :: rest) before after entries ends) :
    ∃ entry ended defined, branchEnd ended defined ∈ ends ∧
      allJudged tells true body ⟨before.defined, entry⟩ ended ⟨defined, after⟩ := by
  induction tried generalizing entries ends with
  | nil =>
    obtain ⟨-, entry, ended, defined, moreEntries, moreEnds, -, rfl, -, hbody, -⟩ := h
    exact ⟨entry, ended, defined, List.mem_cons_self, hbody⟩
  | cons arm tried ih =>
    obtain ⟨_, _⟩ := arm
    obtain ⟨-, entry, ended, defined, moreEntries, moreEnds, -, rfl, -, -, hrest⟩ := h
    obtain ⟨entry, ended, defined, hends, hbody⟩ := ih hrest
    exact ⟨entry, ended, defined, List.mem_cons_of_mem _ hends, hbody⟩

/-- A branch that comes to its end has assigned what is assigned after the conditional. -/
theorem secured_branch {later : List Todo} {before defined : Names} {ends : List (Option Names)}
    (hends : some defined ∈ ends)
    (hlater : (commonNames? ends).isNone = false →
      Secured tells later ((commonNames? ends).getD before)) : Secured tells later defined := by
  rcases commonNames?_cases ends with ⟨-, hnone⟩ | ⟨common, hsome, -, hcommon⟩
  · exact absurd hends (hnone defined)
  · rw [hsome] at hlater
    exact (hlater rfl).mono fun x hx => (hcommon x).mp hx defined hends

/-- After a step, what was assigned before it and what it assigns suffices. -/
theorem Secured.step {p q : List Todo} {reads writes names : List String}
    (h : Secured tells p names) (hgoes : Goes p reads writes q) :
    Secured tells q (names ++ writes) := by
  cases hgoes with
  | act action span later hends =>
    obtain ⟨inside, before, ended, after, hbefore, ⟨-, -, hended, hdefined⟩, hlater⟩ := h
    refine (hlater (hended.trans hends)).mono fun x hx => ?_
    rw [hdefined] at hx
    exact List.mem_append.mpr ((Names.mem_union.mp hx).imp_left (@hbefore x))
  | stop action span later hends => trivial
  | arm info tried condition body rest otherwise later =>
    obtain ⟨inside, before, ended, after, hbefore, hjudged, hlater⟩ := h
    obtain ⟨entries, ends, entry, lastEnd, harms, -, -, hended, hdefined⟩ := hjudged
    obtain ⟨entry, bodyEnded, defined, hends, hbody⟩ := armsJudged_append harms
    rw [hended, hdefined] at hlater
    rw [List.append_nil]
    refine (secured_append hbody fun hbodyEnded => ?_).mono hbefore
    subst hbodyEnded
    exact secured_branch (List.mem_append_left _ hends) hlater
  | last info arms otherwise later =>
    obtain ⟨inside, before, ended, after, hbefore, hjudged, hlater⟩ := h
    obtain ⟨entries, ends, entry, lastEnd, -, hlast, -, hended, hdefined⟩ := hjudged
    rw [hended, hdefined] at hlater
    rw [List.append_nil]
    have hmem : lastEnd ∈ ends ++ [lastEnd] := List.mem_append_right _ List.mem_cons_self
    cases otherwise with
    | none =>
      obtain ⟨-, -, rfl⟩ := hlast
      exact (secured_branch hmem hlater).mono hbefore
    | some body =>
      obtain ⟨-, bodyEnded, defined, rfl, hbody⟩ := hlast
      refine (secured_append hbody fun hbodyEnded => ?_).mono hbefore
      subst hbodyEnded
      exact secured_branch hmem hlater
  | forIn info target source body domain strategy later =>
    obtain ⟨inside, before, ended, after, hbefore, hjudged, hlater⟩ := h
    obtain ⟨hended, hdefined, -, head, entry, bodyEnded, defined, -, -, -, hbody, -⟩ := hjudged
    rw [List.append_nil]
    exact ⟨before.defined, hbefore, ⟨entry, bodyEnded, _, hbody⟩, hdefined ▸ hlater hended⟩
  | whileDo info condition body later =>
    obtain ⟨inside, before, ended, after, hbefore, hjudged, hlater⟩ := h
    obtain ⟨hended, hdefined, head, entry, bodyEnded, defined, -, -, -, -, hbody, -⟩ := hjudged
    rw [List.append_nil]
    exact ⟨before.defined, hbefore, ⟨entry, bodyEnded, _, hbody⟩, hdefined ▸ hlater hended⟩
  | exit loop later =>
    obtain ⟨before, hbefore, -, hlater⟩ := h
    rw [List.append_nil]
    exact hlater.mono hbefore
  | enter loop later =>
    rw [List.append_nil]
    exact h
  | forRound info target source body domain strategy later =>
    obtain ⟨before, hbefore, hrounds, hlater⟩ := h
    obtain ⟨entry, ended, after, hbody⟩ := hrounds
    -- the next round may start from what was assigned before the loop
    have hagain : Secured tells (check (.forIn info target source body domain strategy) :: later)
        after.defined :=
      ⟨before, fun x hx => (allJudged_leads hbody).keeps x (Names.mem_union.mpr (.inl hx)),
        ⟨entry, ended, after, hbody⟩, hlater⟩
    refine (secured_append hbody fun _ => hagain).mono fun x hx => ?_
    exact List.mem_append.mpr ((Names.mem_union.mp hx).imp_left (@hbefore x))
  | whileRound info condition body later =>
    obtain ⟨before, hbefore, hrounds, hlater⟩ := h
    obtain ⟨entry, ended, after, hbody⟩ := hrounds
    have hagain : Secured tells (check (.whileDo info condition body) :: later) after.defined :=
      ⟨before, (allJudged_leads hbody).keeps, ⟨entry, ended, after, hbody⟩, hlater⟩
    rw [List.append_nil]
    exact (secured_append hbody fun _ => hagain).mono hbefore

/-- At the end of a way, what was assigned before it and on it suffices. -/
theorem Secured.path {p q : List Todo} {names more : List String} (hpath : Path p more q)
    (h : Secured tells p names) : Secured tells q (names ++ more) := by
  induction hpath generalizing names with
  | here p => rwa [List.append_nil]
  | go hgoes _ ih =>
    rw [← List.append_assoc]
    exact ih (h.step hgoes)

end Todo

end StagedFlow
