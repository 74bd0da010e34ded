import StagedFlow.Proofs.Conversion

/-!
The analyses of liveness and of definite assignment as one judgement on statements: from the names
that are assigned on every path and those that are live before a statement it leads to those after
it, and at every block it has what was found around the block. Main definitions: `Outlook`,
`FlowStmt.Judged`, `BlockInfo.Reflects`. Main results: `FlowStmt.allJudged_of_analyses`,
`FlowStmt.Judged.leads`, `FunctionDef.convert_judged`.
-/
set_option autoImplicit false

namespace StagedFlow

/-- The names at a point of a program: those assigned on every path to it, and those that can be
read from it on. -/
structure Outlook where
  defined : Names
  live : Names

namespace FlowStmt

section Judgement

variable (tells : Bool → BlockInfo → List String → LiveFacts → DefiniteFacts → Prop)

mutual

/-- A statement, `inside` a block or not, between two outlooks; `ended` if it never comes to its
end. At each block, a loop or not, `tells` holds of the names that the block assigns and of what was
found around it. -/
def Judged (inside : Bool) : FlowStmt → Outlook → Bool → Outlook → Prop
  | act action _, before, ended, after =>
    (inside && action.isReturn) = false ∧ action.liveBefore after.live ⊆ before.live ∧
      ended = action.terminates ∧ after.defined = before.defined.union action.assigned
  | cond info arms otherwise, before, ended, after =>
    ∃ entries ends entry lastEnd,
      armsJudged arms before after.live entries ends ∧
      lastJudged otherwise before after.live entry lastEnd ∧
      tells false info (assigned (cond info arms otherwise)) ⟨after.live, entries ++ [entry]⟩
        ⟨before.defined, ends ++ [lastEnd]⟩ ∧
      ended = (commonNames? (ends ++ [lastEnd])).isNone ∧
      after.defined = (commonNames? (ends ++ [lastEnd])).getD before.defined
  | forIn info target source body domain strategy, before, ended, after =>
    ended = false ∧ after.defined = before.defined ∧ source.uses ⊆ before.live ∧
      ∃ head entry bodyEnded defined, after.live ⊆ head ∧ head ⊆ before.live ∧
        (∀ x ∈ entry, x ∉ target.names → x ∈ head) ∧
        allJudged true body ⟨before.defined.union target.names, entry⟩ bodyEnded ⟨defined, head⟩ ∧
        tells true info (assigned (forIn info target source body domain strategy))
          ⟨after.live, [entry.without target.names]⟩
          ⟨before.defined, [branchEnd bodyEnded defined]⟩
  | whileDo info condition body, before, ended, after =>
    ended = false ∧ after.defined = before.defined ∧
      ∃ head entry bodyEnded defined, after.live ⊆ head ∧ head ⊆ before.live ∧
        condition.uses ⊆ head ∧ entry ⊆ head ∧
        allJudged true body ⟨before.defined, entry⟩ bodyEnded ⟨defined, head⟩ ∧
        tells true info (assigned (whileDo info condition body))
          ⟨after.live, [entry.union condition.uses]⟩
          ⟨before.defined, [branchEnd bodyEnded defined]⟩

/-- The arms of a conditional, with what is live at the start of each and assigned at its end. -/
def armsJudged : List FlowArm → Outlook → Names → List Names → List (Option Names) → Prop
  | [], _, _, entries, ends => entries = [] ∧ ends = []
  | ⟨condition, body⟩ :: rest, before, after, entries, ends =>
    condition.uses ⊆ before.live ∧
      ∃ entry ended defined moreEntries moreEnds,
        entries = entry :: moreEntries ∧ ends = branchEnd ended defined :: moreEnds ∧
        entry ⊆ before.live ∧
        allJudged true body ⟨before.defined, entry⟩ ended ⟨defined, after⟩ ∧
        armsJudged rest before after moreEntries moreEnds

/-- The last branch of a conditional, which is empty if it is missing. -/
def lastJudged : Option (List FlowStmt) → Outlook → Names → Names → Option Names → Prop
  | none, before, after, entry, lastEnd =>
    after ⊆ before.live ∧ entry = after ∧ lastEnd = some before.defined
  | some body, before, after, entry, lastEnd =>
    entry ⊆ before.live ∧
      ∃ ended defined, lastEnd = branchEnd ended defined ∧
        allJudged true body ⟨before.defined, entry⟩ ended ⟨defined, after⟩

def allJudged (inside : Bool) : List FlowStmt → Outlook → Bool → Outlook → Prop
  | [], before, ended, after =>
    ended = false ∧ after.live ⊆ before.live ∧ after.defined = before.defined
  | s :: rest, before, ended, after =>
    ∃ mid first second, s.Judged inside before first mid ∧ allJudged inside rest mid second after ∧
      ended = (first || second)

end

end Judgement

/-- The names that the last branch of a conditional may assign. -/
def lastAssigned : Option (List FlowStmt) → List String
  | none => []
  | some body => assignedIn body

theorem assigned_cond (info : BlockInfo) (arms : List FlowArm)
    (otherwise : Option (List FlowStmt)) :
    (cond info arms otherwise).assigned = armsAssigned arms ++ lastAssigned otherwise := by
  cases otherwise <;> rw [assigned] <;> rfl

/-! ## What the analyses find -/

/-- What is assigned at the end of the last branch of a conditional. -/
def defineLast : Option (List FlowStmt) → Names → DefiniteTable → Option Names × DefiniteTable
  | none, before, table => (some before, table)
  | some body, before, table =>
    let last := defineAll body before table
    (branchEnd last.1 last.2.1, last.2.2)

theorem define_ends (before : Names) (ends : List (Option Names)) (table : DefiniteTable) :
    (match commonNames? ends with
      | some defined => (false, defined, table)
      | none => (true, before, table)) =
    ((commonNames? ends).isNone, (commonNames? ends).getD before, table) := by
  cases commonNames? ends <;> rfl

theorem define_cond (info : BlockInfo) (arms : List FlowArm) (otherwise : Option (List FlowStmt))
    (before : Names) (table : DefiniteTable) :
    (cond info arms otherwise).define before table =
      let branches := defineArms arms before table
      let last := defineLast otherwise before branches.2
      let ends := branches.1 ++ [last.1]
      ((commonNames? ends).isNone, (commonNames? ends).getD before,
        Bindings.insert last.2 info.id ⟨before, ends⟩) := by
  cases otherwise with
  | none => exact define_ends before _ _
  | some body => exact define_ends before _ _

theorem define_forIn (info : BlockInfo) (target : Target) (source : Expr) (body : List FlowStmt)
    (domain : Option Domain) (strategy : Strategy) (before : Names) (table : DefiniteTable) :
    (forIn info target source body domain strategy).define before table =
      let round := defineAll body (before.union target.names) table
      (false, before,
        Bindings.insert round.2.2 info.id ⟨before, [branchEnd round.1 round.2.1]⟩) := rfl

theorem define_whileDo (info : BlockInfo) (condition : Expr) (body : List FlowStmt)
    (before : Names) (table : DefiniteTable) :
    (whileDo info condition body).define before table =
      let round := defineAll body before table
      (false, before,
        Bindings.insert round.2.2 info.id ⟨before, [branchEnd round.1 round.2.1]⟩) := rfl

mutual

theorem find?_define {id : Nat} : ∀ (s : FlowStmt) (before : Names) (table : DefiniteTable),
    id ∉ s.numbers →
      Bindings.find? (s.define before table).2.2 id = Bindings.find? table id
  | act _ _, _, _, _ => rfl
  | cond info arms otherwise, before, table, h => by
    simp only [numbers, List.mem_cons, List.mem_append, not_or] at h
    rw [define_cond, Bindings.find?_insert_of_ne _ _ (Ne.symm h.1)]
    exact (find?_defineLast otherwise before _ h.2.2).trans
      (find?_defineArms arms before table h.2.1)
  | forIn info target source body _ _, before, table, h => by
    simp only [numbers, List.mem_cons, not_or] at h
    rw [define_forIn, Bindings.find?_insert_of_ne _ _ (Ne.symm h.1)]
    exact find?_defineAll body _ table h.2
  | whileDo info condition body, before, table, h => by
    simp only [numbers, List.mem_cons, not_or] at h
    rw [define_whileDo, Bindings.find?_insert_of_ne _ _ (Ne.symm h.1)]
    exact find?_defineAll body _ table h.2

theorem find?_defineArms {id : Nat} : ∀ (arms : List FlowArm) (before : Names)
    (table : DefiniteTable), id ∉ armNumbers arms →
      Bindings.find? (defineArms arms before table).2 id = Bindings.find? table id
  | [], _, _, _ => rfl
  | ⟨condition, body⟩ :: rest, before, table, h => by
    simp only [armNumbers, List.mem_append, not_or] at h
    exact (find?_defineArms rest before _ h.2).trans (find?_defineAll body before table h.1)

theorem find?_defineLast {id : Nat} : ∀ (otherwise : Option (List FlowStmt)) (before : Names)
    (table : DefiniteTable), id ∉ lastNumbers otherwise →
      Bindings.find? (defineLast otherwise before table).2 id = Bindings.find? table id
  | none, _, _, _ => rfl
  | some body, before, table, h => find?_defineAll body before table h

theorem find?_defineAll {id : Nat} : ∀ (body : List FlowStmt) (before : Names)
    (table : DefiniteTable), id ∉ numbersIn body →
      Bindings.find? (defineAll body before table).2.2 id = Bindings.find? table id
  | [], _, _, _ => rfl
  | s :: rest, before, table, h => by
    simp only [numbersIn, List.mem_append, not_or] at h
    exact (find?_defineAll rest _ _ h.2).trans (find?_define s before table h.1)

end

/-- Two tables have the facts on a block. -/
def Found (liveTable : LiveTable) (definiteTable : DefiniteTable) (_ : Bool) (info : BlockInfo)
    (_ : List String) (live : LiveFacts) (definite : DefiniteFacts) : Prop :=
  Bindings.find? liveTable info.id = some live ∧
    Bindings.find? definiteTable info.id = some definite

section Analyses

variable {liveTable : LiveTable} {definiteTable : DefiniteTable}

mutual

/-- The analyses judge a statement, as long as two tables have what they found last on its
blocks. -/
theorem judged_of_analyses : ∀ (inside : Bool) (s : FlowStmt) (after : Names) (live : LiveTable)
    (before : Names) (definite : DefiniteTable), s.stays inside = true → s.numbers.Nodup →
    (∀ id ∈ s.numbers, Bindings.find? liveTable id = Bindings.find? (s.liveBefore after live).2 id) →
    (∀ id ∈ s.numbers,
      Bindings.find? definiteTable id = Bindings.find? (s.define before definite).2.2 id) →
    s.Judged (Found liveTable definiteTable) inside ⟨before, (s.liveBefore after live).1⟩
      (s.define before definite).1 ⟨(s.define before definite).2.1, after⟩
  | inside, act action span, after, live, before, definite, hstays, _, _, _ =>
    ⟨by simpa only [stays, Bool.not_eq_true'] using hstays, List.Subset.refl _, rfl, rfl⟩
  | inside, cond info arms otherwise, after, live, before, definite, hstays, hnodup, hlive,
      hdefinite => by
    simp only [stays, Bool.and_eq_true] at hstays
    simp only [numbers, List.nodup_cons] at hnodup hlive hdefinite
    rw [liveBefore_cond] at hlive ⊢
    rw [define_cond] at hdefinite ⊢
    obtain ⟨hfacts, hinside⟩ := inside_of_insert hnodup.1 hlive
    obtain ⟨hfacts', hinside'⟩ := inside_of_insert hnodup.1 hdefinite
    obtain ⟨hnarms, hnlast, hdisjoint⟩ := List.nodup_append.mp hnodup.2
    -- the last branch has blocks of its own, so the facts on those of the arms are still there
    have harms := armsJudged_of_analyses arms after live definite
      ⟨before, (liveArms arms after live).1.union
        (liveLast otherwise after (liveArms arms after live).2.2).1⟩
      (fun x hx => Names.mem_union.mpr (.inl hx)) hstays.1 hnarms
      (fun id hid => (hinside id (List.mem_append_left _ hid)).trans
        (find?_liveLast otherwise after _ fun hlast => hdisjoint id hid id hlast rfl))
      (fun id hid => (hinside' id (List.mem_append_left _ hid)).trans
        (find?_defineLast otherwise before _ fun hlast => hdisjoint id hid id hlast rfl))
    have hlast := lastJudged_of_analyses otherwise after (liveArms arms after live).2.2
      (defineArms arms before definite).2
      ⟨before, (liveArms arms after live).1.union
        (liveLast otherwise after (liveArms arms after live).2.2).1⟩
      (fun x hx => Names.mem_union.mpr (.inr hx)) hstays.2 hnlast
      (fun id hid => hinside id (List.mem_append_right _ hid))
      (fun id hid => hinside' id (List.mem_append_right _ hid))
    exact ⟨_, _, _, _, harms, hlast, ⟨hfacts, hfacts'⟩, rfl, rfl⟩
  | inside, forIn info target source body domain strategy, after, live, before, definite, hstays,
      hnodup, hlive, hdefinite => by
    simp only [numbers, List.nodup_cons] at hnodup hlive hdefinite
    obtain ⟨head, table₀, hafter, -, hround, heq⟩ :=
      liveHead_spec (liveIn_subset body) (Names.without_subset target.names)
        ((readIn body).length + 1) after live (Nat.lt_succ_of_le (List.length_filter_le _ _))
    simp only [liveBefore, heq] at hlive ⊢
    rw [define_forIn] at hdefinite ⊢
    obtain ⟨hfacts, hinside⟩ := inside_of_insert hnodup.1 hlive
    obtain ⟨hfacts', hinside'⟩ := inside_of_insert hnodup.1 hdefinite
    have hbody := allJudged_of_analyses true body head table₀ (before.union target.names) definite
      hstays hnodup.2 hinside hinside'
    exact ⟨rfl, rfl, fun x hx => Names.mem_union.mpr (.inr hx), head, _, _, _, hafter,
      fun x hx => Names.mem_union.mpr (.inl hx),
      fun x hx hxt => hround (Names.mem_without.mpr ⟨hx, hxt⟩), hbody, hfacts, hfacts'⟩
  | inside, whileDo info condition body, after, live, before, definite, hstays, hnodup, hlive,
      hdefinite => by
    simp only [numbers, List.nodup_cons] at hnodup hlive hdefinite
    obtain ⟨head, table₀, hstart, -, hround, heq⟩ :=
      liveHead_spec (liveIn_subset body) Names.id_subset ((readIn body).length + 1)
        (after.union condition.uses) live (Nat.lt_succ_of_le (List.length_filter_le _ _))
    simp only [liveBefore, heq] at hlive ⊢
    rw [define_whileDo] at hdefinite ⊢
    obtain ⟨hfacts, hinside⟩ := inside_of_insert hnodup.1 hlive
    obtain ⟨hfacts', hinside'⟩ := inside_of_insert hnodup.1 hdefinite
    have hbody := allJudged_of_analyses true body head table₀ before definite hstays hnodup.2
      hinside hinside'
    exact ⟨rfl, rfl, head, _, _, _, fun x hx => hstart (Names.mem_union.mpr (.inl hx)),
      List.Subset.refl _, fun x hx => hstart (Names.mem_union.mpr (.inr hx)), hround, hbody,
      hfacts, hfacts'⟩

theorem armsJudged_of_analyses : ∀ (arms : List FlowArm) (after : Names) (live : LiveTable)
    (definite : DefiniteTable) (before : Outlook), (liveArms arms after live).1 ⊆ before.live →
    armsStay arms = true → (armNumbers arms).Nodup →
    (∀ id ∈ armNumbers arms,
      Bindings.find? liveTable id = Bindings.find? (liveArms arms after live).2.2 id) →
    (∀ id ∈ armNumbers arms, Bindings.find? definiteTable id =
      Bindings.find? (defineArms arms before.defined definite).2 id) →
    armsJudged (Found liveTable definiteTable) arms before after (liveArms arms after live).2.1
      (defineArms arms before.defined definite).1
  | [], _, _, _, _, _, _, _, _, _ => ⟨rfl, rfl⟩
  | ⟨condition, body⟩ :: rest, after, live, definite, before, hsub, hstays, hnodup, hlive,
      hdefinite => by
    simp only [armsStay, Bool.and_eq_true] at hstays
    simp only [armNumbers, List.nodup_append] at hnodup
    simp only [armNumbers, List.mem_append, liveArms, defineArms] at hlive hdefinite
    obtain ⟨hnbody, hnrest, hdisjoint⟩ := hnodup
    have hbody := allJudged_of_analyses true body after live before.defined definite hstays.1
      hnbody
      (fun id hid => (hlive id (.inl hid)).trans
        (find?_liveArms rest after _ fun hrest => hdisjoint id hid id hrest rfl))
      (fun id hid => (hdefinite id (.inl hid)).trans
        (find?_defineArms rest before.defined _ fun hrest => hdisjoint id hid id hrest rfl))
    have hrest := armsJudged_of_analyses rest after (liveIn body after live).2
      (defineAll body before.defined definite).2.2 before
      (fun x hx => hsub (by simp [liveArms, hx])) hstays.2 hnrest
      (fun id hid => hlive id (.inr hid)) (fun id hid => hdefinite id (.inr hid))
    exact ⟨fun x hx => hsub (by simp [liveArms, hx]), _, _, _, _, _, rfl, rfl,
      fun x hx => hsub (by simp [liveArms, hx]), hbody, hrest⟩

theorem lastJudged_of_analyses : ∀ (otherwise : Option (List FlowStmt)) (after : Names)
    (live : LiveTable) (definite : DefiniteTable) (before : Outlook),
    (liveLast otherwise after live).1 ⊆ before.live → lastStays otherwise = true →
    (lastNumbers otherwise).Nodup →
    (∀ id ∈ lastNumbers otherwise,
      Bindings.find? liveTable id = Bindings.find? (liveLast otherwise after live).2 id) →
    (∀ id ∈ lastNumbers otherwise, Bindings.find? definiteTable id =
      Bindings.find? (defineLast otherwise before.defined definite).2 id) →
    lastJudged (Found liveTable definiteTable) otherwise before after
      (liveLast otherwise after live).1 (defineLast otherwise before.defined definite).1
  | none, _, _, _, _, hsub, _, _, _, _ => ⟨hsub, rfl, rfl⟩
  | some body, after, live, definite, before, hsub, hstays, hnodup, hlive, hdefinite =>
    ⟨hsub, _, _, rfl, allJudged_of_analyses true body after live before.defined definite hstays
      hnodup hlive hdefinite⟩

theorem allJudged_of_analyses : ∀ (inside : Bool) (body : List FlowStmt) (after : Names)
    (live : LiveTable) (before : Names) (definite : DefiniteTable), allStay inside body = true →
    (numbersIn body).Nodup →
    (∀ id ∈ numbersIn body,
      Bindings.find? liveTable id = Bindings.find? (liveIn body after live).2 id) →
    (∀ id ∈ numbersIn body,
      Bindings.find? definiteTable id = Bindings.find? (defineAll body before definite).2.2 id) →
    allJudged (Found liveTable definiteTable) inside body ⟨before, (liveIn body after live).1⟩
      (defineAll body before definite).1 ⟨(defineAll body before definite).2.1, after⟩
  | _, [], _, _, _, _, _, _, _, _ => ⟨rfl, List.Subset.refl _, rfl⟩
  | inside, s :: rest, after, live, before, definite, hstays, hnodup, hlive, hdefinite => by
    simp only [allStay, Bool.and_eq_true] at hstays
    simp only [numbersIn, List.nodup_append] at hnodup
    simp only [numbersIn, List.mem_append, liveIn, defineAll] at hlive hdefinite
    obtain ⟨hns, hnrest, hdisjoint⟩ := hnodup
    have hs := judged_of_analyses inside s (liveIn rest after live).1 (liveIn rest after live).2
      before definite hstays.1 hns (fun id hid => hlive id (.inl hid))
      (fun id hid => (hdefinite id (.inl hid)).trans
        (find?_defineAll rest _ _ fun hrest => hdisjoint id hid id hrest rfl))
    have hrest := allJudged_of_analyses inside rest after live (s.define before definite).2.1
      (s.define before definite).2.2 hstays.2 hnrest
      (fun id hid => (hlive id (.inr hid)).trans
        (find?_liveBefore s _ _ fun hs => hdisjoint id hs id hid rfl))
      (fun id hid => hdefinite id (.inr hid))
    exact ⟨_, _, _, hs, hrest, rfl⟩

end

end Analyses

end FlowStmt

/-! ## Bounds -/

theorem Names.mem_foldl_inter {ns : Names} {more : List Names} {x : String} :
    x ∈ more.foldl Names.inter ns ↔ x ∈ ns ∧ ∀ others ∈ more, x ∈ others := by
  induction more generalizing ns with
  | nil => simp
  | cons others rest ih => simp [ih, Names.inter, and_assoc]

theorem some_eq_branchEnd {ended : Bool} {defined names : Names}
    (h : some names = branchEnd ended defined) : ended = false ∧ names = defined := by
  cases ended with
  | true => cases h
  | false => exact ⟨rfl, Option.some.inj h⟩

/-- Some branch reaches its end unless there are no common names, and these are what all such
branches have. -/
theorem commonNames?_cases (ends : List (Option Names)) :
    (commonNames? ends = none ∧ ∀ names, some names ∉ ends) ∨
      ∃ common, commonNames? ends = some common ∧ (∃ names, some names ∈ ends) ∧
        ∀ x, x ∈ common ↔ ∀ names, some names ∈ ends → x ∈ names := by
  induction ends with
  | nil => exact .inl ⟨rfl, fun _ => List.not_mem_nil⟩
  | cons first rest ih =>
    cases first with
    | none =>
      rcases ih with ⟨hnone, hends⟩ | ⟨common, hsome, ⟨names, hnames⟩, hcommon⟩
      · exact .inl ⟨hnone, fun names h => hends names (by simpa using h)⟩
      · exact .inr ⟨common, hsome, ⟨names, List.mem_cons_of_mem _ hnames⟩, by simpa using hcommon⟩
    | some names =>
      refine .inr ⟨_, rfl, ⟨names, List.mem_cons_self⟩, fun x => ?_⟩
      rw [Names.mem_foldl_inter]
      simp only [List.mem_filterMap, id_eq, exists_eq_right, List.mem_cons, Option.some.injEq,
        forall_eq_or_imp]

/-- Between two outlooks some names are assigned: what is live after them and not assigned was live
before, what was assigned on every path still is, and nothing else than the names can be new. -/
structure Outlook.Leads (before : Outlook) (names : List String) (ended : Bool) (after : Outlook) :
    Prop where
  live : ended = false → ∀ x ∈ after.live, x ∉ names → x ∈ before.live
  keeps : ∀ x ∈ before.defined, x ∈ after.defined
  adds : ∀ x ∈ after.defined, x ∈ before.defined ∨ x ∈ names

theorem Outlook.Leads.mono {before after : Outlook} {names more : List String} {ended : Bool}
    (h : before.Leads names ended after) (hsub : names ⊆ more) : before.Leads more ended after where
  live := fun hended x hx hmore => h.live hended x hx fun hnames => hmore (hsub hnames)
  keeps := h.keeps
  adds := fun x hx => (h.adds x hx).imp_right (@hsub x)

theorem Action.leads {action : Action} {before after : Outlook}
    (hlive : action.liveBefore after.live ⊆ before.live)
    (hdefined : after.defined = before.defined.union action.assigned) :
    before.Leads action.assigned action.terminates after where
  live := by
    intro hended x hx hnames
    refine hlive ?_
    cases action with
    | assign target value => exact Names.mem_union.mpr (.inl (Names.mem_without.mpr ⟨hx, hnames⟩))
    | update name op value => exact Names.mem_union.mpr (.inl (Names.mem_add.mpr (.inl hx)))
    | eval expr => exact Names.mem_union.mpr (.inl hx)
    | ret value => cases hended
    | raise message => cases hended
    | pass => exact hx
  keeps := by
    intro x hx
    rw [hdefined]
    exact Names.mem_union.mpr (.inl hx)
  adds := by
    intro x hx
    rw [hdefined] at hx
    exact Names.mem_union.mp hx

namespace FlowStmt

variable {tells : Bool → BlockInfo → List String → LiveFacts → DefiniteFacts → Prop}

theorem leads_of_branches {arms : List FlowArm} {otherwise : Option (List FlowStmt)}
    {before : Outlook} {after : Names} {ends : List (Option Names)} {lastEnd : Option Names}
    (harms : ∀ names, some names ∈ ends → before.Leads (armsAssigned arms) false ⟨names, after⟩)
    (hlast : ∀ names, lastEnd = some names →
      before.Leads (lastAssigned otherwise) false ⟨names, after⟩) {names : Names}
    (h : some names ∈ ends ++ [lastEnd]) :
    before.Leads (armsAssigned arms ++ lastAssigned otherwise) false ⟨names, after⟩ := by
  rcases List.mem_append.mp h with harm | hother
  · exact (harms names harm).mono (List.subset_append_left _ _)
  · exact (hlast names (List.mem_singleton.mp hother).symm).mono (List.subset_append_right _ _)

mutual

theorem Judged.leads : ∀ {inside : Bool} {s : FlowStmt} {before after : Outlook} {ended : Bool},
    s.Judged tells inside before ended after → before.Leads s.assigned ended after
  | _, act action _, _, _, _, ⟨_, hlive, hended, hdefined⟩ => by
    subst hended
    exact Action.leads hlive hdefined
  | _, cond info arms otherwise, before, after, ended, h => by
    obtain ⟨entries, ends, entry, lastEnd, harms, hlast, -, hended, hdefined⟩ := h
    have hbranch : ∀ names, some names ∈ ends ++ [lastEnd] →
        before.Leads (armsAssigned arms ++ lastAssigned otherwise) false ⟨names, after.live⟩ :=
      fun names => leads_of_branches (armsJudged_leads harms)
        fun names hnames => lastJudged_leads (hnames ▸ hlast)
    rw [assigned_cond]
    rcases commonNames?_cases (ends ++ [lastEnd]) with
      ⟨hnone, -⟩ | ⟨common, hsome, ⟨names, hnames⟩, hcommon⟩
    · rw [hnone, Option.getD_none] at hdefined
      rw [hnone] at hended
      subst hended
      exact ⟨Bool.noConfusion, fun x hx => hdefined ▸ hx, fun x hx => .inl (hdefined ▸ hx)⟩
    · rw [hsome, Option.getD_some] at hdefined
      rw [hsome] at hended
      subst hended
      refine ⟨fun _ => (hbranch names hnames).live rfl, fun x hx => ?_, fun x hx => ?_⟩
      · rw [hdefined]
        exact (hcommon x).mpr fun others hothers => (hbranch others hothers).keeps x hx
      · rw [hdefined] at hx
        exact (hbranch names hnames).adds x ((hcommon x).mp hx names hnames)
  | _, forIn _ _ _ _ _ _, before, after, ended, h => by
    obtain ⟨rfl, hdefined, -, head, entry, bodyEnded, defined, hafter, hhead, -⟩ := h
    exact ⟨fun _ x hx _ => hhead (hafter hx), fun x hx => hdefined ▸ hx,
      fun x hx => .inl (hdefined ▸ hx)⟩
  | _, whileDo _ _ _, before, after, ended, h => by
    obtain ⟨rfl, hdefined, head, entry, bodyEnded, defined, hafter, hhead, -⟩ := h
    exact ⟨fun _ x hx _ => hhead (hafter hx), fun x hx => hdefined ▸ hx,
      fun x hx => .inl (hdefined ▸ hx)⟩

theorem armsJudged_leads : ∀ {arms : List FlowArm} {before : Outlook} {after : Names}
    {entries : List Names} {ends : List (Option Names)},
    armsJudged tells arms before after entries ends →
      ∀ names, some names ∈ ends → before.Leads (armsAssigned arms) false ⟨names, after⟩
  | [], _, _, _, _, ⟨_, hends⟩, names, hnames => by
    subst hends
    cases hnames
  | ⟨_, body⟩ :: rest, before, after, _, _, h, names, hnames => by
    obtain ⟨-, entry, ended, defined, moreEntries, moreEnds, rfl, rfl, hentry, hbody, hrest⟩ := h
    rcases List.mem_cons.mp hnames with hfirst | hmore
    · obtain ⟨rfl, rfl⟩ := some_eq_branchEnd hfirst
      have hleads := (allJudged_leads hbody).mono (List.subset_append_left _ (armsAssigned rest))
      exact ⟨fun hended x hx hx' => hentry (hleads.live hended x hx hx'), hleads.keeps, hleads.adds⟩
    · exact (armsJudged_leads hrest names hmore).mono (List.subset_append_right _ _)

theorem lastJudged_leads : ∀ {otherwise : Option (List FlowStmt)} {before : Outlook}
    {after entry names : Names}, lastJudged tells otherwise before after entry (some names) →
      before.Leads (lastAssigned otherwise) false ⟨names, after⟩
  | none, before, after, entry, names, ⟨hsub, _, hnames⟩ => by
    cases hnames
    exact ⟨fun _ x hx _ => hsub hx, fun x hx => hx, fun x hx => .inl hx⟩
  | some body, before, after, entry, names, ⟨hentry, ended, defined, hnames, hbody⟩ => by
    obtain ⟨rfl, rfl⟩ := some_eq_branchEnd hnames
    have hleads := allJudged_leads hbody
    exact ⟨fun hended x hx hx' => hentry (hleads.live hended x hx hx'), hleads.keeps, hleads.adds⟩

theorem allJudged_leads : ∀ {inside : Bool} {body : List FlowStmt} {before after : Outlook}
    {ended : Bool}, allJudged tells inside body before ended after →
      before.Leads (assignedIn body) ended after
  | _, [], _, _, _, ⟨_, hlive, hdefined⟩ =>
    ⟨fun _ x hx _ => hlive hx, fun x hx => hdefined ▸ hx, fun x hx => .inl (hdefined ▸ hx)⟩
  | _, s :: rest, before, after, ended, ⟨mid, first, second, hs, hrest, hended⟩ => by
    have hfirst := hs.leads
    have hsecond := allJudged_leads hrest
    refine ⟨fun hnot x hx hnames => ?_, fun x hx => hsecond.keeps x (hfirst.keeps x hx),
      fun x hx => ?_⟩
    · rw [hended, Bool.or_eq_false_iff] at hnot
      simp only [assignedIn, List.mem_append, not_or] at hnames
      exact hfirst.live hnot.1 x (hsecond.live hnot.2 x hx hnames.2) hnames.1
    · simp only [assignedIn, List.mem_append]
      rcases hsecond.adds x hx with hmid | hnames
      · exact (hfirst.adds x hmid).imp_right .inl
      · exact .inr (.inr hnames)

end

/-! ## Facts that are filled in -/

section

variable {f : BlockInfo → BlockInfo}
  {tells' : Bool → BlockInfo → List String → LiveFacts → DefiniteFacts → Prop}

/-- On the block `b`, what is told of it is told of it after `f` as well. -/
def TellsOver (f : BlockInfo → BlockInfo)
    (tells tells' : Bool → BlockInfo → List String → LiveFacts → DefiniteFacts → Prop)
    (b : FlowStmt) : Prop :=
  ∀ info, b.info? = some info → ∀ live definite, tells b.isLoop info b.assigned live definite →
    tells' b.isLoop (f info) b.assigned live definite

mutual

theorem Judged.mapInfo : ∀ {inside : Bool} {s : FlowStmt} {before after : Outlook} {ended : Bool},
    (∀ b ∈ s.blocks, TellsOver f tells tells' b) → s.Judged tells inside before ended after →
      (s.mapInfo f).Judged tells' inside before ended after
  | _, act _ _, _, _, _, _, h => h
  | _, cond info arms none, before, after, ended, hover, h => by
    obtain ⟨entries, ends, entry, lastEnd, harms, hlast, htells, hended, hdefined⟩ := h
    simp only [blocks, List.append_nil, List.forall_mem_cons] at hover
    have hassigned := assigned_mapInfo f (cond info arms none)
    refine ⟨entries, ends, entry, lastEnd, armsJudged_mapInfoArms hover.2 harms, hlast, ?_, hended,
      hdefined⟩
    exact hassigned.symm ▸ hover.1 info rfl _ _ htells
  | _, cond info arms (some body), before, after, ended, hover, h => by
    obtain ⟨entries, ends, entry, lastEnd, harms, ⟨hentry, bodyEnded, defined, hend, hbody⟩, htells,
      hended, hdefined⟩ := h
    simp only [blocks, List.forall_mem_cons, List.forall_mem_append] at hover
    have hassigned := assigned_mapInfo f (cond info arms (some body))
    refine ⟨entries, ends, entry, lastEnd, armsJudged_mapInfoArms hover.2.1 harms,
      ⟨hentry, bodyEnded, defined, hend, allJudged_mapInfoAll hover.2.2 hbody⟩, ?_, hended,
      hdefined⟩
    exact hassigned.symm ▸ hover.1 info rfl _ _ htells
  | _, forIn info target source body domain strategy, before, after, ended, hover, h => by
    obtain ⟨hended, hdefined, hsource, head, entry, bodyEnded, defined, hafter, hhead, hentry,
      hbody, htells⟩ := h
    simp only [blocks, List.forall_mem_cons] at hover
    have hassigned := assigned_mapInfo f (forIn info target source body domain strategy)
    refine ⟨hended, hdefined, hsource, head, entry, bodyEnded, defined, hafter, hhead, hentry,
      allJudged_mapInfoAll hover.2 hbody, ?_⟩
    exact hassigned.symm ▸ hover.1 info rfl _ _ htells
  | _, whileDo info condition body, before, after, ended, hover, h => by
    obtain ⟨hended, hdefined, head, entry, bodyEnded, defined, hafter, hhead, huses, hentry, hbody,
      htells⟩ := h
    simp only [blocks, List.forall_mem_cons] at hover
    have hassigned := assigned_mapInfo f (whileDo info condition body)
    refine ⟨hended, hdefined, head, entry, bodyEnded, defined, hafter, hhead, huses, hentry,
      allJudged_mapInfoAll hover.2 hbody, ?_⟩
    exact hassigned.symm ▸ hover.1 info rfl _ _ htells

theorem armsJudged_mapInfoArms : ∀ {arms : List FlowArm} {before : Outlook} {after : Names}
    {entries : List Names} {ends : List (Option Names)},
    (∀ b ∈ armBlocks arms, TellsOver f tells tells' b) →
      armsJudged tells arms before after entries ends →
        armsJudged tells' (mapInfoArms f arms) before after entries ends
  | [], _, _, _, _, _, h => h
  | ⟨_, _⟩ :: _, _, _, _, _, hover, h => by
    obtain ⟨huses, entry, ended, defined, moreEntries, moreEnds, hentries, hends, hentry, hbody,
      hrest⟩ := h
    simp only [armBlocks, List.forall_mem_append] at hover
    exact ⟨huses, entry, ended, defined, moreEntries, moreEnds, hentries, hends, hentry,
      allJudged_mapInfoAll hover.1 hbody, armsJudged_mapInfoArms hover.2 hrest⟩

theorem allJudged_mapInfoAll : ∀ {inside : Bool} {body : List FlowStmt} {before after : Outlook}
    {ended : Bool}, (∀ b ∈ blocksOf body, TellsOver f tells tells' b) →
      allJudged tells inside body before ended after →
        allJudged tells' inside (mapInfoAll f body) before ended after
  | _, [], _, _, _, _, h => h
  | _, _ :: _, _, _, _, hover, ⟨mid, first, second, hs, hrest, hended⟩ => by
    simp only [blocksOf, List.forall_mem_append] at hover
    exact ⟨mid, first, second, hs.mapInfo hover.1, allJudged_mapInfoAll hover.2 hrest, hended⟩

end

end

end FlowStmt

/-- A block has the variables that the facts around it call for: those that it assigns and that are
carried leave it, the ones that enter it are there, and none of them can be without a value. -/
structure BlockInfo.Reflects (isLoop : Bool) (info : BlockInfo) (assigned : List String)
    (live : LiveFacts) (definite : DefiniteFacts) : Prop where
  outputs : ∀ x, x ∈ info.outputs ↔ x ∈ assigned ∧ BlockFacts.isCarried isLoop live x = true
  inputs : ∀ x ∈ info.inputs, x ∈ info.outputs ∧
    (isLoop = true ∨ x ∈ definite.before ∧ BlockFacts.liveAtEntry live x = true)
  valid : ∀ x ∈ info.outputs, BlockFacts.invalidReason? isLoop live definite x = none

theorem BlockFacts.isCarried_loop {after entry : Names} {x : String} :
    isCarried true ⟨after, [entry]⟩ x = true ↔ x ∈ after ∨ x ∈ entry := by
  simp [isCarried, liveAtEntry]

/-- A name that a loop carries has a value only if it was assigned before the loop. -/
theorem BlockFacts.mem_before_of_valid {live : LiveFacts} {definite : DefiniteFacts} {x : String}
    (h : invalidReason? true live definite x = none) : x ∈ definite.before := by
  by_cases hbefore : x ∈ definite.before
  · exact hbefore
  · rw [invalidReason?, if_neg hbefore, if_pos rfl] at h
    split at h
    · cases h
    · cases h

namespace BlockInfo.Reflects

variable {info : BlockInfo} {assigned : List String} {live : LiveFacts} {definite : DefiniteFacts}
  {x : String}

/-- What a loop carries was assigned before it. -/
theorem before_of_loop (h : info.Reflects true assigned live definite) (hx : x ∈ info.outputs) :
    x ∈ definite.before :=
  BlockFacts.mem_before_of_valid (h.valid x hx)

/-- What a conditional carries has been assigned at the end of each branch that comes to it. -/
theorem ends_of_cond (h : info.Reflects false assigned live definite) (hx : x ∈ info.outputs) :
    x ∈ definite.before ∨ ∀ names, some names ∈ definite.ends → x ∈ names := by
  by_cases hbefore : x ∈ definite.before
  · exact .inl hbefore
  · have hvalid := h.valid x hx
    rw [BlockFacts.invalidReason?, if_neg hbefore, if_neg Bool.false_ne_true] at hvalid
    split at hvalid
    · next hall =>
      refine .inr fun names hnames => ?_
      exact of_decide_eq_true (List.all_eq_true.mp hall names
        (List.mem_filterMap.mpr ⟨some names, hnames, rfl⟩))
    · cases hvalid

theorem outline_iff (isLoop : Bool) :
    info.outline.Reflects isLoop assigned live definite ↔
      info.Reflects isLoop assigned live definite := by
  constructor
  · intro h
    exact ⟨by simpa using h.outputs, by simpa using h.inputs, by simpa using h.valid⟩
  · intro h
    exact ⟨by simpa using h.outputs, by simpa using h.inputs, by simpa using h.valid⟩

end BlockInfo.Reflects

namespace FlowStmt

mutual

theorem judged_outline : ∀ (inside : Bool) (s : FlowStmt) (before : Outlook) (ended : Bool)
    (after : Outlook), s.outline.Judged BlockInfo.Reflects inside before ended after ↔
      s.Judged BlockInfo.Reflects inside before ended after
  | _, act _ _, _, _, _ => Iff.rfl
  | _, cond info arms otherwise, before, ended, after => by
    have hassigned := assigned_outline (cond info arms otherwise)
    rw [outline] at hassigned
    simp only [outline, Judged, hassigned, armsJudged_outline arms, lastJudged_outline otherwise,
      BlockInfo.Reflects.outline_iff]
  | _, forIn info target source body domain strategy, before, ended, after => by
    have hassigned := assigned_outline (forIn info target source body domain strategy)
    rw [outline] at hassigned
    simp only [outline, Judged, hassigned, allJudged_outline true body,
      BlockInfo.Reflects.outline_iff]
  | _, whileDo info condition body, before, ended, after => by
    have hassigned := assigned_outline (whileDo info condition body)
    rw [outline] at hassigned
    simp only [outline, Judged, hassigned, allJudged_outline true body,
      BlockInfo.Reflects.outline_iff]

theorem armsJudged_outline : ∀ (arms : List FlowArm) (before : Outlook) (after : Names)
    (entries : List Names) (ends : List (Option Names)),
    armsJudged BlockInfo.Reflects (outlineArms arms) before after entries ends ↔
      armsJudged BlockInfo.Reflects arms before after entries ends
  | [], _, _, _, _ => Iff.rfl
  | ⟨_, body⟩ :: rest, before, after, entries, ends => by
    simp only [outlineArms, armsJudged, allJudged_outline true body, armsJudged_outline rest]

theorem lastJudged_outline : ∀ (last : Option (List FlowStmt)) (before : Outlook) (after : Names)
    (entry : Names) (lastEnd : Option Names),
    lastJudged BlockInfo.Reflects (outlineLast last) before after entry lastEnd ↔
      lastJudged BlockInfo.Reflects last before after entry lastEnd
  | none, _, _, _, _ => Iff.rfl
  | some body, before, after, entry, lastEnd => by
    simp only [outlineLast, lastJudged, allJudged_outline true body]

theorem allJudged_outline : ∀ (inside : Bool) (body : List FlowStmt) (before : Outlook)
    (ended : Bool) (after : Outlook),
    allJudged BlockInfo.Reflects inside (outlineAll body) before ended after ↔
      allJudged BlockInfo.Reflects inside body before ended after
  | _, [], _, _, _ => Iff.rfl
  | inside, s :: rest, before, ended, after => by
    simp only [outlineAll, allJudged, judged_outline inside s, allJudged_outline inside rest]

end

end FlowStmt

/-! ## Functions -/

namespace Analysis

open FlowStmt

/-- Where no error is reported, each carried name without a value was reported before. -/
theorem mem_of_collectErrors : ∀ {found : List (BlockInfo × BlockFacts)} {reported : Names},
    collectErrors found reported = [] → ∀ p ∈ found, ∀ e ∈ p.2.invalid, e.1 ∈ reported
  | [], _, _, p, hp, _, _ => by cases hp
  | (info, facts) :: rest, reported, h, p, hp, e, he => by
    obtain ⟨hnew, hrest⟩ := List.append_eq_nil_iff.mp h
    have hfirst : ∀ e ∈ facts.invalid, e.1 ∈ reported := by
      intro e he
      have hkept := List.filter_eq_nil_iff.mp (List.map_eq_nil_iff.mp hnew) e he
      simpa using hkept
    rcases List.mem_cons.mp hp with rfl | hp
    · exact hfirst e he
    · rcases Names.mem_union.mp (mem_of_collectErrors hrest p hp e he) with hreported | hnow
      · exact hreported
      · obtain ⟨e', he', heq⟩ := List.mem_map.mp hnow
        exact heq ▸ hfirst e' he'

/-- Where no error is reported, no carried name of a block is without a value. -/
theorem valid_of_errors {params : List String} {body : List FlowStmt}
    (herrors : (Analysis.of params body).errors = []) {b : FlowStmt} (hb : b ∈ blocksOf body)
    {info : BlockInfo} (hinfo : b.info? = some info) {live : LiveFacts} {definite : DefiniteFacts}
    (hlive : (Bindings.find? (liveIn body [] []).2 info.id).getD ⟨[], []⟩ = live)
    (hdefinite : (Bindings.find? (defineAll body (Names.ofList params) []).2.2 info.id).getD
      ⟨[], []⟩ = definite) {x : String} (hx : x ∈ b.modified)
    (hcarried : BlockFacts.isCarried b.isLoop live x = true) :
    BlockFacts.invalidReason? b.isLoop live definite x = none := by
  -- a reason would be an error of the block, and there is none
  refine Option.eq_none_iff_forall_ne_some.mpr fun reason hreason => ?_
  have hfacts : (info, BlockFacts.of b live definite) ∈ (blocksOf body).filterMap
      (factsOn (liveIn body [] []).2 (defineAll body (Names.ofList params) []).2.2) := by
    refine List.mem_filterMap.mpr ⟨b, hb, ?_⟩
    rw [factsOn, hinfo, Option.map_some, hlive, hdefinite]
  have hinvalid : (x, reason) ∈ (BlockFacts.of b live definite).invalid := by
    refine List.mem_filterMap.mpr ⟨x, List.mem_filter.mpr ⟨hx, hcarried⟩, ?_⟩
    rw [hreason]
    rfl
  cases mem_of_collectErrors herrors _ hfacts _ hinvalid

theorem tellsOver_annotateInfo {params : List String} {body : List FlowStmt}
    (hnodup : (numbersIn body).Nodup) (herrors : (Analysis.of params body).errors = [])
    {b : FlowStmt} (hb : b ∈ blocksOf body) :
    TellsOver (Analysis.of params body).annotateInfo
      (Found (liveIn body [] []).2 (defineAll body (Names.ofList params) []).2.2)
      BlockInfo.Reflects b := by
  intro info hinfo live definite ⟨hlive, hdefinite⟩
  have hfind := find?_facts params hnodup hb hinfo
  rw [hlive, hdefinite, Option.getD_some, Option.getD_some] at hfind
  have hcarried : ((Analysis.of params body).annotateInfo info).carried =
      (b.modified.filter (BlockFacts.isCarried b.isLoop live)).map
        (BlockFacts.carriedVar b.isLoop live definite) := by
    rw [annotateInfo, hfind]
    rfl
  have houtputs : ∀ x, x ∈ ((Analysis.of params body).annotateInfo info).outputs ↔
      x ∈ b.assigned ∧ BlockFacts.isCarried b.isLoop live x = true := by
    intro x
    rw [BlockInfo.outputs, hcarried]
    simp [BlockFacts.carriedVar, modified, Names.mem_ofList]
  refine ⟨houtputs, fun x hx => ?_, fun x hx => ?_⟩
  · obtain ⟨v, hv, rfl⟩ := List.mem_map.mp hx
    obtain ⟨hv, hobserved⟩ := List.mem_filter.mp hv
    refine ⟨List.mem_map_of_mem hv, ?_⟩
    rw [hcarried] at hv
    obtain ⟨name, -, rfl⟩ := List.mem_map.mp hv
    simpa [BlockFacts.carriedVar] using hobserved
  · obtain ⟨hassigned, hisCarried⟩ := (houtputs x).mp hx
    exact valid_of_errors herrors hb hinfo (by rw [hlive, Option.getD_some])
      (by rw [hdefinite, Option.getD_some]) (Names.mem_ofList.mpr hassigned) hisCarried

end Analysis

theorem FunctionDef.convert_errors {f : FunctionDef} {options : Options} {f' : FlowFunction}
    (h : (f.convert options).result = .ok f') :
    (Analysis.of (f.params.map Param.name) f.lowered.1).errors = [] := by
  rw [convert_of_lower (lower_of_convert h)] at h
  obtain ⟨hempty, -⟩ := of_ite_eq_ok h
  simp only [List.isEmpty_iff, List.append_eq_nil_iff] at hempty
  exact hempty.1.2

/-- The body of a converted function is judged from its parameters to its end, where nothing is
live, and its blocks have the variables that the facts around them call for. -/
theorem FunctionDef.convert_judged {f : FunctionDef} {options : Options} {f' : FlowFunction}
    (h : (f.convert options).result = .ok f') :
    ∃ live ended defined, FlowStmt.allJudged BlockInfo.Reflects false f'.body
      ⟨Names.ofList (f'.params.map Param.name), live⟩ ended ⟨defined, []⟩ := by
  obtain ⟨hmisplaced, hparams, houtline⟩ := convert_eq_ok h
  have hnodup : (FlowStmt.numbersIn f.lowered.1).Nodup := nodup_numbersIn_lowerAll _ _ _
  have hstay : FlowStmt.allStay false f.lowered.1 = true := allStay_lowerAll hmisplaced
  have hfound := FlowStmt.allJudged_of_analyses false f.lowered.1 [] []
    (Names.ofList (f.params.map Param.name)) [] hstay hnodup (fun _ _ => rfl) (fun _ _ => rfl)
  have hjudged := FlowStmt.allJudged_mapInfoAll
    (fun b hb => Analysis.tellsOver_annotateInfo hnodup (convert_errors h) hb) hfound
  -- what comes after the annotation changes types and strategies, which an outline leaves out
  rw [← Analysis.annotate, ← FlowStmt.allJudged_outline, ← houtline, FlowStmt.allJudged_outline,
    ← hparams] at hjudged
  exact ⟨_, _, _, hjudged⟩

end StagedFlow
