import StagedFlow.Flow.Carried
import StagedFlow.Proofs.Lookup

/-!
Live names thread through statements: what is live before a statement covers what it reads and what
is live after it and not assigned, and a block hands on each name that it assigns and that is live
where the block or an iteration ends. Main definitions: `FlowStmt.Threads`, `LiveTable.Carries`.
Main results: `liveHead_spec`, `FlowStmt.liveIn_subset`, `FlowStmt.threads_liveIn`.
-/
set_option autoImplicit false

namespace StagedFlow

/-! ## Sets of names -/

theorem Names.subset_iff {ns others : Names} : ns.subset others = true ↔ ns ⊆ others := by
  simp only [Names.subset, List.all_eq_true, decide_eq_true_eq]
  rfl

theorem Names.mem_ofList {names : List String} {x : String} :
    x ∈ Names.ofList names ↔ x ∈ names := by
  simp [Names.ofList]

theorem Names.without_subset (gone : List String) (ns : Names) : ns.without gone ⊆ ns :=
  fun _ hx => (Names.mem_without.mp hx).1

theorem Names.id_subset (ns : Names) : id ns ⊆ ns :=
  List.Subset.refl ns

/-! ## Threads -/

namespace FlowStmt

section

variable (hands : Bool → BlockInfo → String → Prop)

mutual

/-- The names `before` suffice for a statement after which the names `after` are read. A block
`hands` on a name if the relation says so of the block, which is a loop or not. -/
def Threads : FlowStmt → List String → List String → Prop
  | act action _, before, after => action.liveBefore after ⊆ before
  | cond info arms otherwise, before, after =>
    armsThread arms before after ∧ lastThreads otherwise before after ∧
      ∀ x ∈ assigned (cond info arms otherwise), x ∈ after → hands false info x
  | forIn info target source body domain strategy, before, after =>
    source.uses ⊆ before ∧
      ∃ head entry, after ⊆ head ∧ head ⊆ before ∧ allThread body entry head ∧
        (∀ x ∈ entry, x ∉ target.names → x ∈ head) ∧
        ∀ x ∈ assigned (forIn info target source body domain strategy), x ∈ head →
          hands true info x
  | whileDo info condition body, before, after =>
    ∃ head entry, after ⊆ head ∧ head ⊆ before ∧ allThread body entry head ∧ entry ⊆ head ∧
      condition.uses ⊆ head ∧
      ∀ x ∈ assigned (whileDo info condition body), x ∈ head → hands true info x

def armsThread : List FlowArm → List String → List String → Prop
  | [], _, _ => True
  | ⟨condition, body⟩ :: rest, before, after =>
    condition.uses ⊆ before ∧ allThread body before after ∧ armsThread rest before after

/-- The last branch of a conditional, which is empty if it is missing. -/
def lastThreads : Option (List FlowStmt) → List String → List String → Prop
  | none, before, after => after ⊆ before
  | some body, before, after => allThread body before after

def allThread : List FlowStmt → List String → List String → Prop
  | [], before, after => after ⊆ before
  | s :: rest, before, after => ∃ mid, s.Threads before mid ∧ allThread rest mid after

end

end

end FlowStmt

theorem Action.liveBefore_mono (action : Action) {after after' : Names} (h : after' ⊆ after) :
    action.liveBefore after' ⊆ action.liveBefore after := by
  intro x hx
  cases action with
  | assign target value =>
    simp only [liveBefore, Names.mem_union, Names.mem_without] at hx ⊢
    exact hx.imp_left fun hx => ⟨h hx.1, hx.2⟩
  | update name op value =>
    simp only [liveBefore, Names.mem_union, Names.mem_add] at hx ⊢
    exact hx.imp_left fun hx => hx.imp_left fun hx => h hx
  | eval e =>
    simp only [liveBefore, Names.mem_union] at hx ⊢
    exact hx.imp_left fun hx => h hx
  | ret value => cases value <;> exact hx
  | raise message => exact hx
  | pass => exact h hx

theorem Action.liveBefore_subset (action : Action) (after : Names) :
    action.liveBefore after ⊆ action.reads ++ after := by
  intro x hx
  rw [List.mem_append]
  cases action with
  | assign target value =>
    simp only [liveBefore, Names.mem_union, Names.mem_without] at hx
    exact hx.symm.imp_right fun hx => hx.1
  | update name op value =>
    simp only [liveBefore, Names.mem_union, Names.mem_add] at hx
    rcases hx with (hx | rfl) | hx
    · exact .inr hx
    · exact .inl List.mem_cons_self
    · exact .inl (List.mem_cons_of_mem _ hx)
  | eval e =>
    simp only [liveBefore, Names.mem_union] at hx
    exact hx.symm
  | ret value =>
    cases value with
    | none => cases hx
    | some value =>
      exact .inl (Names.mem_ofList.mp hx)
  | raise message => cases hx
  | pass => exact .inr hx

namespace FlowStmt

section

variable {hands : Bool → BlockInfo → String → Prop}

mutual

/-- More may be live before and less after. -/
theorem Threads.mono : ∀ {s : FlowStmt} {before before' after after' : List String},
    before ⊆ before' → after' ⊆ after → s.Threads hands before after →
      s.Threads hands before' after'
  | act action _, _, _, _, _, hb, ha, h => fun _ hx => hb (h (action.liveBefore_mono ha hx))
  | cond info arms otherwise, _, _, _, _, hb, ha, h => by
    obtain ⟨harms, hlast, hhands⟩ := h
    exact ⟨armsThread_mono hb ha harms, lastThreads_mono hb ha hlast,
      fun x hx hxa => hhands x hx (ha hxa)⟩
  | forIn info target source body domain strategy, _, _, _, _, hb, ha, h => by
    obtain ⟨hsource, head, entry, hafter, hbefore, hbody⟩ := h
    exact ⟨fun _ hx => hb (hsource hx), head, entry, fun _ hx => hafter (ha hx),
      fun _ hx => hb (hbefore hx), hbody⟩
  | whileDo info condition body, _, _, _, _, hb, ha, h => by
    obtain ⟨head, entry, hafter, hbefore, hbody⟩ := h
    exact ⟨head, entry, fun _ hx => hafter (ha hx), fun _ hx => hb (hbefore hx), hbody⟩

theorem armsThread_mono : ∀ {arms : List FlowArm} {before before' after after' : List String},
    before ⊆ before' → after' ⊆ after → armsThread hands arms before after →
      armsThread hands arms before' after'
  | [], _, _, _, _, _, _, _ => trivial
  | ⟨_, _⟩ :: _, _, _, _, _, hb, ha, h =>
    ⟨fun _ hx => hb (h.1 hx), allThread_mono hb ha h.2.1, armsThread_mono hb ha h.2.2⟩

theorem lastThreads_mono : ∀ {last : Option (List FlowStmt)}
    {before before' after after' : List String}, before ⊆ before' → after' ⊆ after →
      lastThreads hands last before after → lastThreads hands last before' after'
  | none, _, _, _, _, hb, ha, h => fun _ hx => hb (h (ha hx))
  | some _, _, _, _, _, hb, ha, h => allThread_mono hb ha h

theorem allThread_mono : ∀ {body : List FlowStmt} {before before' after after' : List String},
    before ⊆ before' → after' ⊆ after → allThread hands body before after →
      allThread hands body before' after'
  | [], _, _, _, _, hb, ha, h => fun _ hx => hb (h (ha hx))
  | _ :: _, _, _, _, _, hb, ha, ⟨mid, hs, hrest⟩ =>
    ⟨mid, hs.mono hb (List.Subset.refl mid), allThread_mono (List.Subset.refl mid) ha hrest⟩

end

end

end FlowStmt

/-! ## Going round a loop -/

/-- A round that does not end adds a name that is read, so fewer are left to add. -/
theorem length_filter_union_lt {reads : List String} {head entry : Names}
    (hsub : entry ⊆ reads ++ head) (h : ¬ entry ⊆ head) :
    (reads.filter (· ∉ head.union entry)).length < (reads.filter (· ∉ head)).length := by
  have hfilter : reads.filter (· ∉ head.union entry) =
      (reads.filter (· ∉ head)).filter (· ∉ entry) := by
    rw [List.filter_filter]
    refine List.filter_congr fun x _ => ?_
    simp [Bool.and_comm]
  have hall : ¬ ∀ x, x ∈ entry → x ∈ head := fun hall => h fun x hx => hall x hx
  obtain ⟨x, hxs⟩ := Classical.not_forall.mp hall
  obtain ⟨hx, hxh⟩ := Classical.not_imp.mp hxs
  have hxr : x ∈ reads := (List.mem_append.mp (hsub hx)).resolve_right hxh
  rw [hfilter, List.length_filter_lt_length_iff_exists]
  exact ⟨x, by simp [hxr, hxh], by simp [hx]⟩

theorem liveHead_succ (body : Names → LiveTable → Names × LiveTable) (kept : Names → Names)
    (rounds : Nat) (head : Names) (table : LiveTable) :
    liveHead body kept (rounds + 1) head table =
      if (kept (body head table).1).subset head then
        (head, kept (body head table).1, (body head table).2)
      else liveHead body kept rounds (head.union (kept (body head table).1)) (body head table).2 :=
  rfl

/-- With a round for each name that the body may read and one more, the rounds come to an end: the
last one goes round the body from a head that has all that it keeps. -/
theorem liveHead_spec {body : Names → LiveTable → Names × LiveTable} {kept : Names → Names}
    {reads : List String} (hreads : ∀ after table, (body after table).1 ⊆ reads ++ after)
    (hkept : ∀ ns, kept ns ⊆ ns) (rounds : Nat) (head : Names) (table : LiveTable)
    (hrounds : (reads.filter (· ∉ head)).length < rounds) :
    ∃ last table₀, head ⊆ last ∧ last ⊆ reads ++ head ∧ kept (body last table₀).1 ⊆ last ∧
      liveHead body kept rounds head table =
        (last, kept (body last table₀).1, (body last table₀).2) := by
  induction rounds generalizing head table with
  | zero => exact absurd hrounds (Nat.not_lt_zero _)
  | succ rounds ih =>
    have hentry : kept (body head table).1 ⊆ reads ++ head :=
      fun _ hx => hreads head table (hkept _ hx)
    by_cases hsub : kept (body head table).1 ⊆ head
    · refine ⟨head, table, List.Subset.refl head, List.subset_append_right reads head, hsub, ?_⟩
      rw [liveHead_succ, if_pos (Names.subset_iff.mpr hsub)]
    · have hless := length_filter_union_lt hentry hsub
      obtain ⟨last, table₀, hhead, hlast, hkeeps, heq⟩ :=
        ih (head.union (kept (body head table).1)) (body head table).2 (by omega)
      refine ⟨last, table₀, fun x hx => hhead (Names.mem_union.mpr (.inl hx)), ?_, hkeeps, ?_⟩
      · intro x hx
        rcases List.mem_append.mp (hlast hx) with hx | hx
        · exact List.mem_append_left _ hx
        · exact (Names.mem_union.mp hx).elim (List.mem_append_right _) (@hentry x)
      · rw [liveHead_succ, if_neg fun h => hsub (Names.subset_iff.mp h), heq]

/-- The rounds write only what their body writes. -/
theorem find?_liveHead {body : Names → LiveTable → Names × LiveTable} {id : Nat}
    (h : ∀ after table, Bindings.find? (body after table).2 id = Bindings.find? table id)
    (kept : Names → Names) (rounds : Nat) (head : Names) (table : LiveTable) :
    Bindings.find? (liveHead body kept rounds head table).2.2 id = Bindings.find? table id := by
  induction rounds generalizing head table with
  | zero => rfl
  | succ rounds ih =>
    rw [liveHead_succ]
    by_cases hsub : (kept (body head table).1).subset head
    · rw [if_pos hsub]
      exact h head table
    · rw [if_neg hsub, ih]
      exact h head table

namespace FlowStmt

mutual

theorem liveBefore_subset : ∀ (s : FlowStmt) (after : Names) (table : LiveTable),
    (s.liveBefore after table).1 ⊆ s.reads ++ after
  | act action _, after, _ => action.liveBefore_subset after
  | cond _ arms none, after, table => by
    intro x hx
    simp only [liveBefore, Names.mem_union] at hx
    simp only [reads, List.append_nil]
    rcases hx with hx | hx
    · exact liveArms_subset arms after table hx
    · exact List.mem_append_right _ hx
  | cond _ arms (some body), after, table => by
    intro x hx
    simp only [liveBefore, Names.mem_union] at hx
    simp only [reads, List.mem_append]
    rcases hx with hx | hx
    · rcases List.mem_append.mp (liveArms_subset arms after table hx) with hx | hx
      · exact .inl (.inl hx)
      · exact .inr hx
    · rcases List.mem_append.mp (liveIn_subset body after _ hx) with hx | hx
      · exact .inl (.inr hx)
      · exact .inr hx
  | forIn _ target source body _ _, after, table => by
    obtain ⟨last, table₀, -, hlast, -, heq⟩ :=
      liveHead_spec (liveIn_subset body) (Names.without_subset target.names)
        ((readIn body).length + 1) after table (Nat.lt_succ_of_le (List.length_filter_le _ _))
    intro x hx
    simp only [liveBefore, heq, Names.mem_union] at hx
    simp only [reads, List.mem_append]
    rcases hx with hx | hx
    · rcases List.mem_append.mp (hlast hx) with hx | hx
      · exact .inl (.inr hx)
      · exact .inr hx
    · exact .inl (.inl hx)
  | whileDo _ condition body, after, table => by
    obtain ⟨last, table₀, -, hlast, -, heq⟩ :=
      liveHead_spec (liveIn_subset body) Names.id_subset ((readIn body).length + 1)
        (after.union condition.uses) table (Nat.lt_succ_of_le (List.length_filter_le _ _))
    intro x hx
    simp only [liveBefore, heq] at hx
    simp only [reads, List.mem_append]
    rcases List.mem_append.mp (hlast hx) with hx | hx
    · exact .inl (.inr hx)
    · rcases Names.mem_union.mp hx with hx | hx
      · exact .inr hx
      · exact .inl (.inl hx)

theorem liveArms_subset : ∀ (arms : List FlowArm) (after : Names) (table : LiveTable),
    (liveArms arms after table).1 ⊆ armsRead arms ++ after
  | [], _, _ => List.nil_subset _
  | ⟨condition, body⟩ :: rest, after, table => by
    intro x hx
    simp only [liveArms, Names.mem_union] at hx
    simp only [armsRead, List.mem_append]
    rcases hx with (hx | hx) | hx
    · rcases List.mem_append.mp (liveIn_subset body after table hx) with hx | hx
      · exact .inl (.inl (.inr hx))
      · exact .inr hx
    · exact .inl (.inl (.inl hx))
    · rcases List.mem_append.mp (liveArms_subset rest after _ hx) with hx | hx
      · exact .inl (.inr hx)
      · exact .inr hx

/-- What is live before statements is read by them or live after them. -/
theorem liveIn_subset : ∀ (body : List FlowStmt) (after : Names) (table : LiveTable),
    (liveIn body after table).1 ⊆ readIn body ++ after
  | [], _, _ => List.Subset.refl _
  | s :: rest, after, table => by
    intro x hx
    simp only [readIn, List.mem_append]
    rcases List.mem_append.mp (liveBefore_subset s _ _ hx) with hx | hx
    · exact .inl (.inl hx)
    · rcases List.mem_append.mp (liveIn_subset rest after table hx) with hx | hx
      · exact .inl (.inr hx)
      · exact .inr hx

end

/-! ## The table of facts -/

mutual

/-- The numbers of the blocks in a statement. -/
def numbers : FlowStmt → List Nat
  | act .. => []
  | cond info arms otherwise => info.id :: (armNumbers arms ++ lastNumbers otherwise)
  | forIn info _ _ body _ _ => info.id :: numbersIn body
  | whileDo info _ body => info.id :: numbersIn body

def armNumbers : List FlowArm → List Nat
  | [] => []
  | ⟨_, body⟩ :: rest => numbersIn body ++ armNumbers rest

def lastNumbers : Option (List FlowStmt) → List Nat
  | none => []
  | some body => numbersIn body

def numbersIn : List FlowStmt → List Nat
  | [] => []
  | s :: rest => s.numbers ++ numbersIn rest

end

mutual

theorem find?_liveBefore {id : Nat} : ∀ (s : FlowStmt) (after : Names) (table : LiveTable),
    id ∉ s.numbers →
      Bindings.find? (s.liveBefore after table).2 id = Bindings.find? table id
  | act _ _, _, _, _ => rfl
  | cond info arms none, after, table, h => by
    simp only [numbers, lastNumbers, List.append_nil, List.mem_cons, not_or] at h
    rw [liveBefore, Bindings.find?_insert_of_ne _ _ (Ne.symm h.1)]
    exact find?_liveArms arms after table h.2
  | cond info arms (some body), after, table, h => by
    simp only [numbers, lastNumbers, List.mem_cons, List.mem_append, not_or] at h
    rw [liveBefore, Bindings.find?_insert_of_ne _ _ (Ne.symm h.1)]
    exact (find?_liveIn body after _ h.2.2).trans (find?_liveArms arms after table h.2.1)
  | forIn info target source body _ _, after, table, h => by
    simp only [numbers, List.mem_cons, not_or] at h
    rw [liveBefore, Bindings.find?_insert_of_ne _ _ (Ne.symm h.1)]
    exact find?_liveHead (fun after table => find?_liveIn body after table h.2) _ _ _ _
  | whileDo info condition body, after, table, h => by
    simp only [numbers, List.mem_cons, not_or] at h
    rw [liveBefore, Bindings.find?_insert_of_ne _ _ (Ne.symm h.1)]
    exact find?_liveHead (fun after table => find?_liveIn body after table h.2) _ _ _ _

theorem find?_liveArms {id : Nat} : ∀ (arms : List FlowArm) (after : Names) (table : LiveTable),
    id ∉ armNumbers arms →
      Bindings.find? (liveArms arms after table).2.2 id = Bindings.find? table id
  | [], _, _, _ => rfl
  | ⟨condition, body⟩ :: rest, after, table, h => by
    simp only [armNumbers, List.mem_append, not_or] at h
    exact (find?_liveArms rest after _ h.2).trans (find?_liveIn body after table h.1)

/-- Only the facts on the blocks of statements change. -/
theorem find?_liveIn {id : Nat} : ∀ (body : List FlowStmt) (after : Names) (table : LiveTable),
    id ∉ numbersIn body →
      Bindings.find? (liveIn body after table).2 id = Bindings.find? table id
  | [], _, _, _ => rfl
  | s :: rest, after, table, h => by
    simp only [numbersIn, List.mem_append, not_or] at h
    exact (find?_liveBefore s _ _ h.1).trans (find?_liveIn rest after table h.2)

end

/-- The names live before the last branch of a conditional, which is empty if it is missing. -/
def liveLast : Option (List FlowStmt) → Names → LiveTable → Names × LiveTable
  | none, after, table => (after, table)
  | some body, after, table => liveIn body after table

theorem liveBefore_cond (info : BlockInfo) (arms : List FlowArm)
    (otherwise : Option (List FlowStmt)) (after : Names) (table : LiveTable) :
    (cond info arms otherwise).liveBefore after table =
      let branches := liveArms arms after table
      let last := liveLast otherwise after branches.2.2
      (branches.1.union last.1,
        Bindings.insert last.2 info.id ⟨after, branches.2.1 ++ [last.1]⟩) := by
  cases otherwise <;> rfl

theorem find?_liveLast {id : Nat} (otherwise : Option (List FlowStmt)) (after : Names)
    (table : LiveTable) (h : id ∉ lastNumbers otherwise) :
    Bindings.find? (liveLast otherwise after table).2 id = Bindings.find? table id := by
  cases otherwise with
  | none => rfl
  | some body => exact find?_liveIn body after table h

end FlowStmt

/-- The table has facts on a block that make a name carried. -/
def LiveTable.Carries (table : LiveTable) (isLoop : Bool) (info : BlockInfo) (x : String) : Prop :=
  ∃ facts, Bindings.find? table info.id = some facts ∧ BlockFacts.isCarried isLoop facts x = true

/-- A table that agrees with another on a new block and on those inside agrees with what the other
was before on those inside. -/
theorem inside_of_insert {α : Type} {table table' : Bindings Nat α} {key : Nat} {facts : α}
    {ids : List Nat} (hkey : key ∉ ids) (h : ∀ id ∈ key :: ids,
      Bindings.find? table' id = Bindings.find? (Bindings.insert table key facts) id) :
    Bindings.find? table' key = some facts ∧
      ∀ id ∈ ids, Bindings.find? table' id = Bindings.find? table id := by
  refine ⟨(h key List.mem_cons_self).trans (Bindings.find?_insert_self _ _ _), fun id hid => ?_⟩
  have hne : key ≠ id := fun heq => hkey (heq ▸ hid)
  rw [h id (List.mem_cons_of_mem key hid), Bindings.find?_insert_of_ne _ _ hne]

namespace FlowStmt

variable {table' : LiveTable}

mutual

/-- Statements thread the names found live before them, as long as a table has the facts that were
found last on their blocks. -/
theorem threads_liveBefore : ∀ (s : FlowStmt) (after : Names) (table : LiveTable),
    s.numbers.Nodup →
    (∀ id ∈ s.numbers, Bindings.find? table' id = Bindings.find? (s.liveBefore after table).2 id) →
      s.Threads table'.Carries (s.liveBefore after table).1 after
  | act _ _, _, _, _, _ => List.Subset.refl _
  | cond info arms none, after, table, hnodup, htable => by
    simp only [numbers, lastNumbers, List.append_nil, List.nodup_cons] at hnodup htable
    obtain ⟨hid, hinside⟩ := inside_of_insert hnodup.1 htable
    have harms := threads_liveArms arms after table hnodup.2 hinside
    refine ⟨armsThread_mono (fun x hx => Names.mem_union.mpr (.inl hx)) (List.Subset.refl _) harms,
      fun x hx => Names.mem_union.mpr (.inr hx), fun x _ hx => ⟨_, hid, ?_⟩⟩
    simp [BlockFacts.isCarried, hx]
  | cond info arms (some body), after, table, hnodup, htable => by
    simp only [numbers, lastNumbers, List.nodup_cons] at hnodup htable
    obtain ⟨hid, hinside⟩ := inside_of_insert hnodup.1 htable
    obtain ⟨hnarms, hnbody, hdisjoint⟩ := List.nodup_append.mp hnodup.2
    -- the last body has blocks of its own, so the facts on those of the arms are still there
    have harms := threads_liveArms arms after table hnarms fun id hmem =>
      (hinside id (List.mem_append_left _ hmem)).trans
        (find?_liveIn body after _ fun hbody => hdisjoint id hmem id hbody rfl)
    have hbody := threads_liveIn body after (liveArms arms after table).2.2 hnbody fun id hmem =>
      hinside id (List.mem_append_right _ hmem)
    refine ⟨armsThread_mono (fun x hx => Names.mem_union.mpr (.inl hx)) (List.Subset.refl _) harms,
      allThread_mono (fun x hx => Names.mem_union.mpr (.inr hx)) (List.Subset.refl _) hbody,
      fun x _ hx => ⟨_, hid, ?_⟩⟩
    simp [BlockFacts.isCarried, hx]
  | forIn info target source body _ _, after, table, hnodup, htable => by
    simp only [numbers, List.nodup_cons] at hnodup htable
    obtain ⟨last, table₀, hafter, -, hentry, heq⟩ :=
      liveHead_spec (liveIn_subset body) (Names.without_subset target.names)
        ((readIn body).length + 1) after table (Nat.lt_succ_of_le (List.length_filter_le _ _))
    simp only [liveBefore, heq] at htable ⊢
    obtain ⟨hid, hinside⟩ := inside_of_insert hnodup.1 htable
    have hbody := threads_liveIn body last table₀ hnodup.2 hinside
    -- the head of the rounds may have more than what is live after the loop or kept by the last
    -- round, but only those names are carried
    have hhead : ∀ x ∈ after.union ((liveIn body last table₀).1.without target.names), x ∈ last :=
      fun x hx => (Names.mem_union.mp hx).elim (@hafter x) (@hentry x)
    refine ⟨fun x hx => Names.mem_union.mpr (.inr hx),
      after.union ((liveIn body last table₀).1.without target.names), (liveIn body last table₀).1,
      fun x hx => Names.mem_union.mpr (.inl hx),
      fun x hx => Names.mem_union.mpr (.inl (hhead x hx)),
      allThread_mono (List.Subset.refl _) hhead hbody,
      fun x hx hxt => Names.mem_union.mpr (.inr (Names.mem_without.mpr ⟨hx, hxt⟩)),
      fun x _ hx => ⟨_, hid, ?_⟩⟩
    simpa [BlockFacts.isCarried, BlockFacts.liveAtEntry] using Names.mem_union.mp hx
  | whileDo info condition body, after, table, hnodup, htable => by
    simp only [numbers, List.nodup_cons] at hnodup htable
    obtain ⟨last, table₀, hstart, -, hentry, heq⟩ :=
      liveHead_spec (liveIn_subset body) Names.id_subset ((readIn body).length + 1)
        (after.union condition.uses) table (Nat.lt_succ_of_le (List.length_filter_le _ _))
    simp only [liveBefore, heq] at htable ⊢
    obtain ⟨hid, hinside⟩ := inside_of_insert hnodup.1 htable
    have hbody := threads_liveIn body last table₀ hnodup.2 hinside
    have hhead : ∀ x ∈ (after.union condition.uses).union (liveIn body last table₀).1, x ∈ last :=
      fun x hx => (Names.mem_union.mp hx).elim (@hstart x) (@hentry x)
    refine ⟨(after.union condition.uses).union (liveIn body last table₀).1,
      (liveIn body last table₀).1,
      fun x hx => Names.mem_union.mpr (.inl (Names.mem_union.mpr (.inl hx))), hhead,
      allThread_mono (List.Subset.refl _) hhead hbody,
      fun x hx => Names.mem_union.mpr (.inr hx),
      fun x hx => Names.mem_union.mpr (.inl (Names.mem_union.mpr (.inr hx))),
      fun x _ hx => ⟨_, hid, ?_⟩⟩
    simp only [Names.mem_union] at hx
    rcases hx with (hx | hx) | hx <;> simp [BlockFacts.isCarried, BlockFacts.liveAtEntry, hx]

theorem threads_liveArms : ∀ (arms : List FlowArm) (after : Names) (table : LiveTable),
    (armNumbers arms).Nodup →
    (∀ id ∈ armNumbers arms,
      Bindings.find? table' id = Bindings.find? (liveArms arms after table).2.2 id) →
      armsThread table'.Carries arms (liveArms arms after table).1 after
  | [], _, _, _, _ => trivial
  | ⟨condition, body⟩ :: rest, after, table, hnodup, htable => by
    simp only [armNumbers, List.nodup_append] at hnodup
    simp only [armNumbers, List.mem_append, liveArms] at htable
    obtain ⟨hnbody, hnrest, hdisjoint⟩ := hnodup
    have hbody := threads_liveIn body after table hnbody fun id hmem => by
      rw [htable id (.inl hmem)]
      exact find?_liveArms rest after _ fun hrest => hdisjoint id hmem id hrest rfl
    have hrest := threads_liveArms rest after (liveIn body after table).2 hnrest fun id hmem =>
      htable id (.inr hmem)
    refine ⟨fun x hx => ?_, allThread_mono (fun x hx => ?_) (List.Subset.refl _) hbody,
      armsThread_mono (fun x hx => ?_) (List.Subset.refl _) hrest⟩
    all_goals simp [liveArms, hx]

theorem threads_liveIn : ∀ (body : List FlowStmt) (after : Names) (table : LiveTable),
    (numbersIn body).Nodup →
    (∀ id ∈ numbersIn body,
      Bindings.find? table' id = Bindings.find? (liveIn body after table).2 id) →
      allThread table'.Carries body (liveIn body after table).1 after
  | [], _, _, _, _ => List.Subset.refl _
  | s :: rest, after, table, hnodup, htable => by
    simp only [numbersIn, List.nodup_append] at hnodup
    simp only [numbersIn, List.mem_append, liveIn] at htable
    obtain ⟨hns, hnrest, hdisjoint⟩ := hnodup
    refine ⟨(liveIn rest after table).1,
      threads_liveBefore s _ _ hns fun id hmem => htable id (.inl hmem),
      threads_liveIn rest after table hnrest fun id hmem => ?_⟩
    rw [htable id (.inr hmem)]
    exact find?_liveBefore s _ _ fun hs => hdisjoint id hs id hmem rfl

end

end FlowStmt

end StagedFlow
