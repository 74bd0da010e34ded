import StagedFlow.Proofs.Threading

/-!
The heads of loops. Going round the body of a loop comes to an end, at the least set of names that
has what is needed at the head and what a round from it keeps; the facts on the blocks inside are
then those of a pass over the body from that head, whatever earlier rounds wrote. Main definitions:
`RoundsEnd`, `FlowStmt.IsLeastHead`, `FlowStmt.SettlesAt`. Main results: `FlowStmt.liveIn_mono`,
`FlowStmt.exists_facts_liveIn`, `FlowStmt.loops_settle_at_least_heads`.
-/
set_option autoImplicit false

namespace StagedFlow

namespace Names

theorem union_mono {ns ns' : Names} {more more' : List String} (h : ns ⊆ ns')
    (hmore : more ⊆ more') : ns.union more ⊆ ns'.union more' := by
  intro x hx
  rw [mem_union] at hx ⊢
  exact hx.imp (fun hx => h hx) fun hx => hmore hx

theorem without_mono {ns ns' : Names} (h : ns ⊆ ns') (gone : List String) :
    ns.without gone ⊆ ns'.without gone := by
  intro x hx
  rw [mem_without] at hx ⊢
  exact ⟨h hx.1, hx.2⟩

end Names

/-! ## Rounds without a bound -/

/-- The rounds of a loop with no bound on their number: one that keeps nothing new is the last. -/
inductive RoundsEnd (body : Names → LiveTable → Names × LiveTable) (kept : Names → Names) :
    Names → LiveTable → Names × Names × LiveTable → Prop
  | last {head : Names} {table : LiveTable} (h : kept (body head table).1 ⊆ head) :
    RoundsEnd body kept head table (head, kept (body head table).1, (body head table).2)
  | again {head : Names} {table : LiveTable} {result : Names × Names × LiveTable}
    (h : ¬ kept (body head table).1 ⊆ head)
    (rest : RoundsEnd body kept (head.union (kept (body head table).1)) (body head table).2
      result) :
    RoundsEnd body kept head table result

section Rounds

variable {body : Names → LiveTable → Names × LiveTable} {kept : Names → Names}

/-- With a round for each name that may be added and one more, the bound is never felt. -/
theorem roundsEnd_liveHead {reads : List String}
    (hreads : ∀ after table, (body after table).1 ⊆ reads ++ after) (hkept : ∀ ns, kept ns ⊆ ns)
    (rounds : Nat) (head : Names) (table : LiveTable)
    (hrounds : (reads.filter (· ∉ head)).length < rounds) :
    RoundsEnd body kept head table (liveHead body kept rounds head table) := by
  induction rounds generalizing head table with
  | zero => exact absurd hrounds (Nat.not_lt_zero _)
  | succ rounds ih =>
    rw [liveHead_succ]
    by_cases hsub : kept (body head table).1 ⊆ head
    · rw [if_pos (Names.subset_iff.mpr hsub)]
      exact .last hsub
    · rw [if_neg fun h => hsub (Names.subset_iff.mp h)]
      have hless := length_filter_union_lt (fun _ hx => hreads head table (hkept _ hx)) hsub
      exact .again hsub (ih _ _ (by omega))

/-- However many rounds are allowed, the head stays within every set that has the names at the start
and what a round from it keeps. -/
theorem liveHead_subset
    (hbody : ∀ {after after' : Names} (table table' : LiveTable), after ⊆ after' →
      (body after table).1 ⊆ (body after' table').1)
    (hkept : ∀ {ns ns' : Names}, ns ⊆ ns' → kept ns ⊆ kept ns') {names : Names}
    {table₀ : LiveTable} (hnames : kept (body names table₀).1 ⊆ names) (rounds : Nat)
    (head : Names) (table : LiveTable) (hhead : head ⊆ names) :
    (liveHead body kept rounds head table).1 ⊆ names := by
  induction rounds generalizing head table with
  | zero => exact hhead
  | succ rounds ih =>
    rw [liveHead_succ]
    by_cases hsub : (kept (body head table).1).subset head
    · rw [if_pos hsub]
      exact hhead
    · rw [if_neg hsub]
      refine ih _ _ fun x hx => ?_
      rcases Names.mem_union.mp hx with hx | hx
      · exact hhead hx
      · exact hnames (hkept (hbody table table₀ hhead) hx)

/-- The table is only written. -/
theorem liveHead_fst_congr
    (hbody : ∀ after table table', (body after table).1 = (body after table').1) (rounds : Nat)
    (head : Names) (table table' : LiveTable) :
    (liveHead body kept rounds head table).1 = (liveHead body kept rounds head table').1 ∧
      (liveHead body kept rounds head table).2.1 =
        (liveHead body kept rounds head table').2.1 := by
  induction rounds generalizing head table table' with
  | zero => exact ⟨rfl, rfl⟩
  | succ rounds ih =>
    rw [liveHead_succ, liveHead_succ, hbody head table table']
    by_cases hsub : (kept (body head table').1).subset head
    · rw [if_pos hsub, if_pos hsub]
      exact ⟨rfl, rfl⟩
    · rw [if_neg hsub, if_neg hsub]
      exact ih _ _ _

/-- The last round writes facts that do not depend on the earlier ones. -/
theorem exists_facts_liveHead {reads : List String} {id : Nat}
    (hreads : ∀ after table, (body after table).1 ⊆ reads ++ after) (hkept : ∀ ns, kept ns ⊆ ns)
    (hbody : ∀ after table table', (body after table).1 = (body after table').1)
    (hfacts : ∀ head, ∃ facts, ∀ table, Bindings.find? (body head table).2 id = some facts)
    {rounds : Nat} {start : Names} (hrounds : (reads.filter (· ∉ start)).length < rounds) :
    ∃ facts, ∀ table,
      Bindings.find? (liveHead body kept rounds start table).2.2 id = some facts := by
  obtain ⟨facts, hlast⟩ := hfacts (liveHead body kept rounds start []).1
  refine ⟨facts, fun table => ?_⟩
  obtain ⟨last, table₀, -, -, -, heq⟩ := liveHead_spec hreads hkept rounds start table hrounds
  have hhead : last = (liveHead body kept rounds start []).1 := by
    rw [← (liveHead_fst_congr hbody rounds start table []).1, heq]
  rw [heq, hhead]
  exact hlast table₀

end Rounds

namespace FlowStmt

/-- The rounds that a loop over `body` is allowed. -/
theorem rounds_suffice (body : List FlowStmt) (head : Names) :
    ((readIn body).filter (· ∉ head)).length < (readIn body).length + 1 :=
  Nat.lt_succ_of_le (List.length_filter_le _ _)

/-! ## Monotonicity -/

mutual

theorem liveBefore_mono : ∀ (s : FlowStmt) {after after' : Names} (table table' : LiveTable),
    after ⊆ after' → (s.liveBefore after table).1 ⊆ (s.liveBefore after' table').1
  | act action _, _, _, _, _, h => action.liveBefore_mono h
  | cond info arms otherwise, after, after', table, table', h => by
    rw [liveBefore_cond, liveBefore_cond]
    exact Names.union_mono (liveArms_mono arms table table' h) (liveLast_mono otherwise _ _ h)
  | forIn info target source body _ _, after, after', table, table', h => by
    obtain ⟨head', table₀, hstart, -, hround, heq⟩ :=
      liveHead_spec (liveIn_subset body) (Names.without_subset target.names) _ after' table'
        (rounds_suffice body after')
    have hhead := liveHead_subset (liveIn_mono body) (fun h => Names.without_mono h target.names)
      hround ((readIn body).length + 1) after table fun x hx => hstart (h hx)
    simp only [liveBefore, heq]
    exact Names.union_mono hhead (List.Subset.refl _)
  | whileDo info condition body, after, after', table, table', h => by
    obtain ⟨head', table₀, hstart, -, hround, heq⟩ :=
      liveHead_spec (liveIn_subset body) Names.id_subset _ (after'.union condition.uses) table'
        (rounds_suffice body _)
    simp only [liveBefore, heq]
    exact liveHead_subset (liveIn_mono body) (fun h => h) hround ((readIn body).length + 1) _ table
      fun x hx => hstart (Names.union_mono h (List.Subset.refl _) hx)

theorem liveArms_mono : ∀ (arms : List FlowArm) {after after' : Names} (table table' : LiveTable),
    after ⊆ after' → (liveArms arms after table).1 ⊆ (liveArms arms after' table').1
  | [], _, _, _, _, _ => List.Subset.refl _
  | ⟨_, body⟩ :: rest, _, _, table, table', h =>
    Names.union_mono (Names.union_mono (liveIn_mono body table table' h) (List.Subset.refl _))
      (liveArms_mono rest _ _ h)

theorem liveLast_mono : ∀ (otherwise : Option (List FlowStmt)) {after after' : Names}
    (table table' : LiveTable), after ⊆ after' →
      (liveLast otherwise after table).1 ⊆ (liveLast otherwise after' table').1
  | none, _, _, _, _, h => h
  | some body, _, _, table, table', h => liveIn_mono body table table' h

/-- The more is live after statements, the more is live before them. -/
theorem liveIn_mono : ∀ (body : List FlowStmt) {after after' : Names} (table table' : LiveTable),
    after ⊆ after' → (liveIn body after table).1 ⊆ (liveIn body after' table').1
  | [], _, _, _, _, h => h
  | s :: rest, _, _, table, table', h =>
    liveBefore_mono s _ _ (liveIn_mono rest table table' h)

end

/-! ## What the table has no part in -/

mutual

theorem liveBefore_fst_congr : ∀ (s : FlowStmt) (after : Names) (table table' : LiveTable),
    (s.liveBefore after table).1 = (s.liveBefore after table').1
  | act _ _, _, _, _ => rfl
  | cond info arms otherwise, after, table, table' => by
    rw [liveBefore_cond, liveBefore_cond]
    simp only [(liveArms_fst_congr arms after table table').1]
    rw [liveLast_fst_congr otherwise after]
  | forIn info target source body _ _, after, table, table' => by
    simp only [liveBefore]
    rw [(liveHead_fst_congr (liveIn_fst_congr body) _ after table table').1]
  | whileDo info condition body, after, table, table' => by
    simp only [liveBefore]
    rw [(liveHead_fst_congr (liveIn_fst_congr body) _ (after.union condition.uses) table table').1]

theorem liveArms_fst_congr : ∀ (arms : List FlowArm) (after : Names) (table table' : LiveTable),
    (liveArms arms after table).1 = (liveArms arms after table').1 ∧
      (liveArms arms after table).2.1 = (liveArms arms after table').2.1
  | [], _, _, _ => ⟨rfl, rfl⟩
  | ⟨condition, body⟩ :: rest, after, table, table' => by
    obtain ⟨hlive, hentries⟩ := liveArms_fst_congr rest after (liveIn body after table).2
      (liveIn body after table').2
    simp only [liveArms, liveIn_fst_congr body after table table', hlive, hentries, and_self]

theorem liveLast_fst_congr : ∀ (otherwise : Option (List FlowStmt)) (after : Names)
    (table table' : LiveTable),
    (liveLast otherwise after table).1 = (liveLast otherwise after table').1
  | none, _, _, _ => rfl
  | some body, after, table, table' => liveIn_fst_congr body after table table'

/-- What is live before statements does not depend on the table. -/
theorem liveIn_fst_congr : ∀ (body : List FlowStmt) (after : Names) (table table' : LiveTable),
    (liveIn body after table).1 = (liveIn body after table').1
  | [], _, _, _ => rfl
  | s :: rest, after, table, table' => by
    simp only [liveIn, liveIn_fst_congr rest after table table']
    exact liveBefore_fst_congr s _ _ _

end

/-! ## The facts on the blocks inside -/

mutual

theorem exists_facts_liveBefore {id : Nat} : ∀ (s : FlowStmt) (after : Names), id ∈ s.numbers →
    ∃ facts, ∀ table, Bindings.find? (s.liveBefore after table).2 id = some facts
  | act _ _, _, h => absurd h List.not_mem_nil
  | cond info arms otherwise, after, h => by
    simp only [numbers, List.mem_cons, List.mem_append] at h
    simp only [liveBefore_cond]
    by_cases hid : info.id = id
    · subst hid
      refine ⟨⟨after, (liveArms arms after []).2.1 ++ [(liveLast otherwise after []).1]⟩,
        fun table => ?_⟩
      rw [Bindings.find?_insert_self, (liveArms_fst_congr arms after table []).2,
        liveLast_fst_congr otherwise after _ []]
    · by_cases hlast : id ∈ lastNumbers otherwise
      · obtain ⟨facts, hfacts⟩ := exists_facts_liveLast otherwise after hlast
        refine ⟨facts, fun table => ?_⟩
        rw [Bindings.find?_insert_of_ne _ _ hid, hfacts]
      · obtain ⟨facts, hfacts⟩ := exists_facts_liveArms arms after
          ((h.resolve_left (Ne.symm hid)).resolve_right hlast)
        refine ⟨facts, fun table => ?_⟩
        rw [Bindings.find?_insert_of_ne _ _ hid, find?_liveLast otherwise after _ hlast, hfacts]
  | forIn info target source body _ _, after, h => by
    simp only [numbers, List.mem_cons] at h
    simp only [liveBefore]
    by_cases hid : info.id = id
    · subst hid
      refine ⟨⟨after, [(liveHead (fun after table => liveIn body after table)
        (·.without target.names) ((readIn body).length + 1) after []).2.1]⟩, fun table => ?_⟩
      rw [Bindings.find?_insert_self,
        (liveHead_fst_congr (liveIn_fst_congr body) _ after table []).2]
    · obtain ⟨facts, hfacts⟩ := exists_facts_liveHead (liveIn_subset body)
        (Names.without_subset target.names) (liveIn_fst_congr body)
        (fun head => exists_facts_liveIn body head (h.resolve_left (Ne.symm hid)))
        (rounds_suffice body after)
      refine ⟨facts, fun table => ?_⟩
      rw [Bindings.find?_insert_of_ne _ _ hid, hfacts]
  | whileDo info condition body, after, h => by
    simp only [numbers, List.mem_cons] at h
    simp only [liveBefore]
    by_cases hid : info.id = id
    · subst hid
      refine ⟨⟨after, [(liveHead (fun after table => liveIn body after table) id
        ((readIn body).length + 1) (after.union condition.uses) []).2.1.union condition.uses]⟩,
        fun table => ?_⟩
      rw [Bindings.find?_insert_self,
        (liveHead_fst_congr (liveIn_fst_congr body) _ (after.union condition.uses) table []).2]
    · obtain ⟨facts, hfacts⟩ := exists_facts_liveHead (liveIn_subset body) Names.id_subset
        (liveIn_fst_congr body)
        (fun head => exists_facts_liveIn body head (h.resolve_left (Ne.symm hid)))
        (rounds_suffice body (after.union condition.uses))
      refine ⟨facts, fun table => ?_⟩
      rw [Bindings.find?_insert_of_ne _ _ hid, hfacts]

theorem exists_facts_liveArms {id : Nat} : ∀ (arms : List FlowArm) (after : Names),
    id ∈ armNumbers arms →
      ∃ facts, ∀ table, Bindings.find? (liveArms arms after table).2.2 id = some facts
  | [], _, h => absurd h List.not_mem_nil
  | ⟨_, body⟩ :: rest, after, h => by
    by_cases hrest : id ∈ armNumbers rest
    · obtain ⟨facts, hfacts⟩ := exists_facts_liveArms rest after hrest
      exact ⟨facts, fun table => hfacts _⟩
    · obtain ⟨facts, hfacts⟩ := exists_facts_liveIn body after
        ((List.mem_append.mp h).resolve_right hrest)
      refine ⟨facts, fun table => ?_⟩
      rw [liveArms, find?_liveArms rest after _ hrest, hfacts]

theorem exists_facts_liveLast {id : Nat} : ∀ (otherwise : Option (List FlowStmt)) (after : Names),
    id ∈ lastNumbers otherwise →
      ∃ facts, ∀ table, Bindings.find? (liveLast otherwise after table).2 id = some facts
  | none, _, h => absurd h List.not_mem_nil
  | some body, after, h => exists_facts_liveIn body after h

/-- Statements leave facts on each of their blocks, and the same ones in every table. -/
theorem exists_facts_liveIn {id : Nat} : ∀ (body : List FlowStmt) (after : Names),
    id ∈ numbersIn body →
      ∃ facts, ∀ table, Bindings.find? (liveIn body after table).2 id = some facts
  | [], _, h => absurd h List.not_mem_nil
  | s :: rest, after, h => by
    by_cases hs : id ∈ s.numbers
    · obtain ⟨facts, hfacts⟩ := exists_facts_liveBefore s (liveIn rest after []).1 hs
      refine ⟨facts, fun table => ?_⟩
      simp only [liveIn, liveIn_fst_congr rest after table []]
      exact hfacts _
    · obtain ⟨facts, hfacts⟩ := exists_facts_liveIn rest after
        ((List.mem_append.mp h).resolve_left hs)
      refine ⟨facts, fun table => ?_⟩
      rw [liveIn, find?_liveBefore s _ _ hs, hfacts]

end

/-! ## Loops -/

/-- The rounds of a loop over `body`, of which `kept` goes back to the head, end at the least set
that has the names `start` and what a round from it keeps. -/
structure SettlesAt (body : List FlowStmt) (kept : Names → Names) (start : Names)
    (table : LiveTable) (head entry : Names) (inner : LiveTable) : Prop where
  ends : RoundsEnd (liveIn body) kept start table (head, entry, inner)
  start_subset : start ⊆ head
  round_subset : ∀ table₀, kept (liveIn body head table₀).1 ⊆ head
  least : ∀ names table₀, start ⊆ names → kept (liveIn body names table₀).1 ⊆ names → head ⊆ names

/-- On the blocks of `body` other than the one with the given number, the table has the facts that a
pass over `body` finds when `after` is live after it. -/
def HasFacts (table : LiveTable) (body : List FlowStmt) (after : Names) (number : Nat) : Prop :=
  ∀ id ∈ numbersIn body, id ≠ number → ∃ facts, Bindings.find? table id = some facts ∧
    ∀ table₀, Bindings.find? (liveIn body after table₀).2 id = some facts

section Loops

variable (body : List FlowStmt) {kept : Names → Names}

theorem settlesAt_liveHead (hkept : ∀ ns, kept ns ⊆ ns)
    (hmono : ∀ {ns ns' : Names}, ns ⊆ ns' → kept ns ⊆ kept ns') (start : Names)
    (table : LiveTable) :
    ∃ head entry inner,
      liveHead (liveIn body) kept ((readIn body).length + 1) start table = (head, entry, inner) ∧
      SettlesAt body kept start table head entry inner ∧
      ∃ table₀, inner = (liveIn body head table₀).2 := by
  obtain ⟨head, table₀, hstart, -, hround, heq⟩ :=
    liveHead_spec (liveIn_subset body) hkept _ start table (rounds_suffice body start)
  have hends := roundsEnd_liveHead (liveIn_subset body) hkept _ start table
    (rounds_suffice body start)
  rw [heq] at hends
  refine ⟨head, _, _, heq, ⟨hends, hstart, fun table₁ => ?_, fun names table₁ hnames hround => ?_⟩,
    table₀, rfl⟩
  · rw [liveIn_fst_congr body head table₁ table₀]
    exact hround
  · have hhead := liveHead_subset (liveIn_mono body) hmono hround ((readIn body).length + 1) start
      table hnames
    rw [heq] at hhead
    exact hhead

/-- A later entry on another block leaves the facts of the last pass in the table. -/
theorem hasFacts_insert (head : Names) (table₀ : LiveTable) (number : Nat) (own : LiveFacts) :
    HasFacts (Bindings.insert (liveIn body head table₀).2 number own) body head number := by
  intro id hid hne
  obtain ⟨facts, hfacts⟩ := exists_facts_liveIn body head hid
  refine ⟨facts, ?_, hfacts⟩
  rw [Bindings.find?_insert_of_ne _ _ (Ne.symm hne), hfacts]

end Loops

/-- For every loop and whatever is live after it, the rounds over its body come to an end, at the
least head: the least set that has what is live after the loop, for a conditional loop what its
condition reads, and what is live at the start of a round from that set, the target of a counted
loop aside. The loop leaves on itself what the last round kept, and on the blocks inside it the
facts that a pass over its body from the head finds. -/
theorem loops_settle_at_least_heads (info : BlockInfo) (body : List FlowStmt) (after : Names)
    (table : LiveTable) :
    (∀ condition, ∃ head entry inner,
      SettlesAt body id (after.union condition.uses) table head entry inner ∧
      ((whileDo info condition body).liveBefore after table).1 = head ∧
      Bindings.find? ((whileDo info condition body).liveBefore after table).2 info.id =
        some ⟨after, [entry.union condition.uses]⟩ ∧
      HasFacts ((whileDo info condition body).liveBefore after table).2 body head info.id) ∧
    (∀ target source domain strategy, ∃ head entry inner,
      SettlesAt body (·.without target.names) after table head entry inner ∧
      ((forIn info target source body domain strategy).liveBefore after table).1 =
        head.union source.uses ∧
      Bindings.find? ((forIn info target source body domain strategy).liveBefore after table).2
        info.id = some ⟨after, [entry]⟩ ∧
      HasFacts ((forIn info target source body domain strategy).liveBefore after table).2 body head
        info.id) := by
  refine ⟨fun condition => ?_, fun target source domain strategy => ?_⟩
  · obtain ⟨head, entry, inner, heq, hsettles, table₀, hinner⟩ :=
      settlesAt_liveHead body Names.id_subset (fun h => h) (after.union condition.uses) table
    refine ⟨head, entry, inner, hsettles, ?_⟩
    simp only [liveBefore, heq, hinner]
    exact ⟨trivial, Bindings.find?_insert_self _ _ _, hasFacts_insert body head table₀ info.id _⟩
  · obtain ⟨head, entry, inner, heq, hsettles, table₀, hinner⟩ :=
      settlesAt_liveHead body (Names.without_subset target.names)
        (fun h => Names.without_mono h target.names) after table
    refine ⟨head, entry, inner, hsettles, ?_⟩
    simp only [liveBefore, heq, hinner]
    exact ⟨trivial, Bindings.find?_insert_self _ _ _, hasFacts_insert body head table₀ info.id _⟩

/-! A loop in a loop: the second round of the outer one finds `q` live after the inner one, which
the first did not. -/

/-- `while q: a = b` and then `b = c`. -/
def innerLoop : List FlowStmt :=
  [.whileDo (.fresh 1 .conditionalLoop ⟨none, "settle", 2, none⟩) (.var "q")
      [.act (.assign (.name "a") (.var "b")) .unknown],
    .act (.assign (.name "b") (.var "c")) .unknown]

theorem loops_settle_at_least_heads_nested :
    let outer := whileDo (.fresh 0 .conditionalLoop ⟨none, "settle", 1, none⟩) (.var "p") innerLoop
    (Bindings.find? (liveIn innerLoop ["p"] []).2 1).map LiveFacts.after = some ["p", "c"] ∧
      (outer.liveBefore [] []).1 = ["p", "c", "q", "b"] ∧
      ∃ facts, Bindings.find? (outer.liveBefore [] []).2 1 = some facts ∧
        facts.after = ["p", "c", "q"] := by
  intro outer
  have hhead : (outer.liveBefore [] []).1 = ["p", "c", "q", "b"] := by decide +kernel
  obtain ⟨head, entry, inner, -, heq, -, hfacts⟩ :=
    (loops_settle_at_least_heads (.fresh 0 .conditionalLoop ⟨none, "settle", 1, none⟩) innerLoop []
      []).1 (.var "p")
  obtain ⟨facts, hfound, hpass⟩ := hfacts 1 (by decide) (by decide)
  refine ⟨by decide +kernel, hhead, facts, hfound, ?_⟩
  have hlast : (Bindings.find? (liveIn innerLoop ["p", "c", "q", "b"] []).2 1).map
      LiveFacts.after = some ["p", "c", "q"] := by decide +kernel
  rw [← hhead, show (outer.liveBefore [] []).1 = head from heq, hpass []] at hlast
  exact Option.some.inj hlast

end FlowStmt

end StagedFlow
