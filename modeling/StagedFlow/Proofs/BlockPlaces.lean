import StagedFlow.Proofs.BlockNotes
import StagedFlow.Proofs.FlowPaths

/-!
What a conversion says of a block fits the place where the block stands: the blocks are numbered in
the order of the text, each shares out the names that are assigned inside it among those that it
carries and its temporaries, and it carries those that are live after it or, for a loop, at the
start of a round; what enters it has been assigned on every way to it. Main definitions:
`Todo.PointOf`, `Todo.Noted`, `BlockInfo.Suits`. Main results: `Todo.PointOf.noted`,
`Todo.Noted.carried_iff`, `FunctionDef.blocks_suit_their_places`.
-/
set_option autoImplicit false

namespace StagedFlow

namespace Todo

open FlowStmt

/-! ## The points of a program -/

/-- The points in the text of a program, with what is left to do there. No way need lead to them, as
none does to what stands after a `raise`. -/
inductive PointOf (body : List FlowStmt) : List Todo → Prop
  | start : PointOf body (body.map run)
  | next {s : FlowStmt} {later : List Todo} (h : PointOf body (run s :: later)) : PointOf body later
  | arm {info : BlockInfo} {arms : List FlowArm} {otherwise : Option (List FlowStmt)}
    {condition : Expr} {inner : List FlowStmt} {later : List Todo}
    (h : PointOf body (run (.cond info arms otherwise) :: later))
    (harm : ⟨condition, inner⟩ ∈ arms) : PointOf body (inner.map run ++ later)
  | last {info : BlockInfo} {arms : List FlowArm} {inner : List FlowStmt} {later : List Todo}
    (h : PointOf body (run (.cond info arms (some inner)) :: later)) :
    PointOf body (inner.map run ++ later)
  | forIn {info : BlockInfo} {target : Target} {source : Expr} {inner : List FlowStmt}
    {domain : Option Domain} {strategy : Strategy} {later : List Todo}
    (h : PointOf body (run (.forIn info target source inner domain strategy) :: later)) :
    PointOf body
      (inner.map run ++ check (.forIn info target source inner domain strategy) :: later)
  | whileDo {info : BlockInfo} {condition : Expr} {inner : List FlowStmt} {later : List Todo}
    (h : PointOf body (run (.whileDo info condition inner) :: later)) :
    PointOf body (inner.map run ++ check (.whileDo info condition inner) :: later)

section

variable {body : List FlowStmt}

mutual

theorem exists_point_blocks : ∀ (s : FlowStmt) (later : List Todo), PointOf body (run s :: later) →
    ∀ b ∈ s.blocks, ∃ later, PointOf body (run b :: later)
  | .act _ _, _, _, _, hb => absurd hb List.not_mem_nil
  | .cond info arms none, later, h, b, hb => by
    simp only [blocks, List.append_nil, List.mem_cons] at hb
    rcases hb with rfl | hb
    · exact ⟨later, h⟩
    · exact exists_point_armBlocks arms later (fun _ _ harm => h.arm harm) b hb
  | .cond info arms (some inner), later, h, b, hb => by
    simp only [blocks, List.mem_cons, List.mem_append] at hb
    rcases hb with rfl | hb | hb
    · exact ⟨later, h⟩
    · exact exists_point_armBlocks arms later (fun _ _ harm => h.arm harm) b hb
    · exact exists_point_blocksOf inner later h.last b hb
  | .forIn info target source inner domain strategy, later, h, b, hb => by
    simp only [blocks, List.mem_cons] at hb
    rcases hb with rfl | hb
    · exact ⟨later, h⟩
    · exact exists_point_blocksOf inner _ h.forIn b hb
  | .whileDo info condition inner, later, h, b, hb => by
    simp only [blocks, List.mem_cons] at hb
    rcases hb with rfl | hb
    · exact ⟨later, h⟩
    · exact exists_point_blocksOf inner _ h.whileDo b hb

theorem exists_point_armBlocks : ∀ (arms : List FlowArm) (later : List Todo),
    (∀ condition inner, ⟨condition, inner⟩ ∈ arms → PointOf body (inner.map run ++ later)) →
      ∀ b ∈ armBlocks arms, ∃ later, PointOf body (run b :: later)
  | [], _, _, _, hb => absurd hb List.not_mem_nil
  | ⟨condition, inner⟩ :: rest, later, h, b, hb => by
    rcases List.mem_append.mp hb with hb | hb
    · exact exists_point_blocksOf inner later (h condition inner List.mem_cons_self) b hb
    · exact exists_point_armBlocks rest later
        (fun condition inner harm => h condition inner (List.mem_cons_of_mem _ harm)) b hb

theorem exists_point_blocksOf : ∀ (stmts : List FlowStmt) (later : List Todo),
    PointOf body (stmts.map run ++ later) →
      ∀ b ∈ blocksOf stmts, ∃ later, PointOf body (run b :: later)
  | [], _, _, _, hb => absurd hb List.not_mem_nil
  | s :: rest, later, h, b, hb => by
    rcases List.mem_append.mp hb with hb | hb
    · exact exists_point_blocks s _ h b hb
    · exact exists_point_blocksOf rest later h.next b hb

end

/-- Each block of a program stands at a point of it. -/
theorem exists_point {b : FlowStmt} (hb : b ∈ blocksOf body) :
    ∃ later, PointOf body (run b :: later) := by
  refine exists_point_blocksOf body [] ?_ b hb
  rw [List.append_nil]
  exact .start

end

/-! ## What is noted at a point -/

/-- The names are those that are live at a point. -/
structure Exact (hands : Bool → BlockInfo → String → Prop) (p : List Todo) (names : Names) :
    Prop where
  covered : Covered hands p names
  live : ∀ x ∈ names, Live x p

theorem Exact.mem_iff {hands : Bool → BlockInfo → String → Prop} {p : List Todo} {names : Names}
    (h : Exact hands p names) {x : String} : x ∈ names ↔ Live x p :=
  ⟨h.live x, fun hx => mem_of_live hx h.covered⟩

theorem exact_nil (hands : Bool → BlockInfo → String → Prop) : Exact hands [] [] :=
  ⟨trivial, fun _ hx => absurd hx List.not_mem_nil⟩

variable {notes : LiveTable} {later : List Todo} {after : Names} {table : LiveTable}

/-- A pass over statements leads from the names live after them to those live before them. -/
theorem Exact.append (h : Exact notes.Carries later after) {inner : List FlowStmt}
    (hnodup : (numbersIn inner).Nodup)
    (hnoted : ∀ id ∈ numbersIn inner,
      Bindings.find? notes id = Bindings.find? (liveIn inner after table).2 id) :
    Exact notes.Carries (inner.map run ++ later) (liveIn inner after table).1 :=
  ⟨covered_append (threads_liveIn inner after table hnodup hnoted) h.covered,
    live_of_liveIn inner later after table h.live⟩

/-- The last round of a counted loop starts from the names live at its head. -/
theorem Exact.forHead (h : Exact notes.Carries later after) {info : BlockInfo} {target : Target}
    {source : Expr} {inner : List FlowStmt} {domain : Option Domain} {strategy : Strategy}
    (hnodup : (info.id :: numbersIn inner).Nodup)
    (hnoted : ∀ id ∈ info.id :: numbersIn inner, Bindings.find? notes id = Bindings.find?
      ((FlowStmt.forIn info target source inner domain strategy).liveBefore after table).2 id) :
    ∃ head table₀,
      Exact notes.Carries (check (.forIn info target source inner domain strategy) :: later) head ∧
      Bindings.find? notes info.id =
        some ⟨after, [(liveIn inner head table₀).1.without target.names]⟩ ∧
      ∀ id ∈ numbersIn inner,
        Bindings.find? notes id = Bindings.find? (liveIn inner head table₀).2 id := by
  rw [List.nodup_cons] at hnodup
  obtain ⟨head, table₀, hafter, -, hround, heq⟩ :=
    liveHead_spec (liveIn_subset inner) (Names.without_subset target.names)
      ((readIn inner).length + 1) after table (rounds_suffice inner after)
  simp only [liveBefore, heq] at hnoted
  obtain ⟨hown, hinside⟩ := inside_of_insert hnodup.1 hnoted
  have hthreads := threads_liveIn inner head table₀ hnodup.2 hinside
  have hentry : ∀ x ∈ (liveIn inner head table₀).1, x ∉ target.names → x ∈ head :=
    fun x hx hxt => hround (Names.mem_without.mpr ⟨hx, hxt⟩)
  have hcovered : Covered notes.Carries
      (check (.forIn info target source inner domain strategy) :: later) head :=
    covered_check ⟨_, hthreads, hentry⟩ hafter h.covered
  refine ⟨head, table₀, ⟨hcovered, fun x hx => ?_⟩, hown, hinside⟩
  refine live_forHead (live_of_liveIn inner _) h.live ((readIn inner).length + 1) table x ?_
  rw [heq]
  exact hx

/-- The last round of a conditional loop starts from the names live at its head. -/
theorem Exact.whileHead (h : Exact notes.Carries later after) {info : BlockInfo} {condition : Expr}
    {inner : List FlowStmt} (hnodup : (info.id :: numbersIn inner).Nodup)
    (hnoted : ∀ id ∈ info.id :: numbersIn inner, Bindings.find? notes id = Bindings.find?
      ((FlowStmt.whileDo info condition inner).liveBefore after table).2 id) :
    ∃ head table₀,
      Exact notes.Carries (check (.whileDo info condition inner) :: later) head ∧
      Bindings.find? notes info.id =
        some ⟨after, [(liveIn inner head table₀).1.union condition.uses]⟩ ∧
      ∀ id ∈ numbersIn inner,
        Bindings.find? notes id = Bindings.find? (liveIn inner head table₀).2 id := by
  rw [List.nodup_cons] at hnodup
  obtain ⟨head, table₀, hstart, -, hround, heq⟩ :=
    liveHead_spec (liveIn_subset inner) Names.id_subset ((readIn inner).length + 1)
      (after.union condition.uses) table (rounds_suffice inner _)
  simp only [liveBefore, heq] at hnoted
  obtain ⟨hown, hinside⟩ := inside_of_insert hnodup.1 hnoted
  have hthreads := threads_liveIn inner head table₀ hnodup.2 hinside
  have hafter : after ⊆ head := fun x hx => hstart (Names.mem_union.mpr (.inl hx))
  have huses : condition.uses ⊆ head := fun x hx => hstart (Names.mem_union.mpr (.inr hx))
  have hcovered : Covered notes.Carries (check (.whileDo info condition inner) :: later) head :=
    covered_check ⟨huses, _, hthreads, hround⟩ hafter h.covered
  refine ⟨head, table₀, ⟨hcovered, fun x hx => ?_⟩, hown, hinside⟩
  refine live_whileHead (live_of_liveIn inner _) h.live ((readIn inner).length + 1) table x ?_
  rw [heq]
  exact hx

/-- A table has, on each statement that is to be run before the next decision on a loop, what a pass
over it finds from the names that are live after it. -/
def Noted (notes : LiveTable) : List Todo → Prop
  | run s :: later => s.numbers.Nodup ∧
    (∃ after table, Exact notes.Carries later after ∧ ∀ id ∈ s.numbers,
      Bindings.find? notes id = Bindings.find? (s.liveBefore after table).2 id) ∧
    Noted notes later
  | _ => True

theorem noted_append (h : Exact notes.Carries later after) {inner : List FlowStmt}
    (hnodup : (numbersIn inner).Nodup)
    (hnoted : ∀ id ∈ numbersIn inner,
      Bindings.find? notes id = Bindings.find? (liveIn inner after table).2 id)
    (hlater : Noted notes later) : Noted notes (inner.map run ++ later) := by
  induction inner with
  | nil => exact hlater
  | cons s rest ih =>
    simp only [numbersIn, List.nodup_append] at hnodup
    simp only [numbersIn, List.mem_append, liveIn] at hnoted
    obtain ⟨hns, hnrest, hdisjoint⟩ := hnodup
    have hrest : ∀ id ∈ numbersIn rest,
        Bindings.find? notes id = Bindings.find? (liveIn rest after table).2 id :=
      fun id hid => (hnoted id (.inr hid)).trans
        (find?_liveBefore s _ _ fun hs => hdisjoint id hs id hid rfl)
    exact ⟨hns, ⟨_, _, h.append hnrest hrest, fun id hid => hnoted id (.inl hid)⟩, ih hnrest hrest⟩

/-- What a pass over an arm notes stays when the pass goes on to the other arms. -/
theorem exists_pass_arm {arms : List FlowArm} {condition : Expr} {inner : List FlowStmt}
    (harm : ⟨condition, inner⟩ ∈ arms) (hnodup : (armNumbers arms).Nodup) (after : Names)
    (table : LiveTable) :
    numbersIn inner ⊆ armNumbers arms ∧ (numbersIn inner).Nodup ∧ ∃ table₀, ∀ id ∈ numbersIn inner,
      Bindings.find? (liveArms arms after table).2.2 id =
        Bindings.find? (liveIn inner after table₀).2 id := by
  induction arms generalizing table with
  | nil => cases harm
  | cons arm rest ih =>
    obtain ⟨first, body⟩ := arm
    obtain ⟨hnbody, hnrest, hdisjoint⟩ := List.nodup_append.mp hnodup
    rcases List.mem_cons.mp harm with heq | hrest
    · cases heq
      exact ⟨List.subset_append_left _ _, hnbody, table, fun id hid =>
        find?_liveArms rest after _ fun hrest => hdisjoint id hid id hrest rfl⟩
    · obtain ⟨hsub, hninner, table₀, hpass⟩ := ih hrest hnrest (liveIn body after table).2
      exact ⟨fun id hid => List.mem_append_right _ (hsub hid), hninner, table₀, hpass⟩

/-- At every point of a program the table of a pass over the program has what the point calls
for. -/
theorem PointOf.noted {body : List FlowStmt} (hnodup : (numbersIn body).Nodup) {p : List Todo}
    (h : PointOf body p) : Noted (liveIn body [] []).2 p := by
  induction h with
  | start =>
    rw [← List.append_nil (body.map run)]
    exact noted_append (exact_nil _) hnodup (fun _ _ => rfl) trivial
  | next _ ih => exact ih.2.2
  | @arm info arms otherwise condition inner later _ harm ih =>
    obtain ⟨hnodup, ⟨after, table, hexact, hnoted⟩, hlater⟩ := ih
    simp only [numbers, List.nodup_cons] at hnodup hnoted
    rw [liveBefore_cond] at hnoted
    obtain ⟨-, hinside⟩ := inside_of_insert hnodup.1 hnoted
    obtain ⟨hnarms, -, hdisjoint⟩ := List.nodup_append.mp hnodup.2
    obtain ⟨hsub, hninner, table₀, hpass⟩ := exists_pass_arm harm hnarms after table
    -- the last branch has blocks of its own, so the facts on those of the arms are still there
    have hkept : ∀ id ∈ numbersIn inner, Bindings.find? (liveIn body [] []).2 id =
        Bindings.find? (liveIn inner after table₀).2 id := by
      intro id hid
      rw [hinside id (List.mem_append_left _ (hsub hid)), ← hpass id hid]
      exact find?_liveLast otherwise after _ fun hlast => hdisjoint id (hsub hid) id hlast rfl
    exact noted_append hexact hninner hkept hlater
  | last _ ih =>
    obtain ⟨hnodup, ⟨after, table, hexact, hnoted⟩, hlater⟩ := ih
    simp only [numbers, List.nodup_cons] at hnodup hnoted
    rw [liveBefore_cond] at hnoted
    obtain ⟨-, hinside⟩ := inside_of_insert hnodup.1 hnoted
    obtain ⟨-, hninner, -⟩ := List.nodup_append.mp hnodup.2
    have hkept := fun id hid => hinside id (List.mem_append_right _ hid)
    exact noted_append hexact hninner hkept hlater
  | forIn _ ih =>
    obtain ⟨hnodup, ⟨after, table, hexact, hnoted⟩, -⟩ := ih
    obtain ⟨head, table₀, hhead, -, hinside⟩ := hexact.forHead hnodup hnoted
    exact noted_append hhead (List.nodup_cons.mp hnodup).2 hinside trivial
  | whileDo _ ih =>
    obtain ⟨hnodup, ⟨after, table, hexact, hnoted⟩, -⟩ := ih
    obtain ⟨head, table₀, hhead, -, hinside⟩ := hexact.whileHead hnodup hnoted
    exact noted_append hhead (List.nodup_cons.mp hnodup).2 hinside trivial

/-- By the facts noted on a block, the names are carried that are live after the block or, for a
loop, at the start of a round. -/
theorem Noted.carried_iff {b : FlowStmt} (h : Noted notes (run b :: later)) {info : BlockInfo}
    (hinfo : b.info? = some info) :
    ∃ live, Bindings.find? notes info.id = some live ∧
      ∀ x, BlockFacts.isCarried b.isLoop live x = true ↔
        Live x later ∨ b.isLoop = true ∧ Live x (round b :: later) := by
  obtain ⟨hnodup, ⟨after, table, hexact, hnoted⟩, -⟩ := h
  cases b with
  | act action span => cases hinfo
  | cond info arms otherwise =>
    cases hinfo
    simp only [numbers, List.nodup_cons] at hnodup hnoted
    rw [liveBefore_cond] at hnoted
    obtain ⟨hown, -⟩ := inside_of_insert hnodup.1 hnoted
    refine ⟨_, hown, fun x => ?_⟩
    simp [BlockFacts.isCarried, isLoop, hexact.mem_iff]
  | forIn info target source inner domain strategy =>
    cases hinfo
    obtain ⟨head, table₀, hhead, hown, hinside⟩ := hexact.forHead hnodup hnoted
    have hentry := hhead.append (List.nodup_cons.mp hnodup).2 hinside
    refine ⟨_, hown, fun x => BlockFacts.isCarried_loop.trans (or_congr hexact.mem_iff ?_)⟩
    rw [Names.mem_without, hentry.mem_iff, live_forRound, and_comm]
    exact (and_iff_right rfl).symm
  | whileDo info condition inner =>
    cases hinfo
    obtain ⟨head, table₀, hhead, hown, hinside⟩ := hexact.whileHead hnodup hnoted
    have hentry := hhead.append (List.nodup_cons.mp hnodup).2 hinside
    refine ⟨_, hown, fun x => BlockFacts.isCarried_loop.trans (or_congr hexact.mem_iff ?_)⟩
    rw [Names.mem_union, hentry.mem_iff, live_whileRound, or_comm]
    exact (and_iff_right rfl).symm

end Todo

/-! ## Converted functions -/

/-- What is noted on the block `b` fits the place in `body` where it stands, with `later` left to do
after it. The names assigned in `b` are shared out, in the order of their first assignments, between
those live after it or at the start of a round and the temporaries; the inputs of `b` are declared
before it, and a loop takes in all that it carries. -/
structure BlockInfo.Suits (info : BlockInfo) (params : List String) (body : List FlowStmt)
    (b : FlowStmt) (later : List Todo) : Prop where
  disjoint : ∀ x ∈ info.outputs, x ∉ info.temporaries
  shared : ∀ x, x ∈ info.outputs ∨ x ∈ info.temporaries ↔ ∃ s ∈ b.parts, x ∈ s.binds
  outputs_order : info.outputs.Pairwise b.AssignsFirst
  temporaries_order : info.temporaries.Pairwise b.AssignsFirst
  carried : ∀ x, x ∈ info.outputs ↔ (∃ s ∈ b.parts, x ∈ s.binds) ∧
    (Todo.Live x later ∨ b.isLoop = true ∧ Todo.Live x (.round b :: later))
  loop : b.isLoop = true → info.inputs = info.outputs ∧ ∀ v ∈ info.carried, v.declaredBefore = true
  conditional : b.isLoop = false → ∀ v ∈ info.carried, v.observed = true → v.declaredBefore = true
  assigned : ∀ x ∈ info.inputs, ∀ names,
    Todo.Path (body.map .run) names (.run b :: later) → x ∈ params ∨ x ∈ names

theorem FlowStmt.Judged.reflects {b : FlowStmt} {inside ended : Bool} {before after : Outlook}
    (h : b.Judged BlockInfo.Reflects inside before ended after) {info : BlockInfo}
    (hinfo : b.info? = some info) :
    ∃ live definite, definite.before = before.defined ∧
      info.Reflects b.isLoop b.assigned live definite := by
  cases b with
  | act action span => cases hinfo
  | cond info arms otherwise =>
    cases hinfo
    obtain ⟨entries, ends, entry, lastEnd, -, -, hreflects, -, -⟩ := h
    exact ⟨_, _, rfl, hreflects⟩
  | forIn info target source body domain strategy =>
    cases hinfo
    obtain ⟨-, -, -, head, entry, bodyEnded, defined, -, -, -, -, hreflects⟩ := h
    exact ⟨_, _, rfl, hreflects⟩
  | whileDo info condition body =>
    cases hinfo
    obtain ⟨-, -, head, entry, bodyEnded, defined, -, -, -, -, -, hreflects⟩ := h
    exact ⟨_, _, rfl, hreflects⟩

theorem BlockInfo.Reflects.inputs_before {info : BlockInfo} {isLoop : Bool} {assigned : List String}
    {live : LiveFacts} {definite : DefiniteFacts}
    (h : info.Reflects isLoop assigned live definite) {x : String} (hx : x ∈ info.inputs) :
    x ∈ definite.before := by
  obtain ⟨houtput, hloop | hbefore⟩ := h.inputs x hx
  · subst hloop
    exact h.before_of_loop houtput
  · exact hbefore.1

namespace FunctionDef

variable {f : FunctionDef} {options : Options} {f' : FlowFunction}

/-- What enters a block has been assigned on every way from the start of the function to it. -/
theorem mem_of_path (h : (f.convert options).result = .ok f') {b : FlowStmt} {info : BlockInfo}
    (hinfo : b.info? = some info) {later : List Todo} {names : List String}
    (hpath : Todo.Path (f'.body.map .run) names (.run b :: later)) {x : String}
    (hx : x ∈ info.inputs) : x ∈ f'.params.map Param.name ∨ x ∈ names := by
  obtain ⟨live, ended, defined, hjudged⟩ := convert_judged h
  have hstart : Todo.Secured BlockInfo.Reflects (f'.body.map .run ++ [])
      (Names.ofList (f'.params.map Param.name)) := Todo.secured_append hjudged fun _ => trivial
  rw [List.append_nil] at hstart
  obtain ⟨inside, before, ended, after, hbefore, hb, -⟩ := hstart.path hpath
  obtain ⟨live, definite, hdefinite, hreflects⟩ := hb.reflects hinfo
  have hmem := hbefore (hdefinite ▸ hreflects.inputs_before hx)
  exact (List.mem_append.mp hmem).imp_left Names.mem_ofList.mp

theorem suits_of_point (h : (f.convert options).result = .ok f') {b : FlowStmt} (hb : b ∈ f'.blocks)
    {info : BlockInfo} (hinfo : b.info? = some info) {later : List Todo}
    (hpoint : Todo.PointOf f'.body (.run b :: later)) :
    info.Suits (f'.params.map Param.name) f'.body b later := by
  obtain ⟨k, hnumbers⟩ := numbersIn_convert h
  have hnodup : (FlowStmt.numbersIn f'.body).Nodup := hnumbers ▸ List.nodup_range
  obtain ⟨live, hlive, hcarried⟩ := (hpoint.noted hnodup).carried_iff hinfo
  obtain ⟨definite, hrecords⟩ := convert_block h hb hinfo hlive
  refine ⟨fun x hx => ?_, fun x => ?_, ?_, ?_, fun x => ?_, fun hloop => ?_, fun _ v hv => ?_,
    fun x hx names hpath => mem_of_path h hinfo hpath hx⟩
  · rw [hrecords.outputs_eq, List.mem_filter] at hx
    simp [hrecords.temporaries, hx]
  · rw [hrecords.outputs_eq, hrecords.temporaries, ← FlowStmt.mem_modified_iff]
    cases hx : BlockFacts.isCarried b.isLoop live x <;> simp [hx]
  · rw [hrecords.outputs_eq]
    exact b.pairwise_modified.filter _
  · rw [hrecords.temporaries]
    exact b.pairwise_modified.filter _
  · rw [hrecords.outputs_eq, List.mem_filter, hcarried, FlowStmt.mem_modified_iff]
  · refine ⟨hrecords.inputs_eq hloop, fun v hv => hrecords.declared hv ?_⟩
    rw [(hrecords.flags hv).2.2, hloop, Bool.true_or]
  · exact hrecords.declared hv

/-- The blocks of a function that converts are numbered from zero on in the order of the text, and
what is noted on each fits the place where it stands. -/
theorem blocks_suit_their_places (h : (f.convert options).result = .ok f') :
    f'.infos.map BlockInfo.id = List.range f'.infos.length ∧
      ∀ b ∈ f'.blocks, ∀ info, b.info? = some info →
        (∃ later, Todo.PointOf f'.body (.run b :: later)) ∧
          ∀ later, Todo.PointOf f'.body (.run b :: later) →
            info.Suits (f'.params.map Param.name) f'.body b later := by
  refine ⟨?_, fun b hb info hinfo => ⟨Todo.exists_point hb, fun later => suits_of_point h hb hinfo⟩⟩
  obtain ⟨k, hnumbers⟩ := numbersIn_convert h
  have hids : f'.infos.map BlockInfo.id = List.range k := by
    rw [← hnumbers, FlowStmt.numbersIn_eq, FlowFunction.infos, List.map_filterMap]
    rfl
  rw [hids, ← List.length_map, hids, List.length_range]

/-! A conditional in a loop, with a name that one of its branches assigns for itself, and a loop
after them. -/

def sift : FunctionDef :=
  ⟨"sift", [⟨"n", none⟩, ⟨"limit", none⟩],
    [.act (.assign (.name "total") (.literal (.int 0))) .unknown,
      .forIn (.name "i") (.call .range [.var "n"])
        [.choose
          [⟨.binary .lt (.var "i") (.var "limit"),
            [.act (.assign (.name "twice") (.binary .add (.var "i") (.var "i"))) .unknown,
              .act (.update "total" .add (.var "twice")) .unknown], .unknown⟩]
          (some [.act (.update "total" .add (.var "limit")) .unknown]) .unknown] .unknown,
      .whileDo (.binary .lt (.var "limit") (.var "total"))
        [.act (.assign (.name "rest") (.binary .sub (.var "total") (.var "limit"))) .unknown,
          .act (.assign (.name "total") (.var "rest")) .unknown] .unknown,
      .act (.ret (some (.var "total"))) .unknown], none, none, .unknown⟩

theorem blocks_suit_their_places_sift :
    ∃ g, (sift.convert {}).result = .ok g ∧
      g.infos.map (fun info => (info.id, info.outputs, info.temporaries)) =
        [(0, ["total"], ["i", "twice"]), (1, ["total"], ["twice"]), (2, ["total"], ["rest"])] ∧
      g.infos.map BlockInfo.id = List.range g.infos.length ∧
      ∃ b ∈ g.blocks, ∃ info later, b.info? = some info ∧ info.id = 1 ∧
        Todo.PointOf g.body (.run b :: later) ∧ info.Suits ["n", "limit"] g.body b later ∧
        ¬ Todo.Live "twice" later := by
  have hnotes : (sift.convert {}).result.toOption.map (fun g => (g.params.map Param.name,
      g.infos.map fun info => (info.id, info.outputs, info.temporaries))) =
      some (["n", "limit"], [(0, ["total"], ["i", "twice"]), (1, ["total"], ["twice"]),
        (2, ["total"], ["rest"])]) := by decide +kernel
  rcases hresult : (sift.convert {}).result with e | g
  · rw [hresult] at hnotes
    cases hnotes
  · rw [hresult] at hnotes
    obtain ⟨hparams, hinfos⟩ := Prod.mk.inj (Option.some.inj hnotes)
    obtain ⟨hids, hblocks⟩ := blocks_suit_their_places hresult
    obtain ⟨info, hmem, hinfo⟩ : ∃ info ∈ g.infos,
        (info.id, info.outputs, info.temporaries) = (1, ["total"], ["twice"]) :=
      List.mem_map.mp (by rw [hinfos]; decide)
    simp only [Prod.mk.injEq] at hinfo
    obtain ⟨hid, houtputs, htemporaries⟩ := hinfo
    obtain ⟨b, hb, hnoted⟩ := List.mem_filterMap.mp hmem
    obtain ⟨⟨later, hpoint⟩, hsuits⟩ := hblocks b hb info hnoted
    have hplace := hsuits later hpoint
    have htwice : ∃ s ∈ b.parts, "twice" ∈ s.binds :=
      (hplace.shared "twice").mp (.inr (by rw [htemporaries]; decide))
    refine ⟨g, rfl, hinfos, hids, b, hb, info, later, hnoted, hid, hpoint, hparams ▸ hplace, ?_⟩
    intro hlive
    have hcarried := (hplace.carried "twice").mpr ⟨htwice, .inl hlive⟩
    rw [houtputs] at hcarried
    exact absurd hcarried (by decide)

end FunctionDef

end StagedFlow
