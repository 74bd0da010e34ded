import StagedFlow.Flow.Convert
import StagedFlow.Proofs.Threading

/-!
Converted functions hand on what is live: the blocks are numbered one after the other, so each gets
the facts that were found on it, and what comes later changes no name that a block carries. Main
definitions: `BlockInfo.Hands`, `FlowStmt.outline`. Main results: `numbersIn_lowerAll`,
`Analysis.annotate_threads`, `FunctionDef.convert_threads`.
-/
set_option autoImplicit false

namespace StagedFlow

/-! ## Numbers -/

section

open FlowStmt

mutual

theorem numbers_lower : ∀ (l : Lowering) (s : Stmt) (id : Nat),
    ∃ k, (s.lower l id).2.1 = id + k ∧ (s.lower l id).1.numbers = List.range' id k
  | _, .act _ _, id => ⟨0, rfl, rfl⟩
  | l, .choose arms none span, id => by
    obtain ⟨k, hnext, harms⟩ :=
      armNumbers_lowerArms (l.inside (l.opened id .conditional span)) arms (id + 1)
    refine ⟨k + 1, ?_, ?_⟩
    · simp only [Stmt.lower, hnext]
      omega
    · simp only [Stmt.lower, numbers, lastNumbers, List.append_nil, harms]
      rfl
  | l, .choose arms (some body) span, id => by
    obtain ⟨k, hnext, harms⟩ :=
      armNumbers_lowerArms (l.inside (l.opened id .conditional span)) arms (id + 1)
    obtain ⟨m, hlast, hbody⟩ :=
      numbersIn_lowerAll (l.inside (l.opened id .conditional span)) body (id + 1 + k)
    refine ⟨k + m + 1, ?_, ?_⟩
    · simp only [Stmt.lower, hnext, hlast]
      omega
    · simp only [Stmt.lower, numbers, lastNumbers, hnext, harms, hbody, List.range'_append_1]
      rfl
  | l, .forIn target source body span, id => by
    obtain ⟨k, hnext, hbody⟩ :=
      numbersIn_lowerAll (l.inside (l.opened id .countedLoop span)) body (id + 1)
    refine ⟨k + 1, ?_, ?_⟩
    · simp only [Stmt.lower, hnext]
      omega
    · simp only [Stmt.lower, numbers, hbody]
      rfl
  | l, .whileDo condition body span, id => by
    obtain ⟨k, hnext, hbody⟩ :=
      numbersIn_lowerAll (l.inside (l.opened id .conditionalLoop span)) body (id + 1)
    refine ⟨k + 1, ?_, ?_⟩
    · simp only [Stmt.lower, hnext]
      omega
    · simp only [Stmt.lower, numbers, hbody]
      rfl

theorem armNumbers_lowerArms : ∀ (l : Lowering) (arms : List Arm) (id : Nat),
    ∃ k, (lowerArms l arms id).2.1 = id + k ∧
      armNumbers (lowerArms l arms id).1 = List.range' id k
  | _, [], _ => ⟨0, rfl, rfl⟩
  | l, ⟨condition, body, _⟩ :: rest, id => by
    obtain ⟨k, hnext, hbody⟩ := numbersIn_lowerAll l body id
    obtain ⟨m, hlast, hrest⟩ := armNumbers_lowerArms l rest (id + k)
    refine ⟨k + m, ?_, ?_⟩
    · simp only [lowerArms, hnext, hlast]
      omega
    · simp only [lowerArms, armNumbers, hnext, hbody, hrest, List.range'_append_1]

/-- Blocks are numbered one after the other. -/
theorem numbersIn_lowerAll : ∀ (l : Lowering) (body : List Stmt) (id : Nat),
    ∃ k, (lowerAll l body id).2.1 = id + k ∧
      numbersIn (lowerAll l body id).1 = List.range' id k
  | _, [], _ => ⟨0, rfl, rfl⟩
  | l, s :: rest, id => by
    obtain ⟨k, hnext, hs⟩ := numbers_lower l s id
    obtain ⟨m, hlast, hrest⟩ := numbersIn_lowerAll l rest (id + k)
    refine ⟨k + m, ?_, ?_⟩
    · simp only [lowerAll, hnext, hlast]
      omega
    · simp only [lowerAll, numbersIn, hnext, hs, hrest, List.range'_append_1]

end

theorem nodup_numbersIn_lowerAll (l : Lowering) (body : List Stmt) (id : Nat) :
    (numbersIn (lowerAll l body id).1).Nodup := by
  obtain ⟨k, -, h⟩ := numbersIn_lowerAll l body id
  rw [h]
  exact List.nodup_range'

end

/-! ## Returns -/

def Action.isReturn : Action → Bool
  | ret _ => true
  | _ => false

namespace FlowStmt

mutual

/-- Whether no block is left by `return`: `inside` a block, no statement returns. -/
def stays (inside : Bool) : FlowStmt → Bool
  | act action _ => !(inside && action.isReturn)
  | cond _ arms otherwise => armsStay arms && lastStays otherwise
  | forIn _ _ _ body _ _ => allStay true body
  | whileDo _ _ body => allStay true body

def armsStay : List FlowArm → Bool
  | [] => true
  | ⟨_, body⟩ :: rest => allStay true body && armsStay rest

def lastStays : Option (List FlowStmt) → Bool
  | none => true
  | some body => allStay true body

def allStay (inside : Bool) : List FlowStmt → Bool
  | [] => true
  | s :: rest => s.stays inside && allStay inside rest

end

end FlowStmt

theorem Lowering.not_isReturn {l : Lowering} {action : Action} (h : l.returnErrors action = []) :
    (l.around.isSome && action.isReturn) = false := by
  cases action with
  | ret value =>
    cases haround : l.around with
    | none => rfl
    | some around => simp [returnErrors, haround] at h
  | _ => simp [Action.isReturn]

mutual

theorem stays_lower : ∀ {l : Lowering} {s : Stmt} {id : Nat}, (s.lower l id).2.2 = [] →
    (s.lower l id).1.stays l.around.isSome = true
  | l, .act action span, id, h => by
    simp only [Stmt.lower, FlowStmt.stays, l.not_isReturn h, Bool.not_false]
  | l, .choose arms none span, id, h => by
    simp only [Stmt.lower] at h
    simp only [Stmt.lower, FlowStmt.stays, FlowStmt.lastStays, Bool.and_true]
    exact armsStay_lowerArms rfl h
  | l, .choose arms (some body) span, id, h => by
    simp only [Stmt.lower, List.append_eq_nil_iff] at h
    simp only [Stmt.lower, FlowStmt.stays, FlowStmt.lastStays, Bool.and_eq_true]
    exact ⟨armsStay_lowerArms rfl h.1, allStay_lowerAll h.2⟩
  | l, .forIn target source body span, id, h => by
    simp only [Stmt.lower] at h
    exact allStay_lowerAll h
  | l, .whileDo condition body span, id, h => by
    simp only [Stmt.lower] at h
    exact allStay_lowerAll h

theorem armsStay_lowerArms : ∀ {l : Lowering} {arms : List Arm} {id : Nat},
    l.around.isSome = true → (lowerArms l arms id).2.2 = [] →
      FlowStmt.armsStay (lowerArms l arms id).1 = true
  | _, [], _, _, _ => rfl
  | l, ⟨condition, body, _⟩ :: rest, id, hinside, h => by
    simp only [lowerArms, List.append_eq_nil_iff] at h
    have hbody := allStay_lowerAll h.1
    rw [hinside] at hbody
    have hrest := armsStay_lowerArms hinside h.2
    simp only [lowerArms, FlowStmt.armsStay, hbody, hrest, Bool.and_self]

/-- Where no `return` is out of place, none leaves a block. -/
theorem allStay_lowerAll : ∀ {l : Lowering} {body : List Stmt} {id : Nat},
    (lowerAll l body id).2.2 = [] →
      FlowStmt.allStay l.around.isSome (lowerAll l body id).1 = true
  | _, [], _, _ => rfl
  | l, s :: rest, id, h => by
    simp only [lowerAll, List.append_eq_nil_iff] at h
    have hs := stays_lower h.1
    have hrest := allStay_lowerAll h.2
    simp only [lowerAll, FlowStmt.allStay, hs, hrest, Bool.and_self]

end

/-! ## Facts on blocks -/

/-- A block hands on a name: the name leaves it, and enters it too if it is a loop. -/
def BlockInfo.Hands (isLoop : Bool) (info : BlockInfo) (x : String) : Prop :=
  x ∈ info.outputs ∧ (isLoop = true → x ∈ info.inputs)

namespace FlowStmt

mutual

theorem assigned_mapInfo (f : BlockInfo → BlockInfo) :
    ∀ s : FlowStmt, (s.mapInfo f).assigned = s.assigned
  | act _ _ => rfl
  | cond info arms none => by
    simp only [mapInfo, assigned, armsAssigned_mapInfoArms f arms]
  | cond info arms (some body) => by
    simp only [mapInfo, assigned, armsAssigned_mapInfoArms f arms, assignedIn_mapInfoAll f body]
  | forIn info target source body domain strategy => by
    simp only [mapInfo, assigned, assignedIn_mapInfoAll f body]
  | whileDo info condition body => by
    simp only [mapInfo, assigned, assignedIn_mapInfoAll f body]

theorem armsAssigned_mapInfoArms (f : BlockInfo → BlockInfo) :
    ∀ arms : List FlowArm, armsAssigned (mapInfoArms f arms) = armsAssigned arms
  | [] => rfl
  | ⟨condition, body⟩ :: rest => by
    simp only [mapInfoArms, armsAssigned, assignedIn_mapInfoAll f body,
      armsAssigned_mapInfoArms f rest]

theorem assignedIn_mapInfoAll (f : BlockInfo → BlockInfo) :
    ∀ body : List FlowStmt, assignedIn (mapInfoAll f body) = assignedIn body
  | [] => rfl
  | s :: rest => by
    simp only [mapInfoAll, assignedIn, assigned_mapInfo f s, assignedIn_mapInfoAll f rest]

end

section

variable {f : BlockInfo → BlockInfo} {hands hands' : Bool → BlockInfo → String → Prop}

/-- On the block `b`, what is handed on by the facts before is handed on by those after `f`. -/
def HandsOver (f : BlockInfo → BlockInfo) (hands hands' : Bool → BlockInfo → String → Prop)
    (b : FlowStmt) : Prop :=
  ∀ info, b.info? = some info → ∀ x ∈ b.assigned, hands b.isLoop info x →
    hands' b.isLoop (f info) x

mutual

theorem Threads.mapInfo : ∀ {s : FlowStmt} {before after : List String},
    (∀ b ∈ s.blocks, HandsOver f hands hands' b) → s.Threads hands before after →
      (s.mapInfo f).Threads hands' before after
  | act _ _, _, _, _, h => h
  | cond info arms none, before, after, hover, h => by
    obtain ⟨harms, hlast, hhands⟩ := h
    simp only [blocks, List.append_nil, List.forall_mem_cons] at hover
    refine ⟨armsThread_mapInfoArms hover.2 harms, hlast, fun x hx hxa => ?_⟩
    have hx : x ∈ (cond info arms none).assigned := assigned_mapInfo f (cond info arms none) ▸ hx
    exact hover.1 info rfl x hx (hhands x hx hxa)
  | cond info arms (some body), before, after, hover, h => by
    obtain ⟨harms, hlast, hhands⟩ := h
    simp only [blocks, List.forall_mem_cons, List.forall_mem_append] at hover
    refine ⟨armsThread_mapInfoArms hover.2.1 harms, allThread_mapInfoAll hover.2.2 hlast,
      fun x hx hxa => ?_⟩
    have hx : x ∈ (cond info arms (some body)).assigned :=
      assigned_mapInfo f (cond info arms (some body)) ▸ hx
    exact hover.1 info rfl x hx (hhands x hx hxa)
  | forIn info target source body domain strategy, before, after, hover, h => by
    obtain ⟨hsource, head, entry, hafter, hbefore, hbody, hentry, hhands⟩ := h
    simp only [blocks, List.forall_mem_cons] at hover
    refine ⟨hsource, head, entry, hafter, hbefore, allThread_mapInfoAll hover.2 hbody, hentry,
      fun x hx hxh => ?_⟩
    have hx : x ∈ (forIn info target source body domain strategy).assigned :=
      assigned_mapInfo f (forIn info target source body domain strategy) ▸ hx
    exact hover.1 info rfl x hx (hhands x hx hxh)
  | whileDo info condition body, before, after, hover, h => by
    obtain ⟨head, entry, hafter, hbefore, hbody, hentry, huses, hhands⟩ := h
    simp only [blocks, List.forall_mem_cons] at hover
    refine ⟨head, entry, hafter, hbefore, allThread_mapInfoAll hover.2 hbody, hentry, huses,
      fun x hx hxh => ?_⟩
    have hx : x ∈ (whileDo info condition body).assigned :=
      assigned_mapInfo f (whileDo info condition body) ▸ hx
    exact hover.1 info rfl x hx (hhands x hx hxh)

theorem armsThread_mapInfoArms : ∀ {arms : List FlowArm} {before after : List String},
    (∀ b ∈ armBlocks arms, HandsOver f hands hands' b) → armsThread hands arms before after →
      armsThread hands' (mapInfoArms f arms) before after
  | [], _, _, _, _ => trivial
  | ⟨_, _⟩ :: _, _, _, hover, h => by
    simp only [armBlocks, List.forall_mem_append] at hover
    exact ⟨h.1, allThread_mapInfoAll hover.1 h.2.1, armsThread_mapInfoArms hover.2 h.2.2⟩

theorem allThread_mapInfoAll : ∀ {body : List FlowStmt} {before after : List String},
    (∀ b ∈ blocksOf body, HandsOver f hands hands' b) → allThread hands body before after →
      allThread hands' (mapInfoAll f body) before after
  | [], _, _, _, h => h
  | _ :: _, _, _, hover, ⟨mid, hs, hrest⟩ => by
    simp only [blocksOf, List.forall_mem_append] at hover
    exact ⟨mid, hs.mapInfo hover.1, allThread_mapInfoAll hover.2 hrest⟩

end

end

mutual

theorem numbers_eq : ∀ s : FlowStmt, s.numbers = s.blocks.filterMap (·.info?.map BlockInfo.id)
  | act _ _ => rfl
  | cond info arms none => by
    simp [numbers, lastNumbers, blocks, info?, armNumbers_eq arms]
  | cond info arms (some body) => by
    simp [numbers, lastNumbers, blocks, info?, armNumbers_eq arms, numbersIn_eq body]
  | forIn info target source body domain strategy => by
    simp [numbers, blocks, info?, numbersIn_eq body]
  | whileDo info condition body => by
    simp [numbers, blocks, info?, numbersIn_eq body]

theorem armNumbers_eq : ∀ arms : List FlowArm,
    armNumbers arms = (armBlocks arms).filterMap (·.info?.map BlockInfo.id)
  | [] => rfl
  | ⟨_, body⟩ :: rest => by
    simp [armNumbers, armBlocks, numbersIn_eq body, armNumbers_eq rest]

theorem numbersIn_eq : ∀ body : List FlowStmt,
    numbersIn body = (blocksOf body).filterMap (·.info?.map BlockInfo.id)
  | [] => rfl
  | s :: rest => by
    simp [numbersIn, blocksOf, numbers_eq s, numbersIn_eq rest]

end

end FlowStmt

namespace Analysis

open FlowStmt

variable {body : List FlowStmt}

/-- Each block has the facts that were found on it, since no other block has its number. -/
theorem find?_facts (params : List String) (hnodup : (numbersIn body).Nodup) {b : FlowStmt}
    (hb : b ∈ blocksOf body) {info : BlockInfo} (hinfo : b.info? = some info) :
    Bindings.find? (Analysis.of params body).facts info.id =
      some (.of b ((Bindings.find? (liveIn body [] []).2 info.id).getD ⟨[], []⟩)
        ((Bindings.find? (defineAll body (Names.ofList params) []).2.2 info.id).getD
          ⟨[], []⟩)) := by
  refine Bindings.find?_of_mem ?_ ?_
  · rw [numbersIn_eq] at hnodup
    simpa [Analysis.of, List.map_filterMap, factsOn, Function.comp_def] using hnodup
  · simp only [Analysis.of, List.mem_map, List.mem_filterMap]
    exact ⟨_, ⟨b, hb, by rw [factsOn, hinfo]; rfl⟩, rfl⟩

theorem handsOver_annotateInfo (params : List String) (hnodup : (numbersIn body).Nodup)
    {b : FlowStmt} (hb : b ∈ blocksOf body) :
    HandsOver (Analysis.of params body).annotateInfo (LiveTable.Carries (liveIn body [] []).2)
      BlockInfo.Hands b := by
  intro info hinfo x hx ⟨facts, hfacts, hcarried⟩
  have hfind := find?_facts params hnodup hb hinfo
  rw [hfacts, Option.getD_some] at hfind
  generalize (Bindings.find? _ info.id).getD _ = definite at hfind
  have hmem : x ∈ b.modified.filter (BlockFacts.isCarried b.isLoop facts) :=
    List.mem_filter.mpr ⟨Names.mem_ofList.mpr hx, hcarried⟩
  have hvar : BlockFacts.carriedVar b.isLoop facts definite x ∈
      ((Analysis.of params body).annotateInfo info).carried := by
    rw [annotateInfo, hfind]
    exact List.mem_map_of_mem hmem
  refine ⟨List.mem_map_of_mem hvar, fun hloop => ?_⟩
  have hobserved : (BlockFacts.carriedVar b.isLoop facts definite x).observed = true := by
    rw [hloop]
    rfl
  exact List.mem_map_of_mem (List.mem_filter.mpr ⟨hvar, hobserved⟩)

/-- The blocks of an analysed function hand on what is live. -/
theorem annotate_threads (params : List String) (hnodup : (numbersIn body).Nodup) :
    allThread BlockInfo.Hands ((Analysis.of params body).annotate body)
      (liveIn body [] []).1 [] := by
  have hlive := threads_liveIn body [] [] hnodup fun id _ => rfl
  exact allThread_mapInfoAll (fun b hb => handsOver_annotateInfo params hnodup hb) hlive

end Analysis

/-! ## What stays -/

/-- A block without the classes of its variables. -/
def BlockInfo.outline (b : BlockInfo) : BlockInfo :=
  { b with carried := b.carried.map fun v => { v with initial := .unknown, produced := [] } }

@[simp] theorem BlockInfo.outputs_outline (b : BlockInfo) : b.outline.outputs = b.outputs := by
  simp [outline, outputs, Function.comp_def]

@[simp] theorem BlockInfo.inputs_outline (b : BlockInfo) : b.outline.inputs = b.inputs := by
  simp [outline, inputs, List.filter_map, Function.comp_def]

@[simp] theorem BlockInfo.outline_finish (b : BlockInfo) (entry : TypeEnv)
    (outcomes : List TypeEnv) : (b.finish entry outcomes).1.outline = b.outline := by
  simp [outline, finish, CarriedVar.withClasses, Function.comp_def]

theorem BlockInfo.hands_outline (isLoop : Bool) (b : BlockInfo) (x : String) :
    Hands isLoop b.outline x ↔ Hands isLoop b x := by
  simp [Hands]

namespace FlowStmt

mutual

/-- A statement without the classes of variables and the ways in which loops run. -/
def outline : FlowStmt → FlowStmt
  | act action span => act action span
  | cond info arms otherwise => cond info.outline (outlineArms arms) (outlineLast otherwise)
  | forIn info target source body _ _ =>
    forIn info.outline target source (outlineAll body) none .primitive
  | whileDo info condition body => whileDo info.outline condition (outlineAll body)

def outlineArms : List FlowArm → List FlowArm
  | [] => []
  | ⟨condition, body⟩ :: rest => ⟨condition, outlineAll body⟩ :: outlineArms rest

def outlineLast : Option (List FlowStmt) → Option (List FlowStmt)
  | none => none
  | some body => some (outlineAll body)

def outlineAll : List FlowStmt → List FlowStmt
  | [] => []
  | s :: rest => s.outline :: outlineAll rest

end

mutual

theorem outline_typed : ∀ (s : FlowStmt) (env : TypeEnv), (s.typed env).1.outline = s.outline
  | act _ _, _ => rfl
  | cond info arms none, env => by
    simp [typed, outline, outlineLast, outlineArms_typedArms arms env]
  | cond info arms (some body), env => by
    simp [typed, outline, outlineLast, outlineArms_typedArms arms env,
      outlineAll_typedAll body env]
  | forIn info target source body domain strategy, env => by
    simp [typed, outline, outlineAll_typedAll body]
  | whileDo info condition body, env => by
    simp [typed, outline, outlineAll_typedAll body env]

theorem outlineArms_typedArms : ∀ (arms : List FlowArm) (env : TypeEnv),
    outlineArms (typedArms arms env).1 = outlineArms arms
  | [], _ => rfl
  | ⟨_, body⟩ :: rest, env => by
    simp [typedArms, outlineArms, outlineAll_typedAll body env, outlineArms_typedArms rest env]

theorem outlineAll_typedAll : ∀ (body : List FlowStmt) (env : TypeEnv),
    outlineAll (typedAll body env).1 = outlineAll body
  | [], _ => rfl
  | s :: rest, env => by
    simp [typedAll, outlineAll, outline_typed s env, outlineAll_typedAll rest]

end

mutual

theorem outline_settled : ∀ s : FlowStmt, s.settled.outline = s.outline
  | act _ _ => rfl
  | cond info arms none => by
    simp [settled, outline, outlineLast, outlineArms_settledArms arms]
  | cond info arms (some body) => by
    simp [settled, outline, outlineLast, outlineArms_settledArms arms, outlineAll_settledAll body]
  | forIn info target source body domain strategy => by
    simp [settled, outline, outlineAll_settledAll body]
  | whileDo info condition body => by
    simp [settled, outline, outlineAll_settledAll body]

theorem outlineArms_settledArms : ∀ arms : List FlowArm,
    outlineArms (settledArms arms) = outlineArms arms
  | [] => rfl
  | ⟨_, body⟩ :: rest => by
    simp [settledArms, outlineArms, outlineAll_settledAll body, outlineArms_settledArms rest]

theorem outlineAll_settledAll : ∀ body : List FlowStmt,
    outlineAll (settledAll body) = outlineAll body
  | [] => rfl
  | s :: rest => by
    simp [settledAll, outlineAll, outline_settled s, outlineAll_settledAll rest]

end

mutual

theorem assigned_outline : ∀ s : FlowStmt, s.outline.assigned = s.assigned
  | act _ _ => rfl
  | cond info arms none => by
    simp [outline, outlineLast, assigned, armsAssigned_outlineArms arms]
  | cond info arms (some body) => by
    simp [outline, outlineLast, assigned, armsAssigned_outlineArms arms,
      assignedIn_outlineAll body]
  | forIn info target source body domain strategy => by
    simp [outline, assigned, assignedIn_outlineAll body]
  | whileDo info condition body => by
    simp [outline, assigned, assignedIn_outlineAll body]

theorem armsAssigned_outlineArms : ∀ arms : List FlowArm,
    armsAssigned (outlineArms arms) = armsAssigned arms
  | [] => rfl
  | ⟨_, body⟩ :: rest => by
    simp [outlineArms, armsAssigned, assignedIn_outlineAll body, armsAssigned_outlineArms rest]

theorem assignedIn_outlineAll : ∀ body : List FlowStmt,
    assignedIn (outlineAll body) = assignedIn body
  | [] => rfl
  | s :: rest => by
    simp [outlineAll, assignedIn, assigned_outline s, assignedIn_outlineAll rest]

end

mutual

theorem threads_outline : ∀ (s : FlowStmt) (before after : List String),
    s.outline.Threads BlockInfo.Hands before after ↔ s.Threads BlockInfo.Hands before after
  | act _ _, _, _ => Iff.rfl
  | cond info arms otherwise, before, after => by
    have hassigned := assigned_outline (cond info arms otherwise)
    rw [outline] at hassigned
    simp only [outline, Threads, hassigned, armsThread_outline arms, lastThreads_outline otherwise,
      BlockInfo.hands_outline]
  | forIn info target source body domain strategy, before, after => by
    have hassigned := assigned_outline (forIn info target source body domain strategy)
    rw [outline] at hassigned
    simp only [outline, Threads, hassigned, allThread_outline body, BlockInfo.hands_outline]
  | whileDo info condition body, before, after => by
    have hassigned := assigned_outline (whileDo info condition body)
    rw [outline] at hassigned
    simp only [outline, Threads, hassigned, allThread_outline body, BlockInfo.hands_outline]

theorem armsThread_outline : ∀ (arms : List FlowArm) (before after : List String),
    armsThread BlockInfo.Hands (outlineArms arms) before after ↔
      armsThread BlockInfo.Hands arms before after
  | [], _, _ => Iff.rfl
  | ⟨_, body⟩ :: rest, before, after => by
    simp only [outlineArms, armsThread, allThread_outline body, armsThread_outline rest]

theorem lastThreads_outline : ∀ (last : Option (List FlowStmt)) (before after : List String),
    lastThreads BlockInfo.Hands (outlineLast last) before after ↔
      lastThreads BlockInfo.Hands last before after
  | none, _, _ => Iff.rfl
  | some body, before, after => by
    simp only [outlineLast, lastThreads, allThread_outline body]

theorem allThread_outline : ∀ (body : List FlowStmt) (before after : List String),
    allThread BlockInfo.Hands (outlineAll body) before after ↔
      allThread BlockInfo.Hands body before after
  | [], _, _ => Iff.rfl
  | s :: rest, before, after => by
    simp only [outlineAll, allThread, threads_outline s, allThread_outline rest]

end

end FlowStmt

/-! ## Functions -/

/-- The statements of a function with its known conditionals folded away and its blocks numbered,
the next number, and what is wrong. -/
def FunctionDef.lowered (f : FunctionDef) : List FlowStmt × Nat × List Violation :=
  lowerAll f.lowering (foldAll f.body) 0

theorem Lowering.lower_eq_ok {l : Lowering} {body : List Stmt} {id : Nat}
    {result : List FlowStmt × Nat × List Violation} (h : l.lower body id = .ok result) :
    l.crash? body = none ∧ result = lowerAll l body id := by
  unfold lower at h
  split at h
  · cases h
  · next hcrash => exact ⟨hcrash, (Except.ok.inj h).symm⟩

/-- The statements of a function are numbered, unless a constant in it cannot be computed. -/
theorem FunctionDef.lower_cases (f : FunctionDef) :
    f.lower = .ok f.lowered ∨ ∃ reason, f.lower = .error (.crash reason) := by
  unfold lower
  split
  · next reason _ => exact Or.inr ⟨reason, rfl⟩
  · unfold Lowering.lower
    split
    · next reason _ => exact Or.inr ⟨reason, rfl⟩
    · exact Or.inl rfl

theorem FunctionDef.convert_of_lower {f : FunctionDef} (h : f.lower = .ok f.lowered)
    (options : Options) : f.convert options = f.analysed options f.lowered.1 f.lowered.2.2 := by
  simp only [convert, h]

theorem FunctionDef.convert_of_crash {f : FunctionDef} {reason : Crash}
    (h : f.lower = .error (.crash reason)) (options : Options) :
    f.convert options = ⟨.error (.crash reason), 0⟩ := by
  simp only [convert, h]

/-- A conversion works, finds something wrong, or crashes. -/
theorem FunctionDef.convert_cases (f : FunctionDef) (options : Options) :
    (∃ f', (f.convert options).result = .ok f') ∨
      (∃ vs, (f.convert options).result = .error (.error vs)) ∨
      ∃ reason, (f.convert options).result = .error (.crash reason) := by
  have hchosen : ∀ (errors : List Violation) (g : FlowFunction)
      (result : Except (Halt (List Violation)) FlowFunction),
      result = (if errors.isEmpty then .ok g else .error (.error errors)) →
      (∃ f', result = .ok f') ∨ ∃ vs, result = .error (.error vs) := by
    rintro errors g result rfl
    split
    · exact Or.inl ⟨g, rfl⟩
    · exact Or.inr ⟨errors, rfl⟩
  obtain hlower | ⟨reason, hcrash⟩ := f.lower_cases
  · rw [convert_of_lower hlower, ← or_assoc]
    exact Or.inl (hchosen _ _ _ rfl)
  · rw [convert_of_crash hcrash]
    exact Or.inr (Or.inr ⟨reason, rfl⟩)

/-- Only a function whose statements can be numbered is converted. -/
theorem FunctionDef.lower_of_convert {f : FunctionDef} {options : Options} {f' : FlowFunction}
    (h : (f.convert options).result = .ok f') : f.lower = .ok f.lowered := by
  obtain hlower | ⟨reason, hcrash⟩ := f.lower_cases
  · exact hlower
  · rw [convert_of_crash hcrash] at h
    cases h

theorem of_ite_eq_ok {ε α : Type} {c : Prop} [Decidable c] {a b : α} {e : ε}
    (h : (if c then Except.ok a else .error e) = .ok b) : c ∧ a = b := by
  by_cases hc : c
  · rw [if_pos hc] at h
    exact ⟨hc, Except.ok.inj h⟩
  · rw [if_neg hc] at h
    cases h

/-- A conversion that succeeds finds nothing wrong, and fills in what it found on the blocks. -/
theorem FunctionDef.convert_eq_ok {f : FunctionDef} {options : Options} {f' : FlowFunction}
    (h : (f.convert options).result = .ok f') :
    f.lowered.2.2 = [] ∧ f'.params = f.params ∧
      FlowStmt.outlineAll f'.body = FlowStmt.outlineAll
        ((Analysis.of (f.params.map Param.name) f.lowered.1).annotate f.lowered.1) := by
  rw [convert_of_lower (lower_of_convert h)] at h
  obtain ⟨hempty, rfl⟩ := of_ite_eq_ok h
  simp only [List.isEmpty_iff, List.append_eq_nil_iff] at hempty
  exact ⟨hempty.1.1, rfl,
    (FlowStmt.outlineAll_settledAll _).trans (FlowStmt.outlineAll_typedAll _ _)⟩

/-- The blocks of a converted function hand on what is live. -/
theorem FunctionDef.convert_threads {f : FunctionDef} {options : Options} {f' : FlowFunction}
    (h : (f.convert options).result = .ok f') :
    ∃ before, FlowStmt.allThread BlockInfo.Hands f'.body before [] := by
  obtain ⟨-, -, houtline⟩ := convert_eq_ok h
  have hnodup : (FlowStmt.numbersIn f.lowered.1).Nodup := nodup_numbersIn_lowerAll _ _ _
  have hthreads := Analysis.annotate_threads (f.params.map Param.name) hnodup
  refine ⟨(FlowStmt.liveIn f.lowered.1 [] []).1, ?_⟩
  -- what comes after the annotation changes types and strategies, which an outline leaves out
  rw [← FlowStmt.allThread_outline, houtline, FlowStmt.allThread_outline]
  exact hthreads

end StagedFlow
