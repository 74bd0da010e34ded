import StagedFlow.Proofs.Dataflow

/-!
What a conversion notes on the blocks of a function. The names that a block assigns come in the
order of their first assignments. Liveness does not depend on what is noted on blocks, so what is
found on the numbered statements is found on the converted ones too, and each block records what was
found at its number. Main definitions: `FlowStmt.parts`, `FlowStmt.AssignsFirst`,
`FlowStmt.outlineWith`, `BlockInfo.Records`. Main results: `FlowStmt.pairwise_modified`,
`FlowStmt.liveIn_outlineWith`, `FunctionDef.numbersIn_convert`, `FunctionDef.convert_block`.
-/
set_option autoImplicit false

namespace StagedFlow

/-! ## Order of first assignment -/

/-- Names are kept in the order in which they come for the first time. -/
theorem Names.pairwise_union {ns : Names} {seen more : List String}
    (hseen : ∀ x, x ∈ ns ↔ x ∈ seen)
    (h : ns.Pairwise fun x y => (seen ++ more).idxOf x < (seen ++ more).idxOf y) :
    (ns.union more).Pairwise fun x y => (seen ++ more).idxOf x < (seen ++ more).idxOf y := by
  induction more generalizing ns seen with
  | nil => exact h
  | cons name rest ih =>
    have hsplit : seen ++ name :: rest = (seen ++ [name]) ++ rest := by simp
    rw [hsplit]
    refine ih (fun x => by simp [hseen]) ?_
    rw [← hsplit, add]
    by_cases hname : name ∈ ns
    · rw [if_pos hname]
      exact h
    · rw [if_neg hname]
      refine List.pairwise_append.mpr ⟨h, List.pairwise_singleton _ _, fun x hx y hy => ?_⟩
      obtain rfl := List.mem_singleton.mp hy
      rw [List.idxOf_append, List.idxOf_append, if_pos ((hseen x).mp hx),
        if_neg fun hy => hname ((hseen y).mpr hy)]
      have hlt := List.idxOf_lt_length_iff.mpr ((hseen x).mp hx)
      omega

theorem Names.pairwise_ofList (names : List String) :
    (Names.ofList names).Pairwise fun x y => names.idxOf x < names.idxOf y := by
  have hnone : ∀ x, x ∈ ([] : Names) ↔ x ∈ ([] : List String) := fun _ => Iff.rfl
  exact Names.pairwise_union hnone .nil

namespace FlowStmt

mutual

/-- The statements in a statement, itself included, in the order of the text. -/
def parts : FlowStmt → List FlowStmt
  | act action span => [act action span]
  | cond info arms otherwise => cond info arms otherwise :: (armParts arms ++ lastParts otherwise)
  | forIn info target source body domain strategy =>
    forIn info target source body domain strategy :: partsOf body
  | whileDo info condition body => whileDo info condition body :: partsOf body

def armParts : List FlowArm → List FlowStmt
  | [] => []
  | ⟨_, body⟩ :: rest => partsOf body ++ armParts rest

def lastParts : Option (List FlowStmt) → List FlowStmt
  | none => []
  | some body => partsOf body

def partsOf : List FlowStmt → List FlowStmt
  | [] => []
  | s :: rest => s.parts ++ partsOf rest

end

/-- The names that a statement assigns itself: an action its own, a counted loop its target. -/
def binds : FlowStmt → List String
  | act action _ => action.assigned
  | forIn _ target _ _ _ _ => target.names
  | _ => []

/-- All assignments in a statement, in the order of the text. -/
def assignments (s : FlowStmt) : List String :=
  s.parts.flatMap binds

/-- The first assignment of `x` in a statement comes before that of `y`. -/
def AssignsFirst (s : FlowStmt) (x y : String) : Prop :=
  s.assignments.idxOf x < s.assignments.idxOf y

mutual

theorem flatMap_binds_parts : ∀ s : FlowStmt, s.parts.flatMap binds = s.assigned
  | act action span => by simp [parts, binds, assigned]
  | cond info arms otherwise => by
    rw [assigned_cond, ← flatMap_binds_armParts arms, ← flatMap_binds_lastParts otherwise]
    simp [parts, binds]
  | forIn info target source body domain strategy => by
    simp [parts, binds, assigned, flatMap_binds_partsOf body]
  | whileDo info condition body => by simp [parts, binds, assigned, flatMap_binds_partsOf body]

theorem flatMap_binds_armParts : ∀ arms : List FlowArm,
    (armParts arms).flatMap binds = armsAssigned arms
  | [] => rfl
  | ⟨_, body⟩ :: rest => by
    simp [armParts, armsAssigned, flatMap_binds_partsOf body, flatMap_binds_armParts rest]

theorem flatMap_binds_lastParts : ∀ otherwise : Option (List FlowStmt),
    (lastParts otherwise).flatMap binds = lastAssigned otherwise
  | none => rfl
  | some body => flatMap_binds_partsOf body

theorem flatMap_binds_partsOf : ∀ body : List FlowStmt,
    (partsOf body).flatMap binds = assignedIn body
  | [] => rfl
  | s :: rest => by
    simp [partsOf, assignedIn, flatMap_binds_parts s, flatMap_binds_partsOf rest]

end

theorem mem_modified_iff {s : FlowStmt} {x : String} :
    x ∈ s.modified ↔ ∃ part ∈ s.parts, x ∈ part.binds := by
  rw [modified, Names.mem_ofList, ← flatMap_binds_parts, List.mem_flatMap]

/-- The names that a statement may assign come in the order of their first assignments. -/
theorem pairwise_modified (s : FlowStmt) : s.modified.Pairwise s.AssignsFirst := by
  unfold AssignsFirst assignments
  rw [flatMap_binds_parts]
  exact Names.pairwise_ofList s.assigned

/-! ## What is noted on the blocks makes no difference -/

section Outline

variable (f : BlockInfo → BlockInfo)

mutual

/-- A statement with something else noted on its blocks, and without the ways in which loops run. -/
def outlineWith : FlowStmt → FlowStmt
  | act action span => act action span
  | cond info arms otherwise => cond (f info) (outlineArmsWith arms) (outlineLastWith otherwise)
  | forIn info target source body _ _ =>
    forIn (f info) target source (outlineAllWith body) none .primitive
  | whileDo info condition body => whileDo (f info) condition (outlineAllWith body)

def outlineArmsWith : List FlowArm → List FlowArm
  | [] => []
  | ⟨condition, body⟩ :: rest => ⟨condition, outlineAllWith body⟩ :: outlineArmsWith rest

def outlineLastWith : Option (List FlowStmt) → Option (List FlowStmt)
  | none => none
  | some body => some (outlineAllWith body)

def outlineAllWith : List FlowStmt → List FlowStmt
  | [] => []
  | s :: rest => s.outlineWith :: outlineAllWith rest

end

mutual

theorem outline_mapInfo : ∀ s : FlowStmt,
    (s.mapInfo f).outline = s.outlineWith fun info => (f info).outline
  | act _ _ => rfl
  | cond info arms none => by
    simp only [mapInfo, outline, outlineWith, outlineLast, outlineLastWith,
      outlineArms_mapInfoArms arms]
  | cond info arms (some body) => by
    simp only [mapInfo, outline, outlineWith, outlineLast, outlineLastWith,
      outlineArms_mapInfoArms arms, outlineAll_mapInfoAll body]
  | forIn info target source body domain strategy => by
    simp only [mapInfo, outline, outlineWith, outlineAll_mapInfoAll body]
  | whileDo info condition body => by
    simp only [mapInfo, outline, outlineWith, outlineAll_mapInfoAll body]

theorem outlineArms_mapInfoArms : ∀ arms : List FlowArm,
    outlineArms (mapInfoArms f arms) = outlineArmsWith (fun info => (f info).outline) arms
  | [] => rfl
  | ⟨_, body⟩ :: rest => by
    simp only [mapInfoArms, outlineArms, outlineArmsWith, outlineAll_mapInfoAll body,
      outlineArms_mapInfoArms rest]

theorem outlineAll_mapInfoAll : ∀ body : List FlowStmt,
    outlineAll (mapInfoAll f body) = outlineAllWith (fun info => (f info).outline) body
  | [] => rfl
  | s :: rest => by
    simp only [mapInfoAll, outlineAll, outlineAllWith, outline_mapInfo s,
      outlineAll_mapInfoAll rest]

end

end Outline

mutual

theorem outline_eq : ∀ s : FlowStmt, s.outline = s.outlineWith BlockInfo.outline
  | act _ _ => rfl
  | cond info arms otherwise => by
    simp only [outline, outlineWith, outlineArms_eq arms, outlineLast_eq otherwise]
  | forIn info target source body domain strategy => by
    simp only [outline, outlineWith, outlineAll_eq body]
  | whileDo info condition body => by simp only [outline, outlineWith, outlineAll_eq body]

theorem outlineArms_eq : ∀ arms : List FlowArm,
    outlineArms arms = outlineArmsWith BlockInfo.outline arms
  | [] => rfl
  | ⟨_, body⟩ :: rest => by
    simp only [outlineArms, outlineArmsWith, outlineAll_eq body, outlineArms_eq rest]

theorem outlineLast_eq : ∀ otherwise : Option (List FlowStmt),
    outlineLast otherwise = outlineLastWith BlockInfo.outline otherwise
  | none => rfl
  | some body => by simp only [outlineLast, outlineLastWith, outlineAll_eq body]

theorem outlineAll_eq : ∀ body : List FlowStmt,
    outlineAll body = outlineAllWith BlockInfo.outline body
  | [] => rfl
  | s :: rest => by simp only [outlineAll, outlineAllWith, outline_eq s, outlineAll_eq rest]

end

section

variable {f : BlockInfo → BlockInfo}

theorem info?_outlineWith (s : FlowStmt) : (s.outlineWith f).info? = s.info?.map f := by
  cases s <;> rfl

theorem isLoop_outlineWith (s : FlowStmt) : (s.outlineWith f).isLoop = s.isLoop := by
  cases s <;> rfl

mutual

theorem blocks_outlineWith : ∀ s : FlowStmt,
    (s.outlineWith f).blocks = s.blocks.map (outlineWith f)
  | act _ _ => rfl
  | cond info arms none => by
    simp [outlineWith, outlineLastWith, blocks, armBlocks_outlineWith arms]
  | cond info arms (some body) => by
    simp [outlineWith, outlineLastWith, blocks, armBlocks_outlineWith arms,
      blocksOf_outlineWith body]
  | forIn info target source body domain strategy => by
    simp [outlineWith, blocks, blocksOf_outlineWith body]
  | whileDo info condition body => by simp [outlineWith, blocks, blocksOf_outlineWith body]

theorem armBlocks_outlineWith : ∀ arms : List FlowArm,
    armBlocks (outlineArmsWith f arms) = (armBlocks arms).map (outlineWith f)
  | [] => rfl
  | ⟨_, body⟩ :: rest => by
    simp [outlineArmsWith, armBlocks, blocksOf_outlineWith body, armBlocks_outlineWith rest]

theorem blocksOf_outlineWith : ∀ body : List FlowStmt,
    blocksOf (outlineAllWith f body) = (blocksOf body).map (outlineWith f)
  | [] => rfl
  | s :: rest => by
    simp [outlineAllWith, blocksOf, blocks_outlineWith s, blocksOf_outlineWith rest]

end

mutual

theorem reads_outlineWith : ∀ s : FlowStmt, (s.outlineWith f).reads = s.reads
  | act _ _ => rfl
  | cond info arms none => by
    simp only [outlineWith, outlineLastWith, reads, armsRead_outlineWith arms]
  | cond info arms (some body) => by
    simp only [outlineWith, outlineLastWith, reads, armsRead_outlineWith arms,
      readIn_outlineWith body]
  | forIn info target source body domain strategy => by
    simp only [outlineWith, reads, readIn_outlineWith body]
  | whileDo info condition body => by simp only [outlineWith, reads, readIn_outlineWith body]

theorem armsRead_outlineWith : ∀ arms : List FlowArm,
    armsRead (outlineArmsWith f arms) = armsRead arms
  | [] => rfl
  | ⟨_, body⟩ :: rest => by
    simp only [outlineArmsWith, armsRead, readIn_outlineWith body, armsRead_outlineWith rest]

theorem readIn_outlineWith : ∀ body : List FlowStmt, readIn (outlineAllWith f body) = readIn body
  | [] => rfl
  | s :: rest => by
    simp only [outlineAllWith, readIn, reads_outlineWith s, readIn_outlineWith rest]

end

theorem numbersIn_outlineWith (hf : ∀ info, (f info).id = info.id) (body : List FlowStmt) :
    numbersIn (outlineAllWith f body) = numbersIn body := by
  have hid : ((·.info?.map BlockInfo.id) ∘ outlineWith f) = (·.info?.map BlockInfo.id) := by
    funext s
    simp [info?_outlineWith, Function.comp_def, hf]
  rw [numbersIn_eq, numbersIn_eq, blocksOf_outlineWith, List.filterMap_map, hid]

mutual

theorem liveBefore_outlineWith (hf : ∀ info, (f info).id = info.id) :
    ∀ (s : FlowStmt) (after : Names) (table : LiveTable),
    (s.outlineWith f).liveBefore after table = s.liveBefore after table
  | act _ _, _, _ => rfl
  | cond info arms otherwise, after, table => by
    simp only [outlineWith, liveBefore_cond, liveArms_outlineWith hf arms,
      liveLast_outlineWith hf otherwise, hf]
  | forIn info target source body domain strategy, after, table => by
    simp only [outlineWith, liveBefore, liveIn_outlineWith hf body, readIn_outlineWith body, hf]
  | whileDo info condition body, after, table => by
    simp only [outlineWith, liveBefore, liveIn_outlineWith hf body, readIn_outlineWith body, hf]

theorem liveArms_outlineWith (hf : ∀ info, (f info).id = info.id) :
    ∀ (arms : List FlowArm) (after : Names) (table : LiveTable),
    liveArms (outlineArmsWith f arms) after table = liveArms arms after table
  | [], _, _ => rfl
  | ⟨_, body⟩ :: rest, after, table => by
    simp only [outlineArmsWith, liveArms, liveIn_outlineWith hf body, liveArms_outlineWith hf rest]

theorem liveLast_outlineWith (hf : ∀ info, (f info).id = info.id) :
    ∀ (otherwise : Option (List FlowStmt)) (after : Names) (table : LiveTable),
    liveLast (outlineLastWith f otherwise) after table = liveLast otherwise after table
  | none, _, _ => rfl
  | some body, after, table => liveIn_outlineWith hf body after table

theorem liveIn_outlineWith (hf : ∀ info, (f info).id = info.id) :
    ∀ (body : List FlowStmt) (after : Names) (table : LiveTable),
    liveIn (outlineAllWith f body) after table = liveIn body after table
  | [], _, _ => rfl
  | s :: rest, after, table => by
    simp only [outlineAllWith, liveIn, liveBefore_outlineWith hf s, liveIn_outlineWith hf rest]

end

end

end FlowStmt

/-! ## Converted blocks -/

/-- A block has the variables that the facts around it call for, with its names in the order of
their first assignments, and each of those it carries can have a value. -/
structure BlockInfo.Records (info : BlockInfo) (b : FlowStmt) (live : LiveFacts)
    (definite : DefiniteFacts) : Prop where
  carried : info.outline.carried =
    (b.modified.filter (BlockFacts.isCarried b.isLoop live)).map
      (BlockFacts.carriedVar b.isLoop live definite)
  temporaries : info.temporaries =
    b.modified.filter fun x => !BlockFacts.isCarried b.isLoop live x
  valid : ∀ x ∈ b.modified, BlockFacts.isCarried b.isLoop live x = true →
    BlockFacts.invalidReason? b.isLoop live definite x = none

namespace BlockInfo.Records

variable {info : BlockInfo} {b : FlowStmt} {live : LiveFacts} {definite : DefiniteFacts}

theorem outputs_eq (h : info.Records b live definite) :
    info.outputs = b.modified.filter (BlockFacts.isCarried b.isLoop live) := by
  rw [← info.outputs_outline, outputs, h.carried, List.map_map]
  exact List.map_id _

/-- All that a loop carries enters it. -/
theorem inputs_eq (h : info.Records b live definite) (hloop : b.isLoop = true) :
    info.inputs = info.outputs := by
  rw [← info.inputs_outline, ← info.outputs_outline, inputs, outputs, h.carried]
  congr 1
  refine List.filter_eq_self.mpr fun v hv => ?_
  obtain ⟨x, -, rfl⟩ := List.mem_map.mp hv
  simp [BlockFacts.carriedVar, hloop]

/-- What is noted on a carried variable. -/
theorem flags (h : info.Records b live definite) {v : CarriedVar} (hv : v ∈ info.carried) :
    v.name ∈ info.outputs ∧ v.declaredBefore = decide (v.name ∈ definite.before) ∧
      v.observed = (b.isLoop || v.declaredBefore && BlockFacts.liveAtEntry live v.name) := by
  have hname : v.name ∈ info.outputs := List.mem_map_of_mem hv
  have hnoted : { v with initial := .unknown, produced := [] } ∈ info.outline.carried :=
    List.mem_map_of_mem hv
  rw [h.carried] at hnoted
  obtain ⟨x, -, hx⟩ := List.mem_map.mp hnoted
  simp only [BlockFacts.carriedVar, CarriedVar.mk.injEq, and_true] at hx
  obtain ⟨rfl, hdeclared, hobserved⟩ := hx
  exact ⟨hname, hdeclared.symm, by rw [← hobserved, ← hdeclared]⟩

/-- A variable that enters a block has a value before it. -/
theorem declared (h : info.Records b live definite) {v : CarriedVar} (hv : v ∈ info.carried)
    (hobserved : v.observed = true) : v.declaredBefore = true := by
  obtain ⟨hname, hdeclared, hobserves⟩ := h.flags hv
  cases hloop : b.isLoop with
  | true =>
    rw [h.outputs_eq, List.mem_filter] at hname
    have hvalid := h.valid v.name hname.1 hname.2
    rw [hloop] at hvalid
    rw [hdeclared, decide_eq_true (BlockFacts.mem_before_of_valid hvalid)]
  | false =>
    rw [hobserves, hloop, Bool.false_or, Bool.and_eq_true] at hobserved
    exact hobserved.1

end BlockInfo.Records

theorem BlockInfo.outline_id (info : BlockInfo) : info.outline.id = info.id := rfl

theorem Analysis.outline_annotateInfo_id (a : Analysis) (info : BlockInfo) :
    (a.annotateInfo info).outline.id = info.id := by
  rw [annotateInfo]
  cases Bindings.find? a.facts info.id <;> rfl

namespace FunctionDef

open FlowStmt

variable {f : FunctionDef} {options : Options} {f' : FlowFunction}

/-- After the blocks are numbered, a conversion changes only what is noted on them and the ways in
which loops run. -/
theorem outlineAll_convert (h : (f.convert options).result = .ok f') :
    outlineAllWith BlockInfo.outline f'.body = outlineAllWith
      (fun info => ((Analysis.of (f.params.map Param.name) f.lowered.1).annotateInfo info).outline)
      f.lowered.1 := by
  rw [← outlineAll_eq, (convert_eq_ok h).2.2, Analysis.annotate, outlineAll_mapInfoAll]

theorem liveIn_convert (h : (f.convert options).result = .ok f') (after : Names)
    (table : LiveTable) : liveIn f'.body after table = liveIn f.lowered.1 after table := by
  have hbody := liveIn_outlineWith BlockInfo.outline_id f'.body after table
  rw [outlineAll_convert h] at hbody
  exact hbody.symm.trans (liveIn_outlineWith (Analysis.outline_annotateInfo_id _) _ _ _)

/-- The blocks of a converted function have the numbers from zero on, in the order of the text. -/
theorem numbersIn_convert (h : (f.convert options).result = .ok f') :
    ∃ k, numbersIn f'.body = List.range k := by
  have hbody := numbersIn_outlineWith BlockInfo.outline_id f'.body
  rw [outlineAll_convert h, numbersIn_outlineWith (Analysis.outline_annotateInfo_id _)] at hbody
  obtain ⟨k, -, hrange⟩ := numbersIn_lowerAll f.lowering (foldAll f.body) 0
  exact ⟨k, by rw [← hbody, List.range_eq_range', ← hrange, lowered]⟩

/-- Each block of a converted function comes from a numbered one. -/
theorem exists_lowered (h : (f.convert options).result = .ok f') {b : FlowStmt}
    (hb : b ∈ f'.blocks) : ∃ b₀ ∈ blocksOf f.lowered.1, b.outline =
      (b₀.mapInfo (Analysis.of (f.params.map Param.name) f.lowered.1).annotateInfo).outline := by
  have hmem : b.outline ∈ blocksOf (outlineAllWith BlockInfo.outline f'.body) := by
    rw [outline_eq, blocksOf_outlineWith]
    exact List.mem_map_of_mem hb
  rw [outlineAll_convert h, blocksOf_outlineWith] at hmem
  obtain ⟨b₀, hb₀, heq⟩ := List.mem_map.mp hmem
  exact ⟨b₀, hb₀, by rw [← heq, outline_mapInfo]⟩

/-- Each block of a converted function records what was found at its number. -/
theorem convert_block (h : (f.convert options).result = .ok f') {b : FlowStmt}
    (hb : b ∈ f'.blocks) {info : BlockInfo} (hinfo : b.info? = some info) {live : LiveFacts}
    (hlive : Bindings.find? (liveIn f'.body [] []).2 info.id = some live) :
    ∃ definite, info.Records b live definite := by
  obtain ⟨b₀, hb₀, houtline⟩ := exists_lowered h hb
  have hnodup : (numbersIn f.lowered.1).Nodup := nodup_numbersIn_lowerAll _ _ _
  -- the two blocks differ in what is noted on them only
  have hloop : b.isLoop = b₀.isLoop := by
    rw [← isLoop_outlineWith b, ← outline_eq, houtline, outline_mapInfo, isLoop_outlineWith]
  have hmodified : b.modified = b₀.modified := by
    rw [modified, modified, ← assigned_outline b, houtline, assigned_outline, assigned_mapInfo]
  obtain ⟨info₀, hinfo₀, hnoted⟩ : ∃ info₀, b₀.info? = some info₀ ∧
      ((Analysis.of (f.params.map Param.name) f.lowered.1).annotateInfo info₀).outline =
        info.outline := by
    have hsome : b.outline.info? = some info.outline := by
      rw [outline_eq, info?_outlineWith, hinfo, Option.map_some]
    rw [houtline, outline_mapInfo, info?_outlineWith] at hsome
    exact Option.map_eq_some_iff.mp hsome
  have hid : info₀.id = info.id := by
    rw [← info.outline_id, ← hnoted, Analysis.outline_annotateInfo_id]
  rw [liveIn_convert h, ← hid] at hlive
  have hfind := Analysis.find?_facts (f.params.map Param.name) hnodup hb₀ hinfo₀
  obtain ⟨definite, hdefinite⟩ : ∃ definite, (Bindings.find? (defineAll f.lowered.1
      (Names.ofList (f.params.map Param.name)) []).2.2 info₀.id).getD ⟨[], []⟩ = definite :=
    ⟨_, rfl⟩
  rw [hlive, Option.getD_some, hdefinite] at hfind
  rw [Analysis.annotateInfo, hfind] at hnoted
  refine ⟨definite, ?_, ?_, fun x hx hcarried => ?_⟩
  · rw [← hnoted, hloop, hmodified]
    simp [BlockInfo.outline, BlockFacts.of, BlockFacts.carriedVar, Function.comp_def]
  · rw [hloop, hmodified]
    exact (congrArg BlockInfo.temporaries hnoted).symm
  · rw [hmodified] at hx
    rw [hloop] at hcarried ⊢
    exact Analysis.valid_of_errors (convert_errors h) hb₀ hinfo₀ (by rw [hlive, Option.getD_some])
      hdefinite hx hcarried

end FunctionDef

end StagedFlow
