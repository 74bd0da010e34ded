import Mathlib.Data.List.Induction
import StagedFlow.Proofs.Binding
import StagedFlow.Proofs.ResultTypes

/-!
The class of a variable after a conditional. The classes at the ends of the branches are joined, and
a join that is not unknown differs from the classes it was made of in one way only: where they leave
the element type of an array open, it may name one. So a class that fits what its branch makes can
be lost in the join, and this is shown to be the only way on the host. In the graph an array without
axes also loses its class, for what stands for it is a scalar. Main definitions:
`TypeClass.Refines`, `FlowStmt.branches`, `Setting.Took`. Main results:
`CarriedVar.refines_merged`, `Setting.delivers_took`, `Setting.class_lost_iff`.
-/
set_option autoImplicit false

namespace StagedFlow

/-! ## Joins of classes -/

namespace TypeClass

/-- The second class is the first, or names the element type that the first leaves open. -/
inductive Refines : TypeClass → TypeClass → Prop
  | refl (c : TypeClass) : Refines c c
  | named (e : ElemType) : Refines (array none) (array (some e))

variable {a b c m : TypeClass} {v w : Value}

theorem Refines.trans (hab : a.Refines b) (hbc : b.Refines c) : a.Refines c := by
  cases hab with
  | refl => exact hbc
  | named e =>
    cases hbc
    exact .named e

theorem Refines.eq_unknown (h : unknown.Refines c) : c = unknown := by
  cases h
  rfl

theorem join_refined (a b : TypeClass) :
    a.join b = unknown ∨ a.Refines (a.join b) ∧ b.Refines (a.join b) := by
  unfold join
  by_cases hab : a = b
  · rw [if_pos hab]
    exact .inr ⟨.refl a, hab ▸ .refl a⟩
  rw [if_neg hab]
  split
  · next x y =>
    by_cases hxy : compatible (array x) (array y) = true
    · rw [if_pos hxy]
      refine .inr ?_
      -- at least one side is open, for two named element types would have to agree
      cases x with
      | none =>
        cases y with
        | none => exact absurd rfl hab
        | some e => exact ⟨.named e, .refl _⟩
      | some e =>
        cases y with
        | none => exact ⟨.refl _, .named e⟩
        | some e' =>
          have he : e = e' := by simpa [compatible] using hxy
          exact absurd (he ▸ rfl) hab
    · rw [if_neg hxy]
      exact .inl rfl
  · exact .inl rfl

/-- A join of many classes is unknown, or each of them became it by naming an element type. -/
theorem foldl_join_refined (classes : List TypeClass) (start : TypeClass) :
    classes.foldl join start = unknown ∨
      start.Refines (classes.foldl join start) ∧
        ∀ c ∈ classes, c.Refines (classes.foldl join start) := by
  induction classes generalizing start with
  | nil => exact .inr ⟨.refl start, fun c hc => by cases hc⟩
  | cons c rest ih =>
    rw [List.foldl_cons]
    rcases ih (start.join c) with hunknown | ⟨hjoin, hrest⟩
    · exact .inl hunknown
    rcases join_refined start c with hstart | ⟨hstart, hc⟩
    · rw [hstart] at hjoin ⊢
      exact .inl hjoin.eq_unknown
    · refine .inr ⟨hstart.trans hjoin, fun d hd => ?_⟩
      rcases List.mem_cons.mp hd with rfl | hd
      · exact hc.trans hjoin
      · exact hrest d hd

/-- Of a value that is there, the class is known, and with it the element type of an array. -/
theorem ofValue_ne (v : Value) : ofValue v ≠ unknown ∧ ofValue v ≠ array none := by
  cases v with
  | traced id type =>
    simp only [ofValue, ofArrayType]
    split <;> simp
  | _ => simp [ofValue]

/-- A class that an open class became by naming an element type still fits a value, unless the value
is an array of other elements. -/
theorem Refines.misfits_iff (h : a.Refines m) (hv : a.compatible (ofValue v) = true) :
    m.compatible (ofValue v) = false ↔
      a = array none ∧ ∃ e e', m = array (some e) ∧ ofValue v = array (some e') ∧ e ≠ e' := by
  cases h with
  | refl =>
    rw [hv]
    constructor
    · intro hfalse
      cases hfalse
    · rintro ⟨rfl, e, e', hm, -, -⟩
      cases hm
  | named e =>
    obtain ⟨hknown, hnamed⟩ := ofValue_ne v
    cases hof : ofValue v with
    | array elem =>
      cases elem with
      | none => exact absurd hof hnamed
      | some e' => simp [compatible]
    | unknown => exact absurd hof hknown
    | _ =>
      rw [hof] at hv
      cases hv

/-- A placeholder for an array without axes is a scalar. -/
theorem ofValue_standing_flat {r : NDArray} (h : w.StandsFor (.array r))
    (htraced : w.isTraced = true) (hshape : r.shape = []) : ofValue w = scalar r.elem := by
  rcases h with rfl | ⟨id, type, htype, rfl⟩
  · cases htraced
  · cases htype
    simp [ofValue, ofArrayType, NDArray.type, ArrayType.isScalar, hshape]

/-- Whatever else stands for a value has its class. -/
theorem ofValue_standing (h : w.StandsFor v)
    (hflat : ¬∃ r, v = .array r ∧ r.shape = [] ∧ w.isTraced = true) : ofValue w = ofValue v := by
  rcases h with rfl | ⟨id, type, htype, rfl⟩
  · rfl
  cases v with
  | scalar s =>
    cases htype
    rfl
  | traced id' type' =>
    cases htype
    rfl
  | array r =>
    cases htype
    have hshape : r.shape ≠ [] := fun hshape => hflat ⟨r, rfl, hshape, rfl⟩
    simp [ofValue, ofArrayType, NDArray.type, ArrayType.isScalar, hshape]
  | _ => cases htype

/-- The ways in which a variable comes to have another class than the one kept for it. A branch with
the class `branch` left it at `v`, then it has `w`, and the class `kept` is kept. -/
inductive Lost (branch kept : TypeClass) (v w : Value) : Prop
  | elements {e e' : ElemType} (hopen : branch = array none) (hnamed : kept = array (some e))
    (hw : ofValue w = array (some e')) (hne : e ≠ e')
  | axes {r : NDArray} (hkept : kept.isArray = true) (hv : v = .array r) (hshape : r.shape = [])
    (hw : w.isTraced = true)

theorem Lost.ne_unknown {branch kept : TypeClass} (h : Lost branch kept v w) : kept ≠ unknown := by
  rintro rfl
  cases h with
  | elements _ hnamed => cases hnamed
  | axes hkept => cases hkept

/-- A kept class that came from the class of a branch misfits in these ways and in no other. -/
theorem misfits_iff_lost {branch kept : TypeClass} (hkept : kept = unknown ∨ branch.Refines kept)
    (hv : branch.compatible (ofValue v) = true) (hw : w.StandsFor v) :
    kept.compatible (ofValue w) = false ↔ Lost branch kept v w := by
  rcases hkept with rfl | hrefines
  · constructor
    · intro hfalse
      cases hfalse
    · exact fun h => absurd rfl h.ne_unknown
  by_cases hflat : ∃ r, v = .array r ∧ r.shape = [] ∧ w.isTraced = true
  · obtain ⟨r, rfl, hshape, htraced⟩ := hflat
    rw [ofValue_standing_flat hw htraced hshape]
    constructor
    · intro hmisfit
      refine .axes ?_ rfl hshape htraced
      cases hrefines with
      | named e => rfl
      | refl =>
        -- the class fits an array, so it is unknown or a class of arrays
        cases branch with
        | array elem => rfl
        | unknown => cases hmisfit
        | _ => cases hv
    · intro hlost
      cases hlost with
      | elements _ _ helem =>
        rw [ofValue_standing_flat hw htraced hshape] at helem
        cases helem
      | axes hkept =>
        cases kept with
        | array elem => rfl
        | _ => cases hkept
  · have hclass := ofValue_standing hw hflat
    rw [hclass, hrefines.misfits_iff hv]
    constructor
    · rintro ⟨hopen, e, e', hnamed, hof, hne⟩
      exact .elements hopen hnamed (hclass.trans hof) hne
    · intro hlost
      cases hlost with
      | elements hopen hnamed hof hne =>
        exact ⟨hopen, _, _, hnamed, hclass.symm.trans hof, hne⟩
      | axes _ hr hshape htraced => exact absurd ⟨_, hr, hshape, htraced⟩ hflat

end TypeClass

/-! ## Classes kept after a block -/

/-- The class kept for a variable is unknown, or came from each of those that the block makes. -/
theorem CarriedVar.refines_merged (v : CarriedVar) :
    v.merged = .unknown ∨ ∀ c ∈ v.produced, c.Refines v.merged :=
  (TypeClass.foldl_join_refined v.produced _).imp_right And.right

namespace BlockInfo

variable {entry out : TypeEnv} {outcomes : List TypeEnv} {x : String}

/-- Among the variables that are carried under one name, one decides. -/
theorem find?_foldl_merged (carried : List CarriedVar) (env : TypeEnv)
    (hx : x ∈ carried.map CarriedVar.name) :
    ∃ v ∈ carried, v.name = x ∧
      Bindings.find? (carried.foldl (fun env v => Bindings.insert env v.name v.merged) env) x =
        some v.merged := by
  induction carried using List.reverseRecOn with
  | nil => cases hx
  | append_singleton carried v ih =>
    rw [List.foldl_append, List.foldl_cons, List.foldl_nil, Bindings.find?_insert]
    by_cases hv : v.name = x
    · exact ⟨v, by simp, hv, if_pos hv⟩
    · have hrest : x ∈ carried.map CarriedVar.name := by
        simpa [Ne.symm hv] using hx
      obtain ⟨u, hu, hname, hfind⟩ := ih hrest
      exact ⟨u, List.mem_append_left _ hu, hname, (if_neg hv).trans hfind⟩

theorem refines_finish {b : BlockInfo} (hx : x ∈ b.outputs) (hout : out ∈ outcomes) :
    (b.finish entry outcomes).2.1.classOf x = .unknown ∨
      (out.classOf x).Refines ((b.finish entry outcomes).2.1.classOf x) := by
  have hnames : x ∈ (b.carried.map (·.withClasses entry outcomes)).map CarriedVar.name := by
    rw [List.map_map]
    exact hx
  obtain ⟨v, hv, hname, hfind⟩ := find?_foldl_merged _ entry hnames
  simp only [finish, TypeEnv.classOf, Bindings.find?_foldl_erase, hfind]
  by_cases ht : x ∈ b.temporaries
  · rw [if_pos ht]
    exact .inl rfl
  rw [if_neg ht]
  obtain ⟨u, -, rfl⟩ := List.mem_map.mp hv
  have hname : u.name = x := hname
  refine (u.withClasses entry outcomes).refines_merged.imp_right fun h => ?_
  have hproduced : out.classOf x ∈ (u.withClasses entry outcomes).produced :=
    List.mem_map.mpr ⟨out, hout, by rw [hname]⟩
  exact h _ hproduced

end BlockInfo

namespace FlowStmt

/-- The bodies of a conditional; without an `else` the last one is empty. -/
def branches (arms : List FlowArm) (otherwise : Option (List FlowStmt)) : List (List FlowStmt) :=
  arms.map FlowArm.body ++ [otherwise.getD []]

/-- The classes at the end of a body. -/
def classesAfter (body : List FlowStmt) (types : TypeEnv) : TypeEnv :=
  (typedAll body types).2.1

theorem typedArms_outcomes (arms : List FlowArm) (types : TypeEnv) :
    (typedArms arms types).2.1 = arms.map fun arm => classesAfter arm.body types := by
  induction arms with
  | nil => rfl
  | cons arm rest ih =>
    obtain ⟨condition, body⟩ := arm
    simp only [typedArms, List.map_cons, ih]
    rfl

theorem typed_cond_classes (info : BlockInfo) (arms : List FlowArm)
    (otherwise : Option (List FlowStmt)) (types : TypeEnv) :
    ((cond info arms otherwise).typed types).2.1 =
      (info.finish types ((branches arms otherwise).map (classesAfter · types))).2.1 := by
  have harms : (arms.map FlowArm.body).map (classesAfter · types) = (typedArms arms types).2.1 := by
    rw [typedArms_outcomes, List.map_map]
    rfl
  rw [branches, List.map_append, harms]
  cases otherwise with
  | none => rw [typed]; rfl
  | some body => rw [typed]; rfl

end FlowStmt

/-! ## The branch that a run takes -/

namespace Tracer

theorem arrayType_of_operandOf {v : Value} {operand : Operand} {type : ArrayType}
    (h : operandOf v = .ok (operand, type)) : v.arrayType = .ok type := by
  cases v with
  | traced id type' =>
    cases h
    rfl
  | scalar s =>
    cases h
    rfl
  | array a =>
    cases h
    rfl
  | _ => cases h

/-- Placeholders of the types of collected values stand for what was collected under each name. -/
theorem standing_of_collect {env : Env} {names : List String} {outs : List Value}
    {results : List Operand} {types : List ArrayType} {ids : List Nat} {x : String} {w : Value}
    (hcollect : env.collect names = .ok outs) (houts : operandsOf outs = .ok (results, types))
    (hw : (x, w) ∈ names.zip (placeholders ids types)) :
    ∃ v, Bindings.find? env x = some v ∧ w.isTraced = true ∧ w.StandsFor v := by
  induction names generalizing outs results types ids with
  | nil => cases hw
  | cons name names ih =>
    obtain ⟨v, vs, hv, hvs, rfl⟩ := Env.collect_cons_eq_ok hcollect
    obtain ⟨operand, type, results', types', hone, hrest, rfl, rfl⟩ := operandsOf_cons_eq_ok houts
    cases ids with
    | nil => cases hw
    | cons id ids =>
      rcases List.mem_cons.mp hw with heq | hw
      · obtain ⟨rfl, rfl⟩ := Prod.mk.inj heq
        exact ⟨v, hv, rfl, .inr ⟨id, type, arrayType_of_operandOf hone, rfl⟩⟩
      · exact ih hvs hrest hw

end Tracer

namespace Setting

/-- A conditional that is entered with `env` and left with `env'` took the branch `body`, which left
`x` at `v`. On the host, the variables after the branch stay as they are. The graph records the
branch with `args` in place of what comes in, and what `x` has afterwards stands for `v`. -/
inductive Took (c : Setting) (info : BlockInfo) (env env' : Env) (body : List FlowStmt)
    (x : String) (v : Value) : Prop
  | host {n : Nat} {plan : Option FaultPlan} {s s' : Tracer × Journal}
    (hrun : c.runBody n plan body env s = (.ok env', s')) (hv : Bindings.find? env' x = some v)
  | graph {n : Nat} {args : List Value} {env₁ : Env} {s s' : Tracer × Journal} {w : Value}
    (hrun : c.runBody n none body (Bindings.insertAll env info.inputs args) s = (.ok env₁, s'))
    (hv : Bindings.find? env₁ x = some v) (hafter : Bindings.find? env' x = some w)
    (htraced : w.isTraced = true) (hw : w.StandsFor v)

variable {c : Setting} {info : BlockInfo} {env : Env} {x : String}

theorem leaving_eq_ok {init values : List Value} {outputs : List String} {s s' : Tracer × Journal}
    (h : c.leaving info init outputs env s = (.ok values, s')) :
    env.collect outputs = .ok values := by
  obtain ⟨found, s₁, hfound, h₁⟩ := Step.bind_eq_ok h
  obtain ⟨_, s₂, -, h₂⟩ := Step.bind_eq_ok h₁
  cases h₂
  exact (Exec.ofExcept_eq_ok hfound).1

/-- What a variable has in `env'`, after the conditional, stands for what a branch left it at. -/
def TookSome (c : Setting) (info : BlockInfo) (bodies : List (List FlowStmt)) (env : Env)
    (x : String) (env' : Env) : Prop :=
  ∀ w, Bindings.find? env' x = some w →
    ∃ body ∈ bodies, ∃ v, c.Took info env env' body x v ∧ w.StandsFor v

theorem TookSome.mono {bodies bodies' : List (List FlowStmt)} {env' : Env}
    (h : c.TookSome info bodies env x env') (hsub : bodies ⊆ bodies') :
    c.TookSome info bodies' env x env' := by
  intro w hw
  obtain ⟨body, hbody, htook⟩ := h w hw
  exact ⟨body, hsub hbody, htook⟩

theorem delivers_runBody_took (n : Nat) (plan : Option FaultPlan) (body : List FlowStmt) :
    (c.runBody n plan body env).Delivers (c.TookSome info [body] env x) := by
  intro s env' s' hrun w hw
  exact ⟨body, List.mem_singleton_self body, w, .host hrun hw, .inl rfl⟩

theorem delivers_condCall_took (n : Nat) (plan : Option FaultPlan) (arm : FlowArm)
    (rest : List FlowArm) (otherwise : Option (List FlowStmt)) (predicate : Value)
    (init : List Value) (hx : x ∈ info.outputs) :
    (c.condCall n plan info arm rest otherwise predicate env init).Delivers fun values =>
      c.TookSome info [arm.body] env x (Bindings.insertAll env info.outputs values) := by
  refine FaultPlan.delivers_intercept ((Tracer.delivers_cond_placed (Q := fun outs =>
    ∃ args s env₁ s', c.runBody n none arm.body (Bindings.insertAll env info.inputs args) s =
      (.ok env₁, s') ∧ env₁.collect info.outputs = .ok outs) ?_).mono ?_)
  · intro args s outs s' h
    obtain ⟨env₁, s₁, hrun, hleave⟩ := Step.bind_eq_ok h
    exact ⟨args, s, env₁, s₁, hrun, leaving_eq_ok hleave⟩
  · rintro values ⟨outs, results, types, ids, ⟨args, s, env₁, s', hrun, hcollect⟩, houts, hids, rfl⟩
    have hlen : info.outputs.length = (Tracer.placeholders ids types).length := by
      rw [Env.collect_length hcollect, ← (Tracer.operandsOf_length houts).2]
      simp [Tracer.placeholders, hids]
    obtain ⟨u, hmem, hfind⟩ := Bindings.find?_insertAll_of_mem hlen hx env
    intro w hw
    obtain rfl : u = w := Option.some.inj (hfind.symm.trans hw)
    obtain ⟨v, hv, htraced, hstands⟩ := Tracer.standing_of_collect hcollect houts hmem
    exact ⟨arm.body, List.mem_singleton_self _, v, .graph hrun hv hw htraced hstands, hstands⟩

/-- Every run of a conditional that comes to its end takes one of its branches. -/
theorem delivers_took (hx : x ∈ info.outputs) (plan : Option FaultPlan) (arms : List FlowArm)
    (otherwise : Option (List FlowStmt)) (n : Nat) :
    (c.runArms n plan info arms otherwise env).Delivers
      (c.TookSome info (FlowStmt.branches arms otherwise) env x) := by
  induction arms generalizing n with
  | nil =>
    cases n with
    | zero =>
      rw [runArms]
      exact .halt
    | succ n =>
      cases otherwise with
      | some body =>
        rw [runArms]
        exact delivers_runBody_took n plan body
      | none =>
        rw [runArms]
        -- an `else` that is not there is an empty body, which two units of fuel run
        intro s env' s' hpure w hw
        cases hpure
        have hempty : c.runBody 2 plan [] env s = (.ok env, s) := rfl
        exact ⟨[], List.mem_singleton_self _, w, .host hempty hw, .inl rfl⟩
  | cons arm rest ih =>
    have hfirst : [arm.body] ⊆ FlowStmt.branches (arm :: rest) otherwise := by
      simp [FlowStmt.branches]
    have hlater : FlowStmt.branches rest otherwise ⊆ FlowStmt.branches (arm :: rest) otherwise :=
      List.subset_cons_self _ _
    have hchoose : ∀ n predicate,
        (c.chooseArm n plan info arm rest otherwise predicate env).Delivers
          (c.TookSome info (FlowStmt.branches (arm :: rest) otherwise) env x) := by
      intro n predicate
      cases n with
      | zero =>
        rw [chooseArm]
        exact .halt
      | succ n =>
        rw [chooseArm]
        refine .bind_any fun truth => ?_
        split
        · exact (delivers_runBody_took n plan arm.body).mono fun env' h => h.mono hfirst
        · exact (ih n).mono fun env' h => h.mono hlater
    cases n with
    | zero =>
      rw [runArms]
      exact .halt
    | succ n =>
      rw [runArms_cons]
      refine .bind_any fun predicate => ?_
      split
      · exact hchoose n predicate
      · refine .bind_any fun init => delivers_tried ?_ (hchoose n predicate)
        exact (delivers_condCall_took n plan arm rest otherwise predicate init hx).mono
          fun values h => h.mono hfirst

/-- The class kept for a variable after a conditional, in every run of it that comes to its end: a
branch was taken, and if the class at the end of that branch fits what the branch left the variable
at, then the class that is kept fits what the variable has, unless it was lost. -/
theorem class_lost_iff {n : Nat} {plan : Option FaultPlan} {arms : List FlowArm}
    {otherwise : Option (List FlowStmt)} {s s' : Tracer × Journal} {exit : Exit} {env' : Env}
    {w : Value} (types : TypeEnv) (hx : x ∈ info.outputs)
    (hrun : c.runStmt n plan (.cond info arms otherwise) env s = (.ok (exit, env'), s'))
    (hw : Bindings.find? env' x = some w) :
    let kept := ((FlowStmt.cond info arms otherwise).typed types).2.1.classOf x
    ∃ body ∈ FlowStmt.branches arms otherwise, ∃ v, c.Took info env env' body x v ∧ w.StandsFor v ∧
      (((FlowStmt.classesAfter body types).classOf x).compatible (.ofValue v) = true →
        (kept.compatible (.ofValue w) = false ↔
          TypeClass.Lost ((FlowStmt.classesAfter body types).classOf x) kept v w)) := by
  intro kept
  cases n with
  | zero =>
    rw [runStmt] at hrun
    cases hrun
  | succ n =>
    rw [runStmt] at hrun
    obtain ⟨env₁, s₁, harms, hpure⟩ := Step.bind_eq_ok hrun
    cases hpure
    obtain ⟨body, hbody, v, htook, hstands⟩ :=
      delivers_took hx plan arms otherwise n s env' s' harms w hw
    refine ⟨body, hbody, v, htook, hstands, fun hfits => ?_⟩
    have hkept : kept = .unknown ∨ ((FlowStmt.classesAfter body types).classOf x).Refines kept := by
      rw [show kept = _ from congrArg (TypeEnv.classOf · x)
        (FlowStmt.typed_cond_classes info arms otherwise types)]
      exact BlockInfo.refines_finish hx (List.mem_map_of_mem hbody)
    exact TypeClass.misfits_iff_lost hkept hfits hstands

/-! One branch makes a pair of whole numbers in an array of which only that is known, the other half
of an array. The class that is kept is that of the second branch. -/

def pairBody : List FlowStmt :=
  [.act (.assign (.name "x")
    (.call .array [.list [.literal (.int 1), .literal (.int 2)]])) .unknown]

def halfBody : List FlowStmt :=
  [.act (.assign (.name "x") (.binary .div (.var "a") (.literal (.int 2)))) .unknown]

def pickBlock : BlockInfo :=
  ⟨0, .conditional, ⟨none, "pick", 1, none⟩, [⟨"x", false, false, .unknown, []⟩], []⟩

def pairOrHalf : FlowStmt :=
  .cond pickBlock [⟨.var "c", pairBody⟩] (some halfBody)

/-- The variables that the conditional is entered with, and the classes known of them. -/
def pickEntry (choice : Bool) : Env :=
  [("c", .bool choice), ("a", .array ⟨[1], .ints [4]⟩)]

def pickTypes : TypeEnv :=
  [("a", .array none)]

/-- What a run leaves a variable at. -/
def leftAt (x : String) : Except (Halt RunError) (Exit × Env) → Option Value
  | .ok (_, env) => Bindings.find? env x
  | .error _ => none

theorem eq_ok_of_leftAt {r : Except (Halt RunError) (Exit × Env)} {v : Value}
    (h : leftAt x r = some v) :
    ∃ exit env', r = .ok (exit, env') ∧ Bindings.find? env' x = some v := by
  cases r with
  | error e => cases h
  | ok r => exact ⟨r.1, r.2, rfl, h⟩

theorem class_lost_iff_half :
    let c : Setting := ⟨default, {}, .eager⟩
    let kept := (pairOrHalf.typed pickTypes).2.1.classOf "x"
    ∃ exit env' s' w,
      c.runStmt 8 none pairOrHalf (pickEntry false) (Tracer.start false, {}) =
        (.ok (exit, env'), s') ∧
      Bindings.find? env' "x" = some w ∧
      ∃ body ∈ [pairBody, halfBody], ∃ v,
        c.Took pickBlock (pickEntry false) env' body "x" v ∧ w.StandsFor v ∧
        (((FlowStmt.classesAfter body pickTypes).classOf "x").compatible (.ofValue v) = true →
          (kept.compatible (.ofValue w) = false ↔
            TypeClass.Lost ((FlowStmt.classesAfter body pickTypes).classOf "x") kept v w)) := by
  intro c kept
  have hsome : (leftAt "x" (c.runStmt 8 none pairOrHalf (pickEntry false)
      (Tracer.start false, {})).1).isSome = true := by
    decide +kernel
  rcases hrun : c.runStmt 8 none pairOrHalf (pickEntry false) (Tracer.start false, {}) with ⟨r, s'⟩
  rw [hrun] at hsome
  obtain ⟨w, hw⟩ := Option.isSome_iff_exists.mp hsome
  obtain ⟨exit, env', rfl, hfind⟩ := eq_ok_of_leftAt hw
  exact ⟨exit, env', s', w, rfl, hfind,
    class_lost_iff pickTypes (List.mem_singleton_self "x") hrun hfind⟩

/-- Each branch leaves the variable at a value that its class fits, and the class that is kept does
not fit the first. -/
theorem class_lost_pair :
    let c : Setting := ⟨default, {}, .eager⟩
    let after choice :=
      leftAt "x" (c.runStmt 8 none pairOrHalf (pickEntry choice) (Tracer.start false, {})).1
    let kept := (pairOrHalf.typed pickTypes).2.1.classOf "x"
    ∃ pair half, after true = some pair ∧ after false = some half ∧
      ((FlowStmt.classesAfter pairBody pickTypes).classOf "x").compatible (.ofValue pair) = true ∧
      ((FlowStmt.classesAfter halfBody pickTypes).classOf "x").compatible (.ofValue half) = true ∧
      kept.compatible (.ofValue half) = true ∧ kept.compatible (.ofValue pair) = false := by
  intro c after kept
  have hpair : (after true).map TypeClass.ofValue = some (.array (some .int)) := by decide +kernel
  have hhalf : (after false).map TypeClass.ofValue = some (.array (some .float)) := by
    decide +kernel
  obtain ⟨pair, hpair, hpairClass⟩ := Option.map_eq_some_iff.mp hpair
  obtain ⟨half, hhalf, hhalfClass⟩ := Option.map_eq_some_iff.mp hhalf
  refine ⟨pair, half, hpair, hhalf, ?_⟩
  rw [hpairClass, hhalfClass]
  decide +kernel

end Setting

end StagedFlow
