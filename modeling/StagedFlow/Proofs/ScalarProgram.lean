import StagedFlow.Proofs.Conversion

/-!
Programs on scalars: literals, names, operators and `not`, assignments to plain names, conditionals,
`while` loops and loops over ranges. Main definitions: `FunctionDef.isScalar`,
`FlowStmt.isScalar`, which also asks that only the outermost statements return. Main results:
`Stmt.allScalar_foldAll`, `allScalar_lowerAll`, `FunctionDef.convert_isScalar`.
-/
set_option autoImplicit false

namespace StagedFlow

/-! ## The programs -/

def Literal.isScalar : Literal → Bool
  | int _ => true
  | float _ => true
  | bool _ => true
  | _ => false

namespace Expr

/-- Whether an expression takes scalars to a scalar. -/
def isScalar : Expr → Bool
  | literal l => l.isScalar
  | var _ => true
  | binary _ left right => left.isScalar && right.isScalar
  | neg operand => operand.isScalar
  | not operand => operand.isScalar
  | _ => false

/-- Whether an expression is a range between scalars. -/
def isScalarRange : Expr → Bool
  | call .range args => args.all isScalar
  | _ => false

end Expr

def Target.isName : Target → Bool
  | name _ => true
  | tuple _ => false

namespace Action

def isScalar : Action → Bool
  | assign target value => target.isName && value.isScalar
  | update _ _ value => value.isScalar
  | eval e => e.isScalar
  | ret value => value.all Expr.isScalar
  | raise _ => true
  | pass => true

end Action

namespace Stmt

mutual

def isScalar : Stmt → Bool
  | act action _ => action.isScalar
  | choose arms otherwise _ => armsScalar arms && lastScalar otherwise
  | forIn target source body _ => target.isName && source.isScalarRange && allScalar body
  | whileDo condition body _ => condition.isScalar && allScalar body

def armsScalar : List Arm → Bool
  | [] => true
  | ⟨condition, body, _⟩ :: rest => condition.isScalar && allScalar body && armsScalar rest

def lastScalar : Option (List Stmt) → Bool
  | none => true
  | some body => allScalar body

def allScalar : List Stmt → Bool
  | [] => true
  | s :: rest => s.isScalar && allScalar rest

end

end Stmt

def FunctionDef.isScalar (f : FunctionDef) : Bool :=
  Stmt.allScalar f.body

namespace FlowStmt

mutual

/-- Whether a statement, `inside` a block or not, works on scalars and leaves no block early. -/
def isScalar (inside : Bool) : FlowStmt → Bool
  | act action _ => action.isScalar && !(inside && action.isReturn)
  | cond _ arms otherwise => armsScalar arms && lastScalar otherwise
  | forIn _ target source body _ _ =>
    target.isName && source.isScalarRange && allScalar true body
  | whileDo _ condition body => condition.isScalar && allScalar true body

def armsScalar : List FlowArm → Bool
  | [] => true
  | ⟨condition, body⟩ :: rest => condition.isScalar && allScalar true body && armsScalar rest

def lastScalar : Option (List FlowStmt) → Bool
  | none => true
  | some body => allScalar true body

def allScalar (inside : Bool) : List FlowStmt → Bool
  | [] => true
  | s :: rest => s.isScalar inside && allScalar inside rest

end

end FlowStmt

/-! ## Folding -/

namespace Stmt

theorem allScalar_append (first second : List Stmt) :
    allScalar (first ++ second) = (allScalar first && allScalar second) := by
  induction first with
  | nil => rfl
  | cons s rest ih => simp only [List.cons_append, allScalar, ih, Bool.and_assoc]

theorem allScalar_foldedChain (span : Span) {chain : List Arm × Option (List Stmt)}
    (harms : armsScalar chain.1 = true) (hlast : lastScalar chain.2 = true) :
    allScalar (foldedChain span chain) = true := by
  obtain ⟨arms, otherwise⟩ := chain
  cases arms with
  | nil =>
    cases otherwise with
    | none => rfl
    | some body => exact hlast
  | cons arm rest =>
    simp only [foldedChain, allScalar, isScalar, Bool.and_true]
    rw [harms, hlast]
    rfl

mutual

theorem allScalar_fold : ∀ {s : Stmt}, s.isScalar = true → allScalar s.fold = true
  | act action span, h => by
    simpa only [fold, allScalar, Bool.and_true] using h
  | choose arms none span, h => by
    simp only [isScalar, Bool.and_eq_true] at h
    have hnone : lastScalar none = true := rfl
    obtain ⟨harms, hlast⟩ := scalar_foldArms h.1 hnone
    exact allScalar_foldedChain span harms hlast
  | choose arms (some body) span, h => by
    simp only [isScalar, Bool.and_eq_true] at h
    have hbody : lastScalar (some (foldAll body)) = true := allScalar_foldAll h.2
    obtain ⟨harms, hlast⟩ := scalar_foldArms h.1 hbody
    exact allScalar_foldedChain span harms hlast
  | forIn target source body span, h => by
    simp only [isScalar, Bool.and_eq_true] at h
    simp only [fold, allScalar, isScalar, allScalar_foldAll h.2, h.1.1, h.1.2, Bool.and_self]
  | whileDo condition body span, h => by
    simp only [isScalar, Bool.and_eq_true] at h
    simp only [fold, allScalar, isScalar, allScalar_foldAll h.2, h.1, Bool.and_self]

theorem scalar_foldArms : ∀ {arms : List Arm}, armsScalar arms = true →
    ∀ {otherwise : Option (List Stmt)}, lastScalar otherwise = true →
      armsScalar (foldArms arms otherwise).1 = true ∧
        lastScalar (foldArms arms otherwise).2 = true
  | [], _, _, hlast => ⟨rfl, hlast⟩
  | ⟨condition, body, _⟩ :: rest, h, otherwise, hlast => by
    simp only [armsScalar, Bool.and_eq_true] at h
    obtain ⟨⟨hcondition, hbody⟩, hrest⟩ := h
    simp only [foldArms]
    cases condition.constantTruth? with
    | none =>
      obtain ⟨harms, hlast⟩ := scalar_foldArms hrest hlast
      refine ⟨?_, hlast⟩
      simp only [armsScalar, hcondition, allScalar_foldAll hbody, harms, Bool.and_self]
    | some truth =>
      cases truth with
      | false => exact scalar_foldArms hrest hlast
      | true => exact ⟨rfl, allScalar_foldAll hbody⟩

theorem allScalar_foldAll : ∀ {body : List Stmt}, allScalar body = true →
    allScalar (foldAll body) = true
  | [], _ => rfl
  | s :: rest, h => by
    simp only [allScalar, Bool.and_eq_true] at h
    rw [foldAll, allScalar_append, allScalar_fold h.1, allScalar_foldAll h.2]
    rfl

end

end Stmt

/-! ## Conversion -/

mutual

theorem isScalar_lower : ∀ {l : Lowering} {s : Stmt} {id : Nat}, s.isScalar = true →
    (s.lower l id).2.2 = [] → (s.lower l id).1.isScalar l.around.isSome = true
  | l, .act action span, id, h, hnone => by
    simp only [Stmt.lower, FlowStmt.isScalar, l.not_isReturn hnone, Bool.not_false, Bool.and_true]
    exact h
  | l, .choose arms none span, id, h, hnone => by
    simp only [Stmt.isScalar, Bool.and_eq_true] at h
    simp only [Stmt.lower] at hnone
    simp only [Stmt.lower, FlowStmt.isScalar, FlowStmt.lastScalar, Bool.and_true]
    exact armsScalar_lowerArms rfl h.1 hnone
  | l, .choose arms (some body) span, id, h, hnone => by
    simp only [Stmt.isScalar, Bool.and_eq_true] at h
    simp only [Stmt.lower, List.append_eq_nil_iff] at hnone
    simp only [Stmt.lower, FlowStmt.isScalar, FlowStmt.lastScalar, Bool.and_eq_true]
    exact ⟨armsScalar_lowerArms rfl h.1 hnone.1, allScalar_lowerAll h.2 hnone.2⟩
  | l, .forIn target source body span, id, h, hnone => by
    simp only [Stmt.isScalar, Bool.and_eq_true] at h
    simp only [Stmt.lower] at hnone
    simp only [Stmt.lower, FlowStmt.isScalar, h.1.1, h.1.2, Bool.true_and]
    exact allScalar_lowerAll h.2 hnone
  | l, .whileDo condition body span, id, h, hnone => by
    simp only [Stmt.isScalar, Bool.and_eq_true] at h
    simp only [Stmt.lower] at hnone
    simp only [Stmt.lower, FlowStmt.isScalar, h.1, Bool.true_and]
    exact allScalar_lowerAll h.2 hnone

theorem armsScalar_lowerArms : ∀ {l : Lowering} {arms : List Arm} {id : Nat},
    l.around.isSome = true → Stmt.armsScalar arms = true → (lowerArms l arms id).2.2 = [] →
      FlowStmt.armsScalar (lowerArms l arms id).1 = true
  | _, [], _, _, _, _ => rfl
  | l, ⟨condition, body, _⟩ :: rest, id, hinside, h, hnone => by
    simp only [Stmt.armsScalar, Bool.and_eq_true] at h
    simp only [lowerArms, List.append_eq_nil_iff] at hnone
    have hbody := allScalar_lowerAll h.1.2 hnone.1
    rw [hinside] at hbody
    have hrest := armsScalar_lowerArms hinside h.2 hnone.2
    simp only [lowerArms, FlowStmt.armsScalar, h.1.1, hbody, hrest, Bool.and_self]

theorem allScalar_lowerAll : ∀ {l : Lowering} {body : List Stmt} {id : Nat},
    Stmt.allScalar body = true → (lowerAll l body id).2.2 = [] →
      FlowStmt.allScalar l.around.isSome (lowerAll l body id).1 = true
  | _, [], _, _, _ => rfl
  | l, s :: rest, id, h, hnone => by
    simp only [Stmt.allScalar, Bool.and_eq_true] at h
    simp only [lowerAll, List.append_eq_nil_iff] at hnone
    have hs := isScalar_lower h.1 hnone.1
    have hrest := allScalar_lowerAll h.2 hnone.2
    simp only [lowerAll, FlowStmt.allScalar, hs, hrest, Bool.and_self]

end

namespace FlowStmt

mutual

theorem isScalar_mapInfo (f : BlockInfo → BlockInfo) (inside : Bool) :
    ∀ s : FlowStmt, (s.mapInfo f).isScalar inside = s.isScalar inside
  | act _ _ => rfl
  | cond _ arms none => by
    simp only [mapInfo, isScalar, armsScalar_mapInfoArms f arms]
  | cond _ arms (some body) => by
    simp only [mapInfo, isScalar, lastScalar, armsScalar_mapInfoArms f arms,
      allScalar_mapInfoAll f true body]
  | forIn _ target source body _ _ => by
    simp only [mapInfo, isScalar, allScalar_mapInfoAll f true body]
  | whileDo _ condition body => by
    simp only [mapInfo, isScalar, allScalar_mapInfoAll f true body]

theorem armsScalar_mapInfoArms (f : BlockInfo → BlockInfo) :
    ∀ arms : List FlowArm, armsScalar (mapInfoArms f arms) = armsScalar arms
  | [] => rfl
  | ⟨condition, body⟩ :: rest => by
    simp only [mapInfoArms, armsScalar, allScalar_mapInfoAll f true body,
      armsScalar_mapInfoArms f rest]

theorem allScalar_mapInfoAll (f : BlockInfo → BlockInfo) (inside : Bool) :
    ∀ body : List FlowStmt, allScalar inside (mapInfoAll f body) = allScalar inside body
  | [] => rfl
  | s :: rest => by
    simp only [mapInfoAll, allScalar, isScalar_mapInfo f inside s,
      allScalar_mapInfoAll f inside rest]

end

mutual

theorem isScalar_outline (inside : Bool) :
    ∀ s : FlowStmt, s.outline.isScalar inside = s.isScalar inside
  | act _ _ => rfl
  | cond _ arms none => by
    simp only [outline, outlineLast, isScalar, armsScalar_outlineArms arms]
  | cond _ arms (some body) => by
    simp only [outline, outlineLast, isScalar, lastScalar, armsScalar_outlineArms arms,
      allScalar_outlineAll true body]
  | forIn _ target source body _ _ => by
    simp only [outline, isScalar, allScalar_outlineAll true body]
  | whileDo _ condition body => by
    simp only [outline, isScalar, allScalar_outlineAll true body]

theorem armsScalar_outlineArms :
    ∀ arms : List FlowArm, armsScalar (outlineArms arms) = armsScalar arms
  | [] => rfl
  | ⟨condition, body⟩ :: rest => by
    simp only [outlineArms, armsScalar, allScalar_outlineAll true body,
      armsScalar_outlineArms rest]

theorem allScalar_outlineAll (inside : Bool) :
    ∀ body : List FlowStmt, allScalar inside (outlineAll body) = allScalar inside body
  | [] => rfl
  | s :: rest => by
    simp only [outlineAll, allScalar, isScalar_outline inside s, allScalar_outlineAll inside rest]

end

end FlowStmt

/-- A converted program on scalars works on scalars, and no block in it returns. -/
theorem FunctionDef.convert_isScalar {f : FunctionDef} {options : Options} {f' : FlowFunction}
    (hscalar : f.isScalar = true) (h : (f.convert options).result = .ok f') :
    FlowStmt.allScalar false f'.body = true := by
  obtain ⟨hnone, -, houtline⟩ := convert_eq_ok h
  have hlowered := allScalar_lowerAll (Stmt.allScalar_foldAll hscalar) hnone
  rw [← FlowStmt.allScalar_outlineAll, houtline, FlowStmt.allScalar_outlineAll, Analysis.annotate,
    FlowStmt.allScalar_mapInfoAll]
  exact hlowered

end StagedFlow
