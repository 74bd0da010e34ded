import StagedFlow.Proofs.Constants
import StagedFlow.Proofs.Formed
import StagedFlow.Proofs.TypedOps

/-!
Classes foretold. Without arrays and powers, the class that an expression has before the run is the
class of its value in every run, unless nothing was known of it. A class describes a value if it is
unknown or the class of that value; then each operator on classes is compared with the operator on
values, and expressions follow by induction. Main definitions: `Value.Plain`, `Expr.isArrayFree`,
`TypeClass.Foretells`. Main results: `Value.makes_binary_foretold`, `Builtin.delivers_foretold`,
`Expr.delivers_foretold`, `Expr.typeClass_eq_ofValue`.
-/
set_option autoImplicit false

namespace StagedFlow

/-! ## Values and expressions without arrays -/

/-- Neither an array nor a placeholder occurs in a value. -/
inductive Value.Plain : Value → Prop
  | scalar (s : Scalar) : Plain (.scalar s)
  | none : Plain .none
  | str (s : String) : Plain (.str s)
  | list {items : List Value} (h : ∀ v ∈ items, Plain v) : Plain (.list items)
  | tuple {items : List Value} (h : ∀ v ∈ items, Plain v) : Plain (.tuple items)
  | dict {entries : List (Value × Value)} (hkeys : ∀ e ∈ entries, Plain e.1)
    (hvalues : ∀ e ∈ entries, Plain e.2) : Plain (.dict entries)
  | range {start stop step : Value} (hstart : Plain start) (hstop : Plain stop)
    (hstep : Plain step) : Plain (.range start stop step)
  | enumerate {inner : Value} (start : Int64) (h : Plain inner) : Plain (.enumerate inner start)

namespace Expr

mutual

/-- Whether no power, no call of `array` and no call of `kron` occurs in an expression. -/
def isArrayFree : Expr → Bool
  | literal _ => true
  | var _ => true
  | binary op left right => op != .pow && left.isArrayFree && right.isArrayFree
  | neg operand => operand.isArrayFree
  | and left right => left.isArrayFree && right.isArrayFree
  | or left right => left.isArrayFree && right.isArrayFree
  | not operand => operand.isArrayFree
  | list items => allArrayFree items
  | tuple items => allArrayFree items
  | dict entries => entriesArrayFree entries
  | index base i => base.isArrayFree && i.isArrayFree
  | call function args => function != .array && function != .kron && allArrayFree args

def allArrayFree : List Expr → Bool
  | [] => true
  | e :: rest => e.isArrayFree && allArrayFree rest

def entriesArrayFree : List (Expr × Expr) → Bool
  | [] => true
  | (k, v) :: rest => k.isArrayFree && v.isArrayFree && entriesArrayFree rest

end

end Expr

namespace Value.Plain

variable {v : Value}

theorem isTraced_eq_false (h : v.Plain) : v.isTraced = false := by
  cases h <;> rfl

theorem isArrayLike_eq_false (h : v.Plain) : v.isArrayLike = false := by
  cases h <;> rfl

theorem any_isTraced {args : List Value} (h : ∀ v ∈ args, v.Plain) :
    args.any Value.isTraced = false := by
  simpa using fun v hv => (h v hv).isTraced_eq_false

theorem headD {args : List Value} (h : ∀ v ∈ args, v.Plain) : (args.headD .none).Plain := by
  cases args with
  | nil => exact .none
  | cons v rest => exact h v List.mem_cons_self

/-- A plain value is a scalar, or an object of the host that is known by the name of its type. -/
theorem scalar_or_host (h : v.Plain) :
    (∃ s, v = .scalar s) ∨ TypeClass.ofValue v = .host v.typeName := by
  cases h with
  | scalar s => exact Or.inl ⟨s, rfl⟩
  | _ => exact Or.inr rfl

end Value.Plain

/-! ## Classes that describe values -/

namespace TypeClass

/-- Nothing is known of a value, or its class is. -/
def Describes (c : TypeClass) (v : Value) : Prop :=
  c = unknown ∨ c = ofValue v

variable {a b : TypeClass} {v w r : Value}

/-- A plain value that a class describes. -/
structure Foretells (c : TypeClass) (v : Value) : Prop where
  plain : v.Plain
  describes : c.Describes v

theorem describes_unknown (v : Value) : unknown.Describes v :=
  Or.inl rfl

theorem Foretells.forget (h : a.Foretells v) : unknown.Foretells v :=
  ⟨h.plain, describes_unknown v⟩

theorem Describes.of_known (h : a.Describes v) (hknown : a ≠ unknown) : a = ofValue v :=
  h.resolve_left hknown

theorem isArray_eq_false (hv : v.Plain) (ha : a.Describes v) : a.isArray = false := by
  rcases ha with rfl | rfl
  · rfl
  · cases hv <;> rfl

/-- A comparison without arrays gives a boolean, whatever is compared. -/
theorem binary_of_isComparison {op : BinaryOp} (hop : op.isComparison = true)
    (ha : a.isArray = false) (hb : b.isArray = false) : binary op a b = scalar .bool := by
  unfold binary
  split
  · rw [if_pos hop]
  · simp [ha, hb, hop, binaryElem?]

/-- Nothing is known of what an operation other than a comparison makes of an unknown value, unless
the other one is a host object. -/
theorem binary_eq_unknown {op : BinaryOp} (hop : op.isComparison = false)
    (hhost : hostName? a b = none) (hunknown : ¬ (a.isKnown = true ∧ b.isKnown = true)) :
    binary op a b = unknown := by
  unfold binary
  rw [hhost]
  simp only [Bool.and_eq_true, hunknown, hop, Bool.false_and, Bool.false_eq_true, if_false]

theorem binary_scalar_scalar {op : BinaryOp} (hpow : op ≠ .pow) (x y : ElemType) :
    binary op (scalar x) (scalar y) = scalar (ArrayType.binaryElem op x y) := by
  have helem : binaryElem? op (scalar x) (scalar y) = some (ArrayType.binaryElem op x y) := by
    unfold binaryElem? ArrayType.binaryElem
    rw [if_neg (fun h : op = .pow ∧ x ≠ .float ∧ y ≠ .float => hpow h.1)]
    split
    · rfl
    split
    · rfl
    · rfl
  simp only [binary, hostName?, isKnown, isArray, Bool.and_self, Bool.or_self, if_true,
    Bool.false_eq_true, if_false, helem]

/-- The result of an operation on scalars has the class that the operation on their classes gives. -/
theorem describes_binary_scalar {op : BinaryOp} {x y z : Scalar} (ha : a.Describes (.scalar x))
    (hb : b.Describes (.scalar y)) (hz : z.elem = ArrayType.binaryElem op x.elem y.elem)
    (hop : op.isComparison = false) (hpow : op ≠ .pow) :
    (binary op a b).Describes (.scalar z) := by
  have hz' : ofValue (.scalar z) = scalar (ArrayType.binaryElem op x.elem y.elem) := by
    rw [← hz]
    rfl
  rcases ha with rfl | rfl
  · refine Or.inl (binary_eq_unknown hop ?_ (by simp [isKnown]))
    rcases hb with rfl | rfl <;> rfl
  · rcases hb with rfl | rfl
    · exact Or.inl (binary_eq_unknown hop rfl (by simp [isKnown]))
    · exact Or.inr (hz'.symm ▸ binary_scalar_scalar hpow x.elem y.elem)

theorem eq_host_of_hostName? {name : String} (h : hostName? a b = some name) :
    a = host name ∨ b = host name := by
  unfold hostName? at h
  split at h
  · exact Or.inl (congrArg host (Option.some.inj h))
  · exact Or.inr (congrArg host (Option.some.inj h))
  · cases h

theorem ne_host_of_hostName? (h : hostName? a b = none) (name : String) :
    a ≠ host name ∧ b ≠ host name := by
  constructor
  · rintro rfl
    cases h
  · rintro rfl
    cases a <;> cases h

/-- What is known of a plain value and is no host object is a scalar. -/
theorem Describes.isScalar (ha : a.Describes v) (hv : v.Plain) (hknown : a.isKnown = true)
    (hhost : ∀ name, a ≠ host name) : v.isScalar = true := by
  rcases ha with rfl | rfl
  · cases hknown
  · rcases hv.scalar_or_host with ⟨s, rfl⟩ | hclass
    · rfl
    · exact absurd hclass (hhost v.typeName)

/-- A value that is described as a host object is one. -/
theorem Describes.ofValue_eq_host {name : String} (h : (host name).Describes v) :
    ofValue v = host name ∧ v.isScalar = false := by
  have hclass := h.of_known (fun h => by cases h)
  refine ⟨hclass.symm, ?_⟩
  cases v with
  | scalar s => cases hclass
  | _ => rfl

/-- The result of an operation on host objects has the class of each operand that is one. -/
theorem describes_binary_host {op : BinaryOp} (hop : op.isComparison = false) (hv : v.Plain)
    (hw : w.Plain) (ha : a.Describes v) (hb : b.Describes w)
    (hleft : v.isScalar = true ∨ ofValue r = ofValue v)
    (hright : w.isScalar = true ∨ ofValue r = ofValue w)
    (hhost : ¬ (v.isScalar = true ∧ w.isScalar = true)) : (binary op a b).Describes r := by
  rcases hname : hostName? a b with _ | name
  · -- two known classes without a host name would be those of two scalars
    refine Or.inl (binary_eq_unknown hop hname ?_)
    rintro ⟨hka, hkb⟩
    have hne := ne_host_of_hostName? hname
    exact hhost ⟨ha.isScalar hv hka fun n => (hne n).1, hb.isScalar hw hkb fun n => (hne n).2⟩
  · have hbinary : binary op a b = host name := by
      simp only [binary, hname, hop, Bool.false_eq_true, if_false]
    rw [hbinary]
    refine Or.inr ?_
    rcases eq_host_of_hostName? hname with rfl | rfl
    · obtain ⟨hclass, hobject⟩ := ha.ofValue_eq_host
      have hsame := hleft.resolve_left (by simp [hobject])
      exact (hsame.trans hclass).symm
    · obtain ⟨hclass, hobject⟩ := hb.ofValue_eq_host
      have hsame := hright.resolve_left (by simp [hobject])
      exact (hsame.trans hclass).symm

end TypeClass

/-! ## Operations -/

namespace Value

open TypeClass

theorem isScalar_of_toInt? {v : Value} {n : Int64} (h : v.toInt? = some n) : v.isScalar = true := by
  cases v with
  | scalar s => rfl
  | _ => cases h

/-- A result without arrays: a boolean if two values were compared, and else of the class of each
operand that is a host object. -/
structure HostResult (op : BinaryOp) (a b r : Value) : Prop where
  plain : r.Plain
  compared : op.isComparison = true → ∃ t, r = .bool t
  left : op.isComparison = false → a.isScalar = true ∨ ofValue r = ofValue a
  right : op.isComparison = false → b.isScalar = true ∨ ofValue r = ofValue b

theorem hostResult_compared {op : BinaryOp} (hop : op.isComparison = true) (a b : Value)
    (t : Bool) : HostResult op a b (.bool t) where
  plain := .scalar _
  compared := fun _ => ⟨t, rfl⟩
  left := fun h => by
    rw [hop] at h
    cases h
  right := fun h => by
    rw [hop] at h
    cases h

theorem hostResult_sum {a b r : Value} (hr : r.Plain) (ha : ofValue r = ofValue a)
    (hb : ofValue r = ofValue b) : HostResult .add a b r where
  plain := hr
  compared := fun h => by cases h
  left := fun _ => Or.inr ha
  right := fun _ => Or.inr hb

theorem makes_repeated_plain {v : Value} (hv : v.Plain) {n : Int64} {x : Outcome Value}
    (h : v.repeated n = some x) : Makes x fun r => r.Plain ∧ ofValue r = ofValue v := by
  cases hv with
  | str s =>
    obtain rfl := Option.some.inj h
    unfold repeatText
    split
    · exact makes_ok ⟨.str _, rfl⟩
    split
    · exact makes_error _
    · exact makes_ok ⟨.str _, rfl⟩
  | list hitems =>
    obtain rfl := Option.some.inj h
    unfold repeatList
    split
    · exact makes_ok ⟨.list (by simp), rfl⟩
    split
    · exact makes_error _
    · refine makes_ok ⟨.list fun v hv => ?_, rfl⟩
      obtain ⟨l, hl, hv⟩ := List.mem_flatten.mp hv
      rw [List.eq_of_mem_replicate hl] at hv
      exact hitems v hv
  | _ => cases h

theorem makes_objectProduct_host {a b : Value} (ha : a.Plain) (hb : b.Plain) {x : Outcome Value}
    (h : objectProduct a b = some x) : Makes x (HostResult .mul a b) := by
  unfold objectProduct at h
  split at h
  · next n hn =>
    intro r hr
    obtain ⟨hplain, hclass⟩ := makes_repeated_plain ha h r hr
    exact {
      plain := hplain
      compared := fun hop => by cases hop
      left := fun _ => Or.inr hclass
      right := fun _ => Or.inl (isScalar_of_toInt? hn) }
  · next n hn _ =>
    intro r hr
    obtain ⟨hplain, hclass⟩ := makes_repeated_plain hb h r hr
    exact {
      plain := hplain
      compared := fun hop => by cases hop
      left := fun _ => Or.inl (isScalar_of_toInt? hn)
      right := fun _ => Or.inr hclass }
  · cases h

theorem isComparison_of_compareText {op : BinaryOp} {s t : String} {r : Bool}
    (h : compareText op s t = some r) : op.isComparison = true := by
  cases op with
  | lt => rfl
  | gt => rfl
  | le => rfl
  | ge => rfl
  | _ => cases h

theorem makes_objectBinary_host (op : BinaryOp) {a b : Value} (ha : a.Plain) (hb : b.Plain) :
    Makes (objectBinary op a b) (HostResult op a b) := by
  unfold objectBinary
  split
  · exact makes_ok (hostResult_compared rfl _ _ _)
  · exact makes_ok (hostResult_compared rfl _ _ _)
  · exact makes_ok (hostResult_sum (.str _) rfl rfl)
  · cases ha with
    | list hvs =>
      cases hb with
      | list hws =>
        have hitems := List.forall_mem_append.mpr ⟨hvs, hws⟩
        exact makes_ok (hostResult_sum (.list hitems) rfl rfl)
  · cases ha with
    | tuple hvs =>
      cases hb with
      | tuple hws =>
        have hitems := List.forall_mem_append.mpr ⟨hvs, hws⟩
        exact makes_ok (hostResult_sum (.tuple hitems) rfl rfl)
  · rcases hx : objectProduct a b with _ | x
    · exact makes_error _
    · exact makes_objectProduct_host ha hb hx
  · split
    · next hr => exact makes_ok (hostResult_compared (isComparison_of_compareText hr) _ _ _)
    · exact makes_error _
  · exact makes_error _

theorem binary_eq_objectBinary_of_plain (op : BinaryOp) {v w : Value} (hv : v.Plain) (hw : w.Plain)
    (h : ¬ (v.isScalar = true ∧ w.isScalar = true)) : binary op v w = objectBinary op v w := by
  cases hv with
  | scalar s =>
    cases hw with
    | scalar t => exact absurd ⟨rfl, rfl⟩ h
    | _ => rfl
  | _ => rfl

theorem eq_scalar_of_isScalar {v : Value} (h : v.isScalar = true) : ∃ s, v = .scalar s := by
  cases v with
  | scalar s => exact ⟨s, rfl⟩
  | _ => cases h

variable {v w : Value} {a b : TypeClass}

/-- The operation on the classes of two values foretells what the operation makes of them. -/
theorem makes_binary_foretold {op : BinaryOp} (hpow : op ≠ .pow) (hv : a.Foretells v)
    (hw : b.Foretells w) : Makes (binary op v w) (TypeClass.binary op a b).Foretells := by
  obtain ⟨hv, ha⟩ := hv
  obtain ⟨hw, hb⟩ := hw
  have hcompared : op.isComparison = true → TypeClass.binary op a b = .scalar .bool := fun hop =>
    binary_of_isComparison hop (isArray_eq_false hv ha) (isArray_eq_false hw hb)
  by_cases hscalar : v.isScalar = true ∧ w.isScalar = true
  · obtain ⟨x, rfl⟩ := eq_scalar_of_isScalar hscalar.1
    obtain ⟨y, rfl⟩ := eq_scalar_of_isScalar hscalar.2
    have hends := Scalar.ends_binary (a := x) (b := y) fun h => absurd h hpow
    refine makes_bind (fun z hz => hends.of_ok hz) fun z hz => makes_ok ⟨.scalar z, ?_⟩
    by_cases hop : op.isComparison = true
    · rw [hcompared hop]
      rw [ArrayType.binaryElem, if_pos hop] at hz
      exact Or.inr (congrArg TypeClass.scalar hz.symm)
    · exact describes_binary_scalar ha hb hz (Bool.eq_false_iff.mpr hop) hpow
  · rw [binary_eq_objectBinary_of_plain op hv hw hscalar]
    intro r hr
    have hresult := makes_objectBinary_host op hv hw r hr
    refine ⟨hresult.plain, ?_⟩
    by_cases hop : op.isComparison = true
    · obtain ⟨t, rfl⟩ := hresult.compared hop
      exact Or.inr (hcompared hop)
    · have hop := Bool.eq_false_iff.mpr hop
      exact describes_binary_host hop hv hw ha hb (hresult.left hop) (hresult.right hop) hscalar

theorem makes_negate_foretold (hv : a.Foretells v) : Makes v.negate a.negate.Foretells := by
  obtain ⟨hv, ha⟩ := hv
  cases hv with
  | scalar x =>
    refine makes_bind (fun z hz => (Scalar.ends_negate x).of_ok hz) fun z hz => ?_
    refine makes_ok ⟨.scalar z, ?_⟩
    rcases ha with rfl | rfl
    · exact describes_unknown _
    · refine Or.inr ?_
      rw [ofValue, ofValue, hz]
      cases x.elem <;> rfl
  | _ => exact makes_error _

/-- Every boolean is foretold as the negation of a plain value. -/
theorem foretells_invert (hv : a.Foretells v) (t : Bool) : a.invert.Foretells (.bool t) := by
  refine ⟨.scalar _, ?_⟩
  rcases hv.describes with rfl | rfl
  · exact describes_unknown _
  · cases hv.plain <;> exact Or.inr rfl

theorem makes_index_plain (hv : v.Plain) (i : Value) : Makes (v.index i) Plain := by
  cases hv with
  | list h => exact makes_bind (makes_any _) fun _ _ u hu => h u (makes_itemAt _ _ u hu)
  | tuple h => exact makes_bind (makes_any _) fun _ _ u hu => h u (makes_itemAt _ _ u hu)
  | str s =>
    refine makes_bind (makes_any _) fun _ _ => ?_
    exact makes_bind (makes_any _) fun _ _ => makes_ok (.str _)
  | dict _ hvalues =>
    unfold index lookup
    simp only
    split
    · next e h => exact makes_ok (hvalues e (List.mem_of_find?_eq_some h))
    · exact makes_error _
  | _ => exact makes_error _

theorem makes_convertOne (elem : ElemType) (v : Value) :
    Makes (convertOne elem v) fun s => s.elem = elem := by
  unfold convertOne
  split
  · exact makes_ok rfl
  · split
    · exact makes_ok rfl
    · exact makes_error _
  · exact makes_map fun _ _ => rfl
  · exact makes_map fun _ _ => rfl

theorem makes_parse (elem : ElemType) (s : String) :
    Makes (parse elem s) fun x => x.elem = elem := by
  unfold parse
  split
  · split
    · exact makes_ok rfl
    · exact makes_error _
  · split
    · exact makes_ok rfl
    · exact makes_error _
  · exact makes_ok rfl

theorem makes_convert_foretold (elem : ElemType) (hv : v.Plain) :
    Makes (v.convert elem) (TypeClass.scalar elem).Foretells := by
  have hscalar : ∀ x : Scalar, x.elem = elem → (TypeClass.scalar elem).Foretells (.scalar x) :=
    fun x hx => ⟨.scalar x, Or.inr (congrArg TypeClass.scalar hx.symm)⟩
  cases hv with
  | str s => exact makes_ofFault (makes_map fun x hx => hscalar x (makes_parse elem s x hx))
  | _ => exact makes_ofFault (makes_map fun x hx => hscalar x (makes_convertOne elem _ x hx))

end Value

/-! ## Functions -/

theorem makes_rangeBound_plain {v : Value} (hv : v.Plain) : Makes (rangeBound v) Value.Plain := by
  cases hv with
  | scalar x =>
    cases x with
    | bool b => exact makes_ok (.scalar _)
    | int n => exact makes_ok (.scalar _)
    | float x => exact makes_error _
  | _ => exact makes_error _

theorem makes_makeRange_foretold {bounds : List Value} (hbounds : ∀ v ∈ bounds, v.Plain) :
    Makes (makeRange bounds) (TypeClass.host "range").Foretells := by
  have hrange : ∀ {start stop step : Value}, start.Plain → stop.Plain → step.Plain →
      Makes (if step.same (.int 0) then .error (.type .zeroStep) else .ok (.range start stop step) :
        Except Fault Value) (TypeClass.host "range").Foretells := by
    intro start stop step hstart hstop hstep
    split
    · exact makes_error _
    · exact makes_ok ⟨.range hstart hstop hstep, Or.inr rfl⟩
  unfold makeRange
  simp only
  split
  · exact hrange (.scalar _) (hbounds _ (by simp)) (.scalar _)
  · exact hrange (hbounds _ (by simp)) (hbounds _ (by simp)) (.scalar _)
  · exact hrange (hbounds _ (by simp)) (hbounds _ (by simp)) (hbounds _ (by simp))
  · exact hrange (.scalar _) .none (.scalar _)

theorem makes_dictItems_foretold {v : Value} (hv : v.Plain) :
    Makes (dictItems v) (TypeClass.host "list").Foretells := by
  cases hv with
  | dict hkeys hvalues =>
    refine makes_ok ⟨.list fun item hitem => ?_, Or.inr rfl⟩
    obtain ⟨e, he, rfl⟩ := List.mem_map.mp hitem
    refine .tuple fun u hu => ?_
    rcases List.mem_pair.mp hu with rfl | rfl
    · exact hkeys e he
    · exact hvalues e he
  | _ => exact makes_error _

/-- The class of a call foretells what the function gives, unless that may be an array. -/
theorem Builtin.delivers_foretold {f : Builtin} (harray : f ≠ .array) (hkron : f ≠ .kron)
    (types : TypeEnv) (es : List Expr) {args : List Value} (hargs : ∀ v ∈ args, v.Plain) :
    (f.call args).Delivers ((Expr.call f es).typeClass types).Foretells := by
  have harg : (args.headD .none).Plain := Value.Plain.headD hargs
  have hconvert : ∀ elem, (convertTo elem (args.headD .none)).Delivers
      (TypeClass.scalar elem).Foretells := by
    intro elem
    rw [convertTo, harg.isTraced_eq_false]
    exact .ofExcept (Value.makes_convert_foretold elem harg)
  refine delivers_call ?_
  cases f with
  | array => exact absurd rfl harray
  | kron => exact absurd rfl hkron
  | int => exact hconvert .int
  | float => exact hconvert .float
  | items => exact .ofFault (makes_dictItems_foretold harg)
  | len => exact .ofFault (makes_map fun _ _ => ⟨.scalar _, Or.inr rfl⟩)
  | range =>
    refine .ofFault (makes_bind (makes_mapM args fun v hv => makes_rangeBound_plain (hargs v hv)) ?_)
    exact fun _ hbounds => makes_makeRange_foretold hbounds
  | enumerate =>
    refine .ofFault ?_
    split
    · exact makes_map fun start _ => ⟨.enumerate start harg, Or.inr rfl⟩
    · exact makes_ok ⟨.enumerate 0 harg, Or.inr rfl⟩

/-! ## Expressions -/

/-- What is known of the variables foretells their values. -/
def TypeEnv.Foretells (types : TypeEnv) (env : Env) : Prop :=
  ∀ name v, Bindings.find? env name = some v → (types.classOf name).Foretells v

/-- Without placeholders an operation gives what the host makes of its operands. -/
theorem Eval.delivers_apply {op : Op} {args : List Value} {Q : Value → Prop}
    (hargs : ∀ v ∈ args, v.Plain) (h : Makes (op.apply args) Q) : (apply op args).Delivers Q := by
  refine .mapError fun t v t' hv => ?_
  rcases Tracer.apply_eq_ok hv with ⟨-, hop, -⟩ | ⟨htraced, -⟩
  · exact h v hop
  · rw [Value.Plain.any_isTraced hargs] at htraced
    cases htraced

theorem Eval.delivers_ofOutcome {α : Type} {x : Outcome α} {Q : α → Prop} (h : Makes x Q) :
    (ofOutcome x).Delivers Q :=
  .mapError (.ofExcept h)

namespace Expr

/-- One of the two operands is the result, so it is foretold where their classes agree. -/
theorem delivers_evalLogical (op : LogicalOp) {left : Value} {right : Eval Value}
    {a b : TypeClass} (hleft : a.Foretells left) (hright : right.Delivers b.Foretells) :
    (evalLogical op left right).Delivers (if a = b then a else .unknown).Foretells := by
  have hhost : evalLogical op left right = (do
      let truth ← Eval.ofFault left.truthy
      if decides op truth then return left else right) := by
    cases hleft.plain <;> rfl
  rw [hhost]
  refine .bind_any fun truth => ?_
  by_cases hclass : a = b
  · subst hclass
    rw [if_pos rfl]
    split
    · exact .pure hleft
    · exact hright
  · rw [if_neg hclass]
    split
    · exact .pure hleft.forget
    · exact hright.mono fun v hv => hv.forget

theorem delivers_evalNot {v : Value} {c : TypeClass} (hv : c.Foretells v) :
    (evalNot v).Delivers c.invert.Foretells := by
  rw [evalNot, hv.plain.isTraced_eq_false]
  exact .bind_any fun truth => .pure (Value.foretells_invert hv _)

theorem delivers_evalIndex {base : Value} (hbase : base.Plain) (i : Value) :
    (evalIndex base i).Delivers TypeClass.unknown.Foretells := by
  rw [evalIndex, hbase.isArrayLike_eq_false]
  refine Eval.delivers_ofOutcome fun r hr => ⟨Value.makes_index_plain hbase i r hr, ?_⟩
  exact TypeClass.describes_unknown r

variable {types : TypeEnv} {env : Env}

mutual

/-- The class of an expression foretells its value if the classes of the variables do. -/
theorem delivers_foretold (henv : types.Foretells env) (e : Expr) (hfree : e.isArrayFree = true) :
    (e.eval env).Delivers (e.typeClass types).Foretells := by
  cases e with
  | literal l =>
    rw [eval]
    refine .pure ?_
    cases l with
    | str s => exact ⟨.str s, Or.inr rfl⟩
    | none => exact ⟨.none, Or.inr rfl⟩
    | _ => exact ⟨.scalar _, Or.inr rfl⟩
  | var name =>
    rw [eval]
    exact Eval.delivers_ofExcept fun v hv => henv name v (Env.lookup_eq_ok hv)
  | binary op left right =>
    simp only [isArrayFree, Bool.and_eq_true, bne_iff_ne] at hfree
    obtain ⟨⟨hpow, hleft⟩, hright⟩ := hfree
    rw [eval]
    refine (delivers_foretold henv left hleft).bind fun v hv => ?_
    refine (delivers_foretold henv right hright).bind fun w hw => ?_
    refine Eval.delivers_apply ?_ (Value.makes_binary_foretold hpow hv hw)
    simpa using And.intro hv.plain hw.plain
  | neg operand =>
    rw [eval]
    refine (delivers_foretold henv operand hfree).bind fun v hv => ?_
    refine Eval.delivers_apply ?_ (Value.makes_negate_foretold hv)
    simpa using hv.plain
  | and left right =>
    simp only [isArrayFree, Bool.and_eq_true] at hfree
    rw [eval, typeClass]
    refine (delivers_foretold henv left hfree.1).bind fun v hv => ?_
    exact delivers_evalLogical .and hv (delivers_foretold henv right hfree.2)
  | or left right =>
    simp only [isArrayFree, Bool.and_eq_true] at hfree
    rw [eval, typeClass]
    refine (delivers_foretold henv left hfree.1).bind fun v hv => ?_
    exact delivers_evalLogical .or hv (delivers_foretold henv right hfree.2)
  | not operand =>
    rw [eval]
    exact (delivers_foretold henv operand hfree).bind fun v hv => delivers_evalNot hv
  | list items =>
    -- the class of a container does not depend on its items, which only have to be plain
    rw [eval]
    exact (delivers_all_plain henv items hfree).bind fun vs hvs => .pure ⟨.list hvs, Or.inr rfl⟩
  | tuple items =>
    rw [eval]
    exact (delivers_all_plain henv items hfree).bind fun vs hvs => .pure ⟨.tuple hvs, Or.inr rfl⟩
  | dict entries =>
    rw [eval]
    refine (delivers_entries_plain henv entries hfree).bind fun vs hvs => .pure ⟨?_, Or.inr rfl⟩
    exact .dict (fun e he => (hvs e he).1) fun e he => (hvs e he).2
  | index base i =>
    simp only [isArrayFree, Bool.and_eq_true] at hfree
    rw [eval]
    refine (delivers_foretold henv base hfree.1).bind fun v hv => ?_
    exact .bind_any fun i => delivers_evalIndex hv.plain i
  | call function args =>
    simp only [isArrayFree, Bool.and_eq_true, bne_iff_ne] at hfree
    obtain ⟨⟨harray, hkron⟩, hargs⟩ := hfree
    rw [eval]
    refine (delivers_all_plain henv args hargs).bind fun vs hvs => .mapError ?_
    exact Builtin.delivers_foretold harray hkron types args hvs
termination_by structural e

theorem delivers_all_plain (henv : types.Foretells env) (items : List Expr)
    (hfree : allArrayFree items = true) :
    (evalAll env items).Delivers fun vs => ∀ v ∈ vs, v.Plain := by
  cases items with
  | nil =>
    rw [evalAll]
    exact .pure (by simp)
  | cons e rest =>
    simp only [allArrayFree, Bool.and_eq_true] at hfree
    rw [evalAll]
    refine (delivers_foretold henv e hfree.1).bind fun v hv => ?_
    refine (delivers_all_plain henv rest hfree.2).bind fun vs hvs => .pure ?_
    simpa using And.intro hv.plain hvs
termination_by structural items

theorem delivers_entries_plain (henv : types.Foretells env) (entries : List (Expr × Expr))
    (hfree : entriesArrayFree entries = true) :
    (evalEntries env entries).Delivers fun vs => ∀ e ∈ vs, e.1.Plain ∧ e.2.Plain := by
  cases entries with
  | nil =>
    rw [evalEntries]
    exact .pure (by simp)
  | cons entry rest =>
    cases entry with
    | mk k e =>
      simp only [entriesArrayFree, Bool.and_eq_true] at hfree
      rw [evalEntries]
      refine (delivers_foretold henv k hfree.1.1).bind fun key hkey => ?_
      refine (delivers_foretold henv e hfree.1.2).bind fun v hv => ?_
      refine (delivers_entries_plain henv rest hfree.2).bind fun vs hvs => .pure fun x hx => ?_
      rcases List.mem_cons.mp hx with rfl | hx
      · exact ⟨hkey.plain, hv.plain⟩
      · exact hvs x hx
termination_by structural entries

end

/-- The class that is inferred for an expression without arrays and powers is the class of its value
in every run, unless nothing is known of it. -/
theorem typeClass_eq_ofValue {e : Expr} {v : Value} {t t' : Tracer} (hfree : e.isArrayFree = true)
    (hplain : ∀ name w, Bindings.find? env name = some w → w.Plain)
    (htypes : ∀ name w, Bindings.find? env name = some w → types.classOf name ≠ .unknown →
      types.classOf name = .ofValue w)
    (heval : e.eval env t = (.ok v, t')) (hknown : e.typeClass types ≠ .unknown) :
    e.typeClass types = .ofValue v := by
  have henv : types.Foretells env := by
    intro name w hw
    refine ⟨hplain name w hw, ?_⟩
    by_cases hclass : types.classOf name = .unknown
    · exact Or.inl hclass
    · exact Or.inr (htypes name w hw hclass)
  have hforetold := delivers_foretold henv e hfree t v t' heval
  exact hforetold.describes.of_known hknown

/-- `len(xs * n or []) - (q[0] != -n)` is an integer, with a boolean for a count, a boolean that is
subtracted, and a list of which nothing is known. -/
theorem typeClass_eq_ofValue_repeated :
    let env : Env := [("xs", .list [.str "a"]), ("n", .bool true), ("q", .list [.int 5])]
    let types : TypeEnv := [("xs", .host "list"), ("n", .scalar .bool)]
    let count : Expr := .call .len [.or (.binary .mul (.var "xs") (.var "n")) (.list [])]
    let differs : Expr := .binary .ne (.index (.var "q") (.literal (.int 0))) (.neg (.var "n"))
    let e : Expr := .binary .sub count differs
    e.isArrayFree = true ∧ (∀ name w, Bindings.find? env name = some w → w.Plain) ∧
      (∀ name w, Bindings.find? env name = some w → types.classOf name ≠ .unknown →
        types.classOf name = .ofValue w) ∧
      e.eval env default = (.ok (.int 0), default) ∧ e.typeClass types ≠ .unknown ∧
      e.typeClass types = .ofValue (.int 0) := by
  intro env types count differs e
  have hplain : ∀ name w, Bindings.find? env name = some w → w.Plain := by
    intro name w hw
    have hmem := Bindings.mem_of_find? hw
    simp only [env, List.mem_cons, Prod.mk.injEq, List.not_mem_nil, or_false] at hmem
    rcases hmem with ⟨-, rfl⟩ | ⟨-, rfl⟩ | ⟨-, rfl⟩
    · exact .list (by simpa using .str "a")
    · exact .scalar _
    · exact .list (by simpa using .scalar _)
  have htypes : ∀ name w, Bindings.find? env name = some w → types.classOf name ≠ .unknown →
      types.classOf name = .ofValue w := by
    intro name w hw hknown
    have hmem := Bindings.mem_of_find? hw
    simp only [env, List.mem_cons, Prod.mk.injEq, List.not_mem_nil, or_false] at hmem
    rcases hmem with ⟨rfl, rfl⟩ | ⟨rfl, rfl⟩ | ⟨rfl, rfl⟩
    · rfl
    · rfl
    · exact absurd rfl hknown
  have hfree : e.isArrayFree = true := by decide
  have heval : e.eval env default = (.ok (.int 0), default) := rfl
  have hknown : e.typeClass types ≠ .unknown := by decide
  exact ⟨hfree, hplain, htypes, heval, hknown,
    typeClass_eq_ofValue hfree hplain htypes heval hknown⟩

end Expr

end StagedFlow
