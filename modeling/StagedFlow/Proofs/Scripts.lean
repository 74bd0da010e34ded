import StagedFlow.Proofs.Contract
import StagedFlow.Tracer.Primitive

/-!
Scripts: programs of tracing steps. A script adds inputs, applies operations, takes nodes back and
calls the control-flow primitives with callbacks that are scripts themselves; whatever fails is
reported to it, and it may go on from there. Main definitions: `Step.Ends`, `Step.Leaves`,
`Tracer.Script`, `Tracer.Call`, `Tracer.Script.run`, `Tracer.Call.run`. Main results:
`Tracer.PrimitiveRules.ends_cond`, `Tracer.PrimitiveRules.ends_forLoop` and
`Tracer.PrimitiveRules.ends_whileLoop`, which say what a primitive comes to from what is known while
it traces its regions and records its node.
-/
set_option autoImplicit false

namespace StagedFlow

namespace Step

variable {σ ρ ε δ α β : Type}

/-- Go on with what a step ended with, an error included. -/
def handled (x : Step σ ε α) (next : Except ε α → Step σ δ β) : Step σ δ β := fun s =>
  match x s with
  | (.ok a, s) => next (.ok a) s
  | (.error (.error e), s) => next (.error e) s
  | (.error (.crash reason), s) => (.error (.crash reason), s)
  | (.error .outOfFuel, s) => (.error .outOfFuel, s)

/-- From the state `s` the step leads to `Q` with a value, and to `E` if it stops in any way. -/
def Ends (x : Step σ ε α) (s : σ) (Q : α → σ → Prop) (E : Halt ε → σ → Prop) : Prop :=
  match x s with
  | (.ok a, s') => Q a s'
  | (.error h, s') => E h s'

namespace Ends

variable {x : Step σ ε α} {s : σ} {Q Q' : α → σ → Prop} {E E' : Halt ε → σ → Prop}

theorem mono (h : x.Ends s Q E) (hQ : ∀ a s', Q a s' → Q' a s')
    (hE : ∀ e s', E e s' → E' e s') : x.Ends s Q' E' := by
  unfold Ends at h ⊢
  split at h
  · exact hQ _ _ h
  · exact hE _ _ h

theorem bind {f : α → Step σ ε β} {R : β → σ → Prop}
    (h : x.Ends s (fun a s' => (f a).Ends s' R E) E) : (x >>= f).Ends s R E := by
  unfold Ends at h ⊢
  rw [bind_apply]
  rcases hx : x s with ⟨(e | a), s'⟩
  · rw [hx] at h
    exact h
  · rw [hx] at h
    exact h

/-- If a step is handled, only a crash or the end of the fuel gets past. -/
theorem handled {next : Except ε α → Step σ δ β} {R : β → σ → Prop} {F : Halt δ → σ → Prop}
    (hx : x.Ends s Q E) (hok : ∀ a s', Q a s' → (next (.ok a)).Ends s' R F)
    (herror : ∀ e s', E (.error e) s' → (next (.error e)).Ends s' R F)
    (hcrash : ∀ reason s', E (.crash reason) s' → F (.crash reason) s')
    (hfuel : ∀ s', E .outOfFuel s' → F .outOfFuel s') : (x.handled next).Ends s R F := by
  unfold Ends at hx ⊢
  simp only [Step.handled]
  rcases hr : x s with ⟨(e | a), s'⟩
  · rw [hr] at hx
    cases e with
    | error e => exact herror e s' hx
    | crash reason => exact hcrash reason s' hx
    | outOfFuel => exact hfuel s' hx
  · rw [hr] at hx
    exact hok a s' hx

theorem done {a : α} (h : Q a s) : (Step.done a : Step σ ε α).Ends s Q E := h

theorem fail {e : ε} (h : E (.error e) s) : (Step.fail e : Step σ ε α).Ends s Q E := h

theorem onFirst {r : ρ} {R : α → σ × ρ → Prop} {F : Halt ε → σ × ρ → Prop}
    (h : x.Ends s (fun a s' => R a (s', r)) (fun e s' => F e (s', r))) :
    (x.onFirst : Step (σ × ρ) ε α).Ends (s, r) R F := by
  unfold Ends at h ⊢
  simp only [Step.onFirst]
  rcases hx : x s with ⟨(e | a), s'⟩ <;> rw [hx] at h <;> exact h

/-- Where nothing is asked of crashes and of the fuel, a contract covers values and errors. -/
theorem ensures {F : ε → σ → Prop} (h : x.Ends s Q E)
    (hE : ∀ e s', E (.error e) s' → F e s') : x.Ensures s Q F := by
  refine .intro (fun a s' hx => ?_) fun e s' hx => ?_
  · unfold Ends at h
    rw [hx] at h
    exact h
  · unfold Ends at h
    rw [hx] at h
    exact hE e s' h

end Ends

/-- However the step ends, it leads from the state `s` to `P`. -/
def Leaves (x : Step σ ε α) (s : σ) (P : σ → Prop) : Prop :=
  x.Ends s (fun _ s' => P s') (fun _ s' => P s')

namespace Leaves

variable {x : Step σ ε α} {s : σ} {P P' : σ → Prop}

theorem of_snd (h : P (x s).2) : x.Leaves s P := by
  unfold Leaves Ends
  rcases hx : x s with ⟨(e | a), s'⟩ <;> rw [hx] at h <;> exact h

theorem snd (h : x.Leaves s P) : P (x s).2 := by
  unfold Leaves Ends at h
  rcases hx : x s with ⟨(e | a), s'⟩ <;> rw [hx] at h <;> exact h

theorem handled {next : Except ε α → Step σ δ β} (hx : x.Leaves s P)
    (hnext : ∀ result s', P s' → (next result).Leaves s' P') (hP : ∀ s', P s' → P' s') :
    (x.handled next).Leaves s P' :=
  Ends.handled hx (fun a => hnext (.ok a)) (fun e => hnext (.error e)) (fun _ => hP) hP

theorem onFirst {r : ρ} {R : σ × ρ → Prop} (h : x.Leaves s fun s' => R (s', r)) :
    (x.onFirst : Step (σ × ρ) ε α).Leaves (s, r) R :=
  Ends.onFirst h

end Leaves

end Step

/-- The regions that a node owns, in the order in which they are traced. -/
def NodeKind.regions : NodeKind → List Region
  | .apply _ => []
  | .cond thenRegion elseRegion => [thenRegion, elseRegion]
  | .forLoop body => [body]
  | .whileLoop condRegion body => [condRegion, body]

namespace Tracer

/-! ## Scripts -/

mutual

/-- A program of tracing steps that yields a value of type `α` or fails with an error `ε`. Every
step hands its outcome to what follows. A script that halts leaves everything as it stands, also
the regions it is in the middle of. -/
inductive Script (ε : Type) : Type → Type 1
  | yield {α : Type} (a : α) : Script ε α
  | abort {α : Type} (e : ε) : Script ε α
  | halt {α : Type} (reason : Crash) : Script ε α
  | input {α : Type} (type : ArrayType) (next : Value → Script ε α) : Script ε α
  | apply {α : Type} (op : Op) (args : List Value) (next : Except Fault Value → Script ε α) :
    Script ε α
  | retract {α : Type} (id : Nat) (next : Except Fault Unit → Script ε α) : Script ε α
  | call {α : Type} (c : Call ε) (next : Except (Failure ε) (List Value) → Script ε α) : Script ε α

/-- A call of a control-flow primitive with scripts for callbacks. -/
inductive Call (ε : Type) : Type 1
  | cond (predicate : Value) (operands : List Value)
    (thenBranch elseBranch : List Value → Script ε (List Value)) : Call ε
  | forLoop (range : LoopRange) (init : List Value)
    (body : Value → List Value → Script ε (List Value)) : Call ε
  | whileLoop (init : List Value) (predicate : List Value → Script ε Value)
    (body : List Value → Script ε (List Value)) : Call ε

end

variable {ρ ε : Type}

mutual

def Script.run {α : Type} : Script ε α → Traced ρ ε α
  | .yield a => Step.done a
  | .abort e => Step.fail e
  | .halt reason => Step.halt (.crash reason)
  | .input type next => fun (t, r) => (next (t.input type).1).run ((t.input type).2, r)
  | .apply op args next => (Tracer.apply op args).onFirst.handled fun result => (next result).run
  | .retract id next => (Tracer.retract id).onFirst.handled fun result => (next result).run
  | .call c next => c.run.handled fun result => (next result).run

def Call.run : Call ε → Traced ρ (Failure ε) (List Value)
  | .cond predicate operands thenBranch elseBranch =>
    Tracer.cond predicate operands (fun args => (thenBranch args).run)
      (fun args => (elseBranch args).run)
  | .forLoop range init body => Tracer.forLoop range init fun index args => (body index args).run
  | .whileLoop init predicate body =>
    Tracer.whileLoop init (fun args => (predicate args).run) (fun args => (body args).run)

end

/-- An operation leaves the tracer alone, or records one node. -/
theorem apply_snd (op : Op) (args : List Value) (t : Tracer) :
    (apply op args t).2 = t ∨ ∃ operands type,
      (apply op args t).2 = (t.bindNode (.apply op) operands [type]).2 := by
  unfold apply
  split
  · split
    · exact Or.inl rfl
    · next operands types _ =>
      split
      · exact Or.inl rfl
      · split
        · exact Or.inl rfl
        · next type _ => exact Or.inr ⟨operands, type, rfl⟩
  · exact Or.inl rfl

/-! ## What a primitive comes to -/

/-- Tracing a region: the callback runs in the opened region, which is closed unless it halts. -/
theorem ends_inRegion {primitive : Primitive} {types : List ArrayType}
    {body : List Value → Traced ρ ε (List Value)} {s : Tracer × ρ}
    {P : List Value → Tracer × ρ → Prop} {F : Halt ε → Tracer × ρ → Prop}
    {Q : Region × List ArrayType → Tracer × ρ → Prop} {E : Halt (Failure ε) → Tracer × ρ → Prop}
    (hbody : (body (s.1.openRegion types).1).Ends ((s.1.openRegion types).2, s.2) P F)
    (hclose : ∀ values results outs t r, operandsOf values = .ok (results, outs) →
      P values (t, r) → Q ({ t.closeRegion.1 with results }, outs) (t.closeRegion.2, r))
    (hrefuse : ∀ values f t r, P values (t, r) →
      E (.error (.before primitive f)) (t.closeRegion.2, r))
    (hfail : ∀ e t r, F (.error e) (t, r) →
      E (.error ⟨primitive, .preBind, .body e⟩) (t.closeRegion.2, r))
    (hcrash : ∀ reason s, F (.crash reason) s → E (.crash reason) s)
    (hfuel : ∀ s, F .outOfFuel s → E .outOfFuel s) :
    (inRegion primitive types body).Ends s Q E := by
  obtain ⟨t, r⟩ := s
  unfold Step.Ends at hbody ⊢
  simp only [inRegion]
  rcases hx : body (t.openRegion types).1 ((t.openRegion types).2, r) with ⟨(e | values), t', r'⟩
  · rw [hx] at hbody
    cases e with
    | error e => exact hfail e t' r' hbody
    | crash reason => exact hcrash reason (t', r') hbody
    | outOfFuel => exact hfuel (t', r') hbody
  · rw [hx] at hbody
    simp only
    rcases hresults : operandsOf values with f | ⟨results, outs⟩
    · exact hrefuse values f t' r' hbody
    · exact hclose values results outs t' r' hresults hbody

/-- The callback of a counted loop does what its body does. -/
theorem ends_onIndex {body : Value → List Value → Traced ρ ε (List Value)} {s : Tracer × ρ}
    {P : List Value → Tracer × ρ → Prop} {F : Halt ε → Tracer × ρ → Prop}
    (hbody : ∀ index carried, (body index carried).Ends s P F) (args : List Value) :
    (onIndex body args).Ends s P F := by
  cases args with
  | nil => exact hbody (.int 0) []
  | cons index carried => exact hbody index carried

/-- The callback for a predicate ends as the predicate does. -/
theorem ends_yieldOne {predicate : List Value → Traced ρ ε Value} {args : List Value}
    {s : Tracer × ρ} {P : Tracer × ρ → Prop} {F : Halt ε → Tracer × ρ → Prop}
    (h : (predicate args).Ends s (fun _ s' => P s') F) :
    (yieldOne predicate args).Ends s (fun _ s' => P s') F :=
  .bind (h.mono (fun _ _ h => h) fun _ _ h => h)

/-- What has to be known of a primitive besides its callbacks. While it runs it holds the regions
that it has traced so far, and `I` holds of them and the state. -/
structure PrimitiveRules (I : List Region → Tracer × ρ → Prop)
    (Q : List Value → Tracer × ρ → Prop) (E : Halt (Failure ε) → Tracer × ρ → Prop) : Prop where
  refuse : ∀ {held s} (primitive : Primitive) (f : Fault),
    I held s → E (.error (.before primitive f)) s
  record : ∀ {s} (primitive : Primitive) (kind : NodeKind) (inputs : List Operand)
    (outputs before after : List ArrayType), I kind.regions s →
    (bindPrimitive primitive kind inputs outputs before after).Ends s Q E

/-- What has to be known of a callback: the region traced with it is one more that is held. -/
def Holds (I : List Region → Tracer × ρ → Prop) (E : Halt (Failure ε) → Tracer × ρ → Prop)
    (primitive : Primitive) (body : List Value → Traced ρ ε (List Value)) : Prop :=
  ∀ (types : List ArrayType) (held : List Region) (s : Tracer × ρ), I held s →
    (inRegion primitive types body).Ends s (fun r s' => I (held ++ [r.1]) s') E

namespace PrimitiveRules

variable {I : List Region → Tracer × ρ → Prop} {Q : List Value → Tracer × ρ → Prop}
  {E : Halt (Failure ε) → Tracer × ρ → Prop} {s : Tracer × ρ}

theorem ends_requireSession (rules : PrimitiveRules I Q E) {held : List Region} (hs : I held s)
    (primitive : Primitive) :
    (requireSession primitive : Traced ρ (Failure ε) Unit).Ends s (fun _ s' => I held s') E := by
  unfold requireSession Step.Ends
  by_cases h : s.1.session
  · simpa only [h, if_true] using hs
  · simp only [h]
    exact rules.refuse primitive _ hs

theorem ends_checked (rules : PrimitiveRules I Q E) {held : List Region} (hs : I held s) {α : Type}
    (primitive : Primitive) (x : Except Fault α) :
    (checked primitive x : Traced ρ (Failure ε) α).Ends s (fun _ s' => I held s') E := by
  cases x with
  | ok a => exact .done hs
  | error f => exact .fail (rules.refuse primitive f hs)

theorem ends_cond (rules : PrimitiveRules I Q E) (hs : I [] s) (predicate : Value)
    (operands : List Value) {thenBranch elseBranch : List Value → Traced ρ ε (List Value)}
    (hthen : Holds I E .cond thenBranch) (helse : Holds I E .cond elseBranch) :
    (cond predicate operands thenBranch elseBranch).Ends s Q E := by
  unfold cond
  refine .bind ((rules.ends_requireSession hs _).mono (fun _ s hs => ?_) fun _ _ h => h)
  refine .bind ((rules.ends_checked hs _ _).mono (fun p s hs => ?_) fun _ _ h => h)
  dsimp only
  split
  · refine .bind ((rules.ends_checked hs _ _).mono (fun args s hs => ?_) fun _ _ h => h)
    refine .bind ((hthen _ _ _ hs).mono (fun thenResult s hs => ?_) fun _ _ h => h)
    refine .bind ((helse _ _ _ hs).mono (fun elseResult s hs => ?_) fun _ _ h => h)
    refine .bind ((rules.ends_checked hs _ _).mono (fun _ s hs => ?_) fun _ _ h => h)
    exact rules.record _ _ _ _ _ _ hs
  · exact .bind (.fail (rules.refuse _ _ hs))

theorem ends_forLoop (rules : PrimitiveRules I Q E) (hs : I [] s) (range : LoopRange)
    (init : List Value) {body : Value → List Value → Traced ρ ε (List Value)}
    (hbody : Holds I E .forLoop (onIndex body)) : (forLoop range init body).Ends s Q E := by
  unfold forLoop
  refine .bind ((rules.ends_requireSession hs _).mono (fun _ s hs => ?_) fun _ _ h => h)
  refine .bind ((rules.ends_checked hs _ _).mono (fun bounds s hs => ?_) fun _ _ h => h)
  dsimp only
  split
  · exact .bind (.fail (rules.refuse _ _ hs))
  refine .bind ((rules.ends_checked hs _ _).mono (fun args s hs => ?_) fun _ _ h => h)
  refine .bind ((hbody _ _ _ hs).mono (fun result s hs => ?_) fun _ _ h => h)
  refine .bind ((rules.ends_checked hs _ _).mono (fun _ s hs => ?_) fun _ _ h => h)
  exact rules.record _ _ _ _ _ _ hs

theorem ends_whileLoop (rules : PrimitiveRules I Q E) (hs : I [] s) (init : List Value)
    {predicate : List Value → Traced ρ ε Value} {body : List Value → Traced ρ ε (List Value)}
    (hpredicate : Holds I E .whileLoop (yieldOne predicate)) (hbody : Holds I E .whileLoop body) :
    (whileLoop init predicate body).Ends s Q E := by
  unfold whileLoop
  refine .bind ((rules.ends_requireSession hs _).mono (fun _ s hs => ?_) fun _ _ h => h)
  refine .bind ((rules.ends_checked hs _ _).mono (fun args s hs => ?_) fun _ _ h => h)
  refine .bind ((hpredicate _ _ _ hs).mono (fun cond s hs => ?_) fun _ _ h => h)
  dsimp only
  split
  · refine .bind ((hbody _ _ _ hs).mono (fun result s hs => ?_) fun _ _ h => h)
    refine .bind ((rules.ends_checked hs _ _).mono (fun _ s hs => ?_) fun _ _ h => h)
    exact rules.record _ _ _ _ _ _ hs
  · exact .bind (.fail (rules.refuse _ _ hs))

end PrimitiveRules

end Tracer

end StagedFlow
