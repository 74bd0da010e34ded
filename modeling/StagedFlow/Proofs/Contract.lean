import StagedFlow.Step

/-!
What a step guarantees, for a value and for an error alike: whoever handles an error goes on from
the state that the failed step left. Nothing is said of a crash or of the end of the fuel, which no
one handles. Main definitions: `Step.Ensures`, `Protocol`, `Step.Keeps`. Main results: the rules
for sequences of steps, `Step.Ensures.bind` and `Step.Keeps.bind`.
-/
set_option autoImplicit false

namespace StagedFlow

theorem Outcome.bind_eq_ok {ε α β : Type} {x : Except (Halt ε) α} {f : α → Except (Halt ε) β}
    {b : β} (h : x >>= f = .ok b) : ∃ a, x = .ok a ∧ f a = .ok b := by
  cases x with
  | error e => cases h
  | ok a => exact ⟨a, rfl, h⟩

namespace Step

variable {σ ρ ε δ α β : Type}

/-- A sequence that works is two steps that work. -/
theorem bind_eq_ok {x : Step σ ε α} {f : α → Step σ ε β} {s s' : σ} {b : β}
    (h : (x >>= f) s = (.ok b, s')) :
    ∃ a s₁, x s = (.ok a, s₁) ∧ f a s₁ = (.ok b, s') := by
  rcases hx : x s with ⟨(e | a), s₁⟩
  · rw [bind_of_error hx] at h
    cases h
  · rw [bind_of_ok hx] at h
    exact ⟨a, s₁, rfl, h⟩

theorem mapError_eq_ok {f : ε → δ} {x : Step σ ε α} {s s' : σ} {a : α}
    (h : x.mapError f s = (.ok a, s')) : x s = (.ok a, s') := by
  unfold mapError at h
  rcases hx : x s with ⟨e | b, s₁⟩
  · rw [hx] at h
    cases h
  · rw [hx] at h
    cases h
    rfl

theorem onFirst_eq_ok {x : Step σ ε α} {s s' : σ × ρ} {a : α} (h : x.onFirst s = (.ok a, s')) :
    x s.1 = (.ok a, s'.1) ∧ s'.2 = s.2 := by
  obtain ⟨s, r⟩ := s
  obtain ⟨hresult, rfl⟩ := Prod.mk.inj h
  exact ⟨Prod.ext hresult rfl, rfl⟩

theorem ofExcept_apply (r : Except (Halt ε) α) (s : σ) : Step.ofExcept r s = (r, s) := by
  cases r <;> rfl

/-- From the state `s` the step leads to `Q` with a value, and to `E` with an error. -/
def Ensures (x : Step σ ε α) (s : σ) (Q : α → σ → Prop) (E : ε → σ → Prop) : Prop :=
  match x s with
  | (.ok a, s') => Q a s'
  | (.error (.error e), s') => E e s'
  | (.error (.crash _), _) => True
  | (.error .outOfFuel, _) => True

namespace Ensures

variable {x : Step σ ε α} {s s' : σ} {Q Q' : α → σ → Prop} {E E' : ε → σ → Prop}

theorem of_ok {a : α} (h : x.Ensures s Q E) (hx : x s = (.ok a, s')) : Q a s' := by
  unfold Ensures at h
  rw [hx] at h
  exact h

theorem of_error {e : ε} (h : x.Ensures s Q E) (hx : x s = (.error (.error e), s')) : E e s' := by
  unfold Ensures at h
  rw [hx] at h
  exact h

theorem intro (hok : ∀ a s', x s = (.ok a, s') → Q a s')
    (herror : ∀ e s', x s = (.error (.error e), s') → E e s') : x.Ensures s Q E := by
  unfold Ensures
  rcases hx : x s with ⟨(h | a), s'⟩
  · cases h with
    | error e => exact herror e s' hx
    | crash _ => trivial
    | outOfFuel => trivial
  · exact hok a s' hx

/-- A step is what it comes to. -/
theorem of_eq {y : Step σ ε α} (hxy : x s = y s') (h : y.Ensures s' Q E) : x.Ensures s Q E := by
  unfold Ensures at h ⊢
  rw [hxy]
  exact h

theorem mono (h : x.Ensures s Q E) (hQ : ∀ a s', Q a s' → Q' a s')
    (hE : ∀ e s', E e s' → E' e s') : x.Ensures s Q' E' :=
  intro (fun a s' hx => hQ a s' (h.of_ok hx)) (fun e s' hx => hE e s' (h.of_error hx))

theorem bind {f : α → Step σ ε β} {R : β → σ → Prop}
    (h : x.Ensures s (fun a s' => (f a).Ensures s' R E) E) : (x >>= f).Ensures s R E := by
  unfold Ensures at h ⊢
  rw [bind_apply]
  rcases hx : x s with ⟨(h' | a), s'⟩
  · rw [hx] at h
    cases h' <;> exact h
  · rw [hx] at h
    exact h

theorem pure {a : α} (h : Q a s) : (Pure.pure a : Step σ ε α).Ensures s Q E := h

theorem done {a : α} (h : Q a s) : (Step.done a : Step σ ε α).Ensures s Q E := h

theorem fail {e : ε} (h : E e s) : (Step.fail e : Step σ ε α).Ensures s Q E := h

theorem halt_outOfFuel : (Step.halt .outOfFuel : Step σ ε α).Ensures s Q E := trivial

theorem modify {f : σ → σ} {R : Unit → σ → Prop} (h : R ⟨⟩ (f s)) :
    (Step.modify f : Step σ ε Unit).Ensures s R E := h

theorem mapError {f : ε → δ} {E : δ → σ → Prop}
    (h : x.Ensures s Q (fun e s' => E (f e) s')) : (x.mapError f).Ensures s Q E := by
  unfold Ensures at h ⊢
  unfold Step.mapError
  rcases hx : x s with ⟨(h' | a), s'⟩
  · rw [hx] at h
    cases h' <;> exact h
  · rw [hx] at h
    exact h

theorem onFirst {r : ρ} {R : α → σ × ρ → Prop} {F : ε → σ × ρ → Prop}
    (h : x.Ensures s (fun a s' => R a (s', r)) (fun e s' => F e (s', r))) :
    (x.onFirst : Step (σ × ρ) ε α).Ensures (s, r) R F := by
  unfold Ensures at h ⊢
  simp only [Step.onFirst]
  rcases hx : x s with ⟨(h' | a), s'⟩
  · rw [hx] at h
    cases h' <;> exact h
  · rw [hx] at h
    exact h

theorem ofExcept {r : Except (Halt ε) α} (hok : ∀ a, r = .ok a → Q a s)
    (herror : ∀ e, r = .error (.error e) → E e s) : (Step.ofExcept r).Ensures s Q E := by
  cases r with
  | ok a => exact hok a rfl
  | error h =>
    cases h with
    | error e => exact herror e rfl
    | crash _ => trivial
    | outOfFuel => trivial

end Ensures

end Step

/-- An invariant of states, and how they may change while it holds. -/
structure Protocol (σ : Type) where
  inv : σ → Prop
  leads : σ → σ → Prop
  refl : ∀ s, inv s → leads s s
  trans : ∀ {s s' s''}, inv s → leads s s' → leads s' s'' → leads s s''
  keeps : ∀ {s s'}, inv s → leads s s' → inv s'

namespace Step

variable {σ ε δ α β : Type} {P : Protocol σ}

/-- A step follows a protocol from the state `s`, and its values have the property `Q`. -/
def Keeps (P : Protocol σ) (x : Step σ ε α) (s : σ) (Q : α → σ → Prop) : Prop :=
  P.inv s → x.Ensures s (fun a s' => P.leads s s' ∧ Q a s') (fun _ s' => P.leads s s')

namespace Keeps

variable {x : Step σ ε α} {s : σ} {Q Q' : α → σ → Prop}

theorem bind {f : α → Step σ ε β} {R : β → σ → Prop} (hx : x.Keeps P s Q)
    (hf : ∀ a s', P.inv s → P.leads s s' → Q a s' → (f a).Keeps P s' R) :
    (x >>= f).Keeps P s R := by
  intro hs
  apply Ensures.bind
  refine (hx hs).mono (fun a s' h => ?_) (fun _ _ h => h)
  have hs' : P.inv s' := P.keeps hs h.1
  refine (hf a s' hs h.1 h.2 hs').mono (fun b s'' h' => ?_) (fun _ s'' h' => ?_)
  · exact ⟨P.trans hs h.1 h'.1, h'.2⟩
  · exact P.trans hs h.1 h'

theorem pure {a : α} (h : Q a s) : (Pure.pure a : Step σ ε α).Keeps P s Q :=
  fun hs => Ensures.pure ⟨P.refl s hs, h⟩

theorem done {a : α} (h : Q a s) : (Step.done a : Step σ ε α).Keeps P s Q :=
  fun hs => Ensures.done ⟨P.refl s hs, h⟩

theorem fail {e : ε} : (Step.fail e : Step σ ε α).Keeps P s Q :=
  fun hs => Ensures.fail (P.refl s hs)

theorem halt_outOfFuel : (Step.halt .outOfFuel : Step σ ε α).Keeps P s Q :=
  fun _ => Ensures.halt_outOfFuel

theorem mono (h : x.Keeps P s Q) (hQ : ∀ a s', P.inv s → P.leads s s' → Q a s' → Q' a s') :
    x.Keeps P s Q' :=
  fun hs => (h hs).mono (fun a s' h' => ⟨h'.1, hQ a s' hs h'.1 h'.2⟩) (fun _ _ h' => h')

theorem mapError {f : ε → δ} (h : x.Keeps P s Q) : (x.mapError f).Keeps P s Q :=
  fun hs => Ensures.mapError (h hs)

theorem map {f : α → β} {R : β → σ → Prop} (h : x.Keeps P s fun a s' => R (f a) s') :
    (f <$> x).Keeps P s R := by
  rw [map_eq_pure_bind]
  exact h.bind fun a s' _ _ ha => pure ha

theorem ofExcept {r : Except (Halt ε) α} (hok : ∀ a, r = .ok a → Q a s) :
    (Step.ofExcept r).Keeps P s Q :=
  fun hs => Ensures.ofExcept (fun a ha => ⟨P.refl s hs, hok a ha⟩) (fun _ _ => P.refl s hs)

theorem ofFault {r : Except Fault α} (hok : ∀ a, r = .ok a → Q a s) :
    (Step.ofFault r).Keeps P s Q := by
  refine ofExcept fun a ha => hok a ?_
  cases r with
  | ok b => rw [Except.ok.inj ha]
  | error f => cases ha

/-- A step that follows a protocol for every item of a list follows it along the list. -/
theorem mapM {γ : Type} {f : γ → Step σ ε α} {R : α → σ → Prop} :
    ∀ (items : List γ) (s : σ), (∀ c ∈ items, ∀ s', P.leads s s' → (f c).Keeps P s' R) →
      (∀ a s' s'', P.inv s' → P.leads s' s'' → R a s' → R a s'') →
      (items.mapM f).Keeps P s (fun values s' => ∀ a ∈ values, R a s')
  | [], s, _, _ => by
    rw [List.mapM_nil]
    exact pure (by simp)
  | c :: rest, s, hf, hR => by
    rw [List.mapM_cons]
    intro hs
    refine bind (hf c (by simp) s (P.refl s hs)) (fun a s' _ hss' ha => ?_) hs
    have hrest := mapM rest s'
      (fun c' hc' s'' hs'' => hf c' (by simp [hc']) s'' (P.trans hs hss' hs'')) hR
    refine hrest.bind fun values s'' hs' hs'' hvalues => pure ?_
    intro b hb
    rcases List.mem_cons.mp hb with rfl | hb
    · exact hR _ s' s'' hs' hs'' ha
    · exact hvalues b hb

end Keeps

end Step

end StagedFlow
