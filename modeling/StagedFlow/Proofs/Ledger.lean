import Mathlib.Data.List.Induction
import Mathlib.Data.List.TakeWhile
import StagedFlow.Proofs.Histories
import StagedFlow.Proofs.Strictness

/-!
The books of a workbench. Whatever is asked of it, in whatever order and with whatever success, the
records tell what was asked: a handle has one as soon as it was used, a conversion that worked was
made once, and one that failed as often as its handle was used. Main definitions:
`Workbench.Request`, `Workbench.log`, `Workbench.usesSinceIssue`, `Workbench.Ledger`,
`Workbench.Orderly`. Main results: `Workbench.ledger_log`, `Workbench.orderly_after_request`.
-/
set_option autoImplicit false

namespace StagedFlow.Workbench

/-! ## Requests -/

/-- What can be done with the function of a handle. -/
inductive Use
  | convert
  | trace (fuel : Nat) (args : List Argument)
  | run (fuel : Nat) (args : List Argument)
  | call (fuel : Nat) (args : List Value)

inductive Request
  | register (f : FunctionDef)
  | use (u : Use) (handle : Nat)

/-- What is left of a workbench after a use, which may have failed. -/
def Use.perform (u : Use) (handle : Nat) (w : Workbench) : Workbench :=
  match u with
  | convert => (Workbench.convert handle w).2
  | trace fuel args => (Workbench.trace fuel handle args w).2
  | run fuel args => (Workbench.run fuel handle args w).2
  | call fuel args => (Workbench.call fuel handle args w).2

def failureOf {ε α : Type} : Except ε α → Option ε
  | .error e => some e
  | .ok _ => none

/-- How a use fails. -/
def Use.failure? (u : Use) (handle : Nat) (w : Workbench) : Option (Halt WorkbenchError) :=
  match u with
  | convert => failureOf (Workbench.convert handle w).1
  | trace fuel args => failureOf (Workbench.trace fuel handle args w).1
  | run fuel args => failureOf (Workbench.run fuel handle args w).1
  | call fuel args => failureOf (Workbench.call fuel handle args w).1

def Request.perform (r : Request) (w : Workbench) : Workbench :=
  match r with
  | register f => (w.register f).2
  | use u handle => u.perform handle w

def performAll (requests : List Request) (w : Workbench) : Workbench :=
  requests.foldl (fun w r => r.perform w) w

/-- What a request was: a function got a handle, or a handle was used. -/
inductive Event
  | issued (handle : Nat) (f : FunctionDef)
  | used (handle : Nat)

namespace Event

def issued? : Event → Option Nat
  | issued handle _ => some handle
  | used _ => none

def used? : Event → Option Nat
  | issued _ _ => none
  | used handle => some handle

end Event

def Request.event (r : Request) (w : Workbench) : Event :=
  match r with
  | register f => .issued (w.register f).1 f
  | use _ handle => .used handle

/-- All events, from the first on. -/
def log : List Request → Workbench → List Event
  | [], _ => []
  | r :: rest, w => r.event w :: log rest (r.perform w)

/-- The handles that were given out. -/
def issuedHandles (events : List Event) : List Nat :=
  events.filterMap Event.issued?

/-- How often a handle was used after it had been given out. -/
def usesSinceIssue (events : List Event) (handle : Nat) : Nat :=
  (events.dropWhile fun e => e.issued? != some handle).countP fun e => e.used? == some handle

theorem performAll_concat (requests : List Request) (r : Request) (w : Workbench) :
    performAll (requests ++ [r]) w = r.perform (performAll requests w) := by
  simp [performAll]

theorem log_concat (requests : List Request) (r : Request) (w : Workbench) :
    log (requests ++ [r]) w = log requests w ++ [r.event (performAll requests w)] := by
  induction requests generalizing w with
  | nil => rfl
  | cons first rest ih => simp [log, ih, performAll]

/-! ## Counting -/

section Uses

variable {events : List Event} {handle : Nat}

theorem dropWhile_eq_nil_iff_unissued :
    events.dropWhile (fun e => e.issued? != some handle) = [] ↔ handle ∉ issuedHandles events := by
  simp [List.dropWhile_eq_nil_iff, issuedHandles]

theorem usesSinceIssue_of_unissued (h : handle ∉ issuedHandles events) :
    usesSinceIssue events handle = 0 := by
  rw [usesSinceIssue, dropWhile_eq_nil_iff_unissued.mpr h, List.countP_nil]

/-- Each use of a handle that was given out counts. -/
theorem usesSinceIssue_concat (h : handle ∈ issuedHandles events) (e : Event) :
    usesSinceIssue (events ++ [e]) handle =
      usesSinceIssue events handle + if e.used? = some handle then 1 else 0 := by
  have hsome : events.dropWhile (fun e => e.issued? != some handle) ≠ [] := by
    rw [ne_eq, dropWhile_eq_nil_iff_unissued, not_not]
    exact h
  unfold usesSinceIssue
  rw [List.dropWhile_append, if_neg (by simpa using hsome), List.countP_append]
  simp

theorem usesSinceIssue_concat_other {e : Event} (h : e.used? ≠ some handle) :
    usesSinceIssue (events ++ [e]) handle = usesSinceIssue events handle := by
  by_cases hissued : handle ∈ issuedHandles events
  · rw [usesSinceIssue_concat hissued, if_neg h, Nat.add_zero]
  · have hlast : ∀ e' ∈ [e].dropWhile (fun e => e.issued? != some handle),
        ¬ (e'.used? == some handle) = true := by
      intro e' he'
      rw [List.mem_singleton.mp (List.dropWhile_subset _ he')]
      simpa using h
    rw [usesSinceIssue_of_unissued hissued, usesSinceIssue, List.dropWhile_append,
      dropWhile_eq_nil_iff_unissued.mpr hissued]
    exact List.countP_eq_zero.mpr hlast

theorem mem_issuedHandles : handle ∈ issuedHandles events ↔ ∃ f, .issued handle f ∈ events := by
  unfold issuedHandles
  rw [List.mem_filterMap]
  constructor
  · rintro ⟨e, he, hissued⟩
    cases e with
    | issued handle' f =>
      cases hissued
      exact ⟨f, he⟩
    | used _ => cases hissued
  · rintro ⟨f, hf⟩
    exact ⟨_, hf, rfl⟩

end Uses

/-! ## The books -/

/-- What a record says of a function whose handle was used so many times: it was converted at the
first attempt, each attempt failed, or each crashed before anything was noted. -/
inductive Settled (options : Options) (f : FunctionDef) (uses : Nat) (r : ConversionRecord) : Prop
  | converted (g : FlowFunction) (hresult : (f.convert options).result = .ok g)
    (hstatus : r.status = .converted) (hattempts : r.attempts = 1) (hkept : r.converted = some g)
  | failed (vs : List Violation) (hresult : (f.convert options).result = .error (.error vs))
    (hstatus : r.status = .failed (Violation.textOf vs)) (hattempts : r.attempts = uses)
    (hkept : r.converted = none)
  | crashed (reason : Crash) (hresult : (f.convert options).result = .error (.crash reason))
    (hstatus : r.status = .pending) (hattempts : r.attempts = 0) (hkept : r.converted = none)

/-- The workbench agrees with what was asked of it. -/
structure Ledger (options : Options) (events : List Event) (w : Workbench) : Prop where
  unchanged : w.options = options
  handles : issuedHandles events = List.range w.registry.functions.length
  named : ∀ handle f, .issued handle f ∈ events → w.registry.function handle = .ok f
  unrecorded : ∀ handle, w.registry.record? handle = none → usesSinceIssue events handle = 0
  recorded : ∀ handle record, w.registry.record? handle = some record →
    0 < usesSinceIssue events handle ∧ ∃ f, w.registry.function handle = .ok f ∧
      Settled options f (usesSinceIssue events handle) record

namespace Ledger

variable {options : Options} {events : List Event} {w w' : Workbench} {handle : Nat}
  {f : FunctionDef} {record : ConversionRecord}

theorem start (options : Options) (session : Bool) : Ledger options [] { options, session } where
  unchanged := rfl
  handles := rfl
  named _ _ h := absurd h List.not_mem_nil
  unrecorded _ _ := rfl
  recorded _ _ h := by cases h

theorem alike (h : Ledger options events w) (halike : w.Alike w') : Ledger options events w' := by
  obtain ⟨hunchanged, hhandles, hnamed, hunrecorded, hrecorded⟩ := h
  constructor
  · rw [halike.options, hunchanged]
  · rw [halike.registry, hhandles]
  · rwa [halike.registry]
  · rwa [halike.registry]
  · rwa [halike.registry]

theorem mem_issued (h : Ledger options events w) (hf : w.registry.function handle = .ok f) :
    .issued handle f ∈ events := by
  have hlt : handle < w.registry.functions.length := by
    unfold Registry.function at hf
    split at hf
    · next hget => exact (List.getElem?_eq_some_iff.mp hget).1
    · cases hf
  have hmem : handle ∈ issuedHandles events := by
    rw [h.handles]
    exact List.mem_range.mpr hlt
  obtain ⟨f', hissued⟩ := mem_issuedHandles.mp hmem
  rw [h.named handle f' hissued] at hf
  cases hf
  exact hissued

theorem notMem_issued {e : RegistryFault} (h : Ledger options events w)
    (hf : w.registry.function handle = .error e) : handle ∉ issuedHandles events := by
  rw [mem_issuedHandles]
  rintro ⟨f, hissued⟩
  rw [h.named handle f hissued] at hf
  cases hf

/-- A new function gets a new handle. -/
theorem register (h : Ledger options events w) (f : FunctionDef) :
    Ledger options (events ++ [.issued (w.register f).1 f]) (w.register f).2 := by
  have hother : ∀ handle, usesSinceIssue (events ++ [.issued (w.register f).1 f]) handle =
      usesSinceIssue events handle :=
    fun handle => usesSinceIssue_concat_other fun h => by cases h
  constructor
  · exact h.unchanged
  · have hlength : (w.register f).2.registry.functions.length =
        w.registry.functions.length + 1 := by
      simp [Workbench.register, Registry.register]
    rw [issuedHandles, List.filterMap_append, ← issuedHandles, h.handles, hlength, List.range_succ]
    rfl
  · intro handle g hissued
    rcases List.mem_append.mp hissued with hold | hnew
    · exact Registry.function_register (h.named handle g hold) f
    · cases List.mem_singleton.mp hnew
      simp [Workbench.register, Registry.register, Registry.function]
  · intro handle hnone
    rw [hother]
    exact h.unrecorded handle hnone
  · intro handle record hrecord
    obtain ⟨hpos, g, hg, hsettled⟩ := h.recorded handle record hrecord
    rw [hother]
    exact ⟨hpos, g, Registry.function_register hg f, hsettled⟩

/-- A use of what is no handle leaves the books as they are. -/
theorem use_unknown {e : RegistryFault} (h : Ledger options events w)
    (hf : w.registry.function handle = .error e) : Ledger options (events ++ [.used handle]) w := by
  have hissued : issuedHandles (events ++ [.used handle]) = issuedHandles events := by
    simp [issuedHandles, Event.issued?]
  have hcount : ∀ other,
      usesSinceIssue (events ++ [.used handle]) other = usesSinceIssue events other := by
    intro other
    by_cases hsame : other = handle
    · have hunissued := h.notMem_issued hf
      rw [hsame, usesSinceIssue_of_unissued hunissued]
      exact usesSinceIssue_of_unissued (hissued ▸ hunissued)
    · exact usesSinceIssue_concat_other fun h => hsame (Option.some.inj h).symm
  constructor
  · exact h.unchanged
  · rw [hissued, h.handles]
  · intro other f hmem
    rcases List.mem_append.mp hmem with hold | hnew
    · exact h.named other f hold
    · cases List.mem_singleton.mp hnew
  · intro other hnone
    rw [hcount]
    exact h.unrecorded other hnone
  · intro other record hrecord
    rw [hcount]
    exact h.recorded other record hrecord

/-- A use of a handle concerns the record of that handle. -/
theorem use_known (h : Ledger options events w) (hf : w.registry.function handle = .ok f)
    (hoptions : w'.options = w.options) (hfunctions : w'.registry.functions = w.registry.functions)
    (hother : ∀ other, other ≠ handle → w'.registry.record? other = w.registry.record? other)
    (hrecord : w'.registry.record? handle = some record)
    (hsettled : Settled options f (usesSinceIssue events handle + 1) record) :
    Ledger options (events ++ [.used handle]) w' := by
  have hfunction : ∀ other, w'.registry.function other = w.registry.function other := by
    intro other
    rw [Registry.function, Registry.function, hfunctions]
  have hcount : ∀ other, other ≠ handle →
      usesSinceIssue (events ++ [.used handle]) other = usesSinceIssue events other :=
    fun other hne => usesSinceIssue_concat_other fun h => hne (Option.some.inj h).symm
  have hself : usesSinceIssue (events ++ [.used handle]) handle =
      usesSinceIssue events handle + 1 := by
    rw [usesSinceIssue_concat (mem_issuedHandles.mpr ⟨f, h.mem_issued hf⟩)]
    exact congrArg _ (if_pos rfl)
  constructor
  · rw [hoptions, h.unchanged]
  · rw [issuedHandles, List.filterMap_append, ← issuedHandles, h.handles, hfunctions]
    exact List.append_nil _
  · intro other f hissued
    rw [hfunction]
    rcases List.mem_append.mp hissued with hold | hnew
    · exact h.named other f hold
    · cases List.mem_singleton.mp hnew
  · intro other hnone
    by_cases hsame : other = handle
    · rw [hsame, hrecord] at hnone
      cases hnone
    · rw [hcount other hsame]
      exact h.unrecorded other (hother other hsame ▸ hnone)
  · intro other found hfound
    by_cases hsame : other = handle
    · rw [hsame, hrecord] at hfound
      cases hfound
      rw [hsame, hself, hfunction]
      exact ⟨Nat.succ_pos _, f, hf, hsettled⟩
    · rw [hcount other hsame, hfunction]
      exact h.recorded other found (hother other hsame ▸ hfound)

/-- What was converted so far is on record as converted at the first attempt. -/
theorem settled_of_kept {g : FlowFunction} (h : Ledger options events w)
    (hkept : w.registry.converted? handle = some g) (uses : Nat) :
    ∃ record f, w.registry.record? handle = some record ∧
      w.registry.function handle = .ok f ∧ Settled options f uses record := by
  obtain ⟨record, hrecord, hconverted⟩ := Option.bind_eq_some_iff.mp hkept
  obtain ⟨-, f, hf, hsettled⟩ := h.recorded handle record hrecord
  refine ⟨record, f, hrecord, hf, ?_⟩
  cases hsettled with
  | converted g' hresult hstatus hattempts hg' => exact .converted g' hresult hstatus hattempts hg'
  | failed vs hresult hstatus hattempts hnone =>
    rw [hconverted] at hnone
    cases hnone
  | crashed reason hresult hstatus hattempts hnone =>
    rw [hconverted] at hnone
    cases hnone

/-- One more attempt for a function that was not converted so far. -/
theorem settled_settle (h : Ledger options events w)
    (hf : w.registry.function handle = .ok f) (hkept : w.registry.converted? handle = none) :
    Settled options f (usesSinceIssue events handle + 1)
      (((w.registry.record? handle).getD { name := f.name }).settle
        (f.convert options).result) := by
  cases hrecord : w.registry.record? handle with
  | none =>
    rw [h.unrecorded handle hrecord]
    obtain ⟨g, hresult⟩ | ⟨vs, hresult⟩ | ⟨reason, hresult⟩ := f.convert_cases options
    · rw [hresult]
      exact .converted g hresult rfl rfl rfl
    · rw [hresult]
      exact .failed vs hresult rfl rfl rfl
    · rw [hresult]
      exact .crashed reason hresult rfl rfl rfl
  | some record =>
    obtain ⟨-, f', hf', hsettled⟩ := h.recorded handle record hrecord
    rw [hf] at hf'
    cases hf'
    cases hsettled with
    | converted g hresult hstatus hattempts hg =>
      rw [Registry.converted?, hrecord] at hkept
      cases hg.symm.trans hkept
    | failed vs hresult hstatus hattempts hnone =>
      rw [hresult]
      exact .failed vs hresult rfl (congrArg Nat.succ hattempts) hnone
    | crashed reason hresult hstatus hattempts hnone =>
      rw [hresult]
      exact .crashed reason hresult hstatus hattempts hnone

theorem convert (h : Ledger options events w) (handle : Nat) :
    Ledger options (events ++ [.used handle]) (Workbench.convert handle w).2 := by
  cases hkept : w.registry.converted? handle with
  | some g =>
    obtain ⟨record, f, hrecord, hf, hsettled⟩ := h.settled_of_kept hkept _
    rw [convert_of_kept hkept]
    exact h.use_known hf rfl rfl (fun _ _ => rfl) hrecord hsettled
  | none =>
    cases hf : w.registry.function handle with
    | error e =>
      rw [convert_of_unknown hkept hf]
      exact h.use_unknown hf
    | ok f =>
      have hsettled := h.settled_settle hf hkept
      rw [convert_of_new hkept hf, h.unchanged]
      refine h.use_known hf h.unchanged.symm rfl (fun other hne => ?_) ?_ hsettled
      · exact Bindings.find?_insert_of_ne _ _ hne.symm
      · exact Bindings.find?_insert_self _ _ _

end Ledger

/-! ## All requests -/

theorem session_traceWith (fuel : Nat) (plan : Option FaultPlan) (handle : Nat)
    (args : List Argument) (w : Workbench) :
    (traceWith fuel plan handle args w).2.session = w.session := by
  have hconverted := (convert_snd w handle).2
  unfold traceWith
  split
  · next hconvert =>
    rw [hconvert] at hconverted
    exact hconverted
  · next hconvert =>
    rw [hconvert] at hconverted
    dsimp only
    split
    · exact hconverted
    · next henter =>
      -- a session that was entered had not been active, and it is left
      obtain ⟨hidle, -⟩ := enter_eq_ok henter
      rw [← hconverted, hidle]
      rfl

theorem session_call (fuel handle : Nat) (args : List Value) (w : Workbench) :
    (call fuel handle args w).2.session = w.session := by
  have hconverted := (convert_snd w handle).2
  unfold call
  split
  · next hconvert =>
    rw [hconvert] at hconverted
    exact hconverted
  · next hconvert =>
    rw [hconvert] at hconverted
    exact hconverted

namespace Use

theorem alike_perform (u : Use) (handle : Nat) (w : Workbench) :
    (Workbench.convert handle w).2.Alike (u.perform handle w) := by
  cases u with
  | convert => exact ⟨rfl, rfl⟩
  | trace fuel args =>
    rw [perform, trace_snd]
    exact alike_traceWith w handle fuel none args
  | run fuel args =>
    rw [perform, run_snd, trace_snd]
    exact alike_traceWith w handle fuel none args
  | call fuel args => exact alike_call w handle fuel args

theorem session_perform (u : Use) (handle : Nat) (w : Workbench) :
    (u.perform handle w).session = w.session := by
  cases u with
  | convert => exact (convert_snd w handle).2
  | trace fuel args => rw [perform, trace_snd, session_traceWith]
  | run fuel args => rw [perform, run_snd, trace_snd, session_traceWith]
  | call fuel args => rw [perform, session_call]

/-- The order of the records stays, and new ones come last. -/
theorem keys_prefix_perform (u : Use) (handle : Nat) (w : Workbench) :
    w.registry.records.map Prod.fst <+: (u.perform handle w).registry.records.map Prod.fst := by
  rw [(u.alike_perform handle w).registry]
  cases hkept : w.registry.converted? handle with
  | some g => simp only [convert_of_kept hkept, List.prefix_rfl]
  | none =>
    cases hf : w.registry.function handle with
    | error e => simp only [convert_of_unknown hkept hf, List.prefix_rfl]
    | ok f =>
      rw [convert_of_new hkept hf]
      exact Bindings.keys_prefix_insert _ _ _

/-- A use that begins with a failed conversion fails in the same way. -/
theorem perform_of_error {u : Use} {handle : Nat} {w w' : Workbench} {e : Halt WorkbenchError}
    (h : Workbench.convert handle w = (.error e, w')) :
    u.perform handle w = w' ∧ u.failure? handle w = some e := by
  have htrace : ∀ fuel args, Workbench.trace fuel handle args w = (.error e, w') := by
    intro fuel args
    simp [Workbench.trace, traceWith, h]
  cases u with
  | convert => simp [perform, failure?, h, failureOf]
  | trace fuel args => simp [perform, failure?, htrace, failureOf]
  | run fuel args =>
    have hrun : Workbench.run fuel handle args w = (.error e, w') := Step.bind_of_error (htrace _ _)
    simp [perform, failure?, hrun, failureOf]
  | call fuel args => simp [perform, failure?, Workbench.call, h, failureOf]

end Use

/-- The books are kept through every request. -/
theorem ledger_log (options : Options) (session : Bool) (requests : List Request) :
    Ledger options (log requests { options, session })
      (performAll requests { options, session }) := by
  induction requests using List.reverseRecOn with
  | nil => exact Ledger.start options session
  | append_singleton requests r ih =>
    rw [log_concat, performAll_concat]
    cases r with
    | register f => exact ih.register f
    | use u handle => exact (ih.convert handle).alike (u.alike_perform handle _)

/-- What holds of a workbench after a request, in terms of all events up to it. -/
structure Orderly (options : Options) (events : List Event) (before after : Workbench) : Prop where
  distinct : (issuedHandles events).Nodup
  named : ∀ handle f, .issued handle f ∈ events → after.registry.function handle = .ok f
  recorded_iff : ∀ handle,
    (after.registry.record? handle).isSome = true ↔ 0 < usesSinceIssue events handle
  records_stay : before.registry.records.map Prod.fst <+: after.registry.records.map Prod.fst
  pending_iff : ∀ handle record, after.registry.record? handle = some record →
    (record.status = .pending ↔ ∃ f reason, .issued handle f ∈ events ∧
      (f.convert options).result = .error (.crash reason))
  converted_iff_status : ∀ handle, (after.registry.converted? handle).isSome = true ↔
    ∃ record, after.registry.record? handle = some record ∧ record.status = .converted
  converted_iff_source : ∀ handle, (after.registry.converted? handle).isSome = true ↔
    ∃ text, after.registry.source handle = .ok text
  converted_once : ∀ handle record, after.registry.record? handle = some record →
    record.status = .converted → record.attempts = 1 ∧
      ∃ f g, .issued handle f ∈ events ∧ (f.convert options).result = .ok g ∧
        record.converted = some g
  failed_each_time : ∀ handle record reason, after.registry.record? handle = some record →
    record.status = .failed reason → record.attempts = usesSinceIssue events handle
  session_kept : after.session = before.session

namespace Ledger

variable {options : Options} {events : List Event} {w : Workbench} {handle : Nat}
  {record : ConversionRecord}

theorem recorded_iff (h : Ledger options events w) :
    (w.registry.record? handle).isSome = true ↔ 0 < usesSinceIssue events handle := by
  cases hrecord : w.registry.record? handle with
  | none => simp [h.unrecorded handle hrecord]
  | some record => simpa using (h.recorded handle record hrecord).1

/-- Status and kept conversion go together. -/
theorem converted_iff (h : Ledger options events w)
    (hrecord : w.registry.record? handle = some record) :
    record.converted.isSome = true ↔ record.status = .converted := by
  obtain ⟨-, f, -, hsettled⟩ := h.recorded handle record hrecord
  cases hsettled with
  | converted g _ hstatus _ hkept => simp [hstatus, hkept]
  | failed vs _ hstatus _ hkept => simp [hstatus, hkept]
  | crashed reason _ hstatus _ hkept => simp [hstatus, hkept]

theorem converted?_isSome_iff (h : Ledger options events w) :
    (w.registry.converted? handle).isSome = true ↔
      ∃ record, w.registry.record? handle = some record ∧ record.status = .converted := by
  unfold Registry.converted?
  cases hrecord : w.registry.record? handle with
  | none => simp
  | some record => simpa using h.converted_iff hrecord

/-- Nothing is on record of the conversions that crash, and something of all others. -/
theorem pending_iff (h : Ledger options events w)
    (hrecord : w.registry.record? handle = some record) :
    record.status = .pending ↔ ∃ f reason, .issued handle f ∈ events ∧
      (f.convert options).result = .error (.crash reason) := by
  obtain ⟨-, f, hf, hsettled⟩ := h.recorded handle record hrecord
  have hcrash : (∃ f reason, .issued handle f ∈ events ∧
      (f.convert options).result = .error (.crash reason)) ↔
      ∃ reason, (f.convert options).result = .error (.crash reason) := by
    constructor
    · rintro ⟨f', reason, hissued, hresult⟩
      rw [h.named handle f' hissued] at hf
      cases hf
      exact ⟨reason, hresult⟩
    · rintro ⟨reason, hresult⟩
      exact ⟨f, reason, h.mem_issued hf, hresult⟩
  rw [hcrash]
  cases hsettled with
  | converted g hresult hstatus _ _ => simp [hstatus, hresult]
  | failed vs hresult hstatus _ _ => simp [hstatus, hresult]
  | crashed reason hresult hstatus _ _ => simp [hstatus, hresult]

theorem source_isOk_iff (h : Ledger options events w) :
    (w.registry.converted? handle).isSome = true ↔
      ∃ text, w.registry.source handle = .ok text := by
  cases hrecord : w.registry.record? handle with
  | none =>
    have hsource : ∀ text, w.registry.source handle ≠ .ok text := by
      intro text htext
      rw [Registry.source] at htext
      cases hf : w.registry.function handle with
      | error e =>
        rw [hf] at htext
        cases htext
      | ok f =>
        rw [hf, hrecord] at htext
        cases htext
    simp [Registry.converted?, hrecord, hsource]
  | some record =>
    obtain ⟨-, f, hf, hsettled⟩ := h.recorded handle record hrecord
    cases hsettled with
    | converted g _ hstatus _ hkept =>
      simp [Registry.converted?, Registry.source, hrecord, hf, hstatus, hkept, bind, Except.bind]
    | failed vs _ hstatus _ hkept =>
      simp [Registry.converted?, Registry.source, hrecord, hf, hstatus, hkept, bind, Except.bind]
    | crashed reason _ hstatus _ hkept =>
      simp [Registry.converted?, Registry.source, hrecord, hf, hstatus, hkept, bind, Except.bind]

/-- A number that was not given out names nothing. -/
theorem convert_of_unissued (h : Ledger options events w)
    (hunissued : handle ∉ issuedHandles events) :
    Workbench.convert handle w = (.error (.error (.registry (.unknownHandle handle))), w) := by
  have hfunction : ∀ f, w.registry.function handle ≠ .ok f :=
    fun f hf => hunissued (mem_issuedHandles.mpr ⟨f, h.mem_issued hf⟩)
  have hunknown : w.registry.function handle = .error (.unknownHandle handle) := by
    cases hget : w.registry.functions[handle]? with
    | none => simp [Registry.function, hget]
    | some f => exact absurd (by simp [Registry.function, hget]) (hfunction f)
  cases hkept : w.registry.converted? handle with
  | none => exact convert_of_unknown hkept hunknown
  | some g =>
    obtain ⟨-, f, -, hf, -⟩ := h.settled_of_kept hkept 0
    exact absurd hf (hfunction f)

end Ledger

namespace Request

theorem session_perform (r : Request) (w : Workbench) : (r.perform w).session = w.session := by
  cases r with
  | register f => rfl
  | use u handle => exact u.session_perform handle w

theorem keys_prefix_perform (r : Request) (w : Workbench) :
    w.registry.records.map Prod.fst <+: (r.perform w).registry.records.map Prod.fst := by
  cases r with
  | register f => exact List.prefix_rfl
  | use u handle => exact u.keys_prefix_perform handle w

end Request

/-- After each request, in every sequence of them, the books are in order; and a use of a number
that was not given out as a handle fails and changes nothing. -/
theorem orderly_after_request (options : Options) (session : Bool) (requests : List Request)
    (r : Request) :
    Orderly options (log (requests ++ [r]) { options, session })
      (performAll requests { options, session }) (performAll (requests ++ [r]) { options, session }) ∧
    ∀ u handle, r = .use u handle →
      handle ∉ issuedHandles (log requests { options, session }) →
        u.failure? handle (performAll requests { options, session }) =
            some (.error (.registry (.unknownHandle handle))) ∧
          performAll (requests ++ [r]) { options, session } =
            performAll requests { options, session } := by
  have hbefore := ledger_log options session requests
  have hafter := ledger_log options session (requests ++ [r])
  constructor
  · constructor
    case distinct =>
      rw [hafter.handles]
      exact List.nodup_range
    case named => exact hafter.named
    case recorded_iff => exact fun handle => hafter.recorded_iff
    case records_stay =>
      rw [performAll_concat]
      exact r.keys_prefix_perform _
    case pending_iff => exact fun handle record => hafter.pending_iff
    case converted_iff_status => exact fun handle => hafter.converted?_isSome_iff
    case converted_iff_source => exact fun handle => hafter.source_isOk_iff
    case converted_once =>
      intro handle record hrecord hconverted
      obtain ⟨-, f, hf, hsettled⟩ := hafter.recorded handle record hrecord
      cases hsettled with
      | converted g hresult _ hattempts hkept =>
        exact ⟨hattempts, f, g, hafter.mem_issued hf, hresult, hkept⟩
      | failed vs _ hstatus _ _ => cases hstatus.symm.trans hconverted
      | crashed reason _ hstatus _ _ => cases hstatus.symm.trans hconverted
    case failed_each_time =>
      intro handle record reason hrecord hfailed
      obtain ⟨-, f, -, hsettled⟩ := hafter.recorded handle record hrecord
      cases hsettled with
      | converted g _ hstatus _ _ => cases hstatus.symm.trans hfailed
      | failed vs _ _ hattempts _ => exact hattempts
      | crashed reason _ hstatus _ _ => cases hstatus.symm.trans hfailed
    case session_kept =>
      rw [performAll_concat]
      exact r.session_perform _
  · rintro u handle rfl hunissued
    have hconvert := hbefore.convert_of_unissued hunissued
    obtain ⟨hsame, hfailure⟩ := Use.perform_of_error (u := u) hconvert
    refine ⟨hfailure, ?_⟩
    rw [performAll_concat]
    exact hsame

/-- A loop that reads its sum before there is one. -/
def unsummed : FunctionDef :=
  ⟨"unsummed", [⟨"n", none⟩],
    [.forIn (.name "i") (.call .range [.var "n"])
      [.act (.assign (.name "acc") (.binary .add (.var "acc") (.var "i"))) .unknown] .unknown],
    none, none, .unknown⟩

/-- The number 0 is used before it is a handle, and again when it is. -/
def earlyUse : List Request :=
  [.use .convert 0, .register unsummed, .use .convert 0]

/-- A use of a number before it is given out as a handle does not count: of two uses one is an
attempt. -/
theorem early_use_uncounted :
    (log earlyUse {}).countP (fun e => e.used? == some 0) = 2 ∧
      ∃ record reason, (performAll earlyUse {}).registry.record? 0 = some record ∧
        record.status = .failed reason ∧ record.attempts = 1 := by
  have hrecord : ((performAll earlyUse {}).registry.record? 0).any (fun record =>
      record.status != .pending && record.status != .converted && record.attempts == 1) = true := by
    decide +kernel
  refine ⟨by decide +kernel, ?_⟩
  cases hfound : (performAll earlyUse {}).registry.record? 0 with
  | none =>
    rw [hfound] at hrecord
    cases hrecord
  | some record =>
    rw [hfound] at hrecord
    simp only [Option.any_some, Bool.and_eq_true, bne_iff_ne, ne_eq, beq_iff_eq] at hrecord
    obtain ⟨⟨hpending, hconverted⟩, hattempts⟩ := hrecord
    cases hstatus : record.status with
    | pending => exact absurd hstatus hpending
    | converted => exact absurd hstatus hconverted
    | failed reason => exact ⟨record, reason, rfl, hstatus, hattempts⟩

end StagedFlow.Workbench
