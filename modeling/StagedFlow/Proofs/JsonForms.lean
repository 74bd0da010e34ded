import StagedFlow.Program.Json
import StagedFlow.Proofs.JsonText
import StagedFlow.Proofs.ProgramParts

/-!
The JSON form of functions. Every part of a program is read back from its form, at any depth, and
the form has a text that says all of it. Floats are left out, as their text may not say all of
them. Main definition: `Span.Fits`. Main results: `Expr.ofJson?_toJson`, `Stmt.ofJson?_toJson`,
`FunctionDef.ofJson?_toJson`, `FunctionDef.exact_toJson`.
-/
set_option autoImplicit false

namespace StagedFlow

/-! ## Records -/

namespace Json

theorem one_le_height (j : Json) : 1 ≤ j.height := by
  cases j <;> simp [height]

@[simp] theorem variant?_tagged (name : String) (content : Json) :
    (tagged name content).variant? = some (name, some content) := rfl

@[simp] theorem height_tagged (name : String) (content : Json) :
    (tagged name content).height = content.height + 1 := by
  simp [tagged, height, fieldsHeight]

@[simp] theorem exact_tagged (name : String) (content : Json) :
    (tagged name content).Exact ↔ content.Exact := by
  simp [tagged, Exact, FieldsExact]

@[simp] theorem fields?_obj (fields : List (String × Json)) : (obj fields).fields? = some fields :=
  rfl

@[simp] theorem list?_arr {α : Type} (read : Json → Option α) (items : List Json) :
    (arr items).list? read = items.mapM read := rfl

/-- A name that stands in front is found if it is not given again. -/
@[simp] theorem field?_cons (key name : String) (j : Json) (rest : List (String × Json)) :
    field? ((key, j) :: rest) name =
      if key = name then if ∀ f ∈ rest, f.1 ≠ name then some (some j) else none
      else field? rest name := by
  by_cases hkey : key = name
  · subst hkey
    rw [if_pos rfl, field?, List.filter_cons_of_pos (by simp)]
    by_cases hrest : ∀ f ∈ rest, f.1 ≠ key
    · have hfilter : rest.filter (fun f => f.1 == key) = [] := by
        rw [List.filter_eq_nil_iff]
        exact fun f hf => by simpa using hrest f hf
      rw [if_pos hrest, hfilter]
    · obtain ⟨f, hf, hname⟩ : ∃ f ∈ rest, f.1 = key := by simpa using hrest
      have hmem : f ∈ rest.filter fun f => f.1 == key :=
        List.mem_filter.mpr ⟨hf, by simpa using hname⟩
      rw [if_neg hrest]
      cases hfilter : rest.filter fun f => f.1 == key with
      | nil => simp [hfilter] at hmem
      | cons g gs => rfl
  · simp [field?, hkey]

section Reading

variable {α β : Type} {fields : List (String × Json)} {name : String} {j : Json}
  {read : Json → Option α} {a : α}

theorem get?_of_field? (hfield : field? fields name = some (some j)) (hread : read j = some a) :
    get? fields name read = some a := by
  simp [get?, required?, hfield, hread]

theorem getOr?_of_field? {default : α} (hfield : field? fields name = some (some j))
    (hread : read j = some a) : getOr? fields name default read = some a := by
  simp [getOr?, hfield, hread]

/-- An optional field is read back, as long as what is there is not written as `null`. -/
theorem getOptional?_of_field? {write : α → Json} {value : Option α}
    (hfield : field? fields name = some (some (ofOption write value)))
    (hread : ∀ a ∈ value, read (write a) = some a) (hnull : ∀ a ∈ value, write a ≠ null) :
    getOptional? fields name read = some value := by
  cases value with
  | none => simp [getOptional?, hfield, ofOption, optional?]
  | some a =>
    have hoptional : optional? read (some (write a)) = (read (write a)).map some := by
      rw [optional?]
      exact hnull a rfl
    simp [getOptional?, hfield, ofOption, hoptional, hread a rfl]

/-- One read after the other. -/
theorem bind_of_some {x : Option α} {f : α → Option β} {b : β} (hx : x = some a)
    (hf : f a = some b) : (x >>= f) = some b := by
  rw [hx]
  exact hf

end Reading

end Json

theorem readName?_binaryTag (op : BinaryOp) :
    readName? BinaryOp.tags (.str op.tag) = some op := by
  cases op <;> rfl

theorem readName?_builtinTag (b : Builtin) : readName? Builtin.tags (.str b.tag) = some b := by
  cases b <;> rfl

theorem readName?_paramTag (t : ParamType) : readName? ParamType.tags (.str t.tag) = some t := by
  cases t <;> rfl

/-! ## Spans -/

namespace Span

/-- The numbers of a span are words of 64 bits. -/
def Fits (s : Span) : Prop :=
  ∀ n ∈ [s.start, s.stop, s.startLine, s.endLine, s.startColumn, s.endColumn],
    n < 0x10000000000000000

instance : DecidablePred Fits := fun s =>
  inferInstanceAs (Decidable
    (∀ n ∈ [s.start, s.stop, s.startLine, s.endLine, s.startColumn, s.endColumn],
      n < 0x10000000000000000))

theorem nat?_ofNat {n : Nat} (h : n < 0x10000000000000000) : Json.nat? (.ofNat n) = some n := by
  simp only [Json.ofNat, Json.nat?]
  rw [if_pos ⟨by omega, by omega⟩, Int.toNat_natCast]

theorem ofJson?_toJson {s : Span} (h : s.Fits) : ofJson? s.toJson = some s := by
  simp only [Fits, List.forall_mem_cons] at h
  obtain ⟨hstart, hstop, hstartLine, hendLine, hstartColumn, hendColumn, -⟩ := h
  exact Json.bind_of_some rfl <|
    Json.bind_of_some (Json.get?_of_field? rfl (nat?_ofNat hstart)) <|
    Json.bind_of_some (Json.get?_of_field? rfl (nat?_ofNat hstop)) <|
    Json.bind_of_some (Json.get?_of_field? rfl (nat?_ofNat hstartLine)) <|
    Json.bind_of_some (Json.get?_of_field? rfl (nat?_ofNat hendLine)) <|
    Json.bind_of_some (Json.get?_of_field? rfl (nat?_ofNat hstartColumn)) <|
    Json.bind_of_some (Json.get?_of_field? rfl (nat?_ofNat hendColumn)) rfl

end Span

/-! ## Expressions and targets -/

namespace Literal

theorem int64?_toInt (n : Int64) : Json.int64? (.int n.toInt) = some n := by
  have hlow := n.le_toInt
  have hhigh := n.toInt_lt
  simp only [Json.int64?]
  rw [if_pos ⟨by omega, by omega⟩, Int64.ofInt_toInt]

theorem ofJson?_toJson {l : Literal} (h : l.isFloat = false) : ofJson? l.toJson = some l := by
  cases l with
  | int n => simp [toJson, ofJson?, int64?_toInt]
  | float x => cases h
  | bool b => rfl
  | str s => rfl
  | none => rfl

end Literal

namespace Expr

mutual

theorem read?_toJson (e : Expr) (h : e.FloatFree) {n : Nat}
    (hn : e.toJson.height ≤ n) : read? n e.toJson = some e := by
  obtain ⟨n, rfl⟩ : ∃ m, n = m + 1 := ⟨n - 1, by have := e.toJson.one_le_height; omega⟩
  cases e with
  | literal l => simp [toJson, read?, Literal.ofJson?_toJson (h l (by simp [literals]))]
  | var name => rfl
  | binary op left right =>
    simp only [toJson, Json.height_tagged, Json.height, Json.fieldsHeight] at hn
    simp only [FloatFree, literals, List.forall_mem_append] at h
    have hleft : read? n left.toJson = some left := read?_toJson left h.1 (by omega)
    have hright : read? n right.toJson = some right := read?_toJson right h.2 (by omega)
    simp [toJson, read?, Json.get?, Json.required?, readName?_binaryTag, hleft, hright]
  | neg operand =>
    simp only [toJson, Json.height_tagged, Json.height, Json.fieldsHeight] at hn
    have hoperand : read? n operand.toJson = some operand := read?_toJson operand h (by omega)
    have hop : readName? [("Neg", ())] (.str "Neg") = some () := rfl
    simp [toJson, read?, Json.get?, Json.required?, hop, hoperand]
  | and left right =>
    simp only [toJson, Json.height_tagged, Json.height, Json.itemsHeight] at hn
    simp only [FloatFree, literals, List.forall_mem_append] at h
    have hleft : read? n left.toJson = some left := read?_toJson left h.1 (by omega)
    have hright : read? n right.toJson = some right := read?_toJson right h.2 (by omega)
    simp [toJson, read?, pair?, hleft, hright]
  | or left right =>
    simp only [toJson, Json.height_tagged, Json.height, Json.itemsHeight] at hn
    simp only [FloatFree, literals, List.forall_mem_append] at h
    have hleft : read? n left.toJson = some left := read?_toJson left h.1 (by omega)
    have hright : read? n right.toJson = some right := read?_toJson right h.2 (by omega)
    simp [toJson, read?, pair?, hleft, hright]
  | not operand =>
    simp only [toJson, Json.height_tagged] at hn
    have hoperand : read? n operand.toJson = some operand := read?_toJson operand h (by omega)
    simp [toJson, read?, hoperand]
  | list items =>
    simp only [toJson, Json.height_tagged, Json.height] at hn
    simp [toJson, read?, mapM_toJsons items h (show _ ≤ n by omega)]
  | tuple items =>
    simp only [toJson, Json.height_tagged, Json.height] at hn
    simp [toJson, read?, mapM_toJsons items h (show _ ≤ n by omega)]
  | dict entries =>
    simp only [toJson, Json.height_tagged, Json.height] at hn
    simp [toJson, read?, mapM_entryJsons entries h (show _ ≤ n by omega)]
  | index base i =>
    simp only [toJson, Json.height_tagged, Json.height, Json.fieldsHeight] at hn
    simp only [FloatFree, literals, List.forall_mem_append] at h
    have hbase : read? n base.toJson = some base := read?_toJson base h.1 (by omega)
    have hindex : read? n i.toJson = some i := read?_toJson i h.2 (by omega)
    simp [toJson, read?, Json.get?, Json.required?, hbase, hindex]
  | call function args =>
    simp only [toJson, Json.height_tagged, Json.height, Json.fieldsHeight] at hn
    simp [toJson, read?, Json.get?, Json.required?, readName?_builtinTag,
      mapM_toJsons args h (show _ ≤ n by omega)]
termination_by structural e

theorem mapM_toJsons (items : List Expr) (h : ∀ l ∈ literalsOf items, l.isFloat = false) {n : Nat}
    (hn : Json.itemsHeight (toJsons items) ≤ n) : (toJsons items).mapM (read? n) = some items := by
  cases items with
  | nil => rfl
  | cons e rest =>
    simp only [toJsons, Json.itemsHeight] at hn
    simp only [literalsOf, List.forall_mem_append] at h
    simp [toJsons, read?_toJson e h.1 (show _ ≤ n by omega),
      mapM_toJsons rest h.2 (show _ ≤ n by omega)]
termination_by structural items

theorem mapM_entryJsons (entries : List (Expr × Expr))
    (h : ∀ l ∈ literalsOfEntries entries, l.isFloat = false) {n : Nat}
    (hn : Json.itemsHeight (entryJsons entries) ≤ n) :
    (entryJsons entries).mapM (pair? (read? n)) = some entries := by
  cases entries with
  | nil => rfl
  | cons entry rest =>
    obtain ⟨k, v⟩ := entry
    simp only [entryJsons, Json.itemsHeight, Json.height] at hn
    simp only [literalsOfEntries, List.forall_mem_append] at h
    simp [entryJsons, pair?, read?_toJson k h.1.1 (show _ ≤ n by omega),
      read?_toJson v h.1.2 (show _ ≤ n by omega), mapM_entryJsons rest h.2 (show _ ≤ n by omega)]
termination_by structural entries

end

/-- An expression without floats is read back from its form. -/
theorem ofJson?_toJson {e : Expr} (h : e.FloatFree) : ofJson? e.toJson = some e :=
  read?_toJson e h (Nat.le_refl _)

end Expr

namespace Target

mutual

theorem read?_toJson (t : Target) {n : Nat} (hn : t.toJson.height ≤ n) :
    read? n t.toJson = some t := by
  obtain ⟨n, rfl⟩ : ∃ m, n = m + 1 := ⟨n - 1, by have := t.toJson.one_le_height; omega⟩
  cases t with
  | name x => rfl
  | tuple items =>
    simp only [toJson, Json.height_tagged, Json.height] at hn
    simp [toJson, read?, mapM_toJsons items (show _ ≤ n by omega)]
termination_by structural t

theorem mapM_toJsons (items : List Target) {n : Nat}
    (hn : Json.itemsHeight (toJsons items) ≤ n) : (toJsons items).mapM (read? n) = some items := by
  cases items with
  | nil => rfl
  | cons t rest =>
    simp only [toJsons, Json.itemsHeight] at hn
    simp [toJsons, read?_toJson t (show _ ≤ n by omega), mapM_toJsons rest (show _ ≤ n by omega)]
termination_by structural items

end

theorem ofJson?_toJson (t : Target) : ofJson? t.toJson = some t :=
  read?_toJson t (Nat.le_refl _)

end Target

/-! ## Statements -/

theorem Expr.toJson_ne_null (e : Expr) : e.toJson ≠ .null := by
  cases e <;> simp [Expr.toJson, Json.tagged]

theorem Span.field?_of_fits {s : Span} (h : s.Fits) {fields : List (String × Json)}
    (hfield : Json.field? fields "span" = some (some s.toJson)) : Span.field? fields = some s :=
  Json.getOr?_of_field? hfield (Span.ofJson?_toJson h)

theorem Action.read?_toJson (action : Action) {span : Span}
    (h : ∀ e ∈ action.exprs, e.FloatFree) (hspan : span.Fits) :
    ∃ tag fields, action.toJson span.toJson = .tagged tag (.obj fields) ∧
      tag ≠ "If" ∧ tag ≠ "For" ∧ tag ≠ "While" ∧ Span.field? fields = some span ∧
      Action.read? tag fields = some action := by
  cases action with
  | assign target value =>
    have hvalue := Expr.ofJson?_toJson (h value List.mem_cons_self)
    exact ⟨_, _, rfl, by decide, by decide, by decide, Span.field?_of_fits hspan rfl,
      Json.bind_of_some (Json.get?_of_field? rfl target.ofJson?_toJson) <|
      Json.bind_of_some (Json.get?_of_field? rfl hvalue) rfl⟩
  | update name op value =>
    have hvalue := Expr.ofJson?_toJson (h value List.mem_cons_self)
    exact ⟨_, _, rfl, by decide, by decide, by decide, Span.field?_of_fits hspan rfl,
      Json.bind_of_some (Json.get?_of_field? rfl rfl) <|
      Json.bind_of_some (Json.get?_of_field? rfl (readName?_binaryTag op)) <|
      Json.bind_of_some (Json.get?_of_field? rfl hvalue) rfl⟩
  | eval expr =>
    have hexpr := Expr.ofJson?_toJson (h expr List.mem_cons_self)
    exact ⟨_, _, rfl, by decide, by decide, by decide, Span.field?_of_fits hspan rfl,
      Json.bind_of_some (Json.get?_of_field? rfl hexpr) rfl⟩
  | ret value =>
    have hvalue : ∀ e ∈ value, Expr.ofJson? e.toJson = some e := fun e he =>
      Expr.ofJson?_toJson (h e (Option.mem_toList.mpr he))
    exact ⟨_, _, rfl, by decide, by decide, by decide, Span.field?_of_fits hspan rfl,
      Json.bind_of_some (Json.getOptional?_of_field? rfl hvalue fun e _ => e.toJson_ne_null) rfl⟩
  | raise message =>
    exact ⟨_, _, rfl, by decide, by decide, by decide, Span.field?_of_fits hspan rfl,
      Json.bind_of_some (Json.get?_of_field? rfl rfl) rfl⟩
  | pass =>
    exact ⟨_, _, rfl, by decide, by decide, by decide, Span.field?_of_fits hspan rfl, rfl⟩

theorem readBody?_bodyJson (read : Json → Option Stmt) (stmts : List Json) :
    readBody? read (bodyJson stmts) = stmts.mapM read := by
  simp [readBody?, bodyJson, Json.get?, Json.required?]

theorem height_bodyJson (stmts : List Json) :
    (bodyJson stmts).height = Json.itemsHeight stmts + 2 := by
  simp [bodyJson, Json.height, Json.fieldsHeight]

/-- The form of the last branch of a chain. -/
def lastJson (otherwise : Option (List Stmt)) : Json :=
  .ofOption (fun body => bodyJson (stmtJsons body)) otherwise

theorem Stmt.toJson_choose (arms : List Arm) (otherwise : Option (List Stmt)) (span : Span) :
    (Stmt.choose arms otherwise span).toJson =
      .tagged "If" (.obj [("branches", .arr (armJsons arms)), ("else_branch", lastJson otherwise),
        ("span", span.toJson)]) := by
  cases otherwise <;> rw [Stmt.toJson] <;> rfl

mutual

theorem Stmt.read?_toJson (s : Stmt) (h : ∀ e ∈ s.exprs, e.FloatFree)
    (hspans : ∀ x ∈ s.spans, x.Fits) {n : Nat} (hn : s.toJson.height ≤ n) : Stmt.read? n s.toJson = some s := by
  obtain ⟨n, rfl⟩ : ∃ m, n = m + 1 := ⟨n - 1, by have := s.toJson.one_le_height; omega⟩
  cases s with
  | act action span =>
    obtain ⟨tag, fields, hjson, hif, hfor, hwhile, hspan, haction⟩ :=
      action.read?_toJson h (hspans span List.mem_cons_self)
    rw [Stmt.toJson, hjson, Stmt.read?, Json.variant?_tagged]
    refine Json.bind_of_some rfl (Json.bind_of_some hspan ?_)
    split
    · next heq => exact absurd rfl hif
    · next heq => exact absurd rfl hfor
    · next heq => exact absurd rfl hwhile
    · exact Json.bind_of_some haction rfl
  | choose arms otherwise span =>
    simp only [Stmt.exprs, Stmt.spans, List.forall_mem_cons, List.forall_mem_append] at h hspans
    rw [Stmt.toJson_choose] at hn ⊢
    simp only [Json.height_tagged, Json.height, Json.fieldsHeight] at hn
    have harms := mapM_armJsons arms h.1 hspans.2.1 (show _ ≤ n by omega)
    have hlast := readBody?_lastJson otherwise h.2 hspans.2.2 (show _ ≤ n by omega)
    rw [Stmt.read?, Json.variant?_tagged]
    exact Json.bind_of_some rfl <|
      Json.bind_of_some (Span.field?_of_fits hspans.1 rfl) <|
      Json.bind_of_some (Json.get?_of_field? rfl harms) <|
      Json.bind_of_some (Json.getOptional?_of_field? rfl hlast fun body _ => Json.noConfusion) rfl
  | forIn target source body span =>
    simp only [Stmt.exprs, Stmt.spans, List.forall_mem_cons] at h hspans
    simp only [Stmt.toJson, Json.height_tagged, Json.height, Json.fieldsHeight,
      height_bodyJson] at hn
    have hbody := mapM_stmtJsons body h.2 hspans.2 (show _ ≤ n by omega)
    rw [Stmt.toJson, Stmt.read?, Json.variant?_tagged]
    exact Json.bind_of_some rfl <|
      Json.bind_of_some (Span.field?_of_fits hspans.1 rfl) <|
      Json.bind_of_some (Json.get?_of_field? rfl target.ofJson?_toJson) <|
      Json.bind_of_some (Json.get?_of_field? rfl (Expr.ofJson?_toJson h.1)) <|
      Json.bind_of_some (Json.get?_of_field? rfl ((readBody?_bodyJson _ _).trans hbody)) rfl
  | whileDo condition body span =>
    simp only [Stmt.exprs, Stmt.spans, List.forall_mem_cons] at h hspans
    simp only [Stmt.toJson, Json.height_tagged, Json.height, Json.fieldsHeight,
      height_bodyJson] at hn
    have hbody := mapM_stmtJsons body h.2 hspans.2 (show _ ≤ n by omega)
    rw [Stmt.toJson, Stmt.read?, Json.variant?_tagged]
    exact Json.bind_of_some rfl <|
      Json.bind_of_some (Span.field?_of_fits hspans.1 rfl) <|
      Json.bind_of_some (Json.get?_of_field? rfl (Expr.ofJson?_toJson h.1)) <|
      Json.bind_of_some (Json.get?_of_field? rfl ((readBody?_bodyJson _ _).trans hbody)) rfl
termination_by structural s

theorem mapM_armJsons (arms : List Arm) (h : ∀ e ∈ armExprs arms, e.FloatFree)
    (hspans : ∀ x ∈ armSpans arms, x.Fits) {n : Nat} (hn : Json.itemsHeight (armJsons arms) ≤ n) :
    (armJsons arms).mapM (readArm? (Stmt.read? n)) = some arms := by
  cases arms with
  | nil => rfl
  | cons arm rest =>
    obtain ⟨condition, body, span⟩ := arm
    simp only [armExprs, armSpans, List.forall_mem_cons, List.forall_mem_append] at h hspans
    simp only [armJsons, Json.itemsHeight, Json.height, Json.fieldsHeight, height_bodyJson] at hn
    have hbody := mapM_stmtJsons body h.2.1 hspans.2.1 (show _ ≤ n by omega)
    have harm : readArm? (Stmt.read? n) (.obj [("condition", condition.toJson),
        ("body", bodyJson (stmtJsons body)), ("span", span.toJson)]) =
        some ⟨condition, body, span⟩ :=
      Json.bind_of_some rfl <|
      Json.bind_of_some (Json.get?_of_field? rfl (Expr.ofJson?_toJson h.1)) <|
      Json.bind_of_some (Json.get?_of_field? rfl ((readBody?_bodyJson _ _).trans hbody)) <|
      Json.bind_of_some (Span.field?_of_fits hspans.1 rfl) rfl
    simp [armJsons, harm, mapM_armJsons rest h.2.2 hspans.2.2 (show _ ≤ n by omega)]
termination_by structural arms

theorem readBody?_lastJson (otherwise : Option (List Stmt))
    (h : ∀ e ∈ lastExprs otherwise, e.FloatFree) (hspans : ∀ x ∈ lastSpans otherwise, x.Fits)
    {n : Nat} (hn : (lastJson otherwise).height ≤ n) :
    ∀ body ∈ otherwise, readBody? (Stmt.read? n) (bodyJson (stmtJsons body)) = some body := by
  cases otherwise with
  | none => exact fun body hbody => absurd hbody (Option.not_mem_none body)
  | some last =>
    simp only [lastJson, Json.ofOption, height_bodyJson] at hn
    have hlast := mapM_stmtJsons last h hspans (show _ ≤ n by omega)
    intro body hbody
    rw [← Option.some.inj hbody]
    exact (readBody?_bodyJson _ _).trans hlast
termination_by structural otherwise

theorem mapM_stmtJsons (body : List Stmt) (h : ∀ e ∈ exprsIn body, e.FloatFree)
    (hspans : ∀ x ∈ spansIn body, x.Fits) {n : Nat} (hn : Json.itemsHeight (stmtJsons body) ≤ n) :
    (stmtJsons body).mapM (Stmt.read? n) = some body := by
  cases body with
  | nil => rfl
  | cons s rest =>
    simp only [exprsIn, spansIn, List.forall_mem_append] at h hspans
    simp only [stmtJsons, Json.itemsHeight] at hn
    simp [stmtJsons, Stmt.read?_toJson s h.1 hspans.1 (show _ ≤ n by omega),
      mapM_stmtJsons rest h.2 hspans.2 (show _ ≤ n by omega)]
termination_by structural body

end

theorem Stmt.ofJson?_toJson {s : Stmt} (h : ∀ e ∈ s.exprs, e.FloatFree)
    (hspans : ∀ x ∈ s.spans, x.Fits) : Stmt.ofJson? s.toJson = some s :=
  Stmt.read?_toJson s h hspans (Nat.le_refl _)

theorem mapM_ofJson?_stmtJsons {body : List Stmt} (h : ∀ e ∈ exprsIn body, e.FloatFree)
    (hspans : ∀ x ∈ spansIn body, x.Fits) : (stmtJsons body).mapM Stmt.ofJson? = some body := by
  induction body with
  | nil => rfl
  | cons s rest ih =>
    simp only [exprsIn, spansIn, List.forall_mem_append] at h hspans
    simp [stmtJsons, Stmt.ofJson?_toJson h.1 hspans.1, ih h.2 hspans.2]

/-! ## Functions -/

theorem Param.ofJson?_toJson (p : Param) : ofJson? p.toJson = some p :=
  Json.bind_of_some rfl <|
  Json.bind_of_some (Json.get?_of_field? rfl rfl) <|
  Json.bind_of_some (Json.getOptional?_of_field? rfl (fun t _ => readName?_paramTag t)
    fun _ _ => Json.noConfusion) rfl

theorem mapM_params (params : List Param) :
    (params.map Param.toJson).mapM Param.ofJson? = some params := by
  induction params with
  | nil => rfl
  | cons p rest ih => simp [p.ofJson?_toJson, ih]

namespace FunctionDef

theorem getOptional?_str {fields : List (String × Json)} {name : String} {value : Option String}
    (hfield : Json.field? fields name = some (some (.ofOption .str value))) :
    Json.getOptional? fields name Json.str? = some value :=
  Json.getOptional?_of_field? hfield (fun _ _ => rfl) fun _ _ => Json.noConfusion

/-- A function without floats is read back from its form. -/
theorem ofJson?_toJson {f : FunctionDef} (h : ∀ e ∈ f.exprs, e.FloatFree)
    (hspans : ∀ s ∈ f.spans, s.Fits) : ofJson? f.toJson = some f := by
  have hbody := mapM_ofJson?_stmtJsons h fun s hs => hspans s (List.mem_cons_of_mem _ hs)
  exact Json.bind_of_some rfl <|
    Json.bind_of_some (Json.get?_of_field? rfl rfl) <|
    Json.bind_of_some (Json.get?_of_field? rfl (mapM_params f.params)) <|
    Json.bind_of_some (Json.get?_of_field? rfl ((readBody?_bodyJson _ _).trans hbody)) <|
    Json.bind_of_some (getOptional?_str rfl) <|
    Json.bind_of_some (getOptional?_str rfl) <|
    Json.bind_of_some (Span.field?_of_fits (hspans f.span List.mem_cons_self) rfl) rfl

end FunctionDef

/-! ## Texts of forms -/

theorem Span.exact_toJson {s : Span} (h : s.Fits) : s.toJson.Exact := by
  simp only [Fits, List.forall_mem_cons] at h
  simp only [toJson, Json.ofNat, Json.Exact, Json.FieldsExact, and_true]
  omega

theorem Literal.exact_toJson {l : Literal} (h : l.isFloat = false) : l.toJson.Exact := by
  cases l with
  | int n =>
    have hlow := n.le_toInt
    have hhigh := n.toInt_lt
    simp only [toJson, Json.exact_tagged, Json.Exact]
    omega
  | float x => cases h
  | bool b => simp [toJson, Json.Exact]
  | str s => simp [toJson, Json.Exact]
  | none => simp [toJson, Json.Exact]

namespace Expr

mutual

theorem exact_toJson (e : Expr) (h : e.FloatFree) : e.toJson.Exact := by
  cases e with
  | literal l =>
    simp only [toJson, Json.exact_tagged]
    exact Literal.exact_toJson (h l List.mem_cons_self)
  | var name => simp [toJson, Json.Exact]
  | binary op left right =>
    simp only [FloatFree, literals, List.forall_mem_append] at h
    simp [toJson, Json.Exact, Json.FieldsExact, exact_toJson left h.1, exact_toJson right h.2]
  | neg operand =>
    simp [toJson, Json.Exact, Json.FieldsExact, exact_toJson operand h]
  | and left right =>
    simp only [FloatFree, literals, List.forall_mem_append] at h
    simp [toJson, Json.Exact, Json.ItemsExact, exact_toJson left h.1, exact_toJson right h.2]
  | or left right =>
    simp only [FloatFree, literals, List.forall_mem_append] at h
    simp [toJson, Json.Exact, Json.ItemsExact, exact_toJson left h.1, exact_toJson right h.2]
  | not operand => simp [toJson, exact_toJson operand h]
  | list items => simp [toJson, Json.Exact, exact_toJsons items h]
  | tuple items => simp [toJson, Json.Exact, exact_toJsons items h]
  | dict entries => simp [toJson, Json.Exact, exact_entryJsons entries h]
  | index base i =>
    simp only [FloatFree, literals, List.forall_mem_append] at h
    simp [toJson, Json.Exact, Json.FieldsExact, exact_toJson base h.1, exact_toJson i h.2]
  | call function args =>
    simp [toJson, Json.Exact, Json.FieldsExact, exact_toJsons args h]
termination_by structural e

theorem exact_toJsons (items : List Expr) (h : ∀ l ∈ literalsOf items, l.isFloat = false) :
    Json.ItemsExact (toJsons items) := by
  cases items with
  | nil => simp [toJsons, Json.ItemsExact]
  | cons e rest =>
    simp only [literalsOf, List.forall_mem_append] at h
    exact ⟨exact_toJson e h.1, exact_toJsons rest h.2⟩
termination_by structural items

theorem exact_entryJsons (entries : List (Expr × Expr))
    (h : ∀ l ∈ literalsOfEntries entries, l.isFloat = false) :
    Json.ItemsExact (entryJsons entries) := by
  cases entries with
  | nil => simp [entryJsons, Json.ItemsExact]
  | cons entry rest =>
    obtain ⟨k, v⟩ := entry
    simp only [literalsOfEntries, List.forall_mem_append] at h
    simp [entryJsons, Json.ItemsExact, Json.Exact, exact_toJson k h.1.1, exact_toJson v h.1.2,
      exact_entryJsons rest h.2]
termination_by structural entries

end

end Expr

namespace Target

mutual

theorem exact_toJson (t : Target) : t.toJson.Exact := by
  cases t with
  | name x => simp [toJson, Json.Exact]
  | tuple items => simp [toJson, Json.Exact, exact_toJsons items]
termination_by structural t

theorem exact_toJsons (items : List Target) : Json.ItemsExact (toJsons items) := by
  cases items with
  | nil => simp [toJsons, Json.ItemsExact]
  | cons t rest => exact ⟨exact_toJson t, exact_toJsons rest⟩
termination_by structural items

end

end Target

theorem Action.exact_toJson (action : Action) (h : ∀ e ∈ action.exprs, e.FloatFree) {span : Json}
    (hspan : span.Exact) : (action.toJson span).Exact := by
  cases action with
  | assign target value =>
    simp [toJson, Json.Exact, Json.FieldsExact, hspan, target.exact_toJson,
      value.exact_toJson (h value List.mem_cons_self)]
  | update name op value =>
    simp [toJson, Json.Exact, Json.FieldsExact, hspan,
      value.exact_toJson (h value List.mem_cons_self)]
  | eval expr =>
    simp [toJson, Json.Exact, Json.FieldsExact, hspan,
      expr.exact_toJson (h expr List.mem_cons_self)]
  | ret value =>
    cases value with
    | none => simp [toJson, Json.ofOption, Json.Exact, Json.FieldsExact, hspan]
    | some e =>
      simp [toJson, Json.ofOption, Json.Exact, Json.FieldsExact, hspan,
        e.exact_toJson (h e List.mem_cons_self)]
  | raise message => simp [toJson, Json.Exact, Json.FieldsExact, hspan]
  | pass => simp [toJson, Json.Exact, Json.FieldsExact, hspan]

theorem exact_bodyJson (stmts : List Json) :
    (bodyJson stmts).Exact ↔ Json.ItemsExact stmts := by
  simp [bodyJson, Json.Exact, Json.FieldsExact]

mutual

theorem Stmt.exact_toJson (s : Stmt) (h : ∀ e ∈ s.exprs, e.FloatFree)
    (hspans : ∀ x ∈ s.spans, x.Fits) : s.toJson.Exact := by
  cases s with
  | act action span =>
    exact action.exact_toJson h (Span.exact_toJson (hspans span List.mem_cons_self))
  | choose arms otherwise span =>
    simp only [Stmt.exprs, Stmt.spans, List.forall_mem_cons, List.forall_mem_append] at h hspans
    rw [Stmt.toJson_choose]
    simp [Json.Exact, Json.FieldsExact, Span.exact_toJson hspans.1,
      exact_armJsons arms h.1 hspans.2.1, exact_lastJson otherwise h.2 hspans.2.2]
  | forIn target source body span =>
    simp only [Stmt.exprs, Stmt.spans, List.forall_mem_cons] at h hspans
    simp [Stmt.toJson, Json.Exact, Json.FieldsExact, Span.exact_toJson hspans.1,
      target.exact_toJson, source.exact_toJson h.1, exact_bodyJson,
      exact_stmtJsons body h.2 hspans.2]
  | whileDo condition body span =>
    simp only [Stmt.exprs, Stmt.spans, List.forall_mem_cons] at h hspans
    simp [Stmt.toJson, Json.Exact, Json.FieldsExact, Span.exact_toJson hspans.1,
      condition.exact_toJson h.1, exact_bodyJson, exact_stmtJsons body h.2 hspans.2]
termination_by structural s

theorem exact_armJsons (arms : List Arm) (h : ∀ e ∈ armExprs arms, e.FloatFree)
    (hspans : ∀ x ∈ armSpans arms, x.Fits) : Json.ItemsExact (armJsons arms) := by
  cases arms with
  | nil => simp [armJsons, Json.ItemsExact]
  | cons arm rest =>
    obtain ⟨condition, body, span⟩ := arm
    simp only [armExprs, armSpans, List.forall_mem_cons, List.forall_mem_append] at h hspans
    simp [armJsons, Json.ItemsExact, Json.Exact, Json.FieldsExact, Span.exact_toJson hspans.1,
      condition.exact_toJson h.1, exact_bodyJson, exact_stmtJsons body h.2.1 hspans.2.1,
      exact_armJsons rest h.2.2 hspans.2.2]
termination_by structural arms

theorem exact_lastJson (otherwise : Option (List Stmt))
    (h : ∀ e ∈ lastExprs otherwise, e.FloatFree) (hspans : ∀ x ∈ lastSpans otherwise, x.Fits) :
    (lastJson otherwise).Exact := by
  cases otherwise with
  | none => simp [lastJson, Json.ofOption, Json.Exact]
  | some body => exact (exact_bodyJson _).mpr (exact_stmtJsons body h hspans)
termination_by structural otherwise

theorem exact_stmtJsons (body : List Stmt) (h : ∀ e ∈ exprsIn body, e.FloatFree)
    (hspans : ∀ x ∈ spansIn body, x.Fits) : Json.ItemsExact (stmtJsons body) := by
  cases body with
  | nil => simp [stmtJsons, Json.ItemsExact]
  | cons s rest =>
    simp only [exprsIn, spansIn, List.forall_mem_append] at h hspans
    exact ⟨s.exact_toJson h.1 hspans.1, exact_stmtJsons rest h.2 hspans.2⟩
termination_by structural body

end

theorem exact_params (params : List Param) : Json.ItemsExact (params.map Param.toJson) := by
  induction params with
  | nil => simp [Json.ItemsExact]
  | cons p rest ih =>
    obtain ⟨name, annotation⟩ := p
    cases annotation <;>
      simp [Param.toJson, Json.ofOption, Json.ItemsExact, Json.Exact, Json.FieldsExact, ih]

namespace FunctionDef

theorem exact_toJson {f : FunctionDef} (h : ∀ e ∈ f.exprs, e.FloatFree)
    (hspans : ∀ s ∈ f.spans, s.Fits) : f.toJson.Exact := by
  have hstr : ∀ s : Option String, (Json.ofOption .str s).Exact := by
    intro s
    cases s <;> simp [Json.ofOption, Json.Exact]
  have hbody := exact_stmtJsons f.body h fun s hs => hspans s (List.mem_cons_of_mem _ hs)
  simp [toJson, Json.Exact, Json.FieldsExact, exact_params, exact_bodyJson, hbody, hstr,
    Span.exact_toJson (hspans f.span List.mem_cons_self)]

end FunctionDef

end StagedFlow
