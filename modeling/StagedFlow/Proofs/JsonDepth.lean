import StagedFlow.Proofs.JsonForms

/-!
The JSON form of functions in a text that is looked at down to a fixed depth only. Reading a
function looks at every part of its form, so a function is read back where the form is not nested
too deep, and refused otherwise. What is assumed of the text itself is written down as a layer. Main
definition: `Json.Layer`. Main results: `Json.cut_of_depth_le`, `Expr.depth_le_of_read?`,
`Stmt.depth_le_of_read?`, `FunctionDef.depth_le_of_ofJson?`, `FunctionDef.reads_back`.
-/
set_option autoImplicit false

namespace StagedFlow

/-! ## Values that are cut off -/

namespace Json

mutual

/-- What is not nested too deep is left as it is. -/
theorem cut_of_depth_le (j : Json) {n : Nat} (h : j.depth ≤ n) : j.cut n = j := by
  cases j with
  | arr items =>
    rw [depth] at h
    obtain ⟨m, rfl⟩ : ∃ m, n = m + 1 := ⟨n - 1, by omega⟩
    rw [cut, cutItems_of_depth_le items (by omega)]
  | obj fields =>
    rw [depth] at h
    obtain ⟨m, rfl⟩ : ∃ m, n = m + 1 := ⟨n - 1, by omega⟩
    rw [cut, cutFields_of_depth_le fields (by omega)]
  | _ => simp [cut]
termination_by structural j

theorem cutItems_of_depth_le (items : List Json) {n : Nat} (h : itemsDepth items ≤ n) :
    cutItems items n = items := by
  cases items with
  | nil => rfl
  | cons j rest =>
    rw [itemsDepth] at h
    rw [cutItems, cut_of_depth_le j (by omega), cutItems_of_depth_le rest (by omega)]
termination_by structural items

theorem cutFields_of_depth_le (fields : List (String × Json)) {n : Nat}
    (h : fieldsDepth fields ≤ n) : cutFields fields n = fields := by
  cases fields with
  | nil => rfl
  | cons field rest =>
    obtain ⟨name, j⟩ := field
    rw [fieldsDepth] at h
    rw [cutFields, cut_of_depth_le j (by omega), cutFields_of_depth_le rest (by omega)]
termination_by structural fields

end

@[simp] theorem depth_tagged (name : String) (content : Json) :
    (tagged name content).depth = content.depth + 1 := by
  simp [tagged, depth, fieldsDepth]

section Reading

variable {α : Type} {n : Nat} {name : String} {j : Json} {fields : List (String × Json)}
  {items : List Json} {read : Json → Option α}

/-- A record that was read has not been cut off. -/
theorem fields?_cut {next : List (String × Json) → Option α} {a : α}
    (h : ((obj fields).cut n).fields?.bind next = some a) :
    ∃ m, n = m + 1 ∧ next (cutFields fields m) = some a := by
  cases n with
  | zero => cases h
  | succ m => exact ⟨m, rfl, h⟩

theorem list?_cut {as : List α} (h : ((arr items).cut n).list? read = some as) :
    ∃ m, n = m + 1 ∧ (cutItems items m).mapM read = some as := by
  cases n with
  | zero => cases h
  | succ m => exact ⟨m, rfl, h⟩

theorem mapM_cutItems {as : List α} (h : (cutItems (j :: items) n).mapM read = some as) :
    ∃ a rest, read (j.cut n) = some a ∧ (cutItems items n).mapM read = some rest := by
  rw [cutItems, List.mapM_cons] at h
  obtain ⟨a, ha, h⟩ := Option.bind_eq_some_iff.mp h
  obtain ⟨rest, hrest, -⟩ := Option.bind_eq_some_iff.mp h
  exact ⟨a, rest, ha, hrest⟩

theorem read_of_get? {a : α} (hfield : field? fields name = some (some j))
    (h : get? fields name read = some a) : read j = some a := by
  rwa [get?, hfield] at h

theorem read_of_getOr? {default a : α} (hfield : field? fields name = some (some j))
    (h : getOr? fields name default read = some a) : read j = some a := by
  rwa [getOr?, hfield] at h

theorem cut_ne_null (h : j ≠ null) : j.cut n ≠ null := by
  cases j with
  | null => exact absurd rfl h
  | _ => cases n <;> simp [cut]

/-- An optional field that was read has not been cut off. -/
theorem depth_le_of_getOptional? {β : Type} (write : β → Json) {value : Option β} {r : Option α}
    (hfield : field? fields name = some (some ((ofOption write value).cut n)))
    (hnull : ∀ b ∈ value, write b ≠ null)
    (hread : ∀ b ∈ value, ∀ a, read ((write b).cut n) = some a → (write b).depth ≤ n)
    (h : getOptional? fields name read = some r) : (ofOption write value).depth ≤ n := by
  cases value with
  | none => exact Nat.zero_le n
  | some b =>
    have hoptional : optional? read (some ((write b).cut n)) =
        (read ((write b).cut n)).map some := by
      rw [optional?]
      exact cut_ne_null (hnull b rfl)
    rw [getOptional?, hfield] at h
    obtain ⟨a, ha, -⟩ := Option.map_eq_some_iff.mp (hoptional.symm.trans h)
    exact hread b rfl a ha

end Reading

end Json

theorem Span.depth_le_of_field? {s r : Span} {fields : List (String × Json)} {n : Nat}
    (hfield : Json.field? fields "span" = some (some (s.toJson.cut n)))
    (h : Span.field? fields = some r) : s.toJson.depth ≤ n := by
  obtain ⟨m, rfl, -⟩ := Json.fields?_cut (Json.read_of_getOr? hfield h)
  simp [toJson, Json.ofNat, Json.depth, Json.fieldsDepth]

/-! ## Expressions and targets -/

theorem Literal.depth_toJson (l : Literal) : l.toJson.depth ≤ 1 := by
  cases l with
  | float x =>
    rw [toJson, Json.depth_tagged, Json.ofFloat]
    split <;> simp [Json.depth]
  | _ => simp [toJson, Json.depth]

theorem Literal.depth_le_of_ofJson? {l r : Literal} {n : Nat}
    (h : ofJson? (l.toJson.cut n) = some r) : l.toJson.depth ≤ n := by
  cases n with
  | zero =>
    cases l with
    | none => simp [toJson, Json.depth]
    | _ => cases h
  | succ n =>
    have := l.depth_toJson
    omega

namespace Expr

theorem pair?_cut {read : Json → Option Expr} {a b : Json} {p : Expr × Expr} {n : Nat}
    (h : pair? read ((Json.arr [a, b]).cut n) = some p) :
    ∃ m, n = m + 1 ∧ read (a.cut m) = some p.1 ∧ read (b.cut m) = some p.2 := by
  cases n with
  | zero => cases h
  | succ m =>
    obtain ⟨x, hx, h⟩ := Option.bind_eq_some_iff.mp h
    obtain ⟨y, hy, h⟩ := Option.bind_eq_some_iff.mp h
    cases h
    exact ⟨m, rfl, hx, hy⟩

theorem cut_toJson_zero (e : Expr) : e.toJson.cut 0 = .unreadable := by
  cases e <;> simp [toJson, Json.tagged, Json.cut]

mutual

/-- Reading an expression looks at every part of its form. -/
theorem depth_le_of_read? (e : Expr) {fuel n : Nat} {r : Expr}
    (h : read? fuel (e.toJson.cut n) = some r) : e.toJson.depth ≤ n := by
  obtain ⟨fuel, rfl⟩ : ∃ m, fuel = m + 1 := by
    cases fuel with
    | zero => cases h
    | succ m => exact ⟨m, rfl⟩
  obtain ⟨n, rfl⟩ : ∃ m, n = m + 1 := by
    cases n with
    | zero =>
      rw [cut_toJson_zero] at h
      cases h
    | succ m => exact ⟨m, rfl⟩
  cases e with
  | literal l =>
    obtain ⟨a, ha, -⟩ := Option.map_eq_some_iff.mp h
    have hcontent := Literal.depth_le_of_ofJson? ha
    rw [toJson, Json.depth_tagged]
    omega
  | var name => simp [toJson, Json.depth]
  | binary op left right =>
    obtain ⟨n, rfl, hread⟩ := Json.fields?_cut h
    obtain ⟨_, -, hread⟩ := Option.bind_eq_some_iff.mp hread
    obtain ⟨l, hl, hread⟩ := Option.bind_eq_some_iff.mp hread
    obtain ⟨r, hr, -⟩ := Option.bind_eq_some_iff.mp hread
    have hleft := depth_le_of_read? left (Json.read_of_get? rfl hl)
    have hright := depth_le_of_read? right (Json.read_of_get? rfl hr)
    simp only [toJson, Json.depth_tagged, Json.depth, Json.fieldsDepth]
    omega
  | neg operand =>
    obtain ⟨n, rfl, hread⟩ := Json.fields?_cut h
    obtain ⟨_, -, hread⟩ := Option.bind_eq_some_iff.mp hread
    obtain ⟨a, ha, -⟩ := Option.bind_eq_some_iff.mp hread
    have hoperand := depth_le_of_read? operand (Json.read_of_get? rfl ha)
    simp only [toJson, Json.depth_tagged, Json.depth, Json.fieldsDepth]
    omega
  | and left right =>
    obtain ⟨p, hp, -⟩ := Option.map_eq_some_iff.mp h
    obtain ⟨n, rfl, hl, hr⟩ := pair?_cut hp
    have hleft := depth_le_of_read? left hl
    have hright := depth_le_of_read? right hr
    simp only [toJson, Json.depth_tagged, Json.depth, Json.itemsDepth]
    omega
  | or left right =>
    obtain ⟨p, hp, -⟩ := Option.map_eq_some_iff.mp h
    obtain ⟨n, rfl, hl, hr⟩ := pair?_cut hp
    have hleft := depth_le_of_read? left hl
    have hright := depth_le_of_read? right hr
    simp only [toJson, Json.depth_tagged, Json.depth, Json.itemsDepth]
    omega
  | not operand =>
    obtain ⟨a, ha, -⟩ := Option.map_eq_some_iff.mp h
    have hoperand := depth_le_of_read? operand ha
    rw [toJson, Json.depth_tagged]
    omega
  | list items =>
    obtain ⟨as, has, -⟩ := Option.map_eq_some_iff.mp h
    obtain ⟨n, rfl, hitems⟩ := Json.list?_cut has
    have hdepth := depth_le_of_mapM items hitems
    simp only [toJson, Json.depth_tagged, Json.depth]
    omega
  | tuple items =>
    obtain ⟨as, has, -⟩ := Option.map_eq_some_iff.mp h
    obtain ⟨n, rfl, hitems⟩ := Json.list?_cut has
    have hdepth := depth_le_of_mapM items hitems
    simp only [toJson, Json.depth_tagged, Json.depth]
    omega
  | dict entries =>
    obtain ⟨as, has, -⟩ := Option.map_eq_some_iff.mp h
    obtain ⟨n, rfl, hentries⟩ := Json.list?_cut has
    have hdepth := depth_le_of_mapM_entries entries hentries
    simp only [toJson, Json.depth_tagged, Json.depth]
    omega
  | index base i =>
    obtain ⟨n, rfl, hread⟩ := Json.fields?_cut h
    obtain ⟨a, ha, hread⟩ := Option.bind_eq_some_iff.mp hread
    obtain ⟨b, hb, -⟩ := Option.bind_eq_some_iff.mp hread
    have hbase := depth_le_of_read? base (Json.read_of_get? rfl ha)
    have hindex := depth_le_of_read? i (Json.read_of_get? rfl hb)
    simp only [toJson, Json.depth_tagged, Json.depth, Json.fieldsDepth]
    omega
  | call function args =>
    obtain ⟨n, rfl, hread⟩ := Json.fields?_cut h
    obtain ⟨_, -, hread⟩ := Option.bind_eq_some_iff.mp hread
    obtain ⟨as, has, -⟩ := Option.bind_eq_some_iff.mp hread
    obtain ⟨n, rfl, hargs⟩ := Json.list?_cut (Json.read_of_get? rfl has)
    have hdepth := depth_le_of_mapM args hargs
    simp only [toJson, Json.depth_tagged, Json.depth, Json.fieldsDepth]
    omega
termination_by structural e

theorem depth_le_of_mapM (items : List Expr) {fuel n : Nat} {rs : List Expr}
    (h : (Json.cutItems (toJsons items) n).mapM (read? fuel) = some rs) :
    Json.itemsDepth (toJsons items) ≤ n := by
  cases items with
  | nil => exact Nat.zero_le n
  | cons e rest =>
    obtain ⟨a, as, ha, has⟩ := Json.mapM_cutItems h
    exact Nat.max_le.mpr ⟨depth_le_of_read? e ha, depth_le_of_mapM rest has⟩
termination_by structural items

theorem depth_le_of_mapM_entries (entries : List (Expr × Expr)) {fuel n : Nat}
    {rs : List (Expr × Expr)}
    (h : (Json.cutItems (entryJsons entries) n).mapM (pair? (read? fuel)) = some rs) :
    Json.itemsDepth (entryJsons entries) ≤ n := by
  cases entries with
  | nil => exact Nat.zero_le n
  | cons entry rest =>
    obtain ⟨k, v⟩ := entry
    obtain ⟨p, ps, hp, hps⟩ := Json.mapM_cutItems h
    have hrest := depth_le_of_mapM_entries rest hps
    obtain ⟨m, rfl, hk, hv⟩ := pair?_cut hp
    have hkey := depth_le_of_read? k hk
    have hvalue := depth_le_of_read? v hv
    simp only [entryJsons, Json.itemsDepth, Json.depth]
    omega
termination_by structural entries

end

theorem depth_le_of_ofJson? {e r : Expr} {n : Nat} (h : ofJson? (e.toJson.cut n) = some r) :
    e.toJson.depth ≤ n :=
  depth_le_of_read? e h

end Expr

namespace Target

mutual

theorem depth_le_of_read? (t : Target) {fuel n : Nat} {r : Target}
    (h : read? fuel (t.toJson.cut n) = some r) : t.toJson.depth ≤ n := by
  obtain ⟨fuel, rfl⟩ : ∃ m, fuel = m + 1 := by
    cases fuel with
    | zero => cases h
    | succ m => exact ⟨m, rfl⟩
  obtain ⟨n, rfl⟩ : ∃ m, n = m + 1 := by
    cases n with
    | zero => cases t <;> cases h
    | succ m => exact ⟨m, rfl⟩
  cases t with
  | name x => simp [toJson, Json.depth]
  | tuple items =>
    obtain ⟨ts, hts, -⟩ := Option.map_eq_some_iff.mp h
    obtain ⟨n, rfl, hitems⟩ := Json.list?_cut hts
    have hdepth := depth_le_of_mapM items hitems
    simp only [toJson, Json.depth_tagged, Json.depth]
    omega
termination_by structural t

theorem depth_le_of_mapM (items : List Target) {fuel n : Nat} {rs : List Target}
    (h : (Json.cutItems (toJsons items) n).mapM (read? fuel) = some rs) :
    Json.itemsDepth (toJsons items) ≤ n := by
  cases items with
  | nil => exact Nat.zero_le n
  | cons t rest =>
    obtain ⟨a, as, ha, has⟩ := Json.mapM_cutItems h
    exact Nat.max_le.mpr ⟨depth_le_of_read? t ha, depth_le_of_mapM rest has⟩
termination_by structural items

end

theorem depth_le_of_ofJson? {t r : Target} {n : Nat} (h : ofJson? (t.toJson.cut n) = some r) :
    t.toJson.depth ≤ n :=
  depth_le_of_read? t h

end Target

/-! ## Statements -/

/-- Reading an action looks at every part of its form. -/
theorem Action.depth_le_of_read? (action : Action) (span : Span) {fuel n : Nat} {r : Stmt}
    (h : Stmt.read? (fuel + 1) ((action.toJson span.toJson).cut (n + 1)) = some r) :
    (action.toJson span.toJson).depth ≤ n + 1 := by
  cases action with
  | assign target value =>
    obtain ⟨n, rfl, hread⟩ := Json.fields?_cut h
    obtain ⟨s, hs, hread⟩ := Option.bind_eq_some_iff.mp hread
    obtain ⟨a, ha, -⟩ := Option.bind_eq_some_iff.mp hread
    obtain ⟨t, ht, ha⟩ := Option.bind_eq_some_iff.mp ha
    obtain ⟨v, hv, -⟩ := Option.bind_eq_some_iff.mp ha
    have htarget := Target.depth_le_of_ofJson? (Json.read_of_get? rfl ht)
    have hvalue := Expr.depth_le_of_ofJson? (Json.read_of_get? rfl hv)
    have hspan := Span.depth_le_of_field? rfl hs
    simp only [toJson, Json.depth_tagged, Json.depth, Json.fieldsDepth]
    omega
  | update name op value =>
    obtain ⟨n, rfl, hread⟩ := Json.fields?_cut h
    obtain ⟨s, hs, hread⟩ := Option.bind_eq_some_iff.mp hread
    obtain ⟨a, ha, -⟩ := Option.bind_eq_some_iff.mp hread
    obtain ⟨_, -, ha⟩ := Option.bind_eq_some_iff.mp ha
    obtain ⟨v, hv, -⟩ := Option.bind_eq_some_iff.mp ha
    have hvalue := Expr.depth_le_of_ofJson? (Json.read_of_get? rfl hv)
    have hspan := Span.depth_le_of_field? rfl hs
    simp only [toJson, Json.depth_tagged, Json.depth, Json.fieldsDepth]
    omega
  | eval expr =>
    obtain ⟨n, rfl, hread⟩ := Json.fields?_cut h
    obtain ⟨s, hs, hread⟩ := Option.bind_eq_some_iff.mp hread
    obtain ⟨a, ha, -⟩ := Option.bind_eq_some_iff.mp hread
    obtain ⟨v, hv, -⟩ := Option.bind_eq_some_iff.mp ha
    have hvalue := Expr.depth_le_of_ofJson? (Json.read_of_get? rfl hv)
    have hspan := Span.depth_le_of_field? rfl hs
    simp only [toJson, Json.depth_tagged, Json.depth, Json.fieldsDepth]
    omega
  | ret value =>
    obtain ⟨n, rfl, hread⟩ := Json.fields?_cut h
    obtain ⟨s, hs, hread⟩ := Option.bind_eq_some_iff.mp hread
    obtain ⟨a, ha, -⟩ := Option.bind_eq_some_iff.mp hread
    obtain ⟨v, hv, -⟩ := Option.bind_eq_some_iff.mp ha
    have hvalue := Json.depth_le_of_getOptional? Expr.toJson rfl (fun e _ => e.toJson_ne_null)
      (fun e _ a ha => Expr.depth_le_of_ofJson? ha) hv
    have hspan := Span.depth_le_of_field? rfl hs
    simp only [toJson, Json.depth_tagged, Json.depth, Json.fieldsDepth]
    omega
  | raise message =>
    obtain ⟨n, rfl, hread⟩ := Json.fields?_cut h
    obtain ⟨s, hs, -⟩ := Option.bind_eq_some_iff.mp hread
    have hspan := Span.depth_le_of_field? rfl hs
    simp only [toJson, Json.depth_tagged, Json.depth, Json.fieldsDepth]
    omega
  | pass =>
    obtain ⟨n, rfl, hread⟩ := Json.fields?_cut h
    obtain ⟨s, hs, -⟩ := Option.bind_eq_some_iff.mp hread
    have hspan := Span.depth_le_of_field? rfl hs
    simp only [toJson, Json.depth_tagged, Json.depth, Json.fieldsDepth]
    omega

/-- A body that was read has not been cut off, and neither have its statements. -/
theorem readBody?_cut {read : Json → Option Stmt} {stmts : List Json} {body : List Stmt} {n : Nat}
    (h : readBody? read ((bodyJson stmts).cut n) = some body) :
    ∃ m, n = m + 2 ∧ (Json.cutItems stmts m).mapM read = some body := by
  obtain ⟨n, rfl, hread⟩ := Json.fields?_cut h
  obtain ⟨m, rfl, hstmts⟩ := Json.list?_cut (Json.read_of_get? rfl hread)
  exact ⟨m, rfl, hstmts⟩

theorem depth_bodyJson (stmts : List Json) :
    (bodyJson stmts).depth = Json.itemsDepth stmts + 2 := by
  simp [bodyJson, Json.depth, Json.fieldsDepth]

theorem Stmt.cut_toJson_zero (s : Stmt) : s.toJson.cut 0 = .unreadable := by
  cases s with
  | act action span => cases action <;> rfl
  | choose arms otherwise span =>
    rw [Stmt.toJson_choose]
    rfl
  | _ => simp [Stmt.toJson, Json.tagged, Json.cut]

mutual

/-- Reading a statement looks at every part of its form. -/
theorem Stmt.depth_le_of_read? (s : Stmt) {fuel n : Nat} {r : Stmt}
    (h : Stmt.read? fuel (s.toJson.cut n) = some r) : s.toJson.depth ≤ n := by
  obtain ⟨fuel, rfl⟩ : ∃ m, fuel = m + 1 := by
    cases fuel with
    | zero => cases h
    | succ m => exact ⟨m, rfl⟩
  obtain ⟨n, rfl⟩ : ∃ m, n = m + 1 := by
    cases n with
    | zero =>
      rw [Stmt.cut_toJson_zero] at h
      cases h
    | succ m => exact ⟨m, rfl⟩
  cases s with
  | act action span => exact action.depth_le_of_read? span h
  | choose arms otherwise span =>
    rw [Stmt.toJson_choose] at h ⊢
    obtain ⟨n, rfl, hread⟩ := Json.fields?_cut h
    obtain ⟨s, hs, hread⟩ := Option.bind_eq_some_iff.mp hread
    obtain ⟨as, has, hread⟩ := Option.bind_eq_some_iff.mp hread
    obtain ⟨last, hl, -⟩ := Option.bind_eq_some_iff.mp hread
    have hlast := Json.depth_le_of_getOptional? (fun body => bodyJson (stmtJsons body)) rfl
      (fun body _ => Json.noConfusion) (depth_le_of_lastJson otherwise) hl
    have hspan := Span.depth_le_of_field? rfl hs
    obtain ⟨m, rfl, harms⟩ := Json.list?_cut (Json.read_of_get? rfl has)
    have hbranches := depth_le_of_mapM_arms arms harms
    simp only [lastJson, Json.depth_tagged, Json.depth, Json.fieldsDepth]
    omega
  | forIn target source body span =>
    obtain ⟨n, rfl, hread⟩ := Json.fields?_cut h
    obtain ⟨s, hs, hread⟩ := Option.bind_eq_some_iff.mp hread
    obtain ⟨t, ht, hread⟩ := Option.bind_eq_some_iff.mp hread
    obtain ⟨e, he, hread⟩ := Option.bind_eq_some_iff.mp hread
    obtain ⟨b, hb, -⟩ := Option.bind_eq_some_iff.mp hread
    have htarget := Target.depth_le_of_ofJson? (Json.read_of_get? rfl ht)
    have hsource := Expr.depth_le_of_ofJson? (Json.read_of_get? rfl he)
    have hspan := Span.depth_le_of_field? rfl hs
    obtain ⟨m, rfl, hstmts⟩ := readBody?_cut (Json.read_of_get? rfl hb)
    have hbody := depth_le_of_mapM_stmts body (fun _ _ h => ⟨fuel, h⟩) hstmts
    simp only [Stmt.toJson, Json.depth_tagged, Json.depth, Json.fieldsDepth, depth_bodyJson]
    omega
  | whileDo condition body span =>
    obtain ⟨n, rfl, hread⟩ := Json.fields?_cut h
    obtain ⟨s, hs, hread⟩ := Option.bind_eq_some_iff.mp hread
    obtain ⟨e, he, hread⟩ := Option.bind_eq_some_iff.mp hread
    obtain ⟨b, hb, -⟩ := Option.bind_eq_some_iff.mp hread
    have hcondition := Expr.depth_le_of_ofJson? (Json.read_of_get? rfl he)
    have hspan := Span.depth_le_of_field? rfl hs
    obtain ⟨m, rfl, hstmts⟩ := readBody?_cut (Json.read_of_get? rfl hb)
    have hbody := depth_le_of_mapM_stmts body (fun _ _ h => ⟨fuel, h⟩) hstmts
    simp only [Stmt.toJson, Json.depth_tagged, Json.depth, Json.fieldsDepth, depth_bodyJson]
    omega
termination_by structural s

theorem depth_le_of_mapM_arms (arms : List Arm) {fuel n : Nat} {rs : List Arm}
    (h : (Json.cutItems (armJsons arms) n).mapM (readArm? (Stmt.read? fuel)) = some rs) :
    Json.itemsDepth (armJsons arms) ≤ n := by
  cases arms with
  | nil => exact Nat.zero_le n
  | cons arm rest =>
    obtain ⟨condition, body, span⟩ := arm
    obtain ⟨a, as, ha, has⟩ := Json.mapM_cutItems h
    have hrest := depth_le_of_mapM_arms rest has
    obtain ⟨n, rfl, hread⟩ := Json.fields?_cut ha
    obtain ⟨e, he, hread⟩ := Option.bind_eq_some_iff.mp hread
    obtain ⟨b, hb, hread⟩ := Option.bind_eq_some_iff.mp hread
    obtain ⟨s, hs, -⟩ := Option.bind_eq_some_iff.mp hread
    have hcondition := Expr.depth_le_of_ofJson? (Json.read_of_get? rfl he)
    have hspan := Span.depth_le_of_field? rfl hs
    obtain ⟨m, rfl, hstmts⟩ := readBody?_cut (Json.read_of_get? rfl hb)
    have hbody := depth_le_of_mapM_stmts body (fun _ _ h => ⟨fuel, h⟩) hstmts
    simp only [armJsons, Json.itemsDepth, Json.depth, Json.fieldsDepth, depth_bodyJson]
    omega
termination_by structural arms

theorem depth_le_of_lastJson (otherwise : Option (List Stmt)) {fuel n : Nat} :
    ∀ body ∈ otherwise, ∀ r, readBody? (Stmt.read? fuel) ((bodyJson (stmtJsons body)).cut n) =
      some r → (bodyJson (stmtJsons body)).depth ≤ n := by
  cases otherwise with
  | none => exact fun body hbody => absurd hbody (Option.not_mem_none body)
  | some last =>
    intro body hbody r h
    obtain ⟨m, rfl, hstmts⟩ := readBody?_cut h
    rw [← Option.some.inj hbody] at hstmts ⊢
    have hlast := depth_le_of_mapM_stmts last (fun _ _ h => ⟨fuel, h⟩) hstmts
    rw [depth_bodyJson]
    omega
termination_by structural otherwise

theorem depth_le_of_mapM_stmts (body : List Stmt) {n : Nat} {read : Json → Option Stmt}
    {rs : List Stmt} (hread : ∀ j r, read j = some r → ∃ fuel, Stmt.read? fuel j = some r)
    (h : (Json.cutItems (stmtJsons body) n).mapM read = some rs) :
    Json.itemsDepth (stmtJsons body) ≤ n := by
  cases body with
  | nil => exact Nat.zero_le n
  | cons s rest =>
    obtain ⟨a, as, ha, has⟩ := Json.mapM_cutItems h
    obtain ⟨fuel, hs⟩ := hread _ a ha
    exact Nat.max_le.mpr ⟨s.depth_le_of_read? hs, depth_le_of_mapM_stmts rest hread has⟩
termination_by structural body

end

/-! ## Functions -/

theorem Param.depth_le_of_mapM {params rs : List Param} {n : Nat}
    (h : (Json.cutItems (params.map toJson) n).mapM ofJson? = some rs) :
    Json.itemsDepth (params.map toJson) ≤ n := by
  induction params generalizing rs with
  | nil => exact Nat.zero_le n
  | cons p rest ih =>
    obtain ⟨a, as, ha, has⟩ := Json.mapM_cutItems h
    obtain ⟨m, rfl, -⟩ := Json.fields?_cut ha
    have hparam : p.toJson.depth ≤ m + 1 := by
      obtain ⟨name, annotation⟩ := p
      cases annotation <;> simp [toJson, Json.ofOption, Json.depth, Json.fieldsDepth]
    exact Nat.max_le.mpr ⟨hparam, ih has⟩

namespace FunctionDef

/-- Reading a function looks at every part of its form. -/
theorem depth_le_of_ofJson? {f r : FunctionDef} {n : Nat}
    (h : ofJson? (f.toJson.cut n) = some r) : f.toJson.depth ≤ n := by
  obtain ⟨n, rfl, hread⟩ := Json.fields?_cut h
  obtain ⟨_, -, hread⟩ := Option.bind_eq_some_iff.mp hread
  obtain ⟨ps, hps, hread⟩ := Option.bind_eq_some_iff.mp hread
  obtain ⟨b, hb, hread⟩ := Option.bind_eq_some_iff.mp hread
  obtain ⟨_, -, hread⟩ := Option.bind_eq_some_iff.mp hread
  obtain ⟨_, -, hread⟩ := Option.bind_eq_some_iff.mp hread
  obtain ⟨s, hs, -⟩ := Option.bind_eq_some_iff.mp hread
  have hspan := Span.depth_le_of_field? rfl hs
  have htext : ∀ text : Option String, (Json.ofOption .str text).depth = 0 := by
    intro text
    cases text <;> rfl
  obtain ⟨k, hk, hparams⟩ := Json.list?_cut (Json.read_of_get? rfl hps)
  have hdepth := Param.depth_le_of_mapM hparams
  obtain ⟨m, hm, hstmts⟩ := readBody?_cut (Json.read_of_get? rfl hb)
  have hbody := depth_le_of_mapM_stmts f.body (fun j _ h => ⟨j.height, h⟩) hstmts
  simp only [toJson, Json.depth, Json.fieldsDepth, depth_bodyJson, htext]
  omega

end FunctionDef

/-! ## Texts -/

/-- The layer that turns JSON values into texts and back. It is taken as given, and only one thing
is assumed of it: a value without floats, and with integers of 64 bits, is read again from what was
written, as far as it is nested within the limit. What is nested deeper is refused by the readers
that look at it, not by the layer, so it does no harm in a field that nobody asks for. -/
structure Json.Layer where
  write : Json → String
  read : String → Option Json
  /-- How many arrays and objects may stand inside each other. -/
  limit : Nat
  read_write : ∀ j : Json, j.Exact → read (write j) = some (j.cut limit)

/-- The layer of texts without blanks. -/
def Json.Layer.plain : Json.Layer where
  write := Json.render
  read := Json.read
  limit := Json.maxDepth
  read_write j hj := by rw [Json.read, Json.parse_render hj, Option.map_some]

namespace FunctionDef

/-- A function from a text of a layer. -/
def parseWith? (layer : Json.Layer) (text : String) : Option FunctionDef :=
  (layer.read text).bind load?

theorem parseWith?_plain (text : String) : parseWith? Json.Layer.plain text = parse? text := rfl

section Texts

variable {f : FunctionDef} (layer : Json.Layer)

theorem load?_toJson (h : ∀ e ∈ f.exprs, e.FloatFree) (hspans : ∀ s ∈ f.spans, s.Fits) :
    load? f.toJson = some f.settled := by
  rw [load?, ofJson?_toJson h hspans, Option.map_some]

/-- The text of a function is read back where its form is nested within the limit. -/
theorem parseWith?_of_depth_le (h : ∀ e ∈ f.exprs, e.FloatFree) (hspans : ∀ s ∈ f.spans, s.Fits)
    (hdepth : f.toJson.depth ≤ layer.limit) :
    parseWith? layer (layer.write f.toJson) = load? f.toJson := by
  rw [parseWith?, layer.read_write _ (exact_toJson h hspans), Option.bind_some,
    Json.cut_of_depth_le _ hdepth]

theorem parseWith?_of_lt_depth (h : ∀ e ∈ f.exprs, e.FloatFree) (hspans : ∀ s ∈ f.spans, s.Fits)
    (hdepth : layer.limit < f.toJson.depth) :
    parseWith? layer (layer.write f.toJson) = none := by
  rw [parseWith?, layer.read_write _ (exact_toJson h hspans), Option.bind_some, load?,
    Option.map_eq_none_iff]
  cases hread : ofJson? (f.toJson.cut layer.limit) with
  | none => rfl
  | some r => exact absurd (depth_le_of_ofJson? hread) (Nat.not_le.mpr hdepth)

end Texts

/-- A function without floats is read back from its JSON form: just as it is if it brings a source,
and otherwise with the source that is made for it. It is read back from the text of that form, in
any layer, exactly where the form is not nested too deep. -/
theorem reads_back (f : FunctionDef) (h : ∀ e ∈ f.exprs, e.FloatFree)
    (hspans : ∀ s ∈ f.spans, s.Fits) :
    (f.source.isSome = true → load? f.toJson = some f) ∧
    (f.source = none → load? f.toJson = some f.withSource) ∧
    (∀ layer : Json.Layer,
      (f.toJson.depth ≤ layer.limit →
        parseWith? layer (layer.write f.toJson) = load? f.toJson) ∧
      (layer.limit < f.toJson.depth → parseWith? layer (layer.write f.toJson) = none)) ∧
    (f.toJson.depth ≤ Json.maxDepth → parse? f.toJson.render = load? f.toJson) ∧
    (Json.maxDepth < f.toJson.depth → parse? f.toJson.render = none) := by
  have hload := load?_toJson h hspans
  refine ⟨fun hsource => ?_, fun hsource => ?_, fun layer => ?_, ?_, ?_⟩
  · rw [hload, settled, Option.isNone_eq_false_iff.mpr hsource]
    rfl
  · rw [hload, settled, hsource]
    rfl
  · exact ⟨parseWith?_of_depth_le layer h hspans, parseWith?_of_lt_depth layer h hspans⟩
  · rw [← parseWith?_plain]
    exact parseWith?_of_depth_le .plain h hspans
  · rw [← parseWith?_plain]
    exact parseWith?_of_lt_depth .plain h hspans

/-! A function with every kind of statement, a text that needs escapes, and a span at the end of the
range. -/

def wander : FunctionDef where
  name := "wander"
  params := [⟨"m", none⟩, ⟨"n", some .int⟩]
  body :=
    [.forIn (.tuple [.name "i", .tuple [.name "a", .name "b"]]) (.call .enumerate [.var "m"])
        [.choose
          [⟨.binary .lt (.var "a") (.literal (.int (-1))),
              [.act (.assign (.name "x") (.dict [(.literal (.str "\"\n\x07\x08"), .var "b")]))
                .unknown], .unknown⟩,
            ⟨.not (.and (.var "a") (.literal .none)), [.act .pass .unknown], .unknown⟩]
          (some [.act (.raise "né") .unknown]) .unknown] .unknown,
      .whileDo (.literal (.bool false)) []
        ⟨0xffffffffffffffff, 0, 3, 3, 1, 0xffffffffffffffff⟩,
      .act (.update "n" .pow (.neg (.index (.list [.var "n"]) (.literal (.int 0))))) .unknown,
      .act (.eval (.tuple [])) .unknown,
      .act (.ret none) .unknown]
  file := some "wander.py"
  source := some "def wander(m, n: int):\n"
  span := .unknown

theorem reads_back_wander :
    (load? wander.toJson = some wander ∧ parse? wander.toJson.render = some wander) ∧
      parse? { wander with source := none }.toJson.render =
        some { wander with source := none }.withSource := by
  obtain ⟨hload, -, -, hparse, -⟩ := reads_back wander (by decide +kernel) (by decide +kernel)
  obtain ⟨-, hsourced, -, hunsourced, -⟩ :=
    reads_back { wander with source := none } (by decide +kernel) (by decide +kernel)
  refine ⟨⟨hload rfl, ?_⟩, ?_⟩
  · rw [hparse (by decide +kernel), hload rfl]
  · rw [hunsourced (by decide +kernel), hsourced rfl]

/-- A variable that is denied a number of times. -/
def denied : Nat → Expr
  | 0 => .var "x"
  | times + 1 => .not (denied times)

def denial (times : Nat) : FunctionDef where
  name := "denial"
  params := [⟨"x", none⟩]
  body := [.act (.ret (some (denied times))) .unknown]
  file := none
  source := some "def denial(x):\n"
  span := .unknown

/-- A function without floats and with a source, whose form has 128 levels: it is read back from its
form, but not from the text. -/
theorem deep_denial_refused :
    (∀ e ∈ (denial 122).exprs, e.FloatFree) ∧ (denial 122).source.isSome = true ∧
      (denial 122).toJson.depth = 128 ∧ load? (denial 122).toJson = some (denial 122) ∧
      parse? (denial 122).toJson.render = none := by
  have hfree : ∀ e ∈ (denial 122).exprs, e.FloatFree := by decide +kernel
  have hspans : ∀ s ∈ (denial 122).spans, s.Fits := by decide +kernel
  have hdepth : (denial 122).toJson.depth = 128 := by decide +kernel
  refine ⟨hfree, rfl, hdepth, load?_toJson hfree hspans, ?_⟩
  rw [← parseWith?_plain]
  exact parseWith?_of_lt_depth .plain hfree hspans (by rw [hdepth]; decide)

end FunctionDef

end StagedFlow
