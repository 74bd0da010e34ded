import StagedFlow.Program.Source
import StagedFlow.Proofs.ProgramParts

/-!
Texts that stay on one line. Numbers, quoted texts and operators never break a line, so a line of
source does only where a name does, and the source of a function splits into just the lines that it
was written from. Main definition: `Text.OneLine`. Main results: `FunctionDef.oneLine_sourceLines`,
`Line.lines_textOf`.
-/
set_option autoImplicit false

namespace StagedFlow

namespace Text

/-- Characters without line feeds and carriage returns. -/
def Unbroken (cs : List Char) : Prop :=
  ∀ c ∈ cs, c ≠ '\n' ∧ c ≠ '\r'

instance : DecidablePred Unbroken := fun cs =>
  List.decidableBAll (fun c => c ≠ '\n' ∧ c ≠ '\r') cs

theorem Unbroken.append {cs ds : List Char} (hcs : Unbroken cs) (hds : Unbroken ds) :
    Unbroken (cs ++ ds) :=
  List.forall_mem_append.mpr ⟨hcs, hds⟩

theorem unbroken_replicate {c : Char} (h : Unbroken [c]) (n : Nat) :
    Unbroken (List.replicate n c) := by
  intro d hd
  rw [List.eq_of_mem_replicate hd]
  exact h c List.mem_cons_self

/-- A text without line breaks. -/
def OneLine (s : String) : Prop :=
  Unbroken s.toList

instance : DecidablePred OneLine := fun s =>
  inferInstanceAs (Decidable (Unbroken s.toList))

theorem OneLine.append {s t : String} (hs : OneLine s) (ht : OneLine t) : OneLine (s ++ t) := by
  unfold OneLine
  rw [String.toList_append]
  exact Unbroken.append hs ht

theorem oneLine_ofList {cs : List Char} (h : Unbroken cs) : OneLine (String.ofList cs) := by
  unfold OneLine
  rwa [String.toList_ofList]

theorem commaList_cons_cons (s t : String) (rest : List String) :
    commaList (s :: t :: rest) = s ++ ", " ++ commaList (t :: rest) := by
  apply String.toList_injective
  simp [commaList, String.toList_intercalate, List.intercalate]

theorem oneLine_commaList {items : List String} (h : ∀ s ∈ items, OneLine s) :
    OneLine (commaList items) := by
  have hcomma : OneLine ", " := by decide
  induction items with
  | nil => exact fun c hc => absurd hc List.not_mem_nil
  | cons s rest ih =>
    obtain ⟨hs, hrest⟩ := List.forall_mem_cons.mp h
    cases rest with
    | nil => exact hs
    | cons t rest =>
      rw [commaList_cons_cons]
      exact (hs.append hcomma).append (ih hrest)

/-! ## Numbers and quoted texts -/

theorem unbroken_toDigits {b : Nat} (hb : 1 < b) (n : Nat) : Unbroken (Nat.toDigits b n) := by
  induction n using Nat.strongRecOn with
  | _ n ih =>
    by_cases hlt : n < b
    · rw [Nat.toDigits_of_lt_base hlt]
      simp [Unbroken]
    · rw [Nat.toDigits_of_base_le hb (Nat.not_lt.mp hlt)]
      refine (ih _ (Nat.div_lt_self (by omega) hb)).append ?_
      simp [Unbroken]

theorem oneLine_toString (n : Nat) : OneLine (toString n) := by
  unfold OneLine
  rw [show (toString n).toList = Nat.toDigits 10 n from Nat.toList_repr]
  exact unbroken_toDigits (by decide) n

theorem oneLine_toString_int (n : Int) : OneLine (toString n) := by
  cases n with
  | ofNat n => exact oneLine_toString n
  | negSucc n =>
    have hsign : OneLine "-" := by decide
    exact hsign.append (oneLine_toString (n + 1))

theorem Binary64.oneLine_magnitudeText (b : Binary64) : OneLine b.magnitudeText := by
  have hzero : OneLine ".0" := by decide
  have hpoint : OneLine "." := by decide
  unfold Binary64.magnitudeText
  split
  · exact (oneLine_toString _).append hzero
  · decide
  · refine ((oneLine_toString _).append hpoint).append (oneLine_ofList ?_)
    exact (unbroken_replicate (by decide) _).append (unbroken_toDigits (by decide) _)

theorem oneLine_floatText (x : Float) : OneLine (floatText x) := by
  unfold floatText
  split
  · refine OneLine.append ?_ (Binary64.oneLine_magnitudeText _)
    split <;> decide
  · split
    · decide
    · split <;> decide

theorem unbroken_quoteChar (c : Char) : Unbroken (quoteChar c) := by
  have hopening : Unbroken "\\u\x7b".toList := by decide
  have hclosing : Unbroken ['\x7d'] := by decide
  unfold quoteChar
  split
  case h_7 hquote hslash hfeed hreturn htab hnull =>
    split
    · simpa [Unbroken] using ⟨hfeed, hreturn⟩
    · exact (hopening.append (unbroken_toDigits (by decide) _)).append hclosing
  all_goals decide

theorem oneLine_quote (s : String) : OneLine (quote s) := by
  have hmark : Unbroken ['"'] := by decide
  have hinside : Unbroken (s.toList.flatMap quoteChar) := by
    intro d hd
    obtain ⟨c, -, hc⟩ := List.mem_flatMap.mp hd
    exact unbroken_quoteChar c d hc
  exact oneLine_ofList (hmark.append (hinside.append hmark))

/-! ## Lines of a text -/

theorem splitLines_append {cs : List Char} (h : Unbroken cs) (rest : List Char) :
    splitLines (cs ++ '\n' :: rest) = cs :: splitLines rest := by
  induction cs with
  | nil => rfl
  | cons c cs ih =>
    obtain ⟨hc, hcs⟩ := List.forall_mem_cons.mp h
    rw [List.cons_append, splitLines]
    · rw [ih hcs]
    · intro cs' hreturn
      exact absurd hreturn hc.2
    · exact hc.1

end Text

/-- A text splits into the lines that it was made of. -/
theorem Line.lines_textOf {lines : List Line} (h : ∀ l ∈ lines, Text.OneLine l.content) :
    Text.lines (Line.textOf lines) = lines.map Line.text := by
  induction lines with
  | nil => rfl
  | cons l lines ih =>
    obtain ⟨hl, hlines⟩ := List.forall_mem_cons.mp h
    have hblanks : Text.OneLine (String.ofList (List.replicate l.indent ' ')) :=
      Text.oneLine_ofList (Text.unbroken_replicate (by decide) _)
    have htext : (Line.textOf (l :: lines)).toList =
        l.text.toList ++ '\n' :: (Line.textOf lines).toList := by
      simp [Line.textOf, String.toList_join]
    have hsplit := Text.splitLines_append (hblanks.append hl) (Line.textOf lines).toList
    rw [← Line.text] at hsplit
    rw [Text.lines, htext, hsplit, List.map_cons, String.ofList_toList, ← Text.lines, ih hlines,
      List.map_cons]

/-! ## Parts of a program -/

theorem Literal.oneLine_text (l : Literal) : Text.OneLine l.text := by
  cases l with
  | int n => exact Text.oneLine_toString_int _
  | float x => exact Text.oneLine_floatText x
  | bool b => cases b <;> decide
  | str s => exact Text.oneLine_quote s
  | none => decide

theorem BinaryOp.oneLine_symbol (op : BinaryOp) : Text.OneLine op.symbol := by
  cases op <;> decide

theorem Builtin.oneLine_name (f : Builtin) : Text.OneLine f.name := by
  cases f <;> decide

theorem Text.OneLine.enclosed {s opening closing : String} (h : OneLine s)
    (hopening : OneLine opening) (hclosing : OneLine closing) :
    OneLine (opening ++ s ++ closing) :=
  (hopening.append h).append hclosing

namespace Expr

open Text

/-- All calls but one are written with their name first. -/
theorem text_call {function : Builtin} {args : List Expr}
    (h : ¬(function = .items ∧ args.length = 1)) :
    (call function args).text = function.name ++ "(" ++ commaList (texts args) ++ ")" := by
  rw [text]
  intro arg hfunction hargs
  exact h ⟨hfunction, hargs ▸ rfl⟩

theorem oneLine_guarded (least : Nat) (e : Expr) {text : String} (h : OneLine text) :
    OneLine (guarded least e text) := by
  unfold guarded
  split
  · exact h.enclosed (by decide) (by decide)
  · exact h

mutual

/-- An expression is written on one line if its names are. -/
theorem oneLine_text (e : Expr) (h : ∀ n ∈ e.uses, OneLine n) : OneLine e.text := by
  have hblank : OneLine " " := by decide
  cases e with
  | literal l => exact l.oneLine_text
  | var name => exact h name List.mem_cons_self
  | binary op left right =>
    obtain ⟨hleft, hright⟩ := List.forall_mem_append.mp h
    exact ((((oneLine_guarded _ _ (oneLine_text left hleft)).append hblank).append
      op.oneLine_symbol).append hblank).append (oneLine_guarded _ _ (oneLine_text right hright))
  | neg operand =>
    have hminus : OneLine "-" := by decide
    exact hminus.append (oneLine_guarded _ _ (oneLine_text operand h))
  | and left right =>
    have hand : OneLine " and " := by decide
    obtain ⟨hleft, hright⟩ := List.forall_mem_append.mp h
    exact ((oneLine_guarded _ _ (oneLine_text left hleft)).append hand).append
      (oneLine_guarded _ _ (oneLine_text right hright))
  | or left right =>
    have hor : OneLine " or " := by decide
    obtain ⟨hleft, hright⟩ := List.forall_mem_append.mp h
    exact ((oneLine_guarded _ _ (oneLine_text left hleft)).append hor).append
      (oneLine_guarded _ _ (oneLine_text right hright))
  | not operand =>
    have hnot : OneLine "not " := by decide
    exact hnot.append (oneLine_guarded _ _ (oneLine_text operand h))
  | list items => exact (oneLine_commaList (oneLine_texts items h)).enclosed (by decide) (by decide)
  | tuple items =>
    have hitems := oneLine_texts items h
    rcases items with _ | ⟨item, _ | ⟨other, rest⟩⟩
    · exact (oneLine_commaList hitems).enclosed (by decide) (by decide)
    · exact (hitems item.text List.mem_cons_self).enclosed (by decide) (by decide)
    · exact (oneLine_commaList hitems).enclosed (by decide) (by decide)
  | dict entries =>
    exact (oneLine_commaList (oneLine_entryTexts entries h)).enclosed (by decide) (by decide)
  | index base i =>
    have hopening : OneLine "[" := by decide
    have hclosing : OneLine "]" := by decide
    obtain ⟨hbase, hi⟩ := List.forall_mem_append.mp h
    exact (((oneLine_guarded _ _ (oneLine_text base hbase)).append hopening).append
      (oneLine_text i hi)).append hclosing
  | call function args =>
    have hargs := oneLine_texts args h
    have hclosing : OneLine ".items()" := by decide
    have hcall : OneLine (function.name ++ "(" ++ commaList (texts args) ++ ")") :=
      (oneLine_commaList hargs).enclosed (function.oneLine_name.append (by decide)) (by decide)
    by_cases hitems : function = .items ∧ args.length = 1
    · obtain ⟨rfl, hone⟩ := hitems
      obtain ⟨arg, rfl⟩ := List.length_eq_one_iff.mp hone
      exact (oneLine_guarded _ _ (hargs _ List.mem_cons_self)).append hclosing
    · rwa [text_call hitems]
termination_by structural e

theorem oneLine_texts (es : List Expr) (h : ∀ n ∈ usesOf es, OneLine n) :
    ∀ s ∈ texts es, OneLine s := by
  cases es with
  | nil => exact fun s hs => absurd hs List.not_mem_nil
  | cons e rest =>
    obtain ⟨he, hrest⟩ := List.forall_mem_append.mp h
    exact List.forall_mem_cons.mpr ⟨oneLine_text e he, oneLine_texts rest hrest⟩
termination_by structural es

theorem oneLine_entryTexts (entries : List (Expr × Expr))
    (h : ∀ n ∈ usesOfEntries entries, OneLine n) : ∀ s ∈ entryTexts entries, OneLine s := by
  cases entries with
  | nil => exact fun s hs => absurd hs List.not_mem_nil
  | cons entry rest =>
    obtain ⟨k, v⟩ := entry
    have hcolon : OneLine ": " := by decide
    obtain ⟨hentry, hrest⟩ := List.forall_mem_append.mp h
    obtain ⟨hk, hv⟩ := List.forall_mem_append.mp hentry
    exact List.forall_mem_cons.mpr
      ⟨((oneLine_text k hk).append hcolon).append (oneLine_text v hv),
        oneLine_entryTexts rest hrest⟩
termination_by structural entries

end

end Expr

namespace Target

open Text

theorem oneLine_listText {items : List String} (h : ∀ s ∈ items, OneLine s) :
    OneLine (listText items) := by
  have hcomma : OneLine "," := by decide
  rcases items with _ | ⟨item, _ | ⟨other, rest⟩⟩
  · exact oneLine_commaList h
  · exact (h item List.mem_cons_self).append hcomma
  · exact oneLine_commaList h

mutual

theorem oneLine_innerText (t : Target) (h : ∀ n ∈ t.names, OneLine n) : OneLine t.innerText := by
  cases t with
  | name n => exact h n List.mem_cons_self
  | tuple items =>
    exact (oneLine_listText (oneLine_innerTexts items h)).enclosed (by decide) (by decide)
termination_by structural t

theorem oneLine_innerTexts (items : List Target) (h : ∀ n ∈ namesOf items, OneLine n) :
    ∀ s ∈ innerTexts items, OneLine s := by
  cases items with
  | nil => exact fun s hs => absurd hs List.not_mem_nil
  | cons t rest =>
    obtain ⟨ht, hrest⟩ := List.forall_mem_append.mp h
    exact List.forall_mem_cons.mpr ⟨oneLine_innerText t ht, oneLine_innerTexts rest hrest⟩
termination_by structural items

end

theorem oneLine_text (t : Target) (h : ∀ n ∈ t.names, OneLine n) : OneLine t.text := by
  cases t with
  | name n => exact h n List.mem_cons_self
  | tuple items => exact oneLine_listText (oneLine_innerTexts items h)

end Target

/-! ## Lines of a function -/

open Text

theorem Action.oneLine_text (a : Action) {span : Span}
    (hbound : ∀ n ∈ (Stmt.act a span).bound, OneLine n)
    (hexprs : ∀ e ∈ a.exprs, ∀ n ∈ e.uses, OneLine n) : OneLine a.text := by
  cases a with
  | assign target value =>
    have hequals : OneLine " = " := by decide
    exact ((target.oneLine_text hbound).append hequals).append
      (value.oneLine_text (hexprs value List.mem_cons_self))
  | update name op value =>
    have hblank : OneLine " " := by decide
    have hequals : OneLine "= " := by decide
    exact ((((hbound name List.mem_cons_self).append hblank).append op.oneLine_symbol).append
      hequals).append (value.oneLine_text (hexprs value List.mem_cons_self))
  | eval expr => exact expr.oneLine_text (hexprs expr List.mem_cons_self)
  | ret value =>
    have hreturn : OneLine "return " := by decide
    cases value with
    | none => decide
    | some value => exact hreturn.append (value.oneLine_text (hexprs value List.mem_cons_self))
  | raise message => exact (oneLine_quote message).enclosed (by decide) (by decide)
  | pass => decide

theorem oneLine_forHeader {target : Target} {source : Expr}
    (htarget : ∀ n ∈ target.names, OneLine n) (hsource : ∀ n ∈ source.uses, OneLine n) :
    OneLine (forHeader target source) := by
  have hfor : OneLine "for " := by decide
  have hin : OneLine " in " := by decide
  have hcolon : OneLine ":" := by decide
  exact (((hfor.append (target.oneLine_text htarget)).append hin).append
    (source.oneLine_text hsource)).append hcolon

theorem oneLine_whileHeader {condition : Expr} (h : ∀ n ∈ condition.uses, OneLine n) :
    OneLine (whileHeader condition) :=
  (condition.oneLine_text h).enclosed (by decide) (by decide)

theorem Arm.oneLine_header (first : Bool) {arm : Arm}
    (h : ∀ n ∈ arm.condition.uses, OneLine n) : OneLine (arm.header first) := by
  refine (arm.condition.oneLine_text h).enclosed ?_ (by decide)
  cases first <;> decide

theorem oneLine_functionHeader {name : String} {params : List Param} (hname : OneLine name)
    (hparams : ∀ p ∈ params, OneLine p.name) : OneLine (functionHeader name params) := by
  have hdef : OneLine "def " := by decide
  have hopening : OneLine "(" := by decide
  have hclosing : OneLine "):" := by decide
  have htexts : ∀ s ∈ params.map Param.text, OneLine s := by
    simp only [List.forall_mem_map]
    intro p hp
    have hcolon : OneLine ": " := by decide
    obtain ⟨name, annotation⟩ := p
    cases annotation with
    | none => exact hparams _ hp
    | some type =>
      refine ((hparams _ hp).append hcolon).append ?_
      cases type <;> decide
  exact (((hdef.append hname).append hopening).append (oneLine_commaList htexts)).append hclosing

theorem Line.oneLine_ofBody {α : Type} {depth : Nat} {body : List α} {lines : List Line}
    (h : ∀ l ∈ lines, OneLine l.content) :
    ∀ l ∈ Line.ofBody depth body lines, OneLine l.content := by
  unfold Line.ofBody
  split
  · simp only [List.forall_mem_singleton]
    decide
  · exact h

/-- The lines of the last branch of a chain. -/
def lastLines (depth : Nat) : Option (List Stmt) → List Line
  | none => []
  | some body => ⟨depth, "else:"⟩ :: Line.ofBody (depth + 1) body (stmtLines (depth + 1) body)

theorem Stmt.lines_choose (depth : Nat) (arms : List Arm) (otherwise : Option (List Stmt))
    (span : Span) :
    (Stmt.choose arms otherwise span).lines depth =
      armLines depth true arms ++ lastLines depth otherwise := by
  cases otherwise <;> rw [Stmt.lines] <;> rfl

theorem Stmt.bound_choose (arms : List Arm) (otherwise : Option (List Stmt)) (span : Span) :
    (Stmt.choose arms otherwise span).bound = armsBound arms ++ boundIn (otherwise.getD []) := by
  cases otherwise <;> rw [Stmt.bound] <;> rfl

mutual

theorem Stmt.oneLine_lines (s : Stmt) (hbound : ∀ n ∈ s.bound, OneLine n)
    (hexprs : ∀ e ∈ s.exprs, ∀ n ∈ e.uses, OneLine n) (depth : Nat) :
    ∀ l ∈ s.lines depth, OneLine l.content := by
  cases s with
  | act action span =>
    simp only [Stmt.lines, List.forall_mem_singleton]
    exact action.oneLine_text hbound hexprs
  | choose arms otherwise span =>
    rw [Stmt.bound_choose] at hbound
    rw [Stmt.lines_choose]
    obtain ⟨hboundArms, hboundLast⟩ := List.forall_mem_append.mp hbound
    obtain ⟨hexprsArms, hexprsLast⟩ := List.forall_mem_append.mp hexprs
    refine List.forall_mem_append.mpr ⟨oneLine_armLines arms hboundArms hexprsArms depth true, ?_⟩
    cases otherwise with
    | none => exact fun l hl => absurd hl List.not_mem_nil
    | some body =>
      have helse : OneLine "else:" := by decide
      exact List.forall_mem_cons.mpr
        ⟨helse, Line.oneLine_ofBody (oneLine_stmtLines body hboundLast hexprsLast _)⟩
  | forIn target source body span =>
    obtain ⟨htarget, hboundBody⟩ := List.forall_mem_append.mp hbound
    obtain ⟨hsource, hexprsBody⟩ := List.forall_mem_cons.mp hexprs
    exact List.forall_mem_cons.mpr ⟨oneLine_forHeader htarget hsource,
      Line.oneLine_ofBody (oneLine_stmtLines body hboundBody hexprsBody _)⟩
  | whileDo condition body span =>
    obtain ⟨hcondition, hexprsBody⟩ := List.forall_mem_cons.mp hexprs
    exact List.forall_mem_cons.mpr ⟨oneLine_whileHeader hcondition,
      Line.oneLine_ofBody (oneLine_stmtLines body hbound hexprsBody _)⟩
termination_by structural s

theorem oneLine_armLines (arms : List Arm) (hbound : ∀ n ∈ armsBound arms, OneLine n)
    (hexprs : ∀ e ∈ armExprs arms, ∀ n ∈ e.uses, OneLine n) (depth : Nat) (first : Bool) :
    ∀ l ∈ armLines depth first arms, OneLine l.content := by
  cases arms with
  | nil => exact fun l hl => absurd hl List.not_mem_nil
  | cons arm rest =>
    obtain ⟨condition, body, span⟩ := arm
    obtain ⟨hboundBody, hboundRest⟩ := List.forall_mem_append.mp hbound
    obtain ⟨hcondition, hexprsArms⟩ := List.forall_mem_cons.mp hexprs
    obtain ⟨hexprsBody, hexprsRest⟩ := List.forall_mem_append.mp hexprsArms
    refine List.forall_mem_cons.mpr
      ⟨Arm.oneLine_header first hcondition, List.forall_mem_append.mpr ⟨?_, ?_⟩⟩
    · exact Line.oneLine_ofBody (oneLine_stmtLines body hboundBody hexprsBody _)
    · exact oneLine_armLines rest hboundRest hexprsRest depth false
termination_by structural arms

theorem oneLine_stmtLines (body : List Stmt) (hbound : ∀ n ∈ boundIn body, OneLine n)
    (hexprs : ∀ e ∈ exprsIn body, ∀ n ∈ e.uses, OneLine n) (depth : Nat) :
    ∀ l ∈ stmtLines depth body, OneLine l.content := by
  cases body with
  | nil => exact fun l hl => absurd hl List.not_mem_nil
  | cons s rest =>
    obtain ⟨hboundHead, hboundRest⟩ := List.forall_mem_append.mp hbound
    obtain ⟨hexprsHead, hexprsRest⟩ := List.forall_mem_append.mp hexprs
    exact List.forall_mem_append.mpr ⟨s.oneLine_lines hboundHead hexprsHead depth,
      oneLine_stmtLines rest hboundRest hexprsRest depth⟩
termination_by structural body

end

namespace FunctionDef

/-- The lines of the source of a function. -/
def sourceLines (f : FunctionDef) : List Line :=
  f.headerLine :: Line.ofBody 1 f.body (stmtLines 1 f.body)

/-- No line of the source breaks if no name of the function does. -/
theorem oneLine_sourceLines {f : FunctionDef} (h : ∀ n ∈ f.names, OneLine n) :
    ∀ l ∈ f.sourceLines, OneLine l.content := by
  simp only [names, List.forall_mem_cons, List.forall_mem_append, List.forall_mem_map] at h
  obtain ⟨hname, ⟨hparams, hbound⟩, huses⟩ := h
  refine List.forall_mem_cons.mpr ⟨oneLine_functionHeader hname hparams, ?_⟩
  refine Line.oneLine_ofBody (oneLine_stmtLines f.body hbound ?_ 1)
  exact fun e he n hn => huses n (List.mem_flatMap.mpr ⟨e, he, hn⟩)

end FunctionDef

end StagedFlow
