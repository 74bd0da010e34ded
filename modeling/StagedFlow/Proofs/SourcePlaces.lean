import Mathlib.Data.List.Chain
import StagedFlow.Proofs.SingleLines

/-!
The places that a function gets with its source. Its text is a list of lines, and what opens a line
gets the span of that line. Main definitions: `Heading`, `Stmt.headings`, `Placed`. Main results:
`placed_locateAll`, `Placed.text`, `FunctionDef.withSource_withSource`.
-/
set_option autoImplicit false

namespace StagedFlow

/-! ## Bytes -/

namespace Text

theorem utf8ByteSize_ofList_cons (c : Char) (cs : List Char) :
    (String.ofList (c :: cs)).utf8ByteSize = c.utf8Size + (String.ofList cs).utf8ByteSize := by
  rw [← List.singleton_append, String.ofList_append, String.utf8ByteSize_append,
    ← String.singleton_eq_ofList, String.utf8ByteSize_singleton]

/-- The characters after the first ones, by their bytes. -/
theorem dropBytes?_append (cs rest : List Char) :
    dropBytes? (cs ++ rest) (String.ofList cs).utf8ByteSize = some rest := by
  induction cs with
  | nil =>
    rw [List.nil_append]
    cases rest <;> rfl
  | cons c cs ih =>
    have hpos := c.utf8Size_pos
    rw [utf8ByteSize_ofList_cons, List.cons_append, dropBytes?]
    · rw [if_pos (by omega), Nat.add_sub_cancel_left, ih]
    · omega

theorem takeBytes?_append (cs rest : List Char) :
    takeBytes? (cs ++ rest) (String.ofList cs).utf8ByteSize = some cs := by
  induction cs with
  | nil => cases rest <;> rfl
  | cons c cs ih =>
    have hpos := c.utf8Size_pos
    rw [utf8ByteSize_ofList_cons, List.cons_append, takeBytes?]
    · rw [if_pos (by omega), Nat.add_sub_cancel_left, ih, Option.map_some]
    · omega

end Text

/-- A span that starts after the bytes of `before` and is as long as `content` covers `content`. -/
theorem Span.text_append {s : Span} {before content rest : String}
    (hstart : s.start = before.utf8ByteSize)
    (hstop : s.stop = s.start + content.utf8ByteSize) :
    s.text (before ++ content ++ rest) = content := by
  have hdrop := Text.dropBytes?_append before.toList (content.toList ++ rest.toList)
  have htake := Text.takeBytes?_append content.toList rest.toList
  rw [String.ofList_toList] at hdrop htake
  rw [Span.text, if_pos (by omega), hstart]
  simp only [String.toList_append, List.append_assoc, hdrop, Option.bind_some]
  rw [show s.stop - before.utf8ByteSize = content.utf8ByteSize by omega, htake]
  exact String.ofList_toList

/-! ## Lines -/

theorem Text.utf8ByteSize_blanks (n : Nat) :
    (String.ofList (List.replicate n ' ')).utf8ByteSize = n := by
  induction n with
  | zero => rfl
  | succ n ih =>
    rw [List.replicate_succ, Text.utf8ByteSize_ofList_cons, ih]
    exact Nat.add_comm 1 n

theorem Line.utf8ByteSize_text (l : Line) :
    l.text.utf8ByteSize = l.indent + l.content.utf8ByteSize := by
  rw [Line.text, String.utf8ByteSize_append, Text.utf8ByteSize_blanks]

theorem Line.toList_textOf (lines : List Line) :
    (Line.textOf lines).toList = lines.flatMap fun l => l.text.toList ++ ['\n'] := by
  simp [Line.textOf, String.toList_join, List.flatMap_map]

theorem Line.textOf_append (lines more : List Line) :
    Line.textOf (lines ++ more) = Line.textOf lines ++ Line.textOf more := by
  apply String.toList_injective
  simp only [String.toList_append, Line.toList_textOf, List.flatMap_append]

theorem Line.textOf_cons (l : Line) (lines : List Line) :
    Line.textOf (l :: lines) = l.text ++ "\n" ++ Line.textOf lines := by
  apply String.toList_injective
  simp [Line.toList_textOf]

namespace Cursor

/-- The cursor after some lines. -/
def through (c : Cursor) (lines : List Line) : Cursor :=
  lines.foldl after c

@[simp] theorem through_nil (c : Cursor) : c.through [] = c := rfl

@[simp] theorem through_cons (c : Cursor) (l : Line) (lines : List Line) :
    c.through (l :: lines) = (c.after l).through lines := rfl

@[simp] theorem through_append (c : Cursor) (lines more : List Line) :
    c.through (lines ++ more) = (c.through lines).through more :=
  List.foldl_append

/-- A cursor counts the bytes and the lines that were written. -/
theorem through_eq (c : Cursor) (lines : List Line) :
    c.through lines =
      ⟨c.offset + (Line.textOf lines).utf8ByteSize, c.line + lines.length⟩ := by
  induction lines generalizing c with
  | nil => rfl
  | cons l lines ih =>
    have hbreak : "\n".utf8ByteSize = 1 := rfl
    rw [through_cons, ih, Line.textOf_cons, String.utf8ByteSize_append, String.utf8ByteSize_append,
      l.utf8ByteSize_text, hbreak, after, List.length_cons]
    simp only [Cursor.mk.injEq]
    omega

end Cursor

/-! ## Headings -/

/-- Something that opens a line, with its place. A chain opens a line together with its first
arm. -/
structure Heading where
  line : Line
  span : Span
  opensChain : Bool

/-- Of two headings that follow each other the second stands on a later line, but the first arm of a
chain on the line of the chain. -/
def Heading.Precedes (x y : Heading) : Prop :=
  if x.opensChain then y.line = x.line ∧ y.span = x.span
  else x.span.startLine < y.span.startLine

/-- The heading of a chain that is not empty. -/
def chainHeading (depth : Nat) (span : Span) : List Arm → List Heading
  | [] => []
  | arm :: _ => [⟨⟨depth, arm.header true⟩, span, true⟩]

mutual

/-- The statements and arms in a statement, itself first, as they follow each other in the
source. -/
def Stmt.headings (depth : Nat) : Stmt → List Heading
  | .act action span => [⟨⟨depth, action.text⟩, span, false⟩]
  | .choose arms otherwise span =>
    chainHeading depth span arms ++ armHeadings depth true arms ++
      lastHeadings (depth + 1) otherwise
  | .forIn target source body span =>
    ⟨⟨depth, forHeader target source⟩, span, false⟩ :: headingsIn (depth + 1) body
  | .whileDo condition body span =>
    ⟨⟨depth, whileHeader condition⟩, span, false⟩ :: headingsIn (depth + 1) body

def armHeadings (depth : Nat) (first : Bool) : List Arm → List Heading
  | [] => []
  | ⟨condition, body, span⟩ :: rest =>
    ⟨⟨depth, Arm.header first ⟨condition, body, span⟩⟩, span, false⟩ ::
      (headingsIn (depth + 1) body ++ armHeadings depth false rest)

def lastHeadings (depth : Nat) : Option (List Stmt) → List Heading
  | none => []
  | some body => headingsIn depth body

def headingsIn (depth : Nat) : List Stmt → List Heading
  | [] => []
  | s :: rest => s.headings depth ++ headingsIn depth rest

end

/-- Headings are some of the lines that are written from a cursor on, in order, and each has the
span of its line; the lines between them belong to no heading. -/
inductive Placed : Cursor → List Line → List Heading → Prop
  | nil (c : Cursor) : Placed c [] []
  | skip {c : Cursor} {l : Line} {lines : List Line} {headings : List Heading}
    (h : Placed (c.after l) lines headings) : Placed c (l :: lines) headings
  | mark {c : Cursor} {l : Line} {lines : List Line} {headings : List Heading}
    (h : Placed (c.after l) lines headings) :
    Placed c (l :: lines) (⟨l, c.span l, false⟩ :: headings)
  | chain {c : Cursor} {l : Line} {lines : List Line} {headings : List Heading}
    (h : Placed (c.after l) lines headings) :
    Placed c (l :: lines) (⟨l, c.span l, true⟩ :: ⟨l, c.span l, false⟩ :: headings)

namespace Placed

variable {c : Cursor} {lines more : List Line} {headings others : List Heading}

theorem append (h : Placed c lines headings) (hmore : Placed (c.through lines) more others) :
    Placed c (lines ++ more) (headings ++ others) := by
  induction h with
  | nil c => exact hmore
  | skip _ ih => exact .skip (ih hmore)
  | mark _ ih => exact .mark (ih hmore)
  | chain _ ih => exact .chain (ih hmore)

/-- Every heading stands at one of the lines. -/
theorem exists_line (h : Placed c lines headings) {x : Heading} (hx : x ∈ headings) :
    ∃ before after, lines = before ++ x.line :: after ∧
      x.span = (c.through before).span x.line := by
  induction h with
  | nil c => exact absurd hx List.not_mem_nil
  | @skip c l lines headings _ ih =>
    obtain ⟨before, after, rfl, hspan⟩ := ih hx
    exact ⟨l :: before, after, rfl, hspan⟩
  | @mark c l lines headings _ ih =>
    rcases List.mem_cons.mp hx with rfl | hx
    · exact ⟨[], lines, rfl, rfl⟩
    · obtain ⟨before, after, rfl, hspan⟩ := ih hx
      exact ⟨l :: before, after, rfl, hspan⟩
  | @chain c l lines headings _ ih =>
    rcases List.mem_cons.mp hx with rfl | hx
    · exact ⟨[], lines, rfl, rfl⟩
    · rcases List.mem_cons.mp hx with rfl | hx
      · exact ⟨[], lines, rfl, rfl⟩
      · obtain ⟨before, after, rfl, hspan⟩ := ih hx
        exact ⟨l :: before, after, rfl, hspan⟩

/-- A body that is empty has one line, which belongs to no heading. -/
theorem ofBody {α : Type} (depth : Nat) {body : List α} (h : Placed c lines headings)
    (hempty : body = [] → headings = []) : Placed c (Line.ofBody depth body lines) headings := by
  cases body with
  | nil =>
    rw [hempty rfl]
    exact .skip (.nil _)
  | cons a rest => exact h

/-- Every heading covers its own text. -/
theorem text (h : Placed .start lines headings) {x : Heading} (hx : x ∈ headings) :
    x.span.text (Line.textOf lines) = x.line.content := by
  obtain ⟨before, after, rfl, hspan⟩ := h.exists_line hx
  have htext : Line.textOf (before ++ x.line :: after) =
      Line.textOf before ++ String.ofList (List.replicate x.line.indent ' ') ++ x.line.content ++
        ("\n" ++ Line.textOf after) := by
    rw [Line.textOf_append, Line.textOf_cons, Line.text]
    simp only [String.append_assoc]
  rw [htext]
  refine Span.text_append ?_ ?_
  · rw [hspan, Cursor.through_eq, String.utf8ByteSize_append, Text.utf8ByteSize_blanks]
    simp [Cursor.span, Cursor.start]
  · rw [hspan]
    rfl

theorem startLine_lt (h : Placed c lines headings) {x : Heading} (hx : x ∈ headings) :
    c.line < x.span.startLine := by
  obtain ⟨before, after, -, hspan⟩ := h.exists_line hx
  rw [hspan, Cursor.through_eq]
  simp only [Cursor.span]
  omega

/-- A chain has the place of its first arm. -/
theorem share {l : Line} (h : Placed c (l :: lines) (⟨l, c.span l, false⟩ :: headings)) :
    Placed c (l :: lines) (⟨l, c.span l, true⟩ :: ⟨l, c.span l, false⟩ :: headings) := by
  cases h with
  | skip h => exact absurd (h.startLine_lt List.mem_cons_self) (Nat.lt_irrefl _)
  | mark h => exact .chain h

/-- The line at which a heading stands is its own, if no line breaks. -/
theorem sourceLine (h : Placed .start lines headings) {x : Heading} (hx : x ∈ headings)
    (hone : ∀ l ∈ lines, Text.OneLine l.content) :
    0 < x.span.startLine ∧
      (Text.lines (Line.textOf lines))[x.span.startLine - 1]? = some x.line.text := by
  rw [Line.lines_textOf hone]
  obtain ⟨before, after, rfl, hspan⟩ := h.exists_line hx
  have hstart : x.span.startLine = before.length + 1 := by
    rw [hspan, Cursor.through_eq]
    simp [Cursor.span, Cursor.start]
  rw [hstart]
  refine ⟨Nat.succ_pos _, ?_⟩
  simp

/-- Along the headings the lines go up. -/
theorem isChain (h : Placed c lines headings) : headings.IsChain Heading.Precedes := by
  have hnext : ∀ {c : Cursor} {l : Line} {lines : List Line} {headings : List Heading},
      Placed (c.after l) lines headings →
      ∀ y ∈ headings.head?, Heading.Precedes ⟨l, c.span l, false⟩ y :=
    fun h y hy => h.startLine_lt (List.mem_of_mem_head? hy)
  induction h with
  | nil c => exact .nil
  | skip _ ih => exact ih
  | mark h ih => exact List.isChain_cons.mpr ⟨hnext h, ih⟩
  | chain h ih => exact .cons_cons ⟨rfl, rfl⟩ (List.isChain_cons.mpr ⟨hnext h, ih⟩)

end Placed

/-! ## Locating -/

theorem Span.orElse_of_isUnknown {s : Span} (h : s.isUnknown = true) (found : Span) :
    s.orElse found = found := by
  rw [Span.orElse, if_pos h]

theorem Cursor.afterBody_through {α : Type} (c : Cursor) (depth : Nat) (body : List α)
    (lines : List Line) :
    c.afterBody depth body (c.through lines) = c.through (Line.ofBody depth body lines) := by
  cases body <;> rfl

/-- The last branch of a chain with its unknown spans filled in. -/
def locateLast (depth : Nat) : Option (List Stmt) → Cursor → Option (List Stmt) × Cursor
  | none, c => (none, c)
  | some body, c =>
    let c := c.after ⟨depth, "else:"⟩
    let located := locateAll (depth + 1) body c
    (some located.1, c.afterBody (depth + 1) body located.2)

/-- The span of a chain, which its first arm fixes. -/
def chainSpan (depth : Nat) (arms : List Arm) (span : Span) (c : Cursor) : Span :=
  match arms with
  | [] => span
  | arm :: _ => span.orElse (c.span ⟨depth, arm.header true⟩)

theorem Stmt.locate_choose (depth : Nat) (arms : List Arm) (otherwise : Option (List Stmt))
    (span : Span) (c : Cursor) :
    (Stmt.choose arms otherwise span).locate depth c =
      let located := locateArms depth true arms c
      let last := locateLast depth otherwise located.2
      (.choose located.1 last.1 (chainSpan depth arms span c), last.2) := by
  cases otherwise <;> cases arms <;> rfl

mutual

/-- Locating a statement moves the cursor over its lines. -/
theorem Stmt.locate_snd (s : Stmt) (depth : Nat) (c : Cursor) :
    (s.locate depth c).2 = c.through (s.lines depth) := by
  cases s with
  | act action span => rfl
  | choose arms otherwise span =>
    rw [Stmt.locate_choose, Stmt.lines_choose, Cursor.through_append, ← locateArms_snd arms]
    exact locateLast_snd otherwise depth _
  | forIn target source body span =>
    rw [Stmt.lines, Cursor.through_cons, ← Cursor.afterBody_through, ← locateAll_snd body]
    rfl
  | whileDo condition body span =>
    rw [Stmt.lines, Cursor.through_cons, ← Cursor.afterBody_through, ← locateAll_snd body]
    rfl
termination_by structural s

theorem locateArms_snd (arms : List Arm) (depth : Nat) (first : Bool) (c : Cursor) :
    (locateArms depth first arms c).2 = c.through (armLines depth first arms) := by
  cases arms with
  | nil => rfl
  | cons arm rest =>
    obtain ⟨condition, body, span⟩ := arm
    rw [armLines, Cursor.through_cons, Cursor.through_append, ← Cursor.afterBody_through,
      ← locateAll_snd body, ← locateArms_snd rest]
    rfl
termination_by structural arms

theorem locateLast_snd (otherwise : Option (List Stmt)) (depth : Nat) (c : Cursor) :
    (locateLast depth otherwise c).2 = c.through (lastLines depth otherwise) := by
  cases otherwise with
  | none => rfl
  | some body =>
    rw [lastLines, Cursor.through_cons, ← Cursor.afterBody_through, ← locateAll_snd body]
    rfl
termination_by structural otherwise

theorem locateAll_snd (body : List Stmt) (depth : Nat) (c : Cursor) :
    (locateAll depth body c).2 = c.through (stmtLines depth body) := by
  cases body with
  | nil => rfl
  | cons s rest =>
    rw [stmtLines, Cursor.through_append, ← s.locate_snd, ← locateAll_snd rest]
    rfl
termination_by structural body

end

/-! Equations for what is located, with the cursors given by the lines. -/

theorem locateArms_cons (depth : Nat) (first : Bool) (condition : Expr) (body : List Stmt)
    (span : Span) (rest : List Arm) (c : Cursor) :
    (locateArms depth first (⟨condition, body, span⟩ :: rest) c).1 =
      let line : Line := ⟨depth, Arm.header first ⟨condition, body, span⟩⟩
      ⟨condition, (locateAll (depth + 1) body (c.after line)).1, span.orElse (c.span line)⟩ ::
        (locateArms depth false rest ((c.after line).through
          (Line.ofBody (depth + 1) body (stmtLines (depth + 1) body)))).1 := by
  dsimp only
  rw [← Cursor.afterBody_through, ← locateAll_snd body]
  rfl

theorem locateAll_cons (depth : Nat) (s : Stmt) (rest : List Stmt) (c : Cursor) :
    (locateAll depth (s :: rest) c).1 =
      (s.locate depth c).1 :: (locateAll depth rest (c.through (s.lines depth))).1 := by
  rw [← s.locate_snd]
  rfl

mutual

/-- The headings of a statement without places are placed at its lines. -/
theorem Stmt.placed_locate (s : Stmt) (h : ∀ x ∈ s.spans, x.isUnknown = true) (depth : Nat)
    (c : Cursor) : Placed c (s.lines depth) ((s.locate depth c).1.headings depth) := by
  cases s with
  | act action span =>
    simp only [Stmt.spans, List.forall_mem_cons] at h
    simp only [Stmt.lines, Stmt.locate, Stmt.headings, Span.orElse_of_isUnknown h.1]
    exact .mark (.nil _)
  | choose arms otherwise span =>
    simp only [Stmt.spans, List.forall_mem_cons, List.forall_mem_append] at h
    have harms := placed_locateArms arms h.2.1 depth true c
    have hlast := placed_locateLast otherwise h.2.2 depth (locateArms depth true arms c).2
    rw [locateArms_snd] at hlast
    rw [Stmt.locate_choose, Stmt.lines_choose]
    simp only [Stmt.headings]
    rw [locateArms_snd]
    refine Placed.append ?_ hlast
    cases arms with
    | nil => exact harms
    | cons arm rest =>
      obtain ⟨condition, body, own⟩ := arm
      simp only [armSpans, List.forall_mem_cons] at h
      rw [locateArms_cons] at harms ⊢
      simp only [armLines, armHeadings, chainHeading, chainSpan,
        Span.orElse_of_isUnknown h.1, Span.orElse_of_isUnknown h.2.1.1] at harms ⊢
      exact harms.share
  | forIn target source body span =>
    simp only [Stmt.spans, List.forall_mem_cons] at h
    simp only [Stmt.lines, Stmt.locate, Stmt.headings, Span.orElse_of_isUnknown h.1]
    refine .mark ((placed_locateAll body h.2 _ _).ofBody _ ?_)
    rintro rfl
    rfl
  | whileDo condition body span =>
    simp only [Stmt.spans, List.forall_mem_cons] at h
    simp only [Stmt.lines, Stmt.locate, Stmt.headings, Span.orElse_of_isUnknown h.1]
    refine .mark ((placed_locateAll body h.2 _ _).ofBody _ ?_)
    rintro rfl
    rfl
termination_by structural s

theorem placed_locateArms (arms : List Arm) (h : ∀ x ∈ armSpans arms, x.isUnknown = true)
    (depth : Nat) (first : Bool) (c : Cursor) :
    Placed c (armLines depth first arms)
      (armHeadings depth first (locateArms depth first arms c).1) := by
  cases arms with
  | nil => exact .nil c
  | cons arm rest =>
    obtain ⟨condition, body, span⟩ := arm
    simp only [armSpans, List.forall_mem_cons, List.forall_mem_append] at h
    rw [locateArms_cons]
    simp only [armLines, armHeadings, Span.orElse_of_isUnknown h.1]
    refine .mark (.append (.ofBody _ (placed_locateAll body h.2.1 _ _) ?_)
      (placed_locateArms rest h.2.2 _ _ _))
    rintro rfl
    rfl
termination_by structural arms

theorem placed_locateLast (otherwise : Option (List Stmt))
    (h : ∀ x ∈ lastSpans otherwise, x.isUnknown = true) (depth : Nat) (c : Cursor) :
    Placed c (lastLines depth otherwise)
      (lastHeadings (depth + 1) (locateLast depth otherwise c).1) := by
  cases otherwise with
  | none => exact .nil c
  | some body =>
    refine .skip (.ofBody _ (placed_locateAll body h _ _) ?_)
    rintro rfl
    rfl
termination_by structural otherwise

theorem placed_locateAll (body : List Stmt) (h : ∀ x ∈ spansIn body, x.isUnknown = true)
    (depth : Nat) (c : Cursor) :
    Placed c (stmtLines depth body) (headingsIn depth (locateAll depth body c).1) := by
  cases body with
  | nil => exact .nil c
  | cons s rest =>
    simp only [spansIn, List.forall_mem_append] at h
    rw [locateAll_cons]
    exact (s.placed_locate h.1 depth c).append (placed_locateAll rest h.2 depth _)
termination_by structural body

end

/-! ## Locating again -/

theorem Span.orElse_orElse (s found : Span) : (s.orElse found).orElse found = s.orElse found := by
  by_cases h : s.isUnknown = true
  · rw [Span.orElse_of_isUnknown h, Span.orElse, ite_self]
  · rw [show s.orElse found = s from if_neg h]
    exact if_neg h

theorem Line.ofBody_locateAll (depth : Nat) (body : List Stmt) (c : Cursor) (lines : List Line) :
    Line.ofBody depth (locateAll depth body c).1 lines = Line.ofBody depth body lines := by
  cases body <;> rfl

mutual

theorem Stmt.lines_locate (s : Stmt) (depth : Nat) (c : Cursor) :
    (s.locate depth c).1.lines depth = s.lines depth := by
  cases s with
  | act action span => rfl
  | choose arms otherwise span =>
    rw [Stmt.locate_choose, Stmt.lines_choose, Stmt.lines_choose, armLines_locateArms arms,
      lastLines_locateLast otherwise]
  | forIn target source body span =>
    simp only [Stmt.locate, Stmt.lines, Line.ofBody_locateAll, stmtLines_locateAll body]
  | whileDo condition body span =>
    simp only [Stmt.locate, Stmt.lines, Line.ofBody_locateAll, stmtLines_locateAll body]
termination_by structural s

theorem armLines_locateArms (arms : List Arm) (depth : Nat) (first : Bool) (c : Cursor) :
    armLines depth first (locateArms depth first arms c).1 = armLines depth first arms := by
  cases arms with
  | nil => rfl
  | cons arm rest =>
    obtain ⟨condition, body, span⟩ := arm
    rw [locateArms_cons]
    simp only [armLines, Line.ofBody_locateAll, stmtLines_locateAll body, armLines_locateArms rest,
      Arm.header]
termination_by structural arms

theorem lastLines_locateLast (otherwise : Option (List Stmt)) (depth : Nat) (c : Cursor) :
    lastLines depth (locateLast depth otherwise c).1 = lastLines depth otherwise := by
  cases otherwise with
  | none => rfl
  | some body =>
    simp only [locateLast, lastLines, Line.ofBody_locateAll, stmtLines_locateAll body]
termination_by structural otherwise

/-- Places leave no trace in the lines. -/
theorem stmtLines_locateAll (body : List Stmt) (depth : Nat) (c : Cursor) :
    stmtLines depth (locateAll depth body c).1 = stmtLines depth body := by
  cases body with
  | nil => rfl
  | cons s rest =>
    rw [locateAll_cons, stmtLines, stmtLines, s.lines_locate, stmtLines_locateAll rest]
termination_by structural body

end

mutual

theorem Stmt.map_line_headings (s : Stmt) (depth : Nat) (c : Cursor) :
    ((s.locate depth c).1.headings depth).map Heading.line =
      (s.headings depth).map Heading.line := by
  cases s with
  | act action span => rfl
  | choose arms otherwise span =>
    have hchain : (chainHeading depth (chainSpan depth arms span c)
        (locateArms depth true arms c).1).map Heading.line =
          (chainHeading depth span arms).map Heading.line := by
      cases arms with
      | nil => rfl
      | cons arm rest =>
        obtain ⟨condition, body, own⟩ := arm
        rw [locateArms_cons]
        rfl
    simp only [Stmt.locate_choose, Stmt.headings, List.map_append, hchain,
      map_line_armHeadings arms, map_line_lastHeadings otherwise]
  | forIn target source body span =>
    exact congrArg (List.cons _) (map_line_headingsIn body _ _)
  | whileDo condition body span =>
    exact congrArg (List.cons _) (map_line_headingsIn body _ _)
termination_by structural s

theorem map_line_armHeadings (arms : List Arm) (depth : Nat) (first : Bool) (c : Cursor) :
    (armHeadings depth first (locateArms depth first arms c).1).map Heading.line =
      (armHeadings depth first arms).map Heading.line := by
  cases arms with
  | nil => rfl
  | cons arm rest =>
    obtain ⟨condition, body, span⟩ := arm
    rw [locateArms_cons]
    simp only [armHeadings, List.map_cons, List.map_append, map_line_headingsIn body,
      map_line_armHeadings rest, Arm.header]
termination_by structural arms

theorem map_line_lastHeadings (otherwise : Option (List Stmt)) (depth : Nat) (c : Cursor) :
    (lastHeadings (depth + 1) (locateLast depth otherwise c).1).map Heading.line =
      (lastHeadings (depth + 1) otherwise).map Heading.line := by
  cases otherwise with
  | none => rfl
  | some body => exact map_line_headingsIn body _ _
termination_by structural otherwise

/-- Places leave no trace in the lines of headings. -/
theorem map_line_headingsIn (body : List Stmt) (depth : Nat) (c : Cursor) :
    (headingsIn depth (locateAll depth body c).1).map Heading.line =
      (headingsIn depth body).map Heading.line := by
  cases body with
  | nil => rfl
  | cons s rest =>
    simp only [locateAll_cons, headingsIn, List.map_append, s.map_line_headings,
      map_line_headingsIn rest]
termination_by structural body

end

mutual

theorem Stmt.locate_locate (s : Stmt) (depth : Nat) (c : Cursor) :
    ((s.locate depth c).1.locate depth c).1 = (s.locate depth c).1 := by
  cases s with
  | act action span => simp only [Stmt.locate, Span.orElse_orElse]
  | choose arms otherwise span =>
    have hspan : chainSpan depth (locateArms depth true arms c).1 (chainSpan depth arms span c) c =
        chainSpan depth arms span c := by
      cases arms with
      | nil => rfl
      | cons arm rest =>
        obtain ⟨condition, body, own⟩ := arm
        rw [locateArms_cons]
        exact Span.orElse_orElse _ _
    have hcursor : (locateArms depth true (locateArms depth true arms c).1 c).2 =
        (locateArms depth true arms c).2 := by
      rw [locateArms_snd, locateArms_snd, armLines_locateArms]
    simp only [Stmt.locate_choose, hspan, hcursor, locateArms_locateArms arms,
      locateLast_locateLast otherwise]
  | forIn target source body span =>
    simp only [Stmt.locate, Span.orElse_orElse, locateAll_locateAll body]
  | whileDo condition body span =>
    simp only [Stmt.locate, Span.orElse_orElse, locateAll_locateAll body]
termination_by structural s

theorem locateArms_locateArms (arms : List Arm) (depth : Nat) (first : Bool) (c : Cursor) :
    (locateArms depth first (locateArms depth first arms c).1 c).1 =
      (locateArms depth first arms c).1 := by
  cases arms with
  | nil => rfl
  | cons arm rest =>
    obtain ⟨condition, body, span⟩ := arm
    simp only [locateArms_cons, Arm.header, Line.ofBody_locateAll, stmtLines_locateAll,
      locateAll_locateAll body, locateArms_locateArms rest, Span.orElse_orElse]
termination_by structural arms

theorem locateLast_locateLast (otherwise : Option (List Stmt)) (depth : Nat) (c : Cursor) :
    (locateLast depth (locateLast depth otherwise c).1 c).1 = (locateLast depth otherwise c).1 := by
  cases otherwise with
  | none => rfl
  | some body => simp only [locateLast, locateAll_locateAll body]
termination_by structural otherwise

theorem locateAll_locateAll (body : List Stmt) (depth : Nat) (c : Cursor) :
    (locateAll depth (locateAll depth body c).1 c).1 = (locateAll depth body c).1 := by
  cases body with
  | nil => rfl
  | cons s rest =>
    simp only [locateAll_cons, s.lines_locate, s.locate_locate, locateAll_locateAll rest]
termination_by structural body

end

/-! ## Chains with arms -/

mutual

/-- Whether every chain in a statement has an arm. -/
def Stmt.hasArms : Stmt → Bool
  | .act _ _ => true
  | .choose arms otherwise _ => !arms.isEmpty && armsHaveArms arms && lastHasArms otherwise
  | .forIn _ _ body _ => haveArms body
  | .whileDo _ body _ => haveArms body

def armsHaveArms : List Arm → Bool
  | [] => true
  | ⟨_, body, _⟩ :: rest => haveArms body && armsHaveArms rest

def lastHasArms : Option (List Stmt) → Bool
  | none => true
  | some body => haveArms body

def haveArms : List Stmt → Bool
  | [] => true
  | s :: rest => s.hasArms && haveArms rest

end

mutual

/-- Every span of a located statement is the place of a heading. -/
theorem Stmt.map_span_headings (s : Stmt) (h : s.hasArms = true) (depth : Nat) (c : Cursor) :
    ((s.locate depth c).1.headings depth).map Heading.span = (s.locate depth c).1.spans := by
  cases s with
  | act action span => rfl
  | choose arms otherwise span =>
    simp only [Stmt.hasArms, Bool.and_eq_true] at h
    have harms := map_span_armHeadings arms h.1.2 depth true c
    have hlast := map_span_lastHeadings otherwise h.2 depth (locateArms depth true arms c).2
    have hchain : (chainHeading depth (chainSpan depth arms span c)
        (locateArms depth true arms c).1).map Heading.span = [chainSpan depth arms span c] := by
      cases arms with
      | nil => exact absurd h.1.1 (by decide)
      | cons arm rest =>
        obtain ⟨condition, body, own⟩ := arm
        rw [locateArms_cons]
        rfl
    simp only [Stmt.locate_choose, Stmt.headings, Stmt.spans, List.map_append, harms, hlast, hchain,
      List.cons_append, List.nil_append]
  | forIn target source body span =>
    exact congrArg (List.cons _) (map_span_headingsIn body h _ _)
  | whileDo condition body span =>
    exact congrArg (List.cons _) (map_span_headingsIn body h _ _)
termination_by structural s

theorem map_span_armHeadings (arms : List Arm) (h : armsHaveArms arms = true) (depth : Nat)
    (first : Bool) (c : Cursor) :
    (armHeadings depth first (locateArms depth first arms c).1).map Heading.span =
      armSpans (locateArms depth first arms c).1 := by
  cases arms with
  | nil => rfl
  | cons arm rest =>
    obtain ⟨condition, body, span⟩ := arm
    simp only [armsHaveArms, Bool.and_eq_true] at h
    rw [locateArms_cons]
    simp only [armHeadings, armSpans, List.map_cons, List.map_append,
      map_span_headingsIn body h.1, map_span_armHeadings rest h.2]
termination_by structural arms

theorem map_span_lastHeadings (otherwise : Option (List Stmt)) (h : lastHasArms otherwise = true)
    (depth : Nat) (c : Cursor) :
    (lastHeadings (depth + 1) (locateLast depth otherwise c).1).map Heading.span =
      lastSpans (locateLast depth otherwise c).1 := by
  cases otherwise with
  | none => rfl
  | some body => exact map_span_headingsIn body h _ _
termination_by structural otherwise

theorem map_span_headingsIn (body : List Stmt) (h : haveArms body = true) (depth : Nat)
    (c : Cursor) :
    (headingsIn depth (locateAll depth body c).1).map Heading.span =
      spansIn (locateAll depth body c).1 := by
  cases body with
  | nil => rfl
  | cons s rest =>
    simp only [haveArms, Bool.and_eq_true] at h
    simp only [locateAll_cons, headingsIn, spansIn, List.map_append, s.map_span_headings h.1,
      map_span_headingsIn rest h.2]
termination_by structural body

end

/-! ## Functions -/

namespace FunctionDef

/-- A function, its statements and their arms, as they follow each other in the source. -/
def headings (f : FunctionDef) : List Heading :=
  ⟨f.headerLine, f.span, false⟩ :: headingsIn 1 f.body

theorem sourceLines_withSource (f : FunctionDef) : f.withSource.sourceLines = f.sourceLines := by
  simp only [sourceLines, headerLine, withSource, Line.ofBody_locateAll, stmtLines_locateAll]

/-- A function that has its source gets no other. -/
theorem withSource_withSource (f : FunctionDef) : f.withSource.withSource = f.withSource := by
  have htext : f.withSource.text = f.text := congrArg Line.textOf f.sourceLines_withSource
  rw [withSource, htext]
  simp only [withSource, headerLine, locateAll_locateAll, Span.orElse_orElse]

/-- All headings of a function without places are placed at the lines of its source. -/
theorem placed_withSource {f : FunctionDef} (h : ∀ s ∈ f.spans, s.isUnknown = true) :
    Placed .start f.sourceLines f.withSource.headings := by
  obtain ⟨hspan, hbody⟩ := List.forall_mem_cons.mp h
  rw [headings, withSource, Span.orElse_of_isUnknown hspan]
  refine .mark ((placed_locateAll f.body hbody 1 _).ofBody 1 ?_)
  intro hempty
  rw [hempty]
  rfl

/-- The places of a function that had none: each belongs to the function itself, to a statement or
to an arm, which opens the line that it opened before, and covers just the text that opens it; the
lines go up along the source; and the line of a place holds this text behind its indentation, as
long as no name breaks a line. Locating again changes nothing. -/
theorem places_cover_headers {f : FunctionDef} (hspans : ∀ s ∈ f.spans, s.isUnknown = true)
    (harms : haveArms f.body = true) :
    f.withSource.source = some f.text ∧
      f.withSource.headings.map Heading.line = f.headings.map Heading.line ∧
      f.withSource.headings.map Heading.span = f.withSource.spans ∧
      (∀ x ∈ f.withSource.headings, x.span.text f.text = x.line.content) ∧
      f.withSource.headings.IsChain Heading.Precedes ∧
      ((∀ n ∈ f.names, Text.OneLine n) → ∀ x ∈ f.withSource.headings,
        f.withSource.sourceLine? x.span.startLine = some x.line.text) ∧
      f.withSource.withSource = f.withSource := by
  have hplaced := placed_withSource hspans
  refine ⟨rfl, ?_, ?_, fun x hx => hplaced.text hx, hplaced.isChain, ?_, f.withSource_withSource⟩
  · exact congrArg (List.cons _) (map_line_headingsIn f.body 1 _)
  · exact congrArg (List.cons _) (map_span_headingsIn f.body harms 1 _)
  · intro hnames x hx
    obtain ⟨hpos, hline⟩ := hplaced.sourceLine hx (oneLine_sourceLines hnames)
    rw [sourceLine?, if_neg (Nat.ne_of_gt hpos)]
    exact hline

/-- Blocks without statements, an `else`, names of several bytes and a text with a line feed. -/
def detour : FunctionDef where
  name := "détour"
  params := [⟨"π", none⟩]
  body :=
    [.forIn (.name "x") (.call .range [.var "π"])
        [.choose
          [⟨.binary .lt (.var "x") (.literal (.int 2)), [], .unknown⟩,
            ⟨.var "π", [.act (.assign (.name "é") (.literal (.str "\n"))) .unknown], .unknown⟩]
          (some []) .unknown] .unknown,
      .act (.ret (some (.var "x"))) .unknown]
  file := none
  source := none
  span := .unknown

theorem places_cover_headers_detour :
    detour.withSource.headings.map (fun x => x.span.startLine) = [1, 2, 3, 3, 5, 6, 9] ∧
      (∀ x ∈ detour.withSource.headings, x.span.text detour.text = x.line.content) ∧
      (∀ x ∈ detour.withSource.headings,
        detour.withSource.sourceLine? x.span.startLine = some x.line.text) ∧
      detour.withSource.withSource = detour.withSource := by
  obtain ⟨-, -, -, htext, -, hline, hagain⟩ :=
    places_cover_headers (f := detour) (by decide) (by decide)
  exact ⟨by decide +kernel, htext, hline (by decide +kernel), hagain⟩

end FunctionDef

end StagedFlow
