import StagedFlow.Program.Text

/-!
Source texts of functions, and the places of their statements in them. A text is a list of lines
with a depth each. Places are given by walking through the statements with a cursor that moves on
by the same lines. Main definitions: `Line`, `Line.textOf`, `Stmt.lines`, `Cursor`, `Stmt.locate`,
`FunctionDef.withSource`.
-/
set_option autoImplicit false

namespace StagedFlow

/-- A line of source text, indented by four blanks for each level of `depth`. -/
structure Line where
  depth : Nat
  content : String
  deriving Repr, DecidableEq

namespace Line

def indent (l : Line) : Nat :=
  4 * l.depth

def text (l : Line) : String :=
  String.ofList (List.replicate l.indent ' ') ++ l.content

/-- The text that consists of some lines. -/
def textOf (lines : List Line) : String :=
  String.join (lines.map fun l => l.text ++ "\n")

/-- The lines of a body; one without statements says so. -/
def ofBody {α : Type} (depth : Nat) (body : List α) (lines : List Line) : List Line :=
  if body.isEmpty then [⟨depth, "pass"⟩] else lines

end Line

/-! ## Lines -/

mutual

/-- The lines of a statement. -/
def Stmt.lines (depth : Nat) : Stmt → List Line
  | .choose arms otherwise _ =>
    armLines depth true arms ++
      (match otherwise with
      | some body => ⟨depth, "else:"⟩ :: Line.ofBody (depth + 1) body (stmtLines (depth + 1) body)
      | none => [])
  | .forIn target source body _ =>
    ⟨depth, forHeader target source⟩ ::
      Line.ofBody (depth + 1) body (stmtLines (depth + 1) body)
  | .whileDo condition body _ =>
    ⟨depth, whileHeader condition⟩ :: Line.ofBody (depth + 1) body (stmtLines (depth + 1) body)
  | .act action _ => [⟨depth, action.text⟩]

/-- The lines of the arms of a chain, of which the `first` opens it. -/
def armLines (depth : Nat) (first : Bool) : List Arm → List Line
  | [] => []
  | ⟨condition, body, span⟩ :: rest =>
    ⟨depth, Arm.header first ⟨condition, body, span⟩⟩ ::
      (Line.ofBody (depth + 1) body (stmtLines (depth + 1) body) ++ armLines depth false rest)

def stmtLines (depth : Nat) : List Stmt → List Line
  | [] => []
  | s :: rest => s.lines depth ++ stmtLines depth rest

end

/-! ## Places -/

/-- How much of a text has been written: bytes and lines. -/
structure Cursor where
  offset : Nat
  line : Nat
  deriving Repr, DecidableEq

namespace Cursor

def start : Cursor :=
  ⟨0, 0⟩

/-- The cursor after a line. -/
def after (c : Cursor) (l : Line) : Cursor :=
  ⟨c.offset + l.indent + l.content.utf8ByteSize + 1, c.line + 1⟩

/-- Where the content of a line stands when it is written next. -/
def span (c : Cursor) (l : Line) : Span :=
  let start := c.offset + l.indent
  let length := l.content.utf8ByteSize
  ⟨start, start + length, c.line + 1, c.line + 1, l.indent + 1, l.indent + length + 1⟩

/-- The cursor after a body, where `located` is the one after its statements. -/
def afterBody {α : Type} (c : Cursor) (depth : Nat) (body : List α) (located : Cursor) : Cursor :=
  if body.isEmpty then c.after ⟨depth, "pass"⟩ else located

end Cursor

mutual

/-- A statement with its unknown spans filled in, written at the cursor, and the cursor after
it. -/
def Stmt.locate (depth : Nat) : Stmt → Cursor → Stmt × Cursor
  | .choose arms otherwise span, c =>
    let span := match arms with
      | [] => span
      | arm :: _ => span.orElse (c.span ⟨depth, arm.header true⟩)
    let (arms, c) := locateArms depth true arms c
    match otherwise with
    | some body =>
      let c := c.after ⟨depth, "else:"⟩
      let (located, last) := locateAll (depth + 1) body c
      (.choose arms (some located) span, c.afterBody (depth + 1) body last)
    | none => (.choose arms none span, c)
  | .forIn target source body span, c =>
    let line : Line := ⟨depth, forHeader target source⟩
    let (located, last) := locateAll (depth + 1) body (c.after line)
    (.forIn target source located (span.orElse (c.span line)),
      (c.after line).afterBody (depth + 1) body last)
  | .whileDo condition body span, c =>
    let line : Line := ⟨depth, whileHeader condition⟩
    let (located, last) := locateAll (depth + 1) body (c.after line)
    (.whileDo condition located (span.orElse (c.span line)),
      (c.after line).afterBody (depth + 1) body last)
  | .act action span, c =>
    let line : Line := ⟨depth, action.text⟩
    (.act action (span.orElse (c.span line)), c.after line)

def locateArms (depth : Nat) (first : Bool) : List Arm → Cursor → List Arm × Cursor
  | [], c => ([], c)
  | ⟨condition, body, span⟩ :: rest, c =>
    let line : Line := ⟨depth, Arm.header first ⟨condition, body, span⟩⟩
    let (located, last) := locateAll (depth + 1) body (c.after line)
    let (rest, c') :=
      locateArms depth false rest ((c.after line).afterBody (depth + 1) body last)
    (⟨condition, located, span.orElse (c.span line)⟩ :: rest, c')

def locateAll (depth : Nat) : List Stmt → Cursor → List Stmt × Cursor
  | [], c => ([], c)
  | s :: rest, c =>
    let (s, c) := s.locate depth c
    let (rest, c) := locateAll depth rest c
    (s :: rest, c)

end

namespace FunctionDef

def headerLine (f : FunctionDef) : Line :=
  ⟨0, functionHeader f.name f.params⟩

/-- The source text of a function. -/
def text (f : FunctionDef) : String :=
  Line.textOf (f.headerLine :: Line.ofBody 1 f.body (stmtLines 1 f.body))

/-- The function with its text as its source, and a place in it for everything that had none. -/
def withSource (f : FunctionDef) : FunctionDef :=
  let c := Cursor.start
  { f with
    body := (locateAll 1 f.body (c.after f.headerLine)).1
    source := some f.text
    span := f.span.orElse (c.span f.headerLine) }

/-- A function made from its parts, with its source. -/
def make (name : String) (params : List Param) (body : List Stmt) : FunctionDef :=
  withSource ⟨name, params, body, none, none, .unknown⟩

end FunctionDef

end StagedFlow
