import StagedFlow.Flow.Block

/-!
The text of converted functions. A block is written as functions for its parts and a call of the
primitive that takes them; a loop that stays on the host is written as it is, with a remark. Main
definitions: `FlowStmt.lines`, `FlowFunction.text`.
-/
set_option autoImplicit false

namespace StagedFlow

/-- A tuple of names. -/
def tupleOfNames : List String → String
  | [one] => "(" ++ one ++ ",)"
  | names => "(" ++ Text.commaList names ++ ")"

namespace BlockInfo

/-- The assignment of the results of a block. -/
def resultsText (b : BlockInfo) : String :=
  if b.outputs.isEmpty then "" else Text.commaList b.outputs ++ " = "

/-- The line that hands the carried variables on. -/
def returnLines (b : BlockInfo) (depth : Nat) : List Line :=
  match b.outputs with
  | [] => []
  | [one] => [⟨depth, "return " ++ one⟩]
  | names => [⟨depth, "return " ++ tupleOfNames names⟩]

end BlockInfo

/-- The line that opens a function for a part of a block. -/
def partHeader (depth : Nat) (name : String) (params : List String) : Line :=
  ⟨depth, s!"def {name}({Text.commaList params}):"⟩

/-- The number of an arm in the names of its functions. -/
def armSuffix (b : BlockInfo) (arm : Nat) : String :=
  if arm = 0 then toString b.id else s!"{b.id}_{arm}"

namespace FlowStmt

mutual

def lines (depth : Nat) : FlowStmt → List Line
  | act action _ => [⟨depth, action.text⟩]
  | cond info arms otherwise =>
    chainLines info depth 0 arms
      (match otherwise with
      | some body => some fun depth => Line.ofBody depth body (linesOf depth body)
      | none => none)
  | forIn info target source body _ strategy =>
    match strategy with
    | .host reason =>
      ⟨depth, "# not converted: " ++ reason⟩ :: ⟨depth, forHeader target source⟩ ::
        Line.ofBody (depth + 1) body (linesOf (depth + 1) body)
    | .primitive =>
      let name := s!"loop_body_{info.id}"
      let (item, unpacking) := match target with
        | .name n => if info.carries n then ("__item", true) else (n, false)
        | _ => ("__item", true)
      partHeader depth name (item :: info.inputs) ::
        ((if unpacking then [⟨depth + 1, target.text ++ " = __item"⟩] else []) ++
        Line.ofBody (depth + 1) body (linesOf (depth + 1) body) ++
        info.returnLines (depth + 1) ++
        [⟨depth, info.resultsText ++
          s!"for_loop({source.text}, {name}, {tupleOfNames info.inputs})"⟩])
  | whileDo info condition body =>
    let test := s!"loop_cond_{info.id}"
    let name := s!"loop_body_{info.id}"
    partHeader depth test info.inputs :: ⟨depth + 1, "return " ++ condition.text⟩ ::
      partHeader depth name info.inputs ::
      (Line.ofBody (depth + 1) body (linesOf (depth + 1) body) ++
      info.returnLines (depth + 1) ++
      [⟨depth, info.resultsText ++ s!"while_loop({test}, {name}, {tupleOfNames info.inputs})"⟩])

/-- The lines of the arms from the given one on; all later ones stand in its `else` part. -/
def chainLines (info : BlockInfo) (depth arm : Nat) :
    List FlowArm → Option (Nat → List Line) → List Line
  | [], _ => []
  | ⟨condition, body⟩ :: rest, otherwise =>
    let thenName := "if_body_" ++ armSuffix info arm
    let elseName := "else_body_" ++ armSuffix info arm
    let elseLines :=
      if rest.isEmpty then
        match otherwise with
        | some body => body (depth + 1)
        | none => if info.carried.isEmpty then [⟨depth + 1, "pass"⟩] else []
      else chainLines info (depth + 1) (arm + 1) rest otherwise
    partHeader depth thenName info.inputs ::
      (Line.ofBody (depth + 1) body (linesOf (depth + 1) body) ++
      info.returnLines (depth + 1) ++
      partHeader depth elseName info.inputs :: (elseLines ++
      info.returnLines (depth + 1) ++
      [⟨depth, info.resultsText ++
        s!"cond({condition.text}, {thenName}, {elseName}, {tupleOfNames info.inputs})"⟩]))

def linesOf (depth : Nat) : List FlowStmt → List Line
  | [] => []
  | s :: rest => s.lines depth ++ linesOf depth rest

end

end FlowStmt

/-- The text of a converted function. -/
def flowText (name : String) (params : List Param) (body : List FlowStmt) : String :=
  Line.textOf
    (⟨0, functionHeader name params⟩ :: Line.ofBody 1 body (FlowStmt.linesOf 1 body))

end StagedFlow
