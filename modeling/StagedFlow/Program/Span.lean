import StagedFlow.Text.Basic

/-!
Places in a source text. A span gives byte offsets into the UTF-8 form of the text and lines and
columns that start at 1; a statement that was never written down has the span `Span.unknown`.
Main definitions: `Span`, `Span.text`, `Text.lines`.
-/
set_option autoImplicit false

namespace StagedFlow

namespace Text

/-- The lines of a text. A line ends with a line feed, before which one carriage return is dropped;
there is no line after the last line feed. -/
def splitLines : List Char → List (List Char)
  | [] => []
  | '\r' :: '\n' :: cs => [] :: splitLines cs
  | '\n' :: cs => [] :: splitLines cs
  | c :: cs =>
    match splitLines cs with
    | [] => [[c]]
    | line :: rest => (c :: line) :: rest

def lines (s : String) : List String :=
  (splitLines s.toList).map String.ofList

/-- The characters after the first `n` bytes, if a character starts there. -/
def dropBytes? : List Char → Nat → Option (List Char)
  | cs, 0 => some cs
  | [], _ => none
  | c :: cs, n => if c.utf8Size ≤ n then dropBytes? cs (n - c.utf8Size) else none

/-- The characters that make up the first `n` bytes, if a character ends there. -/
def takeBytes? : List Char → Nat → Option (List Char)
  | _, 0 => some []
  | [], _ => none
  | c :: cs, n =>
    if c.utf8Size ≤ n then (takeBytes? cs (n - c.utf8Size)).map (c :: ·) else none

end Text

structure Span where
  start : Nat
  stop : Nat
  startLine : Nat
  endLine : Nat
  startColumn : Nat
  endColumn : Nat
  deriving Repr, DecidableEq, Inhabited

namespace Span

/-- The span of what has no place in a text yet. -/
def unknown : Span :=
  ⟨0, 0, 0, 0, 0, 0⟩

def isUnknown (s : Span) : Bool :=
  s.startLine == 0

/-- The span itself, or the place `found` where it is unknown. -/
def orElse (s found : Span) : Span :=
  if s.isUnknown then found else s

/-- The part of a text that the span covers, empty where it does not fit. -/
def text (s : Span) (source : String) : String :=
  if s.start ≤ s.stop then
    match (Text.dropBytes? source.toList s.start).bind (Text.takeBytes? · (s.stop - s.start)) with
    | some cs => String.ofList cs
    | none => ""
  else ""

end Span

end StagedFlow
