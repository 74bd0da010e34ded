import StagedFlow.Proofs.JsonText
import StagedFlow.Proofs.SingleLines

/-!
Reading expressions back from their text. A reader takes the first part of an expression, and then
adds operators to it as long as they hold together tightly enough; an operand is read with the least
precedence that its place allows. Main definitions: `ExprReader.readAt`, `Expr.ofText?`. Main
results: `Expr.readable`, `Expr.ofText?_text`, `Expr.text_determines`.
-/
set_option autoImplicit false

namespace StagedFlow

/-! ## Operators between two operands -/

inductive InfixOp
  | binary (op : BinaryOp)
  | and
  | or
  deriving DecidableEq

namespace InfixOp

def symbol : InfixOp → String
  | binary op => op.symbol
  | and => "and"
  | or => "or"

/-- An operator with the blanks around it. -/
def chars (o : InfixOp) : List Char :=
  ' ' :: (o.symbol.toList ++ [' '])

def precedence : InfixOp → Nat
  | binary op => op.precedence
  | and => 2
  | or => 1

/-- The least precedence of the two operands. -/
def operandPrecedence : InfixOp → Nat × Nat
  | binary op => op.operandPrecedence
  | and => (2, 3)
  | or => (1, 2)

def apply : InfixOp → Expr → Expr → Expr
  | binary op => .binary op
  | and => .and
  | or => .or

def all : List InfixOp :=
  [binary .add, binary .sub, binary .mul, binary .div, binary .floorDiv, binary .mod, binary .pow,
    binary .lt, binary .gt, binary .le, binary .ge, binary .eq, binary .ne, and, or]

/-- The operator at the start of a text. -/
def read? (cs : List Char) : Option (InfixOp × List Char) :=
  all.findSome? fun o => (o.chars.isPrefixOf? cs).map fun rest => (o, rest)

theorem mem_all (o : InfixOp) : o ∈ all := by
  cases o with
  | binary op => cases op <;> decide
  | and => decide
  | or => decide

/-- No operator is the start of another one. -/
theorem read?_chars (o : InfixOp) (rest : List Char) :
    read? (o.chars ++ rest) = some (o, rest) := by
  cases o with
  | binary op => cases op <;> rfl
  | and => rfl
  | or => rfl

/-- Only an operator that holds together less tightly can follow the right operand. -/
theorem precedence_lt (o : InfixOp) {other : InfixOp}
    (h : other.operandPrecedence.1 ≤ o.precedence) :
    other.precedence < o.operandPrecedence.2 := by
  have hall : ∀ o ∈ all, ∀ other ∈ all, other.operandPrecedence.1 ≤ o.precedence →
      other.precedence < o.operandPrecedence.2 := by decide
  exact hall o o.mem_all other other.mem_all h

/-- The same for the operand of `not` and of a negation. -/
theorem precedence_lt_of_unary {q : Nat} (hq : q ∈ [3, 7]) {o : InfixOp}
    (h : o.operandPrecedence.1 ≤ q) : o.precedence < q := by
  have hall : ∀ q ∈ [3, 7], ∀ o ∈ all, o.operandPrecedence.1 ≤ q → o.precedence < q := by decide
  exact hall q hq o o.mem_all h

/-- The operands hold together at least as tightly as the whole. -/
theorem precedence_bounds (o : InfixOp) :
    0 < o.operandPrecedence.1 ∧ o.precedence ≤ o.operandPrecedence.1 ∧
      o.precedence ≤ o.operandPrecedence.2 ∧ o.precedence < 9 := by
  have hall : ∀ o ∈ all, 0 < o.operandPrecedence.1 ∧ o.precedence ≤ o.operandPrecedence.1 ∧
      o.precedence ≤ o.operandPrecedence.2 ∧ o.precedence < 9 := by decide
  exact hall o o.mem_all

end InfixOp

/-! ## Words -/

namespace Text

def isWordChar (c : Char) : Bool :=
  c.isAlphanum || c == '_'

/-- The words that are no names. -/
def reservedWords : List String :=
  ["and", "or", "not", "True", "False", "None"]

/-- A letter or underscore, followed by letters, digits and underscores. -/
def isIdentifier (s : String) : Bool :=
  match s.toList with
  | [] => false
  | c :: cs => (c.isAlpha || c == '_') && cs.all isWordChar

theorem isDigit_eq_false_of_isAlpha {c : Char} (h : c.isAlpha = true) : c.isDigit = false := by
  rw [← Bool.not_eq_true, Char.isDigit_iff_toNat]
  change (decide ('A'.val ≤ c.val ∧ c.val ≤ 'Z'.val) ||
    (decide ('a'.val ≤ c.val) && decide (c.val ≤ 'z'.val))) = true at h
  simp only [Bool.or_eq_true, Bool.and_eq_true, decide_eq_true_eq, UInt32.le_iff_toNat_le] at h
  change (65 ≤ c.toNat ∧ c.toNat ≤ 90) ∨ (97 ≤ c.toNat ∧ c.toNat ≤ 122) at h
  change ¬(48 ≤ c.toNat ∧ c.toNat ≤ 57)
  omega

theorem isWordChar_of_isAlpha {c : Char} (h : (c.isAlpha || c == '_') = true) :
    isWordChar c = true ∧ c.isDigit = false := by
  rw [Bool.or_eq_true, beq_iff_eq] at h
  rcases h with h | rfl
  · exact ⟨by simp [isWordChar, Char.isAlphanum, h], isDigit_eq_false_of_isAlpha h⟩
  · decide

theorem exists_of_isIdentifier {s : String} (h : isIdentifier s = true) :
    ∃ c cs, s.toList = c :: cs ∧ (c.isAlpha || c == '_') = true ∧
      ∀ c ∈ cs, isWordChar c = true := by
  unfold isIdentifier at h
  split at h
  · cases h
  · next c cs hs =>
    rw [Bool.and_eq_true, List.all_eq_true] at h
    exact ⟨c, cs, hs, h⟩

/-- What a variable can be called. -/
def isVariableName (s : String) : Bool :=
  isIdentifier s && !reservedWords.contains s

end Text

/-! ## The reader -/

/-- What is made of the start of a text: an expression and the text after it. -/
abbrev ExprReader := List Char → Option (Expr × List Char)

namespace ExprReader

/-- The text after the character that is expected next. -/
def closed? (close : Char) : List Char → Option (List Char)
  | c :: rest => if c = close then some rest else none
  | [] => none

/-- One item or more, and the character that closes them. -/
def items? (read : ExprReader) (close : Char) : Nat → List Char → Option (List Expr × List Char)
  | 0, _ => none
  | n + 1, cs => do
    let (e, rest) ← read cs
    match rest with
    | ',' :: ' ' :: rest =>
      let (es, rest) ← items? read close n rest
      return (e :: es, rest)
    | rest => (closed? close rest).map fun rest => ([e], rest)

/-- Items up to the character that closes them. -/
def sequence? (read : ExprReader) (close : Char) (n : Nat) (cs : List Char) :
    Option (List Expr × List Char) :=
  match items? read close n cs with
  | some found => some found
  | none => (closed? close cs).map fun rest => ([], rest)

/-- One entry of a dictionary or more, and the brace that closes them. -/
def entries? (read : ExprReader) : Nat → List Char → Option (List (Expr × Expr) × List Char)
  | 0, _ => none
  | n + 1, cs => do
    let (k, rest) ← read cs
    match rest with
    | ':' :: ' ' :: rest =>
      let (v, rest) ← read rest
      match rest with
      | ',' :: ' ' :: rest =>
        let (entries, rest) ← entries? read n rest
        return ((k, v) :: entries, rest)
      | rest => (closed? '\x7d' rest).map fun rest => ([(k, v)], rest)
    | _ => none

/-- Entries up to the brace that closes them. -/
def mapping? (read : ExprReader) (n : Nat) (cs : List Char) :
    Option (List (Expr × Expr) × List Char) :=
  match entries? read n cs with
  | some found => some found
  | none => (closed? '\x7d' cs).map fun rest => ([], rest)

/-- A tuple whose first item is `e`, or `e` by itself in parentheses. -/
def grouped? (read : ExprReader) (n : Nat) (e : Expr) : ExprReader
  | ',' :: ')' :: rest => some (.tuple [e], rest)
  | ',' :: ' ' :: rest =>
    (items? read ')' n rest).map fun (es, rest) => (.tuple (e :: es), rest)
  | rest => (closed? ')' rest).map fun rest => (e, rest)

/-- What stands in parentheses. -/
def group? (read : ExprReader) (n : Nat) (cs : List Char) : Option (Expr × List Char) :=
  match read cs with
  | some (e, rest) => grouped? read n e rest
  | none => (closed? ')' cs).map fun rest => (.tuple [], rest)

def constantWords : List (String × Literal) :=
  [("True", .bool true), ("False", .bool false), ("None", .none)]

def builtins : List Builtin :=
  [.range, .enumerate, .len, .int, .float, .array, .kron, .items]

/-- A variable, or a function with its arguments. -/
def named? (read : ExprReader) (n : Nat) (name : String) : ExprReader
  | '(' :: rest => do
    let f ← builtins.find? fun f => f.name == name
    let (args, rest) ← sequence? read ')' n rest
    return (.call f args, rest)
  | rest => some (.var name, rest)

/-- What `not` is applied to. -/
def not? (read : ExprReader) : ExprReader
  | ' ' :: rest => (read rest).map fun (e, rest) => (.not e, rest)
  | _ => none

/-- What starts with a word, given the word and the text after it. -/
def word? (read : Nat → ExprReader) (n : Nat) (word rest : List Char) :
    Option (Expr × List Char) :=
  if word = [] then none
  else if word.all Char.isDigit then
    some (.literal (.int (.ofNat (Text.digitsValue word))), rest)
  else if word = "not".toList then
    not? (read 3) rest
  else
    match constantWords.lookup (String.ofList word) with
    | some l => some (.literal l, rest)
    | none => named? (read 0) n (String.ofList word) rest

/-- The first part of an expression. -/
def atom? (read : Nat → ExprReader) (n : Nat) : ExprReader
  | '-' :: cs => (read 7 cs).map fun (e, rest) => (.neg e, rest)
  | '(' :: cs => group? (read 0) n cs
  | '[' :: cs => (sequence? (read 0) ']' n cs).map fun (es, rest) => (.list es, rest)
  | '\x7b' :: cs => (mapping? (read 0) n cs).map fun (entries, rest) => (.dict entries, rest)
  | cs => word? read n (cs.takeWhile Text.isWordChar) (cs.dropWhile Text.isWordChar)

/-- An expression with the part that follows it, if that holds together at least as tightly as
`least`. -/
def extend? (read : Nat → ExprReader) (least : Nat) (e : Expr) : ExprReader
  | '[' :: cs =>
    match read 0 cs with
    | some (i, ']' :: rest) => some (.index e i, rest)
    | _ => none
  | '.' :: cs => ("items()".toList.isPrefixOf? cs).map fun rest => (.call .items [e], rest)
  | cs => do
    let (o, rest) ← InfixOp.read? cs
    if least ≤ o.precedence then
      let (right, rest) ← read o.operandPrecedence.2 rest
      return (o.apply e right, rest)
    else none

/-- An expression with all parts that follow it. -/
def grow (read : Nat → ExprReader) (least : Nat) : Nat → Expr → ExprReader
  | 0, _, _ => none
  | n + 1, e, cs =>
    match extend? read least e cs with
    | some (e, rest) => grow read least n e rest
    | none => some (e, cs)

/-- The longest expression at the start of a text that holds together as tightly as `least`. -/
def readAt : Nat → Nat → ExprReader
  | 0, _, _ => none
  | n + 1, least, cs => do
    let (e, rest) ← atom? (readAt n) n cs
    grow (readAt n) least (n + 1) e rest

end ExprReader

/-- The expression that a text writes. -/
def Expr.ofText? (s : String) : Option Expr :=
  match ExprReader.readAt (s.length + 1) 0 s.toList with
  | some (e, []) => some e
  | _ => none

/-! ## What follows an expression -/

/-- What can stand after an operand of precedence `k`: the end of the text, a character that ends an
item, or an operator that takes such an operand on its left. -/
inductive Follows (k : Nat) : List Char → Prop
  | nil : Follows k []
  | closing {c : Char} (h : c ∈ [')', ']', '\x7d', ',', ':']) (rest : List Char) :
    Follows k (c :: rest)
  | operator {o : InfixOp} (h : o.operandPrecedence.1 ≤ k) (rest : List Char) :
    Follows k (o.chars ++ rest)
  | index (h : 9 ≤ k) (rest : List Char) : Follows k ('[' :: rest)
  | items (h : 9 ≤ k) (rest : List Char) : Follows k (".items()".toList ++ rest)

namespace Follows

theorem mono {k m : Nat} {rest : List Char} (h : Follows k rest) (hkm : k ≤ m) :
    Follows m rest := by
  cases h with
  | nil => exact .nil
  | closing hc rest => exact .closing hc rest
  | operator ho rest => exact .operator (Nat.le_trans ho hkm) rest
  | index hk rest => exact .index (Nat.le_trans hk hkm) rest
  | items hk rest => exact .items (Nat.le_trans hk hkm) rest

/-- No word goes on after an expression, and no arguments follow. -/
theorem head {k : Nat} {rest : List Char} (h : Follows k rest) {c : Char}
    (hc : c ∈ rest.head?) : Text.isWordChar c = false ∧ c ≠ '(' := by
  have hclosing : [')', ']', '\x7d', ',', ':'].all
      (fun c => decide (Text.isWordChar c = false ∧ c ≠ '(')) = true := by decide
  cases h with
  | nil => cases hc
  | closing hmem rest =>
    cases hc
    exact of_decide_eq_true (List.all_eq_true.mp hclosing c hmem)
  | operator ho rest =>
    cases hc
    decide
  | index hk rest =>
    cases hc
    decide
  | items hk rest =>
    cases hc
    decide

end Follows

namespace ExprReader

variable {read : Nat → ExprReader} {e : Expr} {rest : List Char} {k least n : Nat}

/-- Before an operator, its right operand is what there is to add. -/
theorem extend?_operator (o : InfixOp) :
    extend? read least e (o.chars ++ rest) =
      if least ≤ o.precedence then
        (read o.operandPrecedence.2 rest).map fun (right, rest) => (o.apply e right, rest)
      else none := by
  have hread := o.read?_chars rest
  rw [InfixOp.chars, List.cons_append] at hread ⊢
  rw [extend?, hread]
  · split
    · next hle =>
      simp only [Option.bind_eq_bind, Option.bind_some, hle, if_true]
      cases read o.operandPrecedence.2 rest <;> rfl
    · next hlt => simp [hlt]
  · simp
  · simp

/-- Nothing is added to an operand before an operator that holds together less tightly. -/
theorem extend?_eq_none (h : Follows k rest) (hk : k < 9)
    (hless : ∀ o : InfixOp, o.operandPrecedence.1 ≤ k → o.precedence < least) :
    extend? read least e rest = none := by
  cases h with
  | nil => rfl
  | closing hc rest =>
    simp only [List.mem_cons, List.not_mem_nil, or_false] at hc
    rcases hc with rfl | rfl | rfl | rfl | rfl <;> rfl
  | @operator o ho rest => rw [extend?_operator, if_neg (Nat.not_le.mpr (hless o ho))]
  | index h rest => omega
  | items h rest => omega

theorem grow_stop (h : Follows k rest) (hk : k < 9)
    (hless : ∀ o : InfixOp, o.operandPrecedence.1 ≤ k → o.precedence < least) (hn : 0 < n) :
    grow read least n e rest = some (e, rest) := by
  cases n with
  | zero => omega
  | succ n => rw [grow, extend?_eq_none h hk hless]

theorem readAt_of_atom? {cs : List Char} {result : Expr × List Char}
    (hatom : atom? (readAt n) n cs = some (e, rest)) (hlength : rest.length ≤ n)
    (hgrow : ∀ m, rest.length < m → grow (readAt n) least m e rest = some result) :
    readAt (n + 1) least cs = some result := by
  rw [readAt, hatom]
  exact hgrow (n + 1) (by omega)

end ExprReader

/-! ## Parts of expressions -/

namespace Expr

open ExprReader

/-- The characters of the text of an expression. -/
def chars (e : Expr) : List Char :=
  e.text.toList

/-- The characters of an operand. -/
def operandChars (least : Nat) (e : Expr) : List Char :=
  (guarded least e e.text).toList

/-- An expression can be read before everything that can follow it: reading comes down to going on
from the expression. -/
def Readable (e : Expr) : Prop :=
  ∀ (n least : Nat) (rest : List Char) (result : Expr × List Char),
    least ≤ e.precedence → Follows e.precedence rest → (e.chars ++ rest).length ≤ n →
      (∀ m, rest.length < m → grow (readAt n) least m e rest = some result) →
      readAt (n + 1) least (e.chars ++ rest) = some result

variable {e : Expr} {rest : List Char} {n least : Nat}

/-- An expression between brackets, commas and colons. -/
theorem Readable.inside (h : e.Readable) (hrest : Follows 0 rest)
    (hlength : (e.chars ++ rest).length < n) : readAt n 0 (e.chars ++ rest) = some (e, rest) := by
  cases n with
  | zero => omega
  | succ n =>
    refine h _ _ _ _ (Nat.zero_le _) (hrest.mono (Nat.zero_le _)) (by omega) ?_
    intro m hm
    refine grow_stop hrest (by decide) ?_ (by omega)
    intro o ho
    have hpos := o.precedence_bounds.1
    omega

theorem operandChars_of_lt (h : e.precedence < least) :
    e.operandChars least = '(' :: (e.chars ++ [')']) := by
  simp [operandChars, guarded, h, chars]

theorem operandChars_of_le (h : least ≤ e.precedence) : e.operandChars least = e.chars := by
  simp [operandChars, guarded, Nat.not_lt.mpr h, chars]

/-- An operand, in parentheses or not, is read as the expression itself. -/
theorem Readable.operand (h : e.Readable) {p : Nat} {result : Expr × List Char} (hp : p ≤ least)
    (hrest : Follows least rest) (hlength : (e.operandChars least ++ rest).length ≤ n)
    (hgrow : ∀ m, rest.length < m → grow (readAt n) p m e rest = some result) :
    readAt (n + 1) p (e.operandChars least ++ rest) = some result := by
  by_cases hlt : e.precedence < least
  · rw [operandChars_of_lt hlt] at hlength ⊢
    have hinside : readAt n 0 (e.chars ++ ')' :: rest) = some (e, ')' :: rest) := by
      refine h.inside (.closing (by decide) rest) ?_
      simp at hlength ⊢
      omega
    have hatom : atom? (readAt n) n ('(' :: (e.chars ++ ')' :: rest)) = some (e, rest) := by
      rw [atom?, group?, hinside]
      rfl
    simp only [List.cons_append, List.append_assoc, List.nil_append]
    refine readAt_of_atom? hatom ?_ hgrow
    simp at hlength
    omega
  · have hle := Nat.not_lt.mp hlt
    rw [operandChars_of_le hle] at hlength ⊢
    exact h _ _ _ _ (Nat.le_trans hp hle) (hrest.mono hle) hlength hgrow

/-- The right operand of an operator, or the operand of a negation. -/
theorem Readable.lastOperand (h : e.Readable) {k : Nat} (hrest : Follows k rest) (hk : k < 9)
    (hle : k ≤ least) (hless : ∀ o : InfixOp, o.operandPrecedence.1 ≤ k → o.precedence < least)
    (hlength : (e.operandChars least ++ rest).length < n) :
    readAt n least (e.operandChars least ++ rest) = some (e, rest) := by
  cases n with
  | zero => omega
  | succ n =>
    refine h.operand (Nat.le_refl _) (hrest.mono hle) (by omega) ?_
    exact fun m hm => grow_stop hrest hk hless (by omega)

theorem chars_apply (o : InfixOp) (left right : Expr) :
    (o.apply left right).chars =
      left.operandChars o.operandPrecedence.1 ++ (o.chars ++
        right.operandChars o.operandPrecedence.2) := by
  cases o <;> simp [InfixOp.apply, chars, text, operandChars, InfixOp.operandPrecedence,
    InfixOp.chars, InfixOp.symbol]

theorem precedence_apply (o : InfixOp) (left right : Expr) :
    (o.apply left right).precedence = o.precedence := by
  cases o <;> rfl

theorem Readable.apply {o : InfixOp} {left right : Expr} (hleft : left.Readable)
    (hright : right.Readable) : (o.apply left right).Readable := by
  intro n least rest result hleast hrest hlength hgrow
  rw [precedence_apply] at hleast hrest
  rw [chars_apply, List.append_assoc, List.append_assoc] at hlength ⊢
  obtain ⟨-, hleftLe, hrightLe, hlt⟩ := o.precedence_bounds
  -- the left operand comes first; from there the operator takes the right one, and no more, since
  -- what follows the whole holds together less tightly than a right operand
  refine hleft.operand (Nat.le_trans hleast hleftLe) (.operator (Nat.le_refl _) _) hlength ?_
  intro m hm
  have hread : readAt n o.operandPrecedence.2 (right.operandChars o.operandPrecedence.2 ++ rest) =
      some (right, rest) := by
    refine hright.lastOperand hrest hlt hrightLe (fun other h => o.precedence_lt h) ?_
    simp [InfixOp.chars] at hlength ⊢
    omega
  cases m with
  | zero => omega
  | succ m =>
    rw [grow, extend?_operator, if_pos hleast, hread]
    refine hgrow m ?_
    simp [InfixOp.chars] at hm
    omega

/-- What is a first part by itself can be read. -/
theorem readable_of_atom? (h : ∀ (n : Nat) (rest : List Char), Follows e.precedence rest →
    (e.chars ++ rest).length ≤ n → atom? (readAt n) n (e.chars ++ rest) = some (e, rest)) :
    e.Readable := by
  intro n least rest result hleast hrest hlength hgrow
  refine readAt_of_atom? (h n rest hrest hlength) ?_ hgrow
  rw [List.length_append] at hlength
  omega

theorem Readable.neg {operand : Expr} (h : operand.Readable) : (neg operand).Readable := by
  refine readable_of_atom? fun n rest hrest hlength => ?_
  have hchars : (Expr.neg operand).chars = '-' :: operand.operandChars 7 := by
    simp [chars, text, operandChars]
  rw [hchars, List.cons_append] at hlength ⊢
  have hread : readAt n 7 (operand.operandChars 7 ++ rest) = some (operand, rest) :=
    h.lastOperand hrest (k := 7) (by decide) (Nat.le_refl 7)
      (fun o => InfixOp.precedence_lt_of_unary (by decide)) hlength
  rw [atom?, hread]
  rfl

theorem Readable.index {base i : Expr} (hbase : base.Readable) (hi : i.Readable) :
    (index base i).Readable := by
  intro n least rest result hleast hrest hlength hgrow
  have hchars : (Expr.index base i).chars = base.operandChars 9 ++ '[' :: (i.chars ++ [']']) := by
    simp [chars, text, operandChars]
  simp only [hchars, List.append_assoc, List.cons_append, List.nil_append] at hlength ⊢
  refine hbase.operand hleast (.index (Nat.le_refl 9) _) hlength ?_
  intro m hm
  have hread : readAt n 0 (i.chars ++ ']' :: rest) = some (i, ']' :: rest) := by
    refine hi.inside (.closing (by decide) rest) ?_
    simp at hlength ⊢
    omega
  cases m with
  | zero => omega
  | succ m =>
    rw [grow, extend?, hread]
    refine hgrow m ?_
    simp at hm
    omega

theorem Readable.items {arg : Expr} (h : arg.Readable) : (call .items [arg]).Readable := by
  intro n least rest result hleast hrest hlength hgrow
  have hchars : (Expr.call .items [arg]).chars = arg.operandChars 9 ++ ".items()".toList := by
    simp [chars, text, operandChars]
  rw [hchars, List.append_assoc] at hlength ⊢
  refine h.operand hleast (.items (Nat.le_refl 9) _) hlength ?_
  intro m hm
  have hextend : extend? (readAt n) least arg (".items()".toList ++ rest) =
      some (.call .items [arg], rest) := rfl
  cases m with
  | zero => omega
  | succ m =>
    rw [grow, hextend]
    refine hgrow m ?_
    simp at hm
    omega

/-! ## Words -/

/-- A word is read as a whole. -/
theorem atom?_word {read : Nat → ExprReader} {word : List Char} (hne : word ≠ [])
    (hword : word.all Text.isWordChar = true)
    (hrest : ∀ c ∈ rest.head?, Text.isWordChar c = false) :
    atom? read n (word ++ rest) = word? read n word rest := by
  obtain ⟨c, cs, rfl⟩ := List.exists_cons_of_ne_nil hne
  rw [List.all_eq_true] at hword
  have hc := hword c List.mem_cons_self
  have hends : rest.takeWhile Text.isWordChar = [] ∧ rest.dropWhile Text.isWordChar = rest := by
    cases rest with
    | nil => simp
    | cons d ds => simp [hrest d rfl]
  have htake : (c :: cs ++ rest).takeWhile Text.isWordChar = c :: cs := by
    rw [List.takeWhile_append_of_pos hword, hends.1, List.append_nil]
  have hdrop : (c :: cs ++ rest).dropWhile Text.isWordChar = rest := by
    rw [List.dropWhile_append_of_pos hword, hends.2]
  rw [List.cons_append] at htake hdrop ⊢
  rw [atom?, htake, hdrop]
  all_goals
    intro ds hd
    cases hd
    cases hc

/-- What is written as a single word. -/
theorem readable_of_word (hne : e.chars ≠ []) (hword : e.chars.all Text.isWordChar = true)
    (h : ∀ (read : Nat → ExprReader) (n k : Nat) (rest : List Char), Follows k rest →
      word? read n e.chars rest = some (e, rest)) : e.Readable := by
  refine readable_of_atom? fun n rest hrest hlength => ?_
  rw [atom?_word hne hword fun c hc => (hrest.head hc).1]
  exact h _ _ _ _ hrest

/-- A number that is not negative. -/
theorem readable_int {i : Int64} (h : 0 ≤ i) : (literal (.int i)).Readable := by
  obtain ⟨k, hk⟩ := Int.eq_ofNat_of_zero_le (Int64.le_iff_toInt_le.mp h)
  have hchars : (literal (.int i)).chars = Nat.toDigits 10 k := by
    simp only [chars, text, Literal.text, hk]
    exact Json.toList_toString_ofNat k
  have hvalue : Int64.ofNat k = i := by
    rw [← Int64.ofInt_toInt i, hk]
    rfl
  have hdigits := Json.isDigit_toDigits k
  refine readable_of_word ?_ ?_ ?_
  · rw [hchars]
    exact Nat.toDigits_ne_nil
  · rw [hchars, List.all_eq_true]
    intro c hc
    simp [Text.isWordChar, Char.isAlphanum, hdigits c hc]
  · intro read n _ rest _
    rw [hchars, word?, if_neg Nat.toDigits_ne_nil, if_pos (List.all_eq_true.mpr hdigits),
      Json.digitsValue_toDigits, hvalue]

theorem readable_var {name : String} (h : Text.isVariableName name = true) :
    (var name).Readable := by
  simp only [Text.isVariableName, Bool.and_eq_true, Bool.not_eq_true', List.contains_eq_mem,
    decide_eq_false_iff_not] at h
  obtain ⟨hidentifier, hreserved⟩ := h
  obtain ⟨c, cs, hname, hc, hcs⟩ := Text.exists_of_isIdentifier hidentifier
  have hne : name.toList ≠ [] := by simp [hname]
  have hword : name.toList.all Text.isWordChar = true := by
    rw [hname, List.all_eq_true]
    exact List.forall_mem_cons.mpr ⟨(Text.isWordChar_of_isAlpha hc).1, hcs⟩
  have hdigits : ¬name.toList.all Char.isDigit = true := by
    simp [hname, (Text.isWordChar_of_isAlpha hc).2]
  have hnot : name.toList ≠ "not".toList := fun heq =>
    hreserved (String.toList_injective heq ▸ by decide)
  have hconstant : constantWords.lookup name = none := by
    have hwords : ∀ p ∈ constantWords, p.1 ∈ Text.reservedWords := by decide
    rw [List.lookup_eq_none_iff]
    intro p hp
    exact bne_iff_ne.mpr fun heq => hreserved (heq ▸ hwords p hp)
  refine readable_of_word hne hword ?_
  intro read n k rest hrest
  rw [show (var name).chars = name.toList from rfl, word?, if_neg hne, if_neg hdigits, if_neg hnot,
    String.ofList_toList, hconstant]
  cases rest with
  | nil => rfl
  | cons d ds =>
    simp only [named?]
    split
    · next heq => exact absurd (List.cons.inj heq).1 (hrest.head rfl).2
    · rfl

theorem Readable.not {operand : Expr} (h : operand.Readable) : (not operand).Readable := by
  refine readable_of_atom? fun n rest hrest hlength => ?_
  have hchars : (Expr.not operand).chars = "not".toList ++ ' ' :: operand.operandChars 3 := by
    simp [chars, text, operandChars]
  rw [hchars, List.append_assoc, List.cons_append] at hlength ⊢
  have hread : readAt n 3 (operand.operandChars 3 ++ rest) = some (operand, rest) := by
    refine h.lastOperand hrest (k := 3) (by decide) (Nat.le_refl 3)
      (fun o => InfixOp.precedence_lt_of_unary (by decide)) ?_
    simp at hlength ⊢
    omega
  rw [atom?_word (by decide) (by decide) (by simp; decide)]
  simp [word?, not?, hread]

/-! ## Sequences -/

/-- The characters of expressions with a comma between them. -/
def listChars (es : List Expr) : List Char :=
  (Text.commaList (texts es)).toList

theorem listChars_cons_cons (e other : Expr) (rest : List Expr) :
    listChars (e :: other :: rest) = e.chars ++ ',' :: ' ' :: listChars (other :: rest) := by
  simp [listChars, texts, Text.commaList_cons_cons, chars]

theorem listChars_singleton (e : Expr) : listChars [e] = e.chars := rfl

/-- No expression starts with a closing bracket. -/
theorem readAt_closing {c : Char} (h : c ∈ [')', ']', '\x7d']) (rest : List Char) :
    readAt n least (c :: rest) = none := by
  cases n with
  | zero => rfl
  | succ n =>
    simp only [List.mem_cons, List.not_mem_nil, or_false] at h
    rcases h with rfl | rfl | rfl <;> rfl

theorem items?_listChars {close : Char} (hclose : close ∈ [')', ']', '\x7d']) {es : List Expr}
    (hne : es ≠ []) (h : ∀ e ∈ es, e.Readable) {m : Nat}
    (hlength : (listChars es ++ close :: rest).length < n)
    (hm : (listChars es ++ close :: rest).length < m) :
    items? (readAt n 0) close m (listChars es ++ close :: rest) = some (es, rest) := by
  induction es generalizing m with
  | nil => exact absurd rfl hne
  | cons e es ih =>
    obtain ⟨he, hes⟩ := List.forall_mem_cons.mp h
    cases m with
    | zero => omega
    | succ m =>
      cases es with
      | nil =>
        have hfollows : Follows 0 (close :: rest) :=
          .closing (List.mem_append_left [',', ':'] hclose) rest
        rw [listChars_singleton] at hlength ⊢
        rw [items?, he.inside hfollows hlength]
        simp only [List.mem_cons, List.not_mem_nil, or_false] at hclose
        rcases hclose with rfl | rfl | rfl <;> rfl
      | cons other es =>
        simp only [listChars_cons_cons, List.append_assoc, List.cons_append] at hlength hm ⊢
        rw [items?, he.inside (.closing (by decide) _) hlength]
        simp only [List.length_append, List.length_cons] at hlength hm ih
        have hitems := ih (by simp) hes (by omega) (m := m) (by omega)
        simp [hitems]

theorem sequence?_listChars {close : Char} (hclose : close ∈ [')', ']', '\x7d']) {es : List Expr}
    (h : ∀ e ∈ es, e.Readable) (hlength : (listChars es ++ close :: rest).length < n) :
    sequence? (readAt n 0) close n (listChars es ++ close :: rest) = some (es, rest) := by
  cases es with
  | nil =>
    have hitems : items? (readAt n 0) close n (close :: rest) = none := by
      cases n with
      | zero => rfl
      | succ n =>
        rw [items?, readAt_closing hclose]
        rfl
    simp [show listChars [] = [] from rfl, sequence?, hitems, closed?]
  | cons e es => simp [sequence?, items?_listChars hclose (by simp) h hlength hlength]

theorem Readable.list {items : List Expr} (h : ∀ e ∈ items, e.Readable) :
    (list items).Readable := by
  refine readable_of_atom? fun n rest hrest hlength => ?_
  have hchars : (Expr.list items).chars = '[' :: (listChars items ++ [']']) := by
    simp [chars, text, listChars]
  simp only [hchars, List.cons_append, List.append_assoc, List.nil_append] at hlength ⊢
  rw [atom?, sequence?_listChars (by decide) h hlength]
  rfl

theorem named?_builtin {read : ExprReader} (f : Builtin) (rest : List Char) :
    named? read n f.name ('(' :: rest) =
      (sequence? read ')' n rest).map fun (args, rest) => (.call f args, rest) := by
  have hfind : builtins.find? (fun g => g.name == f.name) = some f := by cases f <;> rfl
  rw [named?, hfind]
  cases sequence? read ')' n rest <;> rfl

/-- A call that is written with the name first. -/
theorem Readable.call {function : Builtin} {args : List Expr} (h : ∀ e ∈ args, e.Readable)
    (hitems : ¬(function = .items ∧ args.length = 1)) : (call function args).Readable := by
  refine readable_of_atom? fun n rest hrest hlength => ?_
  have hchars : (Expr.call function args).chars =
      function.name.toList ++ '(' :: (listChars args ++ [')']) := by
    simp [chars, text_call hitems, listChars]
  simp only [hchars, List.append_assoc, List.cons_append, List.nil_append] at hlength ⊢
  have hargs : sequence? (readAt n 0) ')' n (listChars args ++ ')' :: rest) =
      some (args, rest) := by
    refine sequence?_listChars (by decide) h ?_
    simp at hlength ⊢
    omega
  have hword : word? (readAt n) n function.name.toList ('(' :: (listChars args ++ ')' :: rest)) =
      named? (readAt n 0) n function.name ('(' :: (listChars args ++ ')' :: rest)) := by
    cases function <;> rfl
  rw [atom?_word (by cases function <;> decide) (by cases function <;> decide) (by simp; decide),
    hword, named?_builtin, hargs]
  rfl

theorem Readable.tuple {items : List Expr} (h : ∀ e ∈ items, e.Readable) :
    (tuple items).Readable := by
  refine readable_of_atom? fun n rest hrest hlength => ?_
  -- an empty tuple, one with its comma, and one with commas between its items
  rcases items with _ | ⟨e, _ | ⟨other, es⟩⟩
  · rw [show (Expr.tuple []).chars = ['(', ')'] from rfl]
    simp [atom?, group?, readAt_closing, closed?]
  · have hchars : (Expr.tuple [e]).chars = '(' :: (e.chars ++ [',', ')']) := by
      simp [chars, text]
    simp only [hchars, List.cons_append, List.append_assoc, List.nil_append] at hlength ⊢
    rw [atom?, group?, (h e List.mem_cons_self).inside (.closing (by decide) _) hlength]
    rfl
  · have hchars : (Expr.tuple (e :: other :: es)).chars =
        '(' :: (e.chars ++ ',' :: ' ' :: (listChars (other :: es) ++ [')'])) := by
      simp [chars, text, listChars, texts, Text.commaList_cons_cons]
    obtain ⟨he, hes⟩ := List.forall_mem_cons.mp h
    simp only [hchars, List.cons_append, List.append_assoc, List.nil_append] at hlength ⊢
    have hread := he.inside (.closing (by decide) _) hlength
    have hlist : (listChars (other :: es) ++ ')' :: rest).length < n := by
      simp at hlength ⊢
      omega
    rw [atom?, group?, hread]
    simp [grouped?, items?_listChars (by decide) (by simp) hes hlist hlist]

/-! ## Dictionaries -/

/-- The characters of entries with a comma between them. -/
def entryListChars (entries : List (Expr × Expr)) : List Char :=
  (Text.commaList (entryTexts entries)).toList

theorem entryListChars_singleton (k v : Expr) :
    entryListChars [(k, v)] = k.chars ++ ':' :: ' ' :: v.chars := by
  simp [entryListChars, entryTexts, Text.commaList, chars]

theorem entryListChars_cons_cons (k v : Expr) (entry : Expr × Expr) (rest : List (Expr × Expr)) :
    entryListChars ((k, v) :: entry :: rest) =
      k.chars ++ ':' :: ' ' :: (v.chars ++ ',' :: ' ' :: entryListChars (entry :: rest)) := by
  simp [entryListChars, entryTexts, Text.commaList_cons_cons, chars]

theorem entries?_entryListChars {entries : List (Expr × Expr)} (hne : entries ≠ [])
    (h : ∀ entry ∈ entries, entry.1.Readable ∧ entry.2.Readable) {m : Nat}
    (hlength : (entryListChars entries ++ '\x7d' :: rest).length < n)
    (hm : (entryListChars entries ++ '\x7d' :: rest).length < m) :
    entries? (readAt n 0) m (entryListChars entries ++ '\x7d' :: rest) = some (entries, rest) := by
  induction entries generalizing m with
  | nil => exact absurd rfl hne
  | cons entry entries ih =>
    obtain ⟨k, v⟩ := entry
    obtain ⟨⟨hk, hv⟩, hentries⟩ := List.forall_mem_cons.mp h
    cases m with
    | zero => omega
    | succ m =>
      cases entries with
      | nil =>
        simp only [entryListChars_singleton, List.append_assoc, List.cons_append] at hlength ⊢
        have hkey := hk.inside (.closing (by decide) _) hlength
        have hvalue : readAt n 0 (v.chars ++ '\x7d' :: rest) = some (v, '\x7d' :: rest) := by
          refine hv.inside (.closing (by decide) _) ?_
          simp at hlength ⊢
          omega
        simp [entries?, hkey, hvalue, closed?]
      | cons entry entries =>
        simp only [entryListChars_cons_cons, List.append_assoc, List.cons_append] at hlength hm ⊢
        have hkey := hk.inside (.closing (by decide) _) hlength
        simp only [List.length_append, List.length_cons] at hlength hm ih
        have hmore := ih (by simp) hentries (by omega) (m := m) (by omega)
        have hvalue : readAt n 0 (v.chars ++
            ',' :: ' ' :: (entryListChars (entry :: entries) ++ '\x7d' :: rest)) =
            some (v, ',' :: ' ' :: (entryListChars (entry :: entries) ++ '\x7d' :: rest)) := by
          refine hv.inside (.closing (by decide) _) ?_
          simp
          omega
        simp [entries?, hkey, hvalue, hmore]

theorem Readable.dict {entries : List (Expr × Expr)}
    (h : ∀ entry ∈ entries, entry.1.Readable ∧ entry.2.Readable) :
    (dict entries).Readable := by
  refine readable_of_atom? fun n rest hrest hlength => ?_
  have hchars : (Expr.dict entries).chars = '\x7b' :: (entryListChars entries ++ ['\x7d']) := by
    simp [chars, text, entryListChars]
  simp only [hchars, List.cons_append, List.append_assoc, List.nil_append] at hlength ⊢
  have hentries : mapping? (readAt n 0) n (entryListChars entries ++ '\x7d' :: rest) =
      some (entries, rest) := by
    cases entries with
    | nil =>
      have hnone : entries? (readAt n 0) n ('\x7d' :: rest) = none := by
        cases n with
        | zero => rfl
        | succ n =>
          rw [entries?, readAt_closing (by decide)]
          rfl
      simp [show entryListChars [] = [] from rfl, mapping?, hnone, closed?]
    | cons entry entries =>
      simp [mapping?, entries?_entryListChars (by simp) h hlength hlength]
  rw [atom?, hentries]
  rfl

end Expr

/-! ## Whole expressions -/

/-- A literal that is written as one word: no text, no float and no negative number. -/
def Literal.isWord : Literal → Bool
  | int n => 0 ≤ n
  | bool _ => true
  | none => true
  | _ => false

namespace Expr

open ExprReader

/-- An expression from words only: its literals are words, and its variables have proper names. -/
def Worded (e : Expr) : Prop :=
  (∀ l ∈ e.literals, l.isWord = true) ∧ ∀ name ∈ e.uses, Text.isVariableName name = true

instance : DecidablePred Worded := fun e =>
  inferInstanceAs (Decidable ((∀ l ∈ e.literals, l.isWord = true) ∧
    ∀ name ∈ e.uses, Text.isVariableName name = true))

theorem readable_literal {l : Literal} (h : l.isWord = true) : (literal l).Readable := by
  cases l with
  | int n => exact readable_int (of_decide_eq_true h)
  | bool b =>
    cases b <;> exact readable_of_word (by decide) (by decide) fun read n k rest _ => rfl
  | none => exact readable_of_word (by decide) (by decide) fun read n k rest _ => rfl
  | float x => cases h
  | str s => cases h

mutual

theorem readable (e : Expr) (hl : ∀ l ∈ e.literals, l.isWord = true)
    (hn : ∀ name ∈ e.uses, Text.isVariableName name = true) : e.Readable := by
  cases e with
  | literal l => exact readable_literal (hl l List.mem_cons_self)
  | var name => exact readable_var (hn name List.mem_cons_self)
  | binary op left right =>
    obtain ⟨hlLeft, hlRight⟩ := List.forall_mem_append.mp hl
    obtain ⟨hnLeft, hnRight⟩ := List.forall_mem_append.mp hn
    exact Readable.apply (o := .binary op) (readable left hlLeft hnLeft)
      (readable right hlRight hnRight)
  | neg operand => exact (readable operand hl hn).neg
  | and left right =>
    obtain ⟨hlLeft, hlRight⟩ := List.forall_mem_append.mp hl
    obtain ⟨hnLeft, hnRight⟩ := List.forall_mem_append.mp hn
    exact Readable.apply (o := .and) (readable left hlLeft hnLeft) (readable right hlRight hnRight)
  | or left right =>
    obtain ⟨hlLeft, hlRight⟩ := List.forall_mem_append.mp hl
    obtain ⟨hnLeft, hnRight⟩ := List.forall_mem_append.mp hn
    exact Readable.apply (o := .or) (readable left hlLeft hnLeft) (readable right hlRight hnRight)
  | not operand => exact (readable operand hl hn).not
  | list items => exact .list (readable_of_mem items hl hn)
  | tuple items => exact .tuple (readable_of_mem items hl hn)
  | dict entries => exact .dict (readable_of_mem_entries entries hl hn)
  | index base i =>
    obtain ⟨hlBase, hlIndex⟩ := List.forall_mem_append.mp hl
    obtain ⟨hnBase, hnIndex⟩ := List.forall_mem_append.mp hn
    exact (readable base hlBase hnBase).index (readable i hlIndex hnIndex)
  | call function args =>
    have hargs := readable_of_mem args hl hn
    by_cases hitems : function = .items ∧ args.length = 1
    · obtain ⟨rfl, hone⟩ := hitems
      obtain ⟨arg, rfl⟩ := List.length_eq_one_iff.mp hone
      exact (hargs arg List.mem_cons_self).items
    · exact .call hargs hitems
termination_by structural e

theorem readable_of_mem (es : List Expr) (hl : ∀ l ∈ literalsOf es, l.isWord = true)
    (hn : ∀ name ∈ usesOf es, Text.isVariableName name = true) : ∀ e ∈ es, e.Readable := by
  cases es with
  | nil => exact fun e he => absurd he List.not_mem_nil
  | cons e rest =>
    obtain ⟨hlHead, hlRest⟩ := List.forall_mem_append.mp hl
    obtain ⟨hnHead, hnRest⟩ := List.forall_mem_append.mp hn
    exact List.forall_mem_cons.mpr
      ⟨readable e hlHead hnHead, readable_of_mem rest hlRest hnRest⟩
termination_by structural es

theorem readable_of_mem_entries (entries : List (Expr × Expr))
    (hl : ∀ l ∈ literalsOfEntries entries, l.isWord = true)
    (hn : ∀ name ∈ usesOfEntries entries, Text.isVariableName name = true) :
    ∀ entry ∈ entries, entry.1.Readable ∧ entry.2.Readable := by
  cases entries with
  | nil => exact fun entry hentry => absurd hentry List.not_mem_nil
  | cons entry rest =>
    obtain ⟨k, v⟩ := entry
    obtain ⟨hlHead, hlRest⟩ := List.forall_mem_append.mp hl
    obtain ⟨hnHead, hnRest⟩ := List.forall_mem_append.mp hn
    obtain ⟨hlKey, hlValue⟩ := List.forall_mem_append.mp hlHead
    obtain ⟨hnKey, hnValue⟩ := List.forall_mem_append.mp hnHead
    exact List.forall_mem_cons.mpr ⟨⟨readable k hlKey hnKey, readable v hlValue hnValue⟩,
      readable_of_mem_entries rest hlRest hnRest⟩
termination_by structural entries

end

/-- The text of an expression is read as the expression itself. -/
theorem ofText?_text {e : Expr} (h : e.Worded) : ofText? e.text = some e := by
  have hread : readAt (e.text.length + 1) 0 (e.chars ++ []) = some (e, []) := by
    refine (readable e h.1 h.2).inside .nil ?_
    rw [List.append_nil, chars, String.length_toList]
    exact Nat.lt_succ_self _
  rw [List.append_nil, chars] at hread
  rw [ofText?, hread]

/-- Parentheses never lose the tree: expressions from words have the same text only if they are the
same. -/
theorem text_determines {e₁ e₂ : Expr} (h₁ : e₁.Worded) (h₂ : e₂.Worded) :
    e₁.text = e₂.text ↔ e₁ = e₂ := by
  constructor
  · intro htext
    have hread := ofText?_text h₁
    rw [htext, ofText?_text h₂] at hread
    exact (Option.some.inj hread).symm
  · exact congrArg text

/-- The power of a negation: `not (-x) ** 2 and (d.items(),)`. -/
def negatedBase : Expr :=
  .and (.not (.binary .pow (.neg (.var "x")) (.literal (.int 2))))
    (.tuple [.call .items [.var "d"]])

/-- The negation of a power: `not -x ** 2 and (d.items(),)`. -/
def negatedPower : Expr :=
  .and (.not (.neg (.binary .pow (.var "x") (.literal (.int 2)))))
    (.tuple [.call .items [.var "d"]])

theorem text_determines_power :
    negatedBase.Worded ∧ negatedPower.Worded ∧ negatedBase.text ≠ negatedPower.text := by
  have hbase : negatedBase.Worded := by decide
  have hpower : negatedPower.Worded := by decide
  refine ⟨hbase, hpower, fun htext => ?_⟩
  have heq := (text_determines hbase hpower).mp htext
  cases heq

end Expr

end StagedFlow
