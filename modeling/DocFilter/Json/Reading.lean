import DocFilter.Json.Basic
import DocFilter.Json.Tree

/-!
# Reading JSON

From a syntax tree to a value. A text can be unfit in three ways (`Json.Problem`), and of several
problems the first in the order of the text is reported. `Json.parse` reads any value; the readers
under "Values of a known type" are for texts whose shape is fixed.
-/

namespace DocFilter.Json

/-- What is wrong with a text. -/
inductive Problem where
  /-- It ends too early. -/
  | ended
  /-- It is not JSON, or nests too deeply, or names a number or character that does not exist. -/
  | malformed
  /-- It is JSON so far, but not of the shape that is expected. -/
  | mismatch
  deriving DecidableEq

/-- What is wrong with a text, in words. -/
def Problem.message : Problem → String
  | .ended => "the text ends too early"
  | .malformed => "the text is not valid JSON"
  | .mismatch => "the value has the wrong shape"

/-- The problem of a reader that meets a fault. -/
def Fault.problem : Fault → Problem
  | .ended => .ended
  | .numberEnded => .ended
  | .malformed => .malformed

/-- How deeply arrays and objects may be nested. -/
def depthLimit : Nat := 127

/-! ## Strings and numbers -/

/-- A unit that has to be followed by a low one. -/
def isHighUnit (u : Nat) : Bool := 0xD800 ≤ u && u < 0xDC00

/-- A unit that has to follow a high one. -/
def isLowUnit (u : Nat) : Bool := 0xDC00 ≤ u && u < 0xE000

/-- The character of a high and a low unit. -/
def pairUnits (high low : Nat) : Char :=
  Char.ofNat (0x10000 + (high - 0xD800) * 0x400 + (low - 0xDC00))

/-- The characters that pieces stand for, when they are followed by `stop`. -/
def charsOfPieces (stop : Option Fault) : List Piece → Except Problem (List Char)
  | [] =>
    match stop with
    | none => .ok []
    | some f => .error f.problem
  | .char c :: ps => (c :: ·) <$> charsOfPieces stop ps
  | .unit high :: .unit low :: ps =>
    if isHighUnit high then
      if isLowUnit low then (pairUnits high low :: ·) <$> charsOfPieces stop ps
      else .error .malformed
    else if isLowUnit high then .error .malformed
    else (Char.ofNat high :: ·) <$> charsOfPieces stop (.unit low :: ps)
  | [.unit u] =>
    if isHighUnit u then .error ((stop.map Fault.problem).getD .malformed)
    else if isLowUnit u then .error .malformed
    else (Char.ofNat u :: ·) <$> charsOfPieces stop []
  | .unit u :: .char c :: ps =>
    if isHighUnit u || isLowUnit u then .error .malformed
    else (Char.ofNat u :: ·) <$> charsOfPieces stop (.char c :: ps)

/-- The string that a quoted text stands for. -/
def Quoted.text (q : Quoted) : Except Problem String :=
  String.ofList <$> charsOfPieces q.stop q.pieces

/-- Appends digits to the number `n` as long as a word can hold the result, and gives the digits
that are left. -/
def takeDigits (n : Nat) : List Char → Nat × List Char
  | [] => (n, [])
  | c :: cs =>
    let next := 10 * n + digitValue c
    if next < Nat.pow 2 64 then takeDigits next cs else (n, c :: cs)

/-- The number that a literal stands for: an integer if it is written as one and a word can hold it,
else a double-precision number. Negative zero is not an integer. Of a long literal only as many
digits count as a word can hold; those left out before the point count by their number. -/
def Literal.number (l : Literal) : Except Problem Number :=
  let (whole, left) := takeDigits 0 l.whole
  let (digits, rest) := takeDigits whole l.fraction
  let integer :=
    if l.integral && left.isEmpty then
      if l.negative then Number.ofNegNat? whole else Number.ofNat? whole
    else none
  let exponent := l.exponent + left.length - (l.fraction.length - rest.length : Nat)
  match integer <|> Number.ofReal? (Binary64.ofWord l.negative digits exponent) with
  | some n => .ok n
  | none => .error .malformed

/-! ## Any value -/

/-- Succeeds when there is no fault. -/
def noFault : Option Fault → Except Problem Unit
  | none => .ok ()
  | some f => .error f.problem

namespace Tree

mutual

/-- The value of a tree inside `level` arrays and objects. -/
def json (level : Nat) : Tree → Except Problem Json
  | .null => .ok .null
  | .bool b => .ok (.bool b)
  | .number l => .num <$> l.number
  | .string q => .str <$> q.text
  | .array ts stop =>
    if level < depthLimit then do
      let js ← jsonItems (level + 1) ts
      noFault stop
      return .arr js
    else .error .malformed
  | .object es stop =>
    if level < depthLimit then do
      let js ← jsonEntries (level + 1) [] es
      noFault stop
      return .obj js
    else .error .malformed
  | .broken f => .error f.problem

/-- The values of the items of an array. -/
def jsonItems (level : Nat) : List Tree → Except Problem (List Json)
  | [] => .ok []
  | t :: ts => do
    let j ← t.json level
    let js ← jsonItems level ts
    return j :: js

/-- The entries of an object after the entries `done`. A key that is named again keeps its place and
takes the new value. -/
def jsonEntries (level : Nat) (done : List (String × Json)) :
    List (Quoted × Tree) → Except Problem (List (String × Json))
  | [] => .ok done
  | (q, t) :: es => do
    let key ← q.text
    let j ← t.json level
    jsonEntries level (setEntry key j done) es

end

/-! ## Skipped values

A value that nobody asks for is only checked for its grammar: numbers of any size, unpaired units
and any nesting pass. -/

/-- The problem of a skipped value that holds a fault. -/
def skippedProblem : Fault → Problem
  | .ended => .ended
  | .numberEnded => .malformed
  | .malformed => .malformed

/-- Succeeds when there is no fault in a skipped value. -/
def noFaultSkipped : Option Fault → Except Problem Unit
  | none => .ok ()
  | some f => .error (skippedProblem f)

mutual

/-- Checks a value without taking it. -/
def skip : Tree → Except Problem Unit
  | .null => .ok ()
  | .bool _ => .ok ()
  | .number _ => .ok ()
  | .string q => noFaultSkipped q.stop
  | .array ts stop => do
    skipItems ts
    noFaultSkipped stop
  | .object es stop => do
    skipEntries es
    noFaultSkipped stop
  | .broken f => .error (skippedProblem f)

/-- Checks the items of an array. -/
def skipItems : List Tree → Except Problem Unit
  | [] => .ok ()
  | t :: ts => do
    t.skip
    skipItems ts

/-- Checks the entries of an object. -/
def skipEntries : List (Quoted × Tree) → Except Problem Unit
  | [] => .ok ()
  | (q, t) :: es => do
    noFaultSkipped q.stop
    t.skip
    skipEntries es

end

/-! ## Values of a known type -/

/-- The problem of a value that is not of the type expected. A single value has to be readable
first; an array or object is refused at its opening bracket. -/
def mismatch (t : Tree) : Problem :=
  match t with
  | .array _ _ => .mismatch
  | .object _ _ => .mismatch
  | t =>
    match t.json 0 with
    | .ok _ => .mismatch
    | .error p => p

/-- A string. -/
def string? : Tree → Except Problem String
  | .string q => q.text
  | t => .error t.mismatch

/-- A truth value. -/
def bool? : Tree → Except Problem Bool
  | .bool b => .ok b
  | t => .error t.mismatch

/-- A single character, written as a string. -/
def char? (t : Tree) : Except Problem Char := do
  match (← t.string?).toList with
  | [c] => return c
  | _ => .error .mismatch

end Tree

/-! ## Texts -/

/-- Reads a text that holds one value: what `read` finds wrong with the value comes before what
follows it. -/
def readText {α : Type} (read : Tree → Except Problem α) (text : String) : Except Problem α := do
  let source := Source.ofString text
  let a ← read source.tree
  if source.trailing then .error .malformed else return a

/-- Reads a text that holds one value of any kind. -/
def parse (text : String) : Except Problem Json := readText (Tree.json 0) text

end DocFilter.Json
