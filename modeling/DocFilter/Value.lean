import DocFilter.Json.Printer
import DocFilter.Quote

/-!
# Values

The operands of a filter and the parameters of a query. A value read from JSON (`Value.ofJson`) is a
scalar or a list of scalars; lists of lists can only be built by hand.

Values have two equalities. Two values are equal as elements of the type when they are built alike,
bit by bit. `Value.equal` compares what they stand for: it equates the two zeros and no NaN, and
still tells the kinds of numbers apart.
-/

namespace DocFilter

/-- An operand or a parameter. -/
inductive Value where
  /-- An integer that fits a signed word. -/
  | int (i : Int64)
  /-- An integer that only fits an unsigned word, when it was read from JSON. -/
  | uint (n : UInt64)
  | float (x : Binary64)
  | str (s : String)
  | bool (b : Bool)
  | list (items : List Value)
  | null

namespace Value

/-! ## Equality -/

mutual

/-- Decides whether two values are built alike. -/
def decEq : (a b : Value) → Decidable (a = b)
  | .int i, b => match b with
    | .int j => decidable_of_iff (i = j) (by simp)
    | .uint _ | .float _ | .str _ | .bool _ | .list _ | .null => isFalse (by simp)
  | .uint m, b => match b with
    | .uint n => decidable_of_iff (m = n) (by simp)
    | .int _ | .float _ | .str _ | .bool _ | .list _ | .null => isFalse (by simp)
  | .float x, b => match b with
    | .float y => decidable_of_iff (x = y) (by simp)
    | .int _ | .uint _ | .str _ | .bool _ | .list _ | .null => isFalse (by simp)
  | .str s, b => match b with
    | .str t => decidable_of_iff (s = t) (by simp)
    | .int _ | .uint _ | .float _ | .bool _ | .list _ | .null => isFalse (by simp)
  | .bool p, b => match b with
    | .bool q => decidable_of_iff (p = q) (by simp)
    | .int _ | .uint _ | .float _ | .str _ | .list _ | .null => isFalse (by simp)
  | .list xs, b => match b with
    | .list ys => match decEqList xs ys with
      | isTrue h => isTrue (by rw [h])
      | isFalse h => isFalse (by simpa using h)
    | .int _ | .uint _ | .float _ | .str _ | .bool _ | .null => isFalse (by simp)
  | .null, b => match b with
    | .null => isTrue rfl
    | .int _ | .uint _ | .float _ | .str _ | .bool _ | .list _ => isFalse (by simp)

/-- Decides whether two lists of values are built alike. -/
def decEqList : (xs ys : List Value) → Decidable (xs = ys)
  | [], ys => match ys with
    | [] => isTrue rfl
    | _ :: _ => isFalse (by simp)
  | x :: xs, ys => match ys with
    | [] => isFalse (by simp)
    | y :: ys => match decEq x y, decEqList xs ys with
      | isTrue h, isTrue h' => isTrue (by rw [h, h'])
      | isFalse h, _ => isFalse (by simp [h])
      | _, isFalse h => isFalse (by simp [h])

end

instance : DecidableEq Value := decEq

mutual

/-- Whether two values of the same kind stand for the same thing. -/
def equal : Value → Value → Bool
  | .int i, .int j => i == j
  | .uint m, .uint n => m == n
  | .float x, .float y => x.numericEq y
  | .str s, .str t => s == t
  | .bool a, .bool b => a == b
  | .list xs, .list ys => equalList xs ys
  | .null, .null => true
  | _, _ => false

/-- Whether two lists of values stand for the same thing. -/
def equalList : List Value → List Value → Bool
  | [], [] => true
  | x :: xs, y :: ys => equal x y && equalList xs ys
  | _, _ => false

end

/-! ## Shape -/

/-- Whether a value is null. -/
def isNull : Value → Bool
  | .null => true
  | _ => false

/-- Whether a value is a list. -/
def isList : Value → Bool
  | .list _ => true
  | _ => false

/-- The items of a list; any other value, null included, is its own only item. -/
def toList : Value → List Value
  | .list items => items
  | v => [v]

/-! ## Text -/

mutual

/-- A value as it is shown to a reader. -/
def display : Value → String
  | .int i => toString i.toInt
  | .uint n => toString n.toNat
  | .float x => x.display
  | .str s => Quote.enclose '\x27' s
  | .bool true => "true"
  | .bool false => "false"
  | .list items => "(" ++ ", ".intercalate (displayList items) ++ ")"
  | .null => "NULL"

/-- The values of a list as they are shown to a reader. -/
def displayList : List Value → List String
  | [] => []
  | v :: vs => v.display :: displayList vs

end

/-! ## JSON -/

/-- The JSON number of a signed word. -/
def jsonOfInt (i : Int64) : Json.Number :=
  if h : i < 0 then .neg i h else .nat i.toUInt64

mutual

/-- A value in JSON. Numbers that JSON does not have become null. -/
def toJson : Value → Json
  | .int i => .num (jsonOfInt i)
  | .uint n => .num (.nat n)
  | .float x => if h : x.isFinite = true then .num (.real x h) else .null
  | .str s => .str s
  | .bool b => .bool b
  | .list items => .arr (toJsonList items)
  | .null => .null

/-- The values of a list in JSON. -/
def toJsonList : List Value → List Json
  | [] => []
  | v :: vs => v.toJson :: toJsonList vs

end

/-- Why a JSON value cannot be an operand. -/
inductive ReadError where
  /-- It is, or holds, this object. -/
  | object (entries : List (String × Json))
  /-- It is this array, which holds another one. -/
  | nestedArray (items : List Json)

/-- The error in words. -/
def ReadError.message : ReadError → String
  | .object entries => "Objects cannot be used as filter values: " ++ (Json.obj entries).compact
  | .nestedArray items =>
    "Nested arrays are not supported as filter values: " ++ (Json.arr items).compact

/-- The value of a JSON number: a signed word if it fits one. -/
def ofNumber : Json.Number → Value
  | .nat n => if n.toNat < Nat.pow 2 63 then .int n.toInt64 else .uint n
  | .neg i _ => .int i
  | .real x _ => .float x

/-- The value of an item of the array `whole`. -/
def ofItem (whole : List Json) : Json → Except ReadError Value
  | .null => .ok .null
  | .bool b => .ok (.bool b)
  | .num n => .ok (ofNumber n)
  | .str s => .ok (.str s)
  | .arr _ => .error (.nestedArray whole)
  | .obj entries => .error (.object entries)

/-- The operand that a JSON value stands for. -/
def ofJson : Json → Except ReadError Value
  | .arr items => .list <$> items.mapM (ofItem items)
  | .null => .ok .null
  | .bool b => .ok (.bool b)
  | .num n => .ok (ofNumber n)
  | .str s => .ok (.str s)
  | .obj entries => .error (.object entries)

end Value

end DocFilter
