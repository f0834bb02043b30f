import DocFilter.Binary64.Basic

/-!
# JSON values

A JSON number is a non-negative integer of at most sixty-four bits, a negative integer of at most
sixty-four bits, or a finite double-precision number; `Json.Number` has no other values. An object
is a list of entries in the order of the text. Objects read from a text name every key once
(`Json.setEntry`).
-/

namespace DocFilter

/-- A JSON number. -/
inductive Json.Number where
  /-- A non-negative integer. -/
  | nat (n : UInt64)
  /-- A negative integer. -/
  | neg (i : Int64) (negative : i < 0)
  /-- A number that is not written as an integer, or that no word can hold. -/
  | real (x : Binary64) (finite : x.isFinite = true)
  deriving DecidableEq

/-- A JSON value. -/
inductive Json where
  | null
  | bool (b : Bool)
  | num (n : Json.Number)
  | str (s : String)
  | arr (items : List Json)
  | obj (entries : List (String × Json))
  deriving Inhabited

namespace Json

/-- What a value is, as it is called in messages. -/
def kind : Json → String
  | .null => "null"
  | .bool _ => "a boolean"
  | .num _ => "a number"
  | .str _ => "a string"
  | .arr _ => "an array"
  | .obj _ => "an object"

/-- Gives `key` the value `value`: at its old place if the key is there already, else at the end. -/
def setEntry (key : String) (value : Json) : List (String × Json) → List (String × Json)
  | [] => [(key, value)]
  | (k, v) :: rest => if k = key then (key, value) :: rest else (k, v) :: setEntry key value rest

/-- The number for a natural number, when a word can hold it. -/
def Number.ofNat? (n : Nat) : Option Number :=
  if n < Nat.pow 2 64 then some (.nat (UInt64.ofNat n)) else none

/-- The number for `-n`, when `n` is positive and a word can hold `-n`. -/
def Number.ofNegNat? (n : Nat) : Option Number :=
  if n ≤ Nat.pow 2 63 then
    let i := Int64.ofInt (-n)
    if h : i < 0 then some (.neg i h) else none
  else none

/-- The number for a double-precision number, when it is finite. -/
def Number.ofReal? (x : Binary64) : Option Number :=
  if h : x.isFinite = true then some (.real x h) else none

end Json

end DocFilter
