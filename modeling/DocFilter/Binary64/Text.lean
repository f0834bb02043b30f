import DocFilter.Binary64.Shortest

/-!
# Numbers as text

How a finite number is written is a `NumberStyle`: which powers of ten are written out in full, what
follows a number without fraction digits, and which way ties between shortest decimals go. Two
styles are in use: that of values shown to a reader (`Binary64.display`) and that of JSON
(`Binary64.json`).
-/

namespace DocFilter

namespace Decimal

/-- The digits before and after the point, written out in full. There is always a digit before the
point. -/
def split (d : Decimal) : List Char × List Char :=
  let ds := Nat.toDigits 10 d.digits
  let ds := ds ++ List.replicate d.exponent.toNat '0'
  let places := (-d.exponent).toNat
  let ds := List.replicate (places + 1 - ds.length) '0' ++ ds
  ds.splitAt (ds.length - places)

/-- The power of ten of the first digit. -/
def order (d : Decimal) : Int := d.exponent + (Nat.toDigits 10 d.digits).length - 1

/-- One digit, the other digits after a point, and the power of ten with its sign. -/
def scientific (d : Decimal) : List Char :=
  let exponent := 'e' :: (if 0 ≤ d.order then '+' else '-') :: Nat.toDigits 10 d.order.natAbs
  match Nat.toDigits 10 d.digits with
  | [] => exponent
  | [c] => c :: exponent
  | c :: cs => c :: '.' :: cs ++ exponent

end Decimal

/-- How finite numbers are written. -/
structure NumberStyle where
  /-- The decimal taken when two shortest ones are equally near. -/
  tie : Tie
  /-- Which powers of ten of the first digit are written out in full. -/
  positional : Int → Bool
  /-- What follows a number that has no fraction digits. -/
  whole : String

namespace NumberStyle

/-- The text of a decimal. -/
def decimal (style : NumberStyle) (d : Decimal) : String :=
  if style.positional d.order then
    match d.split with
    | (before, []) => String.ofList before ++ style.whole
    | (before, after) => String.ofList before ++ "." ++ String.ofList after
  else String.ofList d.scientific

/-- The text of a finite number. -/
def write (style : NumberStyle) (x : Binary64) : String :=
  (if x.isNegative then "-" else "")
    ++ style.decimal (if x.isZero then ⟨0, 0⟩ else x.shortest style.tie)

/-- Numbers shown to a reader are written out in full, whole ones without a point. -/
def display : NumberStyle where
  tie := .up
  positional _ := true
  whole := ""

/-- Numbers in JSON always have a point or an exponent, and are written out in full from `10 ^ -5`
to below `10 ^ 16`. -/
def json : NumberStyle where
  tie := .even
  positional order := -5 ≤ order && order < 16
  whole := ".0"

end NumberStyle

namespace Binary64

/-- The text of any number, for a reader. -/
def display (x : Binary64) : String :=
  if x.isNaN then "NaN"
  else if x.isFinite then NumberStyle.display.write x
  else if x.isNegative then "-inf" else "inf"

/-- The text of a finite number in JSON. -/
def json (x : Binary64) : String := NumberStyle.json.write x

end Binary64

end DocFilter
