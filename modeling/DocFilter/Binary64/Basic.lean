/-!
# Double-precision numbers

A `Binary64` is a floating-point number kept as its sixty-four bits: equality of values of this type
is equality of bits, and everything about a number is a fact about natural numbers. A finite number
is `significand * 2 ^ scale` with a sign.

There are two ways to read a decimal. `Binary64.ofDecimal` gives the number nearest to it.
`Binary64.ofWord` takes the digits as a number first and scales it by a power of ten, with a
rounding at each step, so that the result can be off by a little. Every rounding goes to the nearest
number, to the even one when two are equally near, and to an infinity beyond the largest finite
number.
-/

namespace DocFilter

/-- A double-precision floating-point number, given by its bits: a sign, eleven bits of exponent and
fifty-two bits of fraction. -/
structure Binary64 where
  /-- The word that encodes the number. -/
  bits : UInt64
  deriving DecidableEq

namespace Binary64

/-- The word without its sign bit. Among numbers that are not NaN it orders the absolute values. -/
def magnitude (x : Binary64) : Nat := x.bits.toNat % Nat.pow 2 63

/-- Whether the sign bit is set, which it also is for negative zero. -/
def isNegative (x : Binary64) : Bool := Nat.pow 2 63 ≤ x.bits.toNat

/-- The eleven bits of the exponent. -/
def exponentField (x : Binary64) : Nat := x.magnitude / Nat.pow 2 52

/-- The fifty-two bits of the fraction. -/
def fractionField (x : Binary64) : Nat := x.magnitude % Nat.pow 2 52

/-- Neither infinite nor NaN. -/
def isFinite (x : Binary64) : Bool := x.magnitude < 2047 * Nat.pow 2 52

/-- Not a number. -/
def isNaN (x : Binary64) : Bool := 2047 * Nat.pow 2 52 < x.magnitude

/-- Zero of either sign. -/
def isZero (x : Binary64) : Bool := x.magnitude == 0

/-- The number with a given sign and a given word below the sign bit. -/
def ofMagnitude (negative : Bool) (magnitude : Nat) : Binary64 :=
  ⟨UInt64.ofNat ((if negative then Nat.pow 2 63 else 0) + magnitude)⟩

/-- The infinity of a given sign. -/
def infinity (negative : Bool) : Binary64 := ofMagnitude negative (2047 * Nat.pow 2 52)

/-- The NaN that arises from reading one. -/
def nan : Binary64 := ofMagnitude false (2047 * Nat.pow 2 52 + Nat.pow 2 51)

/-- The integer whose multiple by `2 ^ scale` is the absolute value of a finite number. -/
def significand (x : Binary64) : Nat :=
  if x.exponentField = 0 then x.fractionField else Nat.pow 2 52 + x.fractionField

/-- The power of two that goes with `significand`. -/
def scale (x : Binary64) : Int :=
  if x.exponentField = 0 then -1074 else (x.exponentField : Int) - 1075

/-- Equality of numbers: the two zeros are equal, and a NaN equals nothing. -/
def numericEq (x y : Binary64) : Bool :=
  !x.isNaN && !y.isNaN && (x == y || x.isZero && y.isZero)

/-! ## Reading decimals -/

/-- The integer nearest to `num / den`, the even one when two are equally near. -/
def roundDiv (num den : Nat) : Nat :=
  let q := num / den
  let r := 2 * (num % den)
  if r < den || (r == den && q % 2 == 0) then q else q + 1

/-- The largest `l` with `2 ^ l ≤ num / den`, for positive `num` and `den`. -/
def floorLog2 (num den : Nat) : Int :=
  let l : Int := (num.log2 : Int) - den.log2
  if num * Nat.pow 2 (-l).toNat < den * Nat.pow 2 l.toNat then l - 1 else l

/-- The word below the sign bit of the number nearest to `num / den`. The significand `m` at scale
`s` has the word `(s + 1074) * 2 ^ 52 + m`, also when `m` was rounded up to `2 ^ 53`: the carry then
moves into the exponent, as it should. -/
def nearestMagnitude (num den : Nat) : Nat :=
  if num = 0 then 0
  else
  let s := max (floorLog2 num den - 52) (-1074)
  let m := roundDiv (num * Nat.pow 2 (-s).toNat) (den * Nat.pow 2 s.toNat)
  min ((s + 1074).toNat * Nat.pow 2 52 + m) (2047 * Nat.pow 2 52)

/-- The number nearest to `digits * 10 ^ exponent`, with a sign. Decimals beyond the range of powers
worth computing are infinite or zero at once. -/
def ofDecimal (negative : Bool) (digits : Nat) (exponent : Int) : Binary64 :=
  let order := exponent + (Nat.toDigits 10 digits).length
  if digits = 0 || order < -330 then ofMagnitude negative 0
  else if 310 < order then infinity negative
  else ofMagnitude negative
    (nearestMagnitude (digits * Nat.pow 10 exponent.toNat) (Nat.pow 10 (-exponent).toNat))

/-- The absolute value of a finite number as a quotient. -/
def quotient (x : Binary64) : Nat × Nat :=
  (x.significand * Nat.pow 2 x.scale.toNat, Nat.pow 2 (-x.scale).toNat)

/-- The product of the absolute values of two finite numbers. -/
def mulAbs (x y : Binary64) : Binary64 :=
  let (n, d) := x.quotient
  let (n', d') := y.quotient
  ofMagnitude false (nearestMagnitude (n * n') (d * d'))

/-- The quotient of the absolute values of two finite numbers, the second of which is not zero. -/
def divAbs (x y : Binary64) : Binary64 :=
  let (n, d) := x.quotient
  let (n', d') := y.quotient
  ofMagnitude false (nearestMagnitude (n * d') (d * n'))

/-- The number nearest to a natural number. -/
def ofNat (n : Nat) : Binary64 := ofMagnitude false (nearestMagnitude n 1)

/-- The largest power of ten below the infinities is `10 ^ maxPower`. -/
def maxPower : Nat := 308

/-- A number divided by `10 ^ n`. The divisor is a number itself, so a large one is applied in
several steps. -/
def divPower (x : Binary64) (n : Nat) : Binary64 :=
  if n ≤ maxPower then x.divAbs (ofNat (Nat.pow 10 n))
  else if x.isZero then x
  else divPower (x.divAbs (ofNat (Nat.pow 10 maxPower))) (n - maxPower)
termination_by n
decreasing_by unfold maxPower at *; omega

/-- A number multiplied by `10 ^ n`. -/
def mulPower (x : Binary64) (n : Nat) : Binary64 :=
  if n ≤ maxPower then x.mulAbs (ofNat (Nat.pow 10 n))
  else if x.isZero then x
  else infinity false

/-- The number nearest to `digits`, multiplied or divided by the power of ten and given a sign. -/
def ofWord (negative : Bool) (digits : Nat) (exponent : Int) : Binary64 :=
  let x := ofNat digits
  let x := if 0 ≤ exponent then x.mulPower exponent.toNat else x.divPower (-exponent).toNat
  ofMagnitude negative x.magnitude

end Binary64

end DocFilter
