import DocFilter.Binary64.Basic

/-!
# The shortest decimal that reads back

The reals that round to a given number form an interval, whose ends belong to it when the
significand is even. Among the decimals in that interval, `Binary64.shortest` takes one with the
fewest digits, and of these the nearest to the number; two such decimals can be equally near, which
the caller decides (`Tie`).

All comparisons are between natural numbers: the interval is measured in units of `2 ^ -1076`, which
divide every number and every half-way point between two numbers.
-/

namespace DocFilter

/-- The decimal `digits * 10 ^ exponent`. -/
structure Decimal where
  /-- The digits, as one number. -/
  digits : Nat
  /-- The power of ten. -/
  exponent : Int

/-- Which of two equally near decimals is taken. -/
inductive Tie where
  /-- The larger one. -/
  | up
  /-- The one with the even last digit. -/
  | even

/-- The interval of reals that round to a positive number, in units of `2 ^ -1076`. -/
structure Bracket where
  /-- The lower end. -/
  low : Nat
  /-- The number itself. -/
  value : Nat
  /-- The upper end. -/
  high : Nat
  /-- Whether the ends belong to the interval. -/
  closed : Bool

namespace Bracket

/-- The number of units in one step of the grid of multiples of `10 ^ k`, when the interval is
stretched by `stretch k` so that both are whole. -/
def step (k : Int) : Nat := Nat.pow 10 k.toNat * Nat.pow 2 1076

/-- See `step`. -/
def stretch (k : Int) : Nat := Nat.pow 10 (-k).toNat

/-- Whether `c * 10 ^ k` lies in the interval. -/
def contains (b : Bracket) (k : Int) (c : Nat) : Bool :=
  let point := c * step k
  if b.closed then b.low * stretch k ≤ point && point ≤ b.high * stretch k
  else b.low * stretch k < point && point < b.high * stretch k

/-- The multiple of `10 ^ k` that lies in the interval and is nearest to its number. It is one of
the number's two neighbours on that grid. -/
def nearest? (tie : Tie) (b : Bracket) (k : Int) : Option Nat :=
  let c := b.value * stretch k / step k
  let gap := b.value * stretch k % step k
  match b.contains k c, b.contains k (c + 1) with
  | false, false => none
  | true, false => some c
  | false, true => some (c + 1)
  | true, true =>
    if 2 * gap < step k then some c
    else if step k < 2 * gap then some (c + 1)
    else match tie with
      | .up => some (c + 1)
      | .even => some (if c % 2 = 0 then c else c + 1)

/-- Tries the grids of `10 ^ k`, `10 ^ (k - 1)`, ... and stops at the first that meets the interval,
so that no decimal with fewer digits lies in it. -/
def search (tie : Tie) (b : Bracket) : Nat → Int → Decimal
  | 0, k => ⟨b.value * stretch k / step k, k⟩
  | n + 1, k =>
    match b.nearest? tie k with
    | some c => ⟨c, k⟩
    | none => search tie b n (k - 1)

end Bracket

namespace Binary64

/-- The reals that round to the absolute value of a finite number. Below a power of two the
neighbour is only half as far away. -/
def bracket (x : Binary64) : Bracket :=
  let unit := Nat.pow 2 (x.scale + 1074).toNat
  let m := x.significand
  let below := if x.fractionField = 0 && 1 < x.exponentField then 1 else 2
  { low := (4 * m - below) * unit
    value := 4 * m * unit
    high := (4 * m + 2) * unit
    closed := m % 2 == 0 }

/-- The shortest decimal that reads back as the absolute value of a finite number other than zero.
The search starts above the number's own power of ten, and seventeen digits always suffice. -/
def shortest (tie : Tie) (x : Binary64) : Decimal :=
  let order := (x.scale + x.significand.log2 + 1) * 30103 / 100000 + 1
  x.bracket.search tie 20 order

end Binary64

end DocFilter
