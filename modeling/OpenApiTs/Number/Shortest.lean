/-
  OpenApiTs.Number.Shortest

  The shortest decimal that reads back as a given double, and its text.
-/
import OpenApiTs.Number.Binary64

namespace OpenApiTs.Number

/-- The decimal `digits · 10 ^ exponent`. -/
structure Decimal where
  digits : Nat
  exponent : Int
deriving DecidableEq, Repr, Inhabited

/-! ## Search -/

/-- The numbers that read as one double, as numerators over a common denominator: the ends of the
    interval, which belong to it when `closed` is set, and the double itself. -/
structure Interval where
  low : Nat
  value : Nat
  high : Nat
  den : Nat
  closed : Bool

namespace Interval

/-- The interval of the magnitude of a double that is not zero. Below a power of two the neighbours
    are twice as dense, so the lower end is nearer there. -/
def of (x : Binary64) : Interval :=
  let quarter : Int := x.exponent - 2
  let up := if quarter < 0 then 1 else Nat.pow 2 quarter.natAbs
  let down := if quarter < 0 then Nat.pow 2 quarter.natAbs else 1
  let below := if x.significand = Nat.pow 2 52 ∧ -1074 < x.exponent then 1 else 2
  { low := (4 * x.significand - below) * up
    value := 4 * x.significand * up
    high := (4 * x.significand + 2) * up
    den := down
    closed := x.significand % 2 = 0 }

/-- Whether the fraction `num / den` lies in the interval. -/
def holds (i : Interval) (num den : Nat) : Bool :=
  if i.closed then i.low * den ≤ num * i.den && num * i.den ≤ i.high * den
  else i.low * den < num * i.den && num * i.den < i.high * den

end Interval

/-- `count · 10 ^ exponent` as a fraction. -/
def tenths (count : Nat) (exponent : Int) : Nat × Nat :=
  if exponent < 0 then (count, Nat.pow 10 exponent.natAbs)
  else (count * Nat.pow 10 exponent.natAbs, 1)

/-- The multiples of `10 ^ exponent` next to the value that lie in its interval, the nearer one
    first and of two equally near ones the even one. -/
def onGrid (i : Interval) (exponent : Int) : List Nat :=
  let unit := tenths 1 exponent
  let floor := i.value * unit.2 / (i.den * unit.1)
  let rest := i.value * unit.2 % (i.den * unit.1)
  let full := i.den * unit.1
  let inside := fun count =>
    let point := tenths count exponent
    i.holds point.1 point.2
  let downFirst := 2 * rest < full ∨ (2 * rest = full ∧ floor % 2 = 0)
  let ordered := if downFirst then [floor, floor + 1] else [floor + 1, floor]
  ordered.filter inside

/-- The least `p` from `start` on, within `fuel` steps, with `num / den < 10 ^ p`. -/
def decimalPlace (num den : Nat) (start : Int) : Nat → Int
  | 0 => start
  | fuel + 1 =>
    let power := tenths 1 start
    if num * power.2 < power.1 * den then start else decimalPlace num den (start + 1) fuel

/-- A decimal without zeros at the end of its digits. -/
def Decimal.strip (d : Decimal) : Nat → Decimal
  | 0 => d
  | fuel + 1 =>
    if d.digits ≠ 0 ∧ d.digits % 10 = 0 then Decimal.strip ⟨d.digits / 10, d.exponent + 1⟩ fuel
    else d

/-- The decimal with the fewest digits that reads back as a double other than zero, and the nearest
    to it among those. Seventeen digits always suffice. -/
def shortest (x : Binary64) : Decimal :=
  let i := Interval.of x
  let place := decimalPlace i.value i.den (-324) 640
  let found := (List.range 17).findSome? fun count =>
    let exponent := place - (count + 1 : Nat)
    (onGrid i exponent).head?.map fun digits => (⟨digits, exponent⟩ : Decimal)
  (found.getD ⟨0, 0⟩).strip 20

/-! ## Text -/

/-- The digits of a decimal with a point after the first `whole` of them, or after zeros that fill
    them up; a whole number ends in `.0`. -/
def pointAfter (digits : List Char) (whole : Nat) : List Char :=
  if digits.length ≤ whole then
    digits ++ List.replicate (whole - digits.length) '0' ++ ['.', '0']
  else digits.take whole ++ '.' :: digits.drop whole

/-- Text of a decimal that is not zero, with leading digit in place `e`: in plain notation for `e`
    from -5 to 15, else with an exponent that has a sign and no leading zeros. -/
def Decimal.chars (d : Decimal) : List Char :=
  let digits := Nat.toDigits 10 d.digits
  let e : Int := d.exponent + (digits.length : Int) - 1
  if 0 ≤ e ∧ e ≤ 15 then pointAfter digits (e.natAbs + 1)
  else if -5 ≤ e ∧ e < 0 then '0' :: '.' :: (List.replicate (e.natAbs - 1) '0' ++ digits)
  else
    let mantissa := match digits with
      | [] => []
      | [single] => [single]
      | first :: others => first :: '.' :: others
    mantissa ++ 'e' :: (if e < 0 then '-' else '+') :: Nat.toDigits 10 e.natAbs

/-- Text of a double: the shortest decimal that reads back the same. -/
def Binary64.chars (x : Binary64) : List Char :=
  (if x.negative then ['-'] else []) ++
    (if x.isZero then ['0', '.', '0'] else (shortest x).chars)

end OpenApiTs.Number
