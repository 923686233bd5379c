/-
  OpenApiTs.Number.Literal

  Decimal literals and the numbers they are read as: a whole number when it fits 64 bits, and a
  double otherwise.
-/
import OpenApiTs.Number.Binary64

namespace OpenApiTs.Number

/-- A number of a document: a whole number, or a double. The two are never equal. -/
inductive Value where
  | whole (value : Int)
  | double (value : Binary64)
deriving DecidableEq, Repr, Inhabited

/-- Equality of numbers, the two zeros of the doubles being equal. -/
def Value.same : Value → Value → Bool
  | .whole a, .whole b => a == b
  | .double a, .double b => a.same b
  | _, _ => false

/-- A decimal literal, cut into its parts. -/
structure Literal where
  negative : Bool
  /-- Digits before the point. -/
  whole : List Nat
  /-- Digits after the point, when there is one. -/
  fraction : Option (List Nat)
  /-- The power of ten, when there is one. -/
  power : Option Int
deriving DecidableEq, Repr, Inhabited

/-- The number that a list of decimal digits stands for. -/
def ofDigits (digits : List Nat) : Nat := digits.foldl (fun n d => 10 * n + d) 0

/-- Whether the literal has neither point nor exponent. -/
def Literal.isWhole (l : Literal) : Bool := l.fraction.isNone && l.power.isNone

/-! ## Digits that fit -/

/-- Digits are gathered while the number fits 64 bits. With the number comes the count of the digits
    left over. -/
def gather (number : Nat) : List Nat → Nat × Nat
  | [] => (number, 0)
  | d :: digits =>
    if 10 * number + d < Nat.pow 2 64 then gather (10 * number + d) digits
    else (number, digits.length + 1)

/-- The significand of a literal and its power of ten: of the digits before the point those that do
    not fit count as powers of ten, of those after it the rest is dropped. -/
def Literal.scaled (l : Literal) : Nat × Int :=
  let whole := gather 0 l.whole
  let fractionDigits := l.fraction.getD []
  let all := gather whole.1 fractionDigits
  (all.1, (whole.2 : Int) - ((fractionDigits.length - all.2 : Nat) : Int) + l.power.getD 0)

/-! ## Doubles -/

/-- The double nearest to a power of ten that is not above `10 ^ 308`. -/
def powerOfTen (n : Nat) : Binary64 := (Binary64.nearest false (Nat.pow 10 n) 1).getD (.zero false)

/-- A double divided by `10 ^ 308` so many times, each step rounded; zero stays. -/
def stepDown (x : Binary64) : Nat → Option Binary64
  | 0 => some x
  | steps + 1 =>
    if x.isZero then some x
    else (x.div (powerOfTen 308)).bind fun y => stepDown y steps

/-- A double times `10 ^ power`, each step rounded; none when it grows too large. A power below -308
    takes several steps. -/
def scaleByTen (x : Binary64) (power : Int) : Option Binary64 :=
  let size := power.natAbs
  if power < 0 then
    let steps := (size - 1) / 308
    (stepDown x steps).bind fun y =>
      if y.isZero then some y else y.div (powerOfTen (size - 308 * steps))
  else if size ≤ 308 then x.mul (powerOfTen size)
  else if x.isZero then some x
  else none

/-- The double that a literal is read as: its significand as a double, scaled by the power of
    ten. -/
def Literal.toDouble (l : Literal) : Option Binary64 := do
  let scaled := l.scaled
  let start ← Binary64.nearest false scaled.1 1
  let x ← scaleByTen start scaled.2
  return if l.negative then x.neg else x

/-- The double nearest to the exact value of a literal; none when it is too large. A value from
    `10 ^ 400` on is too large and one below `10 ^ -400` is zero, whatever its digits. -/
def Literal.nearestDouble (l : Literal) : Option Binary64 :=
  let fraction := l.fraction.getD []
  let digits := (l.whole ++ fraction).dropWhile (· == 0)
  let power : Int := l.power.getD 0 - (fraction.length : Int)
  let reach := power + (digits.length : Int)
  if digits.isEmpty then some (.zero l.negative)
  else if 400 < reach then none
  else if reach < -400 then some (.zero l.negative)
  else if power < 0 then
    Binary64.nearest l.negative (ofDigits digits) (Nat.pow 10 power.natAbs)
  else Binary64.nearest l.negative (ofDigits digits * Nat.pow 10 power.natAbs) 1

/-! ## Numbers -/

/-- The whole number of a literal without point and exponent, when it fits 64 bits: signed ones for
    a negative number, unsigned ones otherwise. -/
def Literal.toWhole? (l : Literal) : Option Int :=
  let n := ofDigits l.whole
  if !l.isWhole then none
  else if l.negative then if n ≤ Nat.pow 2 63 then some (-(n : Int)) else none
  else if n < Nat.pow 2 64 then some (n : Int) else none

/-- The number that a JSON literal stands for; none when it is too large. Minus zero is a double. -/
def Literal.toNumber? (l : Literal) : Option Value :=
  match l.toWhole? with
  | some n => if l.negative && n == 0 then some (.double (.zero true)) else some (.whole n)
  | none => l.toDouble.map .double

end OpenApiTs.Number
