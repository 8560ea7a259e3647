import Hailing.Decimal.Binary

/-!
# The shortest decimal that reads back

Between two neighbouring doubles lies an interval of numbers that all round
to the same one. Of the decimals in it the shortest has the fewest digits,
and of the shortest the one nearest to the double is taken. A grid of
decimals with a fixed last place meets the interval if and only if one of
the two grid points around the double lies in it, so it is enough to test
those two on ever finer grids; seventeen digits always suffice.
-/

namespace Hailing.Decimal

/-- Which of two grid points is taken when the double lies halfway. -/
inductive Tie where
  | even
  | up
  deriving Repr, DecidableEq

/-- The number `significand * 10 ^ exponent`. -/
structure Scientific where
  significand : Nat
  exponent : Int
  deriving Repr, DecidableEq

/-- A positive double and the ends of its interval, over one denominator. -/
structure Interval where
  low : Nat
  value : Nat
  high : Nat
  den : Nat
  /-- The ends round to the double themselves. -/
  closed : Bool

/-- Half a step to each side; below the least mantissa the steps are half
as wide. Ends round to an even mantissa. -/
def Interval.around (mantissa : Nat) (exponent : Int) : Interval :=
  let below :=
    if mantissa == normalMantissa && exponent != leastExponent then 1 else 2
  let up := Nat.pow 2 (exponent - 2).toNat
  { low := (4 * mantissa - below) * up
    value := 4 * mantissa * up
    high := (4 * mantissa + 2) * up
    den := Nat.pow 2 (2 - exponent).toNat
    closed := mantissa % 2 == 0 }

/-- The point of the grid of multiples of `10 ^ place` that lies in the
interval next to its value, if there is one. -/
def Interval.hit? (i : Interval) (tie : Tie) (place : Int) : Option Scientific :=
  let up := Nat.pow 10 (-place).toNat
  let den := i.den * Nat.pow 10 place.toNat
  let inside (n : Nat) : Bool :=
    if i.closed then i.low * up ≤ n * den && n * den ≤ i.high * up
    else i.low * up < n * den && n * den < i.high * up
  let lower := i.value * up / den
  let upper := lower + 1
  let nearer :=
    let below := i.value * up - lower * den
    let above := upper * den - i.value * up
    if below < above then lower
    else if above < below then upper
    else match tie with
      | .up => upper
      | .even => if lower % 2 == 0 then lower else upper
  if inside lower && inside upper then some ⟨nearer, place⟩
  else if inside lower then some ⟨lower, place⟩
  else if inside upper then some ⟨upper, place⟩
  else none

/-- The number of digits a positive fraction has before its point; zero or
less when it starts with zeros behind it. -/
def magnitude (num den : Nat) : Int :=
  let guess : Int := (Nat.toDigits 10 num).length - (Nat.toDigits 10 den).length
  if den * Nat.pow 10 guess.toNat ≤ num * Nat.pow 10 (-guess).toNat then guess + 1 else guess

/-- Trailing zeros of the significand go into the exponent. -/
def Scientific.reduce (s : Scientific) : Nat → Scientific
  | 0 => s
  | n + 1 =>
    if s.significand != 0 && s.significand % 10 == 0 then
      Scientific.reduce ⟨s.significand / 10, s.exponent + 1⟩ n
    else s

/-- The shortest decimal that rounds to `mantissa * 2 ^ exponent`. -/
def shortest (tie : Tie) (mantissa : Nat) (exponent : Int) : Scientific :=
  if mantissa == 0 then ⟨0, 0⟩ else
  let i := Interval.around mantissa exponent
  let places := magnitude i.value i.den
  let found := (List.range 17).findSome? fun n : Nat => i.hit? tie (places - 1 - n)
  (found.getD ⟨0, 0⟩).reduce 17

end Hailing.Decimal
