import Hailing.Text.Digits

/-!
# Numbers in a JSON text

A numeral without point and exponent is a whole number as long as it fits
into 64 bits, with its sign; every other numeral is a double. The double is
not the nearest one to the numeral in all cases: the leading digits that fit
into 64 bits are taken, the others only counted, and one multiplication or
division by a power of ten follows, or several if the power is large. A
numeral too large for a double has no value, one too small is zero.
-/

namespace Hailing.Json

inductive Number where
  | natural (n : Nat)
  /-- The number `-n`, with `n` positive. -/
  | negative (n : Nat)
  | real (x : Float)
  | vast
  deriving Repr

/-- Takes digits into a number as long as it fits into 64 bits, and hands
back the others. -/
def fitting : Nat → List Char → Nat × List Char
  | n, [] => (n, [])
  | n, c :: cs =>
    let next := 10 * n + Text.digitValue c
    if next < UInt64.size then fitting next cs else (n, c :: cs)

/-- The largest power of ten that is a double. -/
def largestPower : Nat := 308

def powerOfTen (n : Nat) : Float := Float.ofScientific 1 false n

/-- `x * 10 ^ e` in steps of the largest power. -/
def scaled (x : Float) (e : Int) : Option Float :=
  if e.natAbs ≤ largestPower then
    if 0 ≤ e then
      let y := x * powerOfTen e.natAbs
      if y.isInf then none else some y
    else some (x / powerOfTen e.natAbs)
  else if x == 0.0 then some x
  else if 0 ≤ e then none
  else scaled (x / powerOfTen largestPower) (e + largestPower)
termination_by e.natAbs
decreasing_by simp only [largestPower] at *; omega

/-- A numeral taken apart: its sign, the digits before the point, and the
places and the exponent if it has them. -/
structure Numeral where
  minus : Bool
  whole : List Char
  places : List Char
  exponent : Int
  /-- There is neither a point nor an exponent. -/
  plain : Bool

def Numeral.scale (n : Numeral) (significand : Nat) (e : Int) : Number :=
  match scaled (Float.ofNat significand) e with
  | some x => .real (if n.minus then -x else x)
  | none => .vast

def Numeral.value (n : Numeral) : Number :=
  let (whole, uncounted) := fitting 0 n.whole
  if n.plain && uncounted.isEmpty then
    if !n.minus then .natural whole
    else if whole == 0 then .real (-0.0)
    else if whole ≤ UInt64.size / 2 then .negative whole
    else .real (-(Float.ofNat whole))
  else
    let (significand, dropped) := fitting whole n.places
    n.scale significand
      (uncounted.length - (n.places.length - dropped.length : Nat) + n.exponent)

end Hailing.Json
