/-!
# What a double holds

A finite double is a whole number times a power of two. Every exact question
about it (its shortest text, its rounding to some places, its place in the
total order) is asked of that pair, in arithmetic on whole numbers.
-/

namespace Hailing.Decimal

/-- The value of a double, read off its bits. -/
inductive Parts where
  | nan
  | infinite (negative : Bool)
  /-- The value is `mantissa * 2 ^ exponent`, with a minus sign if `negative`. -/
  | finite (negative : Bool) (mantissa : Nat) (exponent : Int)
  deriving Repr, DecidableEq

/-- The least exponent a double can have. -/
def leastExponent : Int := -1074

/-- The least mantissa of a double whose exponent is not the least one. -/
def normalMantissa : Nat := 0x10000000000000

/-- The bit that stands for a minus sign. -/
def signBit : Nat := 0x8000000000000000

def parts (x : Float) : Parts :=
  let bits := x.toBits.toNat
  let negative := bits / signBit == 1
  let scale : Nat := bits / normalMantissa % 2048
  let fraction := bits % normalMantissa
  if scale == 2047 then
    if fraction == 0 then .infinite negative else .nan
  else if scale == 0 then .finite negative fraction leastExponent
  else .finite negative (fraction + normalMantissa) ((scale : Int) - 1075)

/-- A double's place in the total order of doubles: negative numbers before
positive ones, minus zero before zero, and what is not a number outermost. -/
def orderKey (x : Float) : Nat :=
  let bits := x.toBits.toNat
  if bits < signBit then bits + signBit else UInt64.size - 1 - bits

theorem orderKey_lt (x : Float) : orderKey x < UInt64.size := by
  have h := x.toBits.toNat_lt
  unfold orderKey signBit UInt64.size
  dsimp only
  split <;> omega

end Hailing.Decimal
