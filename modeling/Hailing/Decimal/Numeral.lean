import Hailing.Text.Digits

/-!
# Reading numerals

Settings are written by hand, as a whole number of some width or as a
decimal number. A numeral is refused with a reason, and of two reasons the
one further to the left counts: a character that is no digit is noticed
before the number is found too large only if it stands before the place
where the number outgrows its width.
-/

namespace Hailing.Decimal

inductive NumeralFault where
  | emptyWhole
  | notADigit
  | tooLarge
  | emptyDecimal
  | notADecimal
  deriving Repr, DecidableEq

def NumeralFault.message : NumeralFault → String
  | .emptyWhole => "cannot parse integer from empty string"
  | .notADigit => "invalid digit found in string"
  | .tooLarge => "number too large to fit in target type"
  | .emptyDecimal => "cannot parse float from empty string"
  | .notADecimal => "invalid float literal"

/-- The digits, read from the left, as a number of at most `largest`. -/
def wholeDigits (largest : Nat) : Nat → List Char → Except NumeralFault Nat
  | n, [] => .ok n
  | n, c :: rest =>
    if c.isDigit then
      let next := 10 * n + Text.digitValue c
      if largest < next then .error .tooLarge else wholeDigits largest next rest
    else .error .notADigit

/-- A whole number of at most `largest`; a plus sign may stand before it. -/
def readWhole (largest : Nat) (s : String) : Except NumeralFault Nat :=
  match s.toList with
  | [] => .error .emptyWhole
  | ['+'] => .error .notADigit
  | '+' :: rest => wholeDigits largest 0 rest
  | cs => wholeDigits largest 0 cs

/-- The double nearest to `significand * 10 ^ exponent`. Powers that no
double comes near are settled by their size alone. -/
def nearest (significand : Nat) (exponent : Int) : Float :=
  let size : Int := (Text.digits significand).length + exponent
  if significand == 0 || size < -400 then 0.0
  else if 400 < size then 1.0 / 0.0
  else if 0 ≤ exponent then Float.ofScientific significand false exponent.toNat
  else Float.ofScientific significand true (-exponent).toNat

/-- The exponent of a decimal numeral, which may be left out. -/
def readExponent : List Char → Option Int
  | [] => some 0
  | e :: rest =>
    if e == 'e' || e == 'E' then
      let (negative, cs) : Bool × List Char := match rest with
        | '+' :: cs => (false, cs)
        | '-' :: cs => (true, cs)
        | cs => (false, cs)
      if cs.isEmpty || !cs.all Char.isDigit then none
      else
        let n : Int := Text.natOfDigits cs
        some (if negative then -n else n)
    else none

/-- A decimal number without its sign. -/
def readUnsigned (cs : List Char) : Option Float :=
  let word := String.ofList (cs.map Char.toLower)
  if word == "inf" || word == "infinity" then some (1.0 / 0.0)
  else if word == "nan" then some (0.0 / 0.0)
  else
    let (whole, rest) := Text.spanDigits cs
    let (places, rest) := match rest with
      | '.' :: rest => Text.spanDigits rest
      | rest => ([], rest)
    if whole.isEmpty && places.isEmpty then none
    else (readExponent rest).map fun e =>
      nearest (Text.natOfDigits (whole ++ places)) (e - places.length)

/-- A decimal number: digits with or without a point, an exponent, the words
for what is not finite, and a sign before any of them. -/
def readDecimal (s : String) : Except NumeralFault Float :=
  let read (negative : Bool) (cs : List Char) : Except NumeralFault Float :=
    match readUnsigned cs with
    | some x => .ok (if negative then -x else x)
    | none => .error .notADecimal
  match s.toList with
  | [] => .error .emptyDecimal
  | '+' :: cs => read false cs
  | '-' :: cs => read true cs
  | cs => read false cs

end Hailing.Decimal
