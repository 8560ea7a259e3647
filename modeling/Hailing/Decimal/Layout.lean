import Hailing.Decimal.Shortest
import Hailing.Text.Digits

/-!
# How doubles are written

Three written forms are in use. A *plain* number stands in a sentence: its
shortest digits, never an exponent, no point if it is whole. A *compact*
number stands in a JSON text: the same digits, a point always, and an
exponent outside of a middle range. A *fixed* number has a given count of
places, rounded from its exact value.
-/

namespace Hailing.Decimal

open Text (digits)

/-- The digits of `s` with a point where it belongs; no point if whole. -/
def Scientific.positional (s : Scientific) : List Char :=
  let ds := digits s.significand
  if 0 ≤ s.exponent then ds ++ List.replicate s.exponent.toNat '0'
  else
    let places := (-s.exponent).toNat
    if places < ds.length then
      ds.take (ds.length - places) ++ '.' :: ds.drop (ds.length - places)
    else '0' :: '.' :: List.replicate (places - ds.length) '0' ++ ds

def signed (negative : Bool) (cs : List Char) : List Char :=
  if negative then '-' :: cs else cs

/-- The form that stands in a sentence. -/
def plain (x : Float) : String :=
  match parts x with
  | .nan => "NaN"
  | .infinite negative => String.ofList (signed negative "inf".toList)
  | .finite negative m q =>
    let s := if m == 0 then ⟨0, 0⟩ else shortest .up m q
    String.ofList (signed negative s.positional)

/-- Positional from `0.00001` up to below `10 ^ 16`, else one digit, the
others behind a point, and the exponent. -/
def Scientific.compact (s : Scientific) : List Char :=
  let ds := digits s.significand
  let size := ds.length + s.exponent
  if 0 ≤ s.exponent && size ≤ 16 then s.positional ++ ['.', '0']
  else if -5 < size && size ≤ 16 then s.positional
  else
    let power := (toString (size - 1)).toList
    match ds with
    | [d] => d :: 'e' :: power
    | d :: rest => d :: '.' :: rest ++ 'e' :: power
    | [] => []

/-- The form that stands in a JSON text, which has no word for numbers that
are not finite. -/
def compact (x : Float) : Option (List Char) :=
  match parts x with
  | .nan => none
  | .infinite _ => none
  | .finite negative m q =>
    let s := if m == 0 then ⟨0, 0⟩ else shortest .even m q
    some (signed negative s.compact)

/-- The whole number nearest to a fraction, an even one if two are near. -/
def roundHalfEven (num den : Nat) : Nat :=
  let q := num / den
  let twice := 2 * (num % den)
  if twice < den then q
  else if den < twice then q + 1
  else if q % 2 == 0 then q else q + 1

/-- The form with `places` digits behind the point. -/
def fixed (places : Nat) (x : Float) : String :=
  match parts x with
  | .nan => "NaN"
  | .infinite negative => String.ofList (signed negative "inf".toList)
  | .finite negative m q =>
    let scaled := roundHalfEven (m * Nat.pow 2 q.toNat * Nat.pow 10 places)
      (Nat.pow 2 (-q).toNat)
    let ds := Text.padded (places + 1) scaled
    let whole := ds.length - places
    String.ofList (signed negative (ds.take whole ++ '.' :: ds.drop whole))

end Hailing.Decimal
