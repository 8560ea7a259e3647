import Hailing.Text.Digits
import Hailing.Time.Instant

/-!
# How instants are written

On the wire an instant is one word, with a `T` between date and time and a
`Z` behind it; in a sentence a blank stands between and `UTC` behind. Of the
fraction of a second as many digits are kept as lose nothing, in groups of
three. A year before 0 or after 9999 has a sign. The second after `59` is a
leap second and written `60`.
-/

namespace Hailing.Time

open Text (padded)

def yearChars (year : Int) : List Char :=
  if 0 ≤ year ∧ year ≤ 9999 then padded 4 year.toNat
  else (if year < 0 then '-' else '+') :: padded 4 year.natAbs

def Date.toChars (d : Date) : List Char :=
  yearChars d.year ++ '-' :: padded 2 d.month ++ '-' :: padded 2 d.day

/-- The fraction of a second, with the point. -/
def fractionChars (nano : Nat) : List Char :=
  if nano == 0 then []
  else if nano % 1000000 == 0 then '.' :: padded 3 (nano / 1000000)
  else if nano % 1000 == 0 then '.' :: padded 6 (nano / 1000)
  else '.' :: padded 9 nano

namespace Instant

def dateChars (t : Instant) : List Char := (Date.ofDay t.day).toChars

def timeChars (t : Instant) : List Char :=
  let leap := if t.isLeap then 1 else 0
  padded 2 (t.second / 3600) ++ ':' :: padded 2 (t.second / 60 % 60) ++
    ':' :: padded 2 (t.second % 60 + leap) ++
    fractionChars (t.nano - leap * 1000000000)

/-- The form on the wire. -/
def toWire (t : Instant) : String :=
  String.ofList (t.dateChars ++ 'T' :: t.timeChars ++ ['Z'])

/-- The form in a sentence. -/
def toProse (t : Instant) : String :=
  String.ofList (t.dateChars ++ ' ' :: t.timeChars ++ " UTC".toList)

end Instant

end Hailing.Time
