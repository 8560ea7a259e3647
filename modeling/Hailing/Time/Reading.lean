import Hailing.Text.Blank
import Hailing.Text.Digits
import Hailing.Time.Instant

/-!
# How instants are read

The reader takes more than the writer produces: blanks around the numbers
and the marks between them, numbers that are not filled up with zeros, a
small `t` or a space between date and time, any number of places, and a
distance from universal time in place of the `Z`. Only the divider itself
has to be the character it is. Each reading step takes
the characters it wants off the front and hands on the rest.
-/

namespace Hailing.Time

open Text (isBlank skipBlanks spanDigits natOfDigits)

/-- A number of one to `most` digits, after blanks. -/
def takeNumber (most : Nat) (cs : List Char) : Option (Nat × List Char) :=
  let cs := skipBlanks cs
  let ds := (cs.take most).takeWhile Char.isDigit
  if ds.isEmpty then none else some (natOfDigits ds, cs.drop ds.length)

/-- A year: up to four digits, or a sign and any number of digits. -/
def takeYear (cs : List Char) : Option (Int × List Char) :=
  match skipBlanks cs with
  | '+' :: rest => signedYear 1 rest
  | '-' :: rest => signedYear (-1) rest
  | cs => (takeNumber 4 cs).map fun (n, rest) => ((n : Int), rest)
where
  signedYear (sign : Int) (cs : List Char) : Option (Int × List Char) :=
    let (ds, rest) := spanDigits cs
    if ds.isEmpty then none else some (sign * natOfDigits ds, rest)

/-- One certain character, after blanks. -/
def takeMark (mark : Char) (cs : List Char) : Option (List Char) :=
  match skipBlanks cs with
  | c :: rest => if c = mark then some rest else none
  | [] => none

/-- A point and places, of which the first nine count. -/
def takeFraction (cs : List Char) : Option (Nat × List Char) :=
  match cs with
  | '.' :: rest =>
    let (ds, rest) := spanDigits rest
    if ds.isEmpty then none
    else
      let kept := ds.take 9
      some (natOfDigits kept * Nat.pow 10 (9 - kept.length), rest)
  | cs => some (0, cs)

/-- The `T` between date and time, in either case, or a plain space. -/
def takeDivider (cs : List Char) : Option (List Char) :=
  match cs with
  | 'T' :: rest => some rest
  | 't' :: rest => some rest
  | ' ' :: rest => some rest
  | _ => none

/-- Two digits that stand at the very front. -/
def takePair (cs : List Char) : Option (Nat × List Char) :=
  match cs with
  | a :: b :: rest =>
    if a.isDigit && b.isDigit then some (natOfDigits [a, b], rest) else none
  | _ => none

/-- The distance of a clock from universal time, in seconds. -/
def takeOffset (cs : List Char) : Option (Int × List Char) :=
  match skipBlanks cs with
  | 'Z' :: rest => some (0, rest)
  | 'z' :: rest => some (0, rest)
  | '+' :: rest => hoursAndMinutes 1 rest
  | '-' :: rest => hoursAndMinutes (-1) rest
  | '−' :: rest => hoursAndMinutes (-1) rest
  | cs =>
    if (cs.take 3).map Char.toUpper == ['U', 'T', 'C'] then some (0, cs.drop 3) else none
where
  hoursAndMinutes (sign : Int) (cs : List Char) : Option (Int × List Char) := do
    let (hours, rest) ← takePair cs
    let (minutes, rest) ← takePair (rest.dropWhile fun c => c == ':' || isBlank c)
    if 60 ≤ minutes then none
    else some (sign * (hours * 3600 + minutes * 60), rest)

/-- The instant at which a clock `offset` seconds ahead of universal time
shows this date and time. Second 60 is a leap second. -/
def instantAt (date : Date) (hour minute second nano : Nat) (offset : Int) :
    Option Instant :=
  if date.Valid ∧ firstYear ≤ date.year ∧ date.year ≤ lastYear ∧ hour < 24 ∧
      minute < 60 ∧ second ≤ 60 ∧ -86400 < offset ∧ offset < 86400 then
    let leap : Nat := if second = 60 then 1 else 0
    let shown : Int := hour * 3600 + minute * 60 + (second - leap) - offset
    Instant.make? (date.toDay + shown / 86400) (shown % 86400).toNat
      (nano + leap * 1000000000)
  else none

namespace Instant

def ofChars? (cs : List Char) : Option Instant := do
  let (year, cs) ← takeYear cs
  let cs ← takeMark '-' cs
  let (month, cs) ← takeNumber 2 cs
  let cs ← takeMark '-' cs
  let (day, cs) ← takeNumber 2 cs
  let cs ← takeDivider cs
  let (hour, cs) ← takeNumber 2 cs
  let cs ← takeMark ':' cs
  let (minute, cs) ← takeNumber 2 cs
  let cs ← takeMark ':' cs
  let (second, cs) ← takeNumber 2 cs
  let (nano, cs) ← takeFraction cs
  let (offset, cs) ← takeOffset cs
  if skipBlanks cs = [] then instantAt ⟨year, month, day⟩ hour minute second nano offset
  else none

def ofString? (s : String) : Option Instant := ofChars? s.toList

end Instant

end Hailing.Time
