import Hailing.Proofs.Calendar
import Hailing.Time.Reading
import Hailing.Time.Written

/-!
# Instants are read back

The reader takes what it wants off the front, so for each of its steps there is
what the writer puts there, with anything behind it: a year up to its hyphen, a
number of two digits, the places of a second up to the `Z`. Together they say
that a date and a time are read as they are shown (`ofChars?_written`), and what
is shown at an instant belongs to this instant only (`instantAt_shown`): the day
has its date, and a leap second, shown as second 60, is second 59 gone on.
-/

namespace Hailing.Time

open Text (isBlank skipBlanks spanDigits natOfDigits padded NoDigit)

theorem isBlank_of_isDigit {c : Char} (h : c.isDigit = true) : isBlank c = false := by
  simp only [Char.isDigit, Bool.and_eq_true, decide_eq_true_eq] at h
  have hlow : 48 ≤ c.toNat := h.1
  have hhigh : c.toNat ≤ 57 := h.2
  simp [isBlank]
  omega

theorem skipBlanks_of_not {c : Char} {cs : List Char} (h : isBlank c = false) :
    skipBlanks (c :: cs) = c :: cs := by
  simp [skipBlanks, h]

/-- What starts with a digit has no blanks to be skipped. -/
theorem skipBlanks_digits {ds rest : List Char} (hne : ds ≠ [])
    (hds : ∀ c ∈ ds, c.isDigit = true) : skipBlanks (ds ++ rest) = ds ++ rest := by
  obtain ⟨d, tail, rfl⟩ := List.exists_cons_of_ne_nil hne
  exact skipBlanks_of_not (isBlank_of_isDigit (hds d List.mem_cons_self))

theorem padded_ne_nil (width n : Nat) : padded width n ≠ [] := by
  simp [padded, Text.digits_ne_nil]

theorem takeNumber_padded {width n : Nat} (hw : 0 < width) (h : n < Nat.pow 10 width)
    (rest : List Char) : takeNumber width (padded width n ++ rest) = some (n, rest) := by
  have hdigits : ∀ c ∈ padded width n, c.isDigit = true := fun _ => Text.isDigit_of_mem_padded
  have htake : (padded width n ++ rest).take width = padded width n :=
    List.take_left' (Text.length_padded hw h)
  have hspan : (padded width n).takeWhile Char.isDigit = padded width n :=
    congrArg Prod.fst (Text.spanDigits_of_digits hdigits)
  have hnonempty : ¬(padded width n).isEmpty = true := by simp [padded_ne_nil]
  unfold takeNumber
  dsimp only
  rw [skipBlanks_digits (padded_ne_nil width n) hdigits, htake, hspan, if_neg hnonempty,
    List.drop_left, Text.natOfDigits_padded]

theorem signedYear_padded (sign : Int) (n : Nat) (rest : List Char) :
    takeYear.signedYear sign (padded 4 n ++ '-' :: rest) = some (sign * n, '-' :: rest) := by
  have hstop : NoDigit ('-' :: rest) := by
    rintro c h
    cases h
    rfl
  have hnonempty : ¬(padded 4 n).isEmpty = true := by simp [padded_ne_nil]
  unfold takeYear.signedYear
  rw [Text.spanDigits_append hstop,
    Text.spanDigits_of_digits fun _ => Text.isDigit_of_mem_padded]
  dsimp only
  rw [if_neg hnonempty, Text.natOfDigits_padded]
  rfl

theorem takeYear_yearChars (year : Int) (rest : List Char) :
    takeYear (yearChars year ++ '-' :: rest) = some (year, '-' :: rest) := by
  unfold yearChars
  split
  · next h =>
      have hdigits : ∀ c ∈ padded 4 year.toNat, c.isDigit = true :=
        fun _ => Text.isDigit_of_mem_padded
      have hlt : year.toNat < Nat.pow 10 4 := by
        show year.toNat < 10000
        omega
      have hfront : ∀ {c : Char} {cs : List Char}, c.isDigit = false →
          padded 4 year.toNat ++ '-' :: rest ≠ c :: cs := by
        intro c cs hc heq
        obtain ⟨d, tail, hd⟩ := List.exists_cons_of_ne_nil (padded_ne_nil 4 year.toNat)
        rw [hd] at heq hdigits
        cases heq
        rw [hdigits c List.mem_cons_self] at hc
        cases hc
      unfold takeYear
      rw [skipBlanks_digits (padded_ne_nil 4 _) hdigits]
      split
      · next heq => exact absurd heq (hfront rfl)
      · next heq => exact absurd heq (hfront rfl)
      · rw [takeNumber_padded (by decide) hlt]
        exact congrArg (fun y => some (y, _)) (Int.toNat_of_nonneg h.1)
  · rw [List.cons_append]
    split
    · next h =>
        refine (signedYear_padded (-1) year.natAbs rest).trans ?_
        exact congrArg (fun y => some (y, _)) (by omega)
    · next h =>
        refine (signedYear_padded 1 year.natAbs rest).trans ?_
        exact congrArg (fun y => some (y, _)) (by omega)

theorem takeFraction_point {width n : Nat} (hw : 0 < width) (hmost : width ≤ 9)
    (h : n < Nat.pow 10 width) {rest : List Char} (hrest : NoDigit rest) :
    takeFraction ('.' :: padded width n ++ rest) =
      some (n * Nat.pow 10 (9 - width), rest) := by
  have hlen := Text.length_padded hw h
  have htake : (padded width n).take 9 = padded width n :=
    List.take_of_length_le (by rw [hlen]; exact hmost)
  have hnonempty : ¬(padded width n).isEmpty = true := by simp [padded_ne_nil]
  have hspan : spanDigits (padded width n ++ rest) = (padded width n, rest) := by
    rw [Text.spanDigits_append hrest,
      Text.spanDigits_of_digits fun _ => Text.isDigit_of_mem_padded]
    rfl
  simp only [List.cons_append, takeFraction, hspan, if_neg hnonempty, htake, hlen,
    Text.natOfDigits_padded]

/-- As many places as are written are read. -/
theorem takeFraction_fractionChars {nano : Nat} (h : nano < 1000000000) {rest : List Char}
    (hrest : NoDigit rest) (hpoint : rest.head? ≠ some '.') :
    takeFraction (fractionChars nano ++ rest) = some (nano, rest) := by
  have hplaces : ∀ {width n}, 0 < width → width ≤ 9 → n < Nat.pow 10 width →
      n * Nat.pow 10 (9 - width) = nano →
        takeFraction ('.' :: padded width n ++ rest) = some (nano, rest) := by
    intro width n hw hmost hn hnano
    rw [takeFraction_point hw hmost hn hrest, hnano]
  unfold fractionChars
  simp only [beq_iff_eq]
  split
  · next hnone =>
      rw [hnone]
      unfold takeFraction
      split
      · next heq => exact absurd (congrArg List.head? heq) hpoint
      · rfl
  · split
    · have hlt : nano / 1000000 < 1000 := by omega
      have hnano : nano / 1000000 * 1000000 = nano := by omega
      exact hplaces (by decide) (by decide) hlt hnano
    · split
      · have hlt : nano / 1000 < 1000000 := by omega
        have hnano : nano / 1000 * 1000 = nano := by omega
        exact hplaces (by decide) (by decide) hlt hnano
      · exact hplaces (by decide) (by decide) h (Nat.mul_one nano)

theorem daysInMonth_le (year : Int) (month : Nat) : daysInMonth year month ≤ 31 := by
  unfold daysInMonth
  split
  · split <;> decide
  · split <;> decide

namespace Instant

/-- Either the second is an ordinary one, or it is the last of its minute. -/
theorem leap_cases (t : Instant) {leap : Nat} (hleap : leap = if t.isLeap then 1 else 0) :
    (leap = 0 ∧ t.nano < 1000000000) ∨
      (leap = 1 ∧ 1000000000 ≤ t.nano ∧ t.second % 60 = 59) := by
  have hnano := t.nano_lt
  unfold isLeap at hleap
  split at hleap
  · next h =>
      have hge : 1000000000 ≤ t.nano := of_decide_eq_true h
      exact .inr ⟨hleap, hge, by omega⟩
  · next h =>
      have hlt : t.nano < 1000000000 := by simpa using h
      exact .inl ⟨hleap, hlt⟩

/-- What a clock of universal time shows at an instant is the instant. A leap
second is shown as second 60 and counted as second 59. -/
theorem instantAt_shown (t : Instant) {leap : Nat} (hleap : leap = if t.isLeap then 1 else 0) :
    instantAt (Date.ofDay t.day) (t.second / 3600) (t.second / 60 % 60) (t.second % 60 + leap)
      (t.nano - leap * 1000000000) 0 = some t := by
  have hsecond := t.second_lt
  have hnano := t.nano_lt
  have hyear := Date.year_ofDay ⟨t.day_ge, t.day_le⟩
  have hat : (if t.second % 60 + leap = 60 then 1 else 0) = leap ∧ t.second % 60 + leap ≤ 60 ∧
      t.nano - leap * 1000000000 + leap * 1000000000 = t.nano := by
    rcases t.leap_cases hleap with ⟨rfl, -⟩ | ⟨rfl, hge, hlast⟩
    · refine ⟨if_neg ?_, ?_, ?_⟩ <;> omega
    · refine ⟨if_pos ?_, ?_, ?_⟩ <;> omega
  obtain ⟨hsixty, hle, hback⟩ := hat
  unfold instantAt
  rw [if_pos ⟨Date.valid_ofDay t.day, hyear.1, hyear.2, by omega, by omega, hle, by decide,
    by decide⟩]
  dsimp only
  rw [hsixty, hback, Date.toDay_ofDay]
  have hshown : (((t.second / 3600 : Nat) : Int) * 3600 + ((t.second / 60 % 60 : Nat) : Int) * 60 +
      (((t.second % 60 + leap : Nat) : Int) - leap) - 0) = t.second := by omega
  rw [hshown]
  have hday : t.day + (t.second : Int) / 86400 = t.day := by omega
  have hrest : ((t.second : Int) % 86400).toNat = t.second := by omega
  rw [hday, hrest]
  exact dif_pos ⟨t.day_ge, t.day_le, t.second_lt, t.nano_lt⟩

/-- A date and a time that are written as on the wire are read as they are
shown. -/
theorem ofChars?_written (year : Int) {month day hour minute second nano : Nat}
    (hmonth : month < 100) (hday : day < 100) (hhour : hour < 100) (hminute : minute < 100)
    (hsecond : second < 100) (hnano : nano < 1000000000) :
    ofChars? (yearChars year ++ '-' :: (padded 2 month ++ '-' :: (padded 2 day ++ 'T' ::
      (padded 2 hour ++ ':' :: (padded 2 minute ++ ':' :: (padded 2 second ++
        (fractionChars nano ++ ['Z']))))))) =
      instantAt ⟨year, month, day⟩ hour minute second nano 0 := by
  have htwo : ∀ {n : Nat}, n < 100 → ∀ rest, takeNumber 2 (padded 2 n ++ rest) = some (n, rest) :=
    fun h => takeNumber_padded (by decide) h
  have hdash : ∀ rest, takeMark '-' ('-' :: rest) = some rest := fun _ => rfl
  have hcolon : ∀ rest, takeMark ':' (':' :: rest) = some rest := fun _ => rfl
  have hdivider : ∀ rest, takeDivider ('T' :: rest) = some rest := fun _ => rfl
  have hplaces : takeFraction (fractionChars nano ++ ['Z']) = some (nano, ['Z']) :=
    takeFraction_fractionChars hnano (by rintro c h; cases h; rfl) (by decide)
  have hzulu : takeOffset ['Z'] = some (0, []) := rfl
  have hend : skipBlanks [] = [] := rfl
  rw [ofChars?, takeYear_yearChars]
  simp only [Option.bind_eq_bind, Option.bind_some, hdash, hcolon, hdivider, htwo hmonth,
    htwo hday, htwo hhour, htwo hminute, htwo hsecond, hplaces, hzulu, hend, if_true]

/-- What is written on the wire is read back. -/
theorem ofString?_toWire (t : Instant) : ofString? t.toWire = some t := by
  have hsecond := t.second_lt
  have hnano := t.nano_lt
  obtain ⟨-, hmonth, -, hday⟩ := Date.valid_ofDay t.day
  have hdays := daysInMonth_le (Date.ofDay t.day).year (Date.ofDay t.day).month
  obtain ⟨leap, hleap⟩ : ∃ leap, leap = if t.isLeap then 1 else 0 := ⟨_, rfl⟩
  have hcases := t.leap_cases hleap
  have hwire : t.toWire.toList = yearChars (Date.ofDay t.day).year ++ '-' ::
      (padded 2 (Date.ofDay t.day).month ++ '-' :: (padded 2 (Date.ofDay t.day).day ++ 'T' ::
        (padded 2 (t.second / 3600) ++ ':' :: (padded 2 (t.second / 60 % 60) ++ ':' ::
          (padded 2 (t.second % 60 + leap) ++
            (fractionChars (t.nano - leap * 1000000000) ++ ['Z'])))))) := by
    rw [hleap]
    simp [toWire, dateChars, timeChars, Date.toChars]
  rw [ofString?, hwire, ofChars?_written _ (by omega) (by omega) (by omega) (by omega) (by omega)
    (by omega)]
  exact instantAt_shown t hleap

end Instant

end Hailing.Time
