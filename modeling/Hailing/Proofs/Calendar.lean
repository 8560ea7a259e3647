import Hailing.Time.Calendar

/-!
# Days and dates

Every day has a date, and the number of this date is the number of the day. The
date of a day is found in the calendar that starts in March (`Placed`): a cycle
of 400 years, a year of the cycle and a month of the year. There the leap day is
the last day of its year, so the days before a month do not depend on the year
(`daysBeforeMonth`), and the days before a year are counted by its leap years
(`daysBeforeYear`). That the date is one that the calendar has, and that it leads
back to the day, are two readings of its place.
-/

namespace Hailing.Time

/-- How many days of a cycle lie before a year of it, counted from March. -/
def daysBeforeYear (year : Int) : Int := 365 * year + year / 4 - year / 100

/-- How many days of a year lie before a month of it, counted from March. -/
def daysBeforeMonth (month : Int) : Int := (153 * month + 2) / 5

theorem yearOfCycle_spec {day year : Int} (hd : 0 ≤ day ∧ day < daysPerCycle)
    (hy : year = (day - day / 1460 + day / 36524 - day / 146096) / 365) :
    0 ≤ year ∧ year < 400 ∧ daysBeforeYear year ≤ day ∧
      (day < daysBeforeYear (year + 1) ∨ (year = 399 ∧ day = 146096)) := by
  unfold daysPerCycle at hd
  unfold daysBeforeYear
  by_cases hlast : day = 146096
  · subst hlast
    omega
  · have h0 : day / 146096 = 0 := by omega
    rw [h0] at hy
    have hcentury : year / 100 = day / 36524 := by omega
    refine ⟨by omega, by omega, by omega, .inl ?_⟩
    by_cases hturn : (year + 1) % 100 = 0
    · omega
    · have hsame : (year + 1) / 100 = day / 36524 := by omega
      rw [hsame]
      omega

theorem monthOfYear_spec {day month : Int} (hd : 0 ≤ day ∧ day ≤ 365)
    (hm : month = (5 * day + 2) / 153) :
    0 ≤ month ∧ month ≤ 11 ∧ daysBeforeMonth month ≤ day ∧
      day < daysBeforeMonth (month + 1) := by
  unfold daysBeforeMonth
  omega

namespace Date

/-- The date has this place in the calendar from March. -/
structure Placed (d : Date) (cycle year month : Int) : Prop where
  year_range : 0 ≤ year ∧ year < 400
  month_range : 0 ≤ month ∧ month ≤ 11
  year_eq : d.year = year + cycle * 400 + if d.month ≤ 2 then 1 else 0
  month_eq : (d.month : Int) = (month + 2) % 12 + 1
  day_range : 1 ≤ d.day ∧ d.day ≤ daysBeforeMonth (month + 1) - daysBeforeMonth month
  leap : daysBeforeMonth month + d.day ≤ 365 ∨ daysBeforeMonth month + d.day = 366 ∧
    (year = 399 ∨ daysBeforeYear year + 366 = daysBeforeYear (year + 1))

/-- The number of the day that has this place. -/
def placeDay (cycle year month : Int) (day : Nat) : Int :=
  cycle * daysPerCycle + daysBeforeYear year + daysBeforeMonth month + day - 1 - cycleOffset

theorem ofDay_eq {day cycle dayOfCycle year dayOfYear month : Int}
    (hc : cycle = (day + cycleOffset) / daysPerCycle)
    (hd : dayOfCycle = (day + cycleOffset) % daysPerCycle)
    (hy : year = (dayOfCycle - dayOfCycle / 1460 + dayOfCycle / 36524 - dayOfCycle / 146096) / 365)
    (hdy : dayOfYear = dayOfCycle - daysBeforeYear year)
    (hm : month = (5 * dayOfYear + 2) / 153) :
    ofDay day =
      { year :=
          if ((month + 2) % 12 + 1).toNat ≤ 2 then year + cycle * 400 + 1 else year + cycle * 400
        month := ((month + 2) % 12 + 1).toNat
        day := (dayOfYear - daysBeforeMonth month + 1).toNat } := by
  subst hc hd hy hdy hm
  rfl

theorem ofDay_placed (day : Int) : ∃ cycle year month,
    (ofDay day).Placed cycle year month ∧ placeDay cycle year month (ofDay day).day = day := by
  obtain ⟨cycle, hc⟩ : ∃ cycle, cycle = (day + cycleOffset) / daysPerCycle := ⟨_, rfl⟩
  obtain ⟨dayOfCycle, hd⟩ : ∃ d, d = (day + cycleOffset) % daysPerCycle := ⟨_, rfl⟩
  obtain ⟨year, hy⟩ : ∃ y, y =
    (dayOfCycle - dayOfCycle / 1460 + dayOfCycle / 36524 - dayOfCycle / 146096) / 365 := ⟨_, rfl⟩
  obtain ⟨dayOfYear, hdy⟩ : ∃ d, d = dayOfCycle - daysBeforeYear year := ⟨_, rfl⟩
  obtain ⟨month, hm⟩ : ∃ m, m = (5 * dayOfYear + 2) / 153 := ⟨_, rfl⟩
  have hcycle : 0 ≤ dayOfCycle ∧ dayOfCycle < daysPerCycle ∧
      cycle * daysPerCycle + dayOfCycle = day + cycleOffset := by
    unfold daysPerCycle at *
    omega
  obtain ⟨h0, h400, hle, hlt⟩ := yearOfCycle_spec ⟨hcycle.1, hcycle.2.1⟩ hy
  have hyear : 0 ≤ dayOfYear ∧ dayOfYear ≤ 365 := by
    unfold daysBeforeYear at *
    omega
  obtain ⟨hm0, hm11, hml, hmu⟩ := monthOfYear_spec hyear hm
  refine ⟨cycle, year, month, ?_, ?_⟩
  · rw [ofDay_eq hc hd hy hdy hm]
    refine ⟨⟨h0, h400⟩, ⟨hm0, hm11⟩, ?_, ?_, ?_, ?_⟩
    · dsimp only
      split <;> omega
    · dsimp only
      omega
    · dsimp only
      omega
    · dsimp only
      unfold daysBeforeYear at *
      omega
  · rw [ofDay_eq hc hd hy hdy hm]
    unfold placeDay
    dsimp only
    omega

theorem Placed.toDay_eq {d : Date} {cycle year month : Int} (h : d.Placed cycle year month) :
    d.toDay = placeDay cycle year month d.day := by
  obtain ⟨hy, hm, hyear, hmonth, -, -⟩ := h
  have hmarch : (if d.month ≤ 2 then d.year - 1 else d.year) = year + cycle * 400 := by
    split at hyear
    · next hearly => rw [if_pos hearly]; omega
    · next hlate => rw [if_neg hlate]; omega
  have hy1 : (year + cycle * 400) / 400 = cycle := by omega
  have hy2 : (year + cycle * 400) % 400 = year := by omega
  have hm1 : ((d.month : Int) + 9) % 12 = month := by omega
  unfold toDay placeDay daysBeforeYear daysBeforeMonth
  dsimp only
  rw [hmarch, hy1, hy2, hm1]
  omega

theorem Placed.valid {d : Date} {cycle year month : Int} (h : d.Placed cycle year month) :
    d.Valid := by
  obtain ⟨hy, hm, hyear, hmonth, hday, hleap⟩ := h
  refine ⟨by omega, by omega, hday.1, ?_⟩
  unfold daysBeforeMonth at hday hleap
  unfold daysInMonth
  simp only [beq_iff_eq, Bool.or_eq_true]
  split
  · next hfeb =>
      rw [if_pos (by omega)] at hyear
      have hmonth' : month = 11 := by omega
      subst hmonth'
      split
      · omega
      · next hplain =>
          simp only [isLeapYear, Bool.and_eq_true, Bool.or_eq_true, beq_iff_eq,
            bne_iff_ne] at hplain
          unfold daysBeforeYear at hleap
          omega
  · split <;> omega

theorem toDay_ofDay (day : Int) : (ofDay day).toDay = day := by
  obtain ⟨_, _, _, hplaced, hday⟩ := ofDay_placed day
  exact hplaced.toDay_eq.trans hday

theorem valid_ofDay (day : Int) : (ofDay day).Valid := by
  obtain ⟨_, _, _, hplaced, -⟩ := ofDay_placed day
  exact hplaced.valid

theorem year_ofDay {day : Int} (h : firstDay ≤ day ∧ day ≤ lastDay) :
    firstYear ≤ (ofDay day).year ∧ (ofDay day).year ≤ lastYear := by
  obtain ⟨cycle, year, month, ⟨hy, hm, hyear, hmonth, hdom, -⟩, hday⟩ := ofDay_placed day
  rw [firstDay_eq, lastDay_eq] at h
  unfold placeDay daysPerCycle cycleOffset daysBeforeMonth daysBeforeYear at hday
  unfold daysBeforeMonth at hdom
  unfold firstYear lastYear
  have hmarch : -262144 ≤ year + cycle * 400 ∧ year + cycle * 400 ≤ 262142 := by omega
  have hfirst : year + cycle * 400 = -262144 → 10 ≤ month := by
    intro hy
    have hplace : year = 256 ∧ cycle = -656 := by omega
    omega
  have hlast : year + cycle * 400 = 262142 → month ≤ 9 := by
    intro hy
    have hplace : year = 142 ∧ cycle = 655 := by omega
    omega
  split at hyear <;> omega

end Date

end Hailing.Time
