import Hailing.Desk.Agenda
import Hailing.Desk.Basic

/-!
# The desk in time

Searches sleep and sweepers tick, each until its own time. When time goes on,
all that comes due is done in the order of its times, and the clock shows
that time while it is done. A search that wakes up may sleep again, but then
it has a radius less; a sweep may start searches, but then a sweeper is
nearer to the end of the time that goes by. So letting time go on comes to
an end, whatever the settings are.
-/

namespace Hailing

/-- Ticks at its time and then again after every interval. -/
structure Sweeper where
  due : Nat
  interval : Nat
  interval_pos : 0 < interval
  deriving Repr

structure Timeline where
  desk : Desk
  sweepers : List Sweeper

/-! ## A search that goes on has a radius less -/

/-- How often the search can still wake up. -/
def Search.length (s : Search) : Nat := s.radii.wider.length + 1

/-- How often searches can still wake up altogether. -/
def Floor.wakings (f : Floor) : Nat := Agenda.total Search.length f.sleeping

theorem Case.wakings_resume_le (radii : Radii) (c : Case) :
    (c.resume radii).2.floor.wakings ≤ c.floor.wakings + radii.wider.length := by
  unfold Case.resume
  split
  · exact Nat.le_add_right _ _
  · split
    · exact Nat.le_add_right _ _
    · exact Nat.le_add_right _ _
    · exact Nat.le_add_right _ _
    · next hw =>
      simp [Case.onFloor, Floor.sleep, Floor.wakings, Agenda.total_append, Agenda.total,
        Search.length, hw]

theorem Desk.wakings_resume_le (s : Search) (desk : Desk) :
    (desk.resume s).floor.wakings ≤ desk.floor.wakings + s.radii.wider.length := by
  unfold Desk.resume Desk.handle
  split
  · exact Nat.le_add_right _ _
  · next docket _ => exact Case.wakings_resume_le s.radii ⟨docket, desk.floor⟩

/-! ## A sweeper that has ticked is nearer to the end -/

namespace Sweeper

/-- A bound for the ticks that come before the end of a time. -/
def ticks (target : Nat) (s : Sweeper) : Nat := target + 1 - s.due

def next (s : Sweeper) : Sweeper := { s with due := s.due + s.interval }

theorem ticks_next_lt {s : Sweeper} {target : Nat} (h : s.due ≤ target) :
    s.next.ticks target < s.ticks target := by
  have := s.interval_pos
  simp only [ticks, next]
  omega

end Sweeper

namespace Timeline

/-- What comes due next, taken out of all that waits. -/
inductive Due where
  | waking (search : Search) (others : List Search)
  | sweep (sweeper : Sweeper) (others : List Sweeper)

/-- What is due first, if it is due at the time of `target` or earlier. -/
def due? (target : Nat) (t : Timeline) : Option Due :=
  let sweep? := (Agenda.earliest? Sweeper.due t.sweepers).bind fun (s, others) =>
    if s.due ≤ target then some (s, others) else none
  match Agenda.earliest? Search.wakeAt t.desk.floor.sleeping, sweep? with
  | some (search, others), none =>
    if search.wakeAt ≤ target then some (.waking search others) else none
  | some (search, others), some (sweeper, rest) =>
    if search.wakeAt ≤ sweeper.due then some (.waking search others)
    else some (.sweep sweeper rest)
  | none, some (sweeper, rest) => some (.sweep sweeper rest)
  | none, none => none

theorem earliest?_of_due?_waking {target : Nat} {t : Timeline} {search : Search}
    {others : List Search} (h : t.due? target = some (.waking search others)) :
    Agenda.earliest? Search.wakeAt t.desk.floor.sleeping = some (search, others) := by
  simp only [due?] at h
  split at h
  · split at h
    · next he _ _ => simp_all
    · simp at h
  · split at h
    · next he _ _ => simp_all
    · simp at h
  · simp at h
  · simp at h

theorem earliest?_of_due?_sweep {target : Nat} {t : Timeline} {sweeper : Sweeper}
    {others : List Sweeper} (h : t.due? target = some (.sweep sweeper others)) :
    Agenda.earliest? Sweeper.due t.sweepers = some (sweeper, others) ∧
      sweeper.due ≤ target := by
  have key : ∀ {s : Sweeper} {rest : List Sweeper},
      ((Agenda.earliest? Sweeper.due t.sweepers).bind fun (s, others) =>
        if s.due ≤ target then some (s, others) else none) = some (s, rest) →
      Agenda.earliest? Sweeper.due t.sweepers = some (s, rest) ∧ s.due ≤ target := by
    intro s rest hs
    cases he : Agenda.earliest? Sweeper.due t.sweepers with
    | none => simp [he] at hs
    | some pair =>
      obtain ⟨a, as⟩ := pair
      rw [he] at hs
      by_cases hd : a.due ≤ target
      · obtain ⟨rfl, rfl⟩ : a = s ∧ as = rest := by simpa [hd] using hs
        exact ⟨rfl, hd⟩
      · simp [hd] at hs
  simp only [due?] at h
  split at h
  · split at h <;> simp at h
  · next hs =>
    split at h
    · simp at h
    · obtain ⟨rfl, rfl⟩ := by simpa using h
      exact key hs
  · next hs =>
    obtain ⟨rfl, rfl⟩ := by simpa using h
    exact key hs
  · simp at h

/-- The desk at a later time, at which nothing else has happened yet. -/
def deskAt (tick : Nat) (t : Timeline) : Desk :=
  let floor := t.desk.floor
  { t.desk with floor := { floor with clock := floor.clock.forward (tick - floor.clock.ticks) } }

/-- A search wakes up. -/
def wake (search : Search) (others : List Search) (t : Timeline) : Timeline :=
  let desk := t.deskAt search.wakeAt
  let desk := { desk with floor := { desk.floor with sleeping := others } }
  { t with desk := desk.resume search }

/-- A sweeper ticks. One whose sweep breaks down does not tick again. -/
def tick (sweeper : Sweeper) (others : List Sweeper) (t : Timeline) : Timeline :=
  match (t.deskAt sweeper.due).sweep with
  | (.ok _, desk) => ⟨desk, others ++ [sweeper.next]⟩
  | (.error _, desk) => ⟨desk, others⟩

theorem wakings_wake_lt {search : Search} {others : List Search} {t : Timeline}
    (h : Agenda.earliest? Search.wakeAt t.desk.floor.sleeping = some (search, others)) :
    (t.wake search others).desk.floor.wakings < t.desk.floor.wakings := by
  have hsum := Agenda.total_earliest? h Search.length
  refine Nat.lt_of_le_of_lt (Desk.wakings_resume_le _ _) ?_
  simp only [Floor.wakings, Search.length] at hsum ⊢
  omega

theorem ticks_tick_lt {sweeper : Sweeper} {others : List Sweeper} {t : Timeline}
    {target : Nat} (h : Agenda.earliest? Sweeper.due t.sweepers = some (sweeper, others))
    (hd : sweeper.due ≤ target) :
    Agenda.total (Sweeper.ticks target) (t.tick sweeper others).sweepers <
      Agenda.total (Sweeper.ticks target) t.sweepers := by
  rw [Agenda.total_earliest? h (Sweeper.ticks target)]
  have := Sweeper.ticks_next_lt hd
  unfold tick
  split
  · simp only [Agenda.total_append, Agenda.total]
    omega
  · simp only
    omega

/-- All that is due up to a time is done, and then it is that time. -/
def runUntil (target : Nat) (t : Timeline) : Timeline :=
  match _h : t.due? target with
  | none => { t with desk := t.deskAt target }
  | some (.waking search others) => runUntil target (t.wake search others)
  | some (.sweep sweeper others) => runUntil target (t.tick sweeper others)
termination_by
  (Agenda.total (Sweeper.ticks target) t.sweepers, t.desk.floor.wakings)
decreasing_by
  · exact Prod.Lex.right _ (wakings_wake_lt (earliest?_of_due?_waking _h))
  · have := earliest?_of_due?_sweep _h
    exact Prod.Lex.left _ _ (ticks_tick_lt this.1 this.2)

def opening (settings : Settings) (start : Time.Instant) : Timeline :=
  ⟨.opening settings start, []⟩

/-- Everything that is due now is done. -/
def settle (t : Timeline) : Timeline := t.runUntil t.desk.floor.clock.ticks

/-- Lets time go on. It does not go on beyond the end of the calendar. -/
def advance? (ms : Nat) (t : Timeline) : Option Timeline :=
  (t.desk.floor.clock.forward? ms).map fun later => t.runUntil later.ticks

/-- Sets the clock on the wall. -/
def skew? (ms : Int) (t : Timeline) : Option Timeline :=
  (t.desk.floor.clock.skew? ms).map fun clock =>
    { t with desk := { t.desk with floor := { t.desk.floor with clock := clock } } }

/-- Starts a sweeper, which ticks at once. There is none without an interval. -/
def startSweeper (t : Timeline) : Timeline :=
  if h : 0 < t.desk.settings.sweepInterval then
    { t with sweepers :=
        t.sweepers ++ [⟨t.desk.floor.clock.ticks, t.desk.settings.sweepInterval, h⟩] }
  else t

end Timeline

end Hailing
