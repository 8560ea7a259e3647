import Hailing.Time.Calendar
import Hailing.Time.Span

/-!
# Instants

An instant is a day, a second of the day and a nanosecond, all in universal
time. A leap second is the last second of a minute gone on for longer than a
second: it keeps the second's number, and its nanoseconds start at one
thousand million. Instants are ordered by day, second and nanosecond in this
order, so a leap second lies where it belongs.

Adding a span to an instant within a leap second may stay in it; once it
leaves, the leap second is forgotten, as no table of leap seconds is kept.
-/

namespace Hailing.Time

def nanosPerSecond : Int := 1000000000

structure Instant where
  day : Int
  second : Nat
  nano : Nat
  day_ge : firstDay ≤ day
  day_le : day ≤ lastDay
  second_lt : second < 86400
  nano_lt : nano < 1000000000 ∨ (second % 60 = 59 ∧ nano < 2000000000)
  deriving DecidableEq, Repr

namespace Instant

/-- The instant with these parts, if there is one. -/
def make? (day : Int) (second nano : Nat) : Option Instant :=
  if h : firstDay ≤ day ∧ day ≤ lastDay ∧ second < 86400 ∧
      (nano < 1000000000 ∨ (second % 60 = 59 ∧ nano < 2000000000)) then
    some ⟨day, second, nano, h.1, h.2.1, h.2.2.1, h.2.2.2⟩
  else none

/-- A number that orders instants. -/
def key (t : Instant) : Int := (t.day * 86400 + t.second) * 2000000000 + t.nano

instance : LE Instant := ⟨fun a b => a.key ≤ b.key⟩

instance : LT Instant := ⟨fun a b => a.key < b.key⟩

instance (a b : Instant) : Decidable (a ≤ b) :=
  inferInstanceAs (Decidable (a.key ≤ b.key))

instance (a b : Instant) : Decidable (a < b) :=
  inferInstanceAs (Decidable (a.key < b.key))

protected theorem le_refl (a : Instant) : a ≤ a := Int.le_refl a.key

protected theorem le_trans {a b c : Instant} (hab : a ≤ b) (hbc : b ≤ c) : a ≤ c :=
  Int.le_trans (a := a.key) hab hbc

protected theorem not_lt {a b : Instant} : ¬a < b ↔ b ≤ a := Int.not_lt (a := a.key)

protected theorem le_of_lt {a b : Instant} (h : a < b) : a ≤ b := Int.le_of_lt (a := a.key) h

protected theorem lt_of_le_of_lt {a b c : Instant} (hab : a ≤ b) (hbc : b < c) : a < c :=
  Int.lt_of_le_of_lt (a := a.key) hab hbc

protected theorem lt_irrefl (a : Instant) : ¬a < a := Int.lt_irrefl a.key

protected theorem lt_or_le (a b : Instant) : a < b ∨ b ≤ a := Int.lt_or_le a.key b.key

/-- No two instants are equally late. -/
protected theorem le_antisymm {a b : Instant} (hab : a ≤ b) (hba : b ≤ a) : a = b := by
  have hkey : a.key = b.key := Int.le_antisymm (a := a.key) hab hba
  obtain ⟨day, second, nano, _, _, hs, hn⟩ := a
  obtain ⟨day', second', nano', _, _, hs', hn'⟩ := b
  simp only [key] at hkey
  simp only [mk.injEq]
  omega

def isLeap (t : Instant) : Bool := 1000000000 ≤ t.nano

/-- The instant a count of nanoseconds after the start of 1970, without leap
seconds. -/
def ofNanos? (n : Int) : Option Instant :=
  let seconds := n / nanosPerSecond
  make? (seconds / 86400) (seconds % 86400).toNat (n % nanosPerSecond).toNat

/-- The instant a span later, if the calendar reaches it. -/
def add? (t : Instant) (s : Span) : Option Instant :=
  let start := (t.day * 86400 + t.second) * nanosPerSecond + t.nano
  if t.isLeap then
    let nano := t.nano + s.nanos
    if -nanosPerSecond < s.nanos ∧ s.nanos < nanosPerSecond ∧ nano < 2 * nanosPerSecond then
      make? t.day t.second nano.toNat
    else if 0 < s.nanos then ofNanos? (start - nanosPerSecond + s.nanos)
    else ofNanos? (start + s.nanos)
  else ofNanos? (start + s.nanos)

/-- The span from `b` to `a`. A leap second that one of them is in counts
if the other one is at another second of the day. -/
def sub (a b : Instant) : Span :=
  let seconds : Int := (a.day - b.day) * 86400 + (a.second - b.second)
  let leap : Int :=
    if b.second < a.second && b.isLeap then 1
    else if a.second < b.second && a.isLeap then -1
    else 0
  ⟨(seconds + leap) * nanosPerSecond + (a.nano - b.nano)⟩

instance : HSub Instant Instant Span := ⟨Instant.sub⟩

theorem nano_lt_two (t : Instant) : t.nano < 2000000000 := by
  have := t.nano_lt
  omega

/-- The calendar is shorter than the longest span. -/
theorem sub_lt_limit (a b : Instant) : (a - b).nanos < Span.limit := by
  have hlast := lastDay_eq ▸ a.day_le
  have hfirst := firstDay_eq ▸ b.day_ge
  have := a.second_lt
  have := a.nano_lt_two
  show (((a.day - b.day) * 86400 + (a.second - b.second) + _) * nanosPerSecond +
    (a.nano - b.nano) : Int) < _
  unfold nanosPerSecond Span.limit Span.limitMillis
  split <;> try split
  all_goals omega

/-- It makes no difference to instants that waiting times are cut down. -/
theorem wait_le_sub {ms : Nat} {a b : Instant} (h : Span.ofWait ms ≤ a - b) :
    Span.ofMillis ms ≤ a - b := by
  have hcut : min (ms : Int) Span.limitMillis * 1000000 ≤ (a - b).nanos := h
  have hlt := sub_lt_limit a b
  show (ms : Int) * 1000000 ≤ (a - b).nanos
  unfold Span.limit at hlt
  omega

/-! ## How far back the calendar goes -/

/-- The nanoseconds since the calendar begins. -/
def age (t : Instant) : Int := ((t.day - firstDay) * 86400 + t.second) * nanosPerSecond + t.nano

theorem make?_isSome {day : Int} {second nano : Nat} :
    (make? day second nano).isSome = true ↔ firstDay ≤ day ∧ day ≤ lastDay ∧ second < 86400 ∧
      (nano < 1000000000 ∨ (second % 60 = 59 ∧ nano < 2000000000)) := by
  unfold make?
  split <;> simp_all

theorem ofNanos?_isSome {n : Int} : (ofNanos? n).isSome = true ↔
    firstDay * 86400 * nanosPerSecond ≤ n ∧ n < (lastDay + 1) * 86400 * nanosPerSecond := by
  unfold ofNanos?
  rw [make?_isSome, firstDay_eq, lastDay_eq]
  unfold nanosPerSecond
  omega

/-- Going back in time ends where the calendar begins. -/
theorem add?_neg_isSome {t : Instant} {s : Span} (h : 0 ≤ s.nanos) :
    (t.add? s.neg).isSome = true ↔ s.nanos ≤ t.age := by
  have hday := firstDay_eq ▸ t.day_ge
  have hlast := lastDay_eq ▸ t.day_le
  have hsecond := t.second_lt
  have hnano := t.nano_lt
  unfold add? age isLeap
  unfold Span.neg nanosPerSecond
  dsimp only
  split
  · next hleap =>
    rw [decide_eq_true_eq] at hleap
    split
    · rw [make?_isSome, firstDay_eq, lastDay_eq]
      omega
    · rw [if_neg (by omega), ofNanos?_isSome, firstDay_eq, lastDay_eq]
      unfold nanosPerSecond
      omega
  · next hleap =>
    rw [decide_eq_true_eq] at hleap
    rw [ofNanos?_isSome, firstDay_eq, lastDay_eq]
    unfold nanosPerSecond
    omega

/-- A day lies ahead, except on the last one. -/
theorem add?_isSome_of_day_lt {t : Instant} {s : Span} (ht : t.day < lastDay)
    (h : 0 ≤ s.nanos) (hs : s.nanos ≤ 86400 * nanosPerSecond) : (t.add? s).isSome = true := by
  have hday := firstDay_eq ▸ t.day_ge
  have hsecond := t.second_lt
  have hnano := t.nano_lt
  rw [lastDay_eq] at ht
  unfold nanosPerSecond at hs
  unfold add? isLeap nanosPerSecond
  dsimp only
  split
  · next hleap =>
    rw [decide_eq_true_eq] at hleap
    split
    · rw [make?_isSome, firstDay_eq, lastDay_eq]
      omega
    · split
      all_goals
        rw [ofNanos?_isSome, firstDay_eq, lastDay_eq]
        unfold nanosPerSecond
        omega
  · next hleap =>
    rw [decide_eq_true_eq] at hleap
    rw [ofNanos?_isSome, firstDay_eq, lastDay_eq]
    unfold nanosPerSecond
    omega

end Instant

end Hailing.Time
