/-!
# Spans of time

A span is a signed count of nanoseconds. Spans are kept within a limit on
both sides, as many milliseconds as a signed 64-bit number can hold; a
waiting time that a setting gives is cut down to the limit, and a difference
beyond it does not exist.
-/

namespace Hailing.Time

structure Span where
  nanos : Int
  deriving DecidableEq, Repr

namespace Span

def limitMillis : Int := 0x7fffffffffffffff

/-- Both limits, as an absolute count of nanoseconds. -/
def limit : Int := limitMillis * 1000000

def ofMillis (ms : Int) : Span := ⟨ms * 1000000⟩

def ofSeconds (s : Int) : Span := ⟨s * 1000000000⟩

instance : LE Span := ⟨fun a b => a.nanos ≤ b.nanos⟩

instance (a b : Span) : Decidable (a ≤ b) :=
  inferInstanceAs (Decidable (a.nanos ≤ b.nanos))

/-- A waiting time of a setting, at most the limit. -/
def ofWait (ms : Nat) : Span := ofMillis (min ms limitMillis)

def neg (a : Span) : Span := ⟨-a.nanos⟩

/-- The difference, if it keeps to the limits. -/
def sub? (a b : Span) : Option Span :=
  let d := a.nanos - b.nanos
  if -limit ≤ d ∧ d ≤ limit then some ⟨d⟩ else none

/-- Whole milliseconds, the fraction dropped. -/
def millis (a : Span) : Int := a.nanos.tdiv 1000000

end Span

end Hailing.Time
