import Hailing.Refusal

/-!
# Settings

What can be set about the dispatch of orders. Waiting times are whole
milliseconds, distances kilometres. A search starts at the first radius and
widens by a step until it reaches the largest radius, which it always tries
last; the list of these radii exists unless a step gets lost in rounding.
-/

namespace Hailing

open Time (Span)

structure Settings where
  /-- How long a driver may think about an offer. -/
  offerWindow : Nat := 25000
  sweepInterval : Nat := 5000
  firstRadius : Float := 5.0
  radiusStep : Float := 5.0
  largestRadius : Float := 20.0
  /-- How near to a pickup the trip of a busy driver has to end. -/
  destinationRadius : Float := 3.0
  /-- How long a search rests before it widens. -/
  radiusWait : Nat := 10000
  /-- How old the position of a free driver may be. -/
  freshness : Nat := 120000
  /-- How long a search that found nobody rests before it is tried again. -/
  retryAfter : Nat := 30000
  /-- In kilometres an hour. -/
  averageSpeed : Float := 30.0
  deriving Repr

/-- Radii that are tried one after the other; there is at least one. -/
structure Radii where
  first : Float
  wider : List Float
  deriving Repr

def Radii.toList (r : Radii) : List Float := r.first :: r.wider

namespace Settings

def offerSpan (s : Settings) : Span := .ofWait s.offerWindow

def freshSpan (s : Settings) : Span := .ofWait s.freshness

def retrySpan (s : Settings) : Span := .ofWait s.retryAfter

/-! ## Radii -/

/-- The radii from one on up to the largest. There are none if a step does
not make the radius larger. -/
def radiiFrom (step largest radius : Float) : Option Radii :=
  if radius < largest && 0.0 < step then
    if Decimal.orderKey radius < Decimal.orderKey (radius + step) then
      (radiiFrom step largest (radius + step)).map fun rest => ⟨radius, rest.toList⟩
    else none
  else some ⟨largest, []⟩
termination_by UInt64.size - Decimal.orderKey radius
decreasing_by
  have := Decimal.orderKey_lt radius
  have := Decimal.orderKey_lt (radius + step)
  omega

/-- The radii of a search in the order in which they are tried. -/
def radii (s : Settings) : Option Radii :=
  radiiFrom s.radiusStep s.largestRadius s.firstRadius

/-! ## What is accepted -/

def isPositive (x : Float) : Bool := x.isFinite && 0.0 < x

/-- The settings that have to be positive, by the names they are set by. -/
def positives (s : Settings) : List (String × Float) :=
  [ ("INITIAL_RADIUS_KM", s.firstRadius),
    ("RADIUS_STEP_KM", s.radiusStep),
    ("MAX_SEARCH_RADIUS_KM", s.largestRadius),
    ("DESTINATION_MATCH_RADIUS_KM", s.destinationRadius),
    ("AVERAGE_SPEED_KMH", s.averageSpeed) ]

def check (s : Settings) : Except Refusal Unit :=
  match s.positives.find? fun (_, x) => !isPositive x with
  | some (key, x) => .error (.notPositive key x)
  | none =>
    if s.largestRadius < s.firstRadius then
      .error (.radiusOrder s.largestRadius s.firstRadius)
    else if s.sweepInterval = 0 then .error .noSweepInterval
    else .ok ()

end Settings

end Hailing
