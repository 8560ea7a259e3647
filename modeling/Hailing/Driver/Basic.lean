import Hailing.Geo.Point
import Hailing.Time.Instant
import Hailing.Uuid

/-!
# Drivers

Of a driver is known where they were last, whether they are online, how far
they are ready to go for a pickup, and which confirmed trips they have. The
first trip is the one they are on; the others wait behind it.
-/

namespace Hailing

open Geo (Point)
open Time (Instant)

namespace Driver

/-- A point, and when the driver was there. -/
structure Position where
  point : Point
  updatedAt : Instant
  deriving Repr

/-- A confirmed trip and where it ends. -/
structure Trip where
  order : Uuid
  destination : Point
  deriving Repr

end Driver

structure Driver where
  id : Uuid
  online : Bool
  maxPickup? : Option Float
  position? : Option Driver.Position
  /-- Oldest first. -/
  trips : List Driver.Trip
  deriving Repr

namespace Driver

/-- A driver who has just been heard of is online. -/
def new (id : Uuid) : Driver := ⟨id, true, none, none, []⟩

def isFree (d : Driver) : Bool := d.trips.isEmpty

def currentTrip? (d : Driver) : Option Trip := d.trips.head?

/-- The distance from the end of the current trip to a pickup, if it is
below `radius`. -/
def destinationMatch? (radius : Float) (pickup : Point) (d : Driver) : Option Float := do
  let trip ← d.currentTrip?
  let distance := trip.destination.distance pickup
  if distance < radius then some distance else none

/-- A free driver can take any trip, a busy one only from near the end of
the current trip. -/
def canTake (radius : Float) (pickup : Point) (d : Driver) : Bool :=
  d.isFree || (d.destinationMatch? radius pickup).isSome

def hasTrip (order : Uuid) (d : Driver) : Bool := d.trips.any (·.order = order)

theorem hasTrip_eq_false {order : Uuid} {d : Driver} :
    d.hasTrip order = false ↔ ∀ t ∈ d.trips, t.order ≠ order := by
  simp [hasTrip]

/-- A trip is queued once. -/
def addTrip (trip : Trip) (d : Driver) : Driver :=
  if d.hasTrip trip.order then d else { d with trips := d.trips ++ [trip] }

/-- Queuing a trip changes the trips only. -/
theorem addTrip_eq (trip : Trip) (d : Driver) :
    d.addTrip trip = { d with trips := (d.addTrip trip).trips } := by
  unfold addTrip
  split <;> rfl

theorem addTrip_trips {trip : Trip} {d : Driver} (h : ∀ t ∈ d.trips, t.order ≠ trip.order) :
    (d.addTrip trip).trips = d.trips ++ [trip] := by
  have hnew : d.hasTrip trip.order = false := by simpa [hasTrip] using h
  rw [addTrip, hnew]
  rfl

theorem addTrip_of_new {trip : Trip} {d : Driver} (h : ∀ t ∈ d.trips, t.order ≠ trip.order) :
    d.addTrip trip = { d with trips := d.trips ++ [trip] } := by
  rw [addTrip_eq, addTrip_trips h]

theorem addTrip_of_hasTrip {trip : Trip} {d : Driver} (h : d.hasTrip trip.order = true) :
    d.addTrip trip = d :=
  if_pos h

def dropTrip (order : Uuid) (d : Driver) : Driver :=
  { d with trips := d.trips.filter (·.order ≠ order) }

theorem dropTrip_of_none {order : Uuid} {d : Driver} (h : ∀ t ∈ d.trips, t.order ≠ order) :
    d.dropTrip order = d := by
  rw [dropTrip, List.filter_eq_self.2 fun t ht => decide_eq_true (h t ht)]

/-- The report is newer than what is on record. -/
def isNews (moment : Instant) (d : Driver) : Bool :=
  match d.position? with
  | none => true
  | some position => position.updatedAt < moment

end Driver

end Hailing
