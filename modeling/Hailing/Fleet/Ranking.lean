import Hailing.Fleet.Basic
import Hailing.Json.Scalar
import Hailing.Settings.Basic

/-!
# Who is asked first

For a pickup and a radius the drivers who come into question are ranked. The
free ones come first: online, seen recently, inside of the radius and of
their own limit. Behind them come the busy ones whose current trip ends near
the pickup; the radius does not matter for them. In each group the nearest
is first, and of two equally near ones the one with the smaller identifier.
-/

namespace Hailing

open Geo (Point)
open Json (Value)
open Time (Instant)

structure Candidate where
  driver : Uuid
  distance : Float
  destinationMatch : Bool
  deriving Repr

namespace Candidate

def precedes (a b : Candidate) : Bool :=
  let x := Decimal.orderKey a.distance
  let y := Decimal.orderKey b.distance
  x < y || (x = y && a.driver ≤ b.driver)

def toValue (c : Candidate) : Value :=
  .record
    [ ("driver_id", c.driver.toValue),
      ("distance_km", .real c.distance),
      ("destination_match", .bool c.destinationMatch) ]

end Candidate

/-- The smaller of two numbers; what is not a number does not count. -/
def lesser (x y : Float) : Float :=
  if x.isNaN then y else if y.isNaN then x else if x < y then x else y

namespace Driver

/-- How far from the pickup the driver may be. -/
def reach (radius : Float) (d : Driver) : Float :=
  match d.maxPickup? with
  | none => radius
  | some limit => lesser limit radius

/-- A free driver who was seen at `cutoff` or later and is near enough. -/
def asFree? (pickup : Point) (radius : Float) (cutoff : Instant) (d : Driver) :
    Option Candidate :=
  if d.isFree then
    match d.position? with
    | none => none
    | some position =>
      let distance := position.point.distance pickup
      if cutoff ≤ position.updatedAt && distance ≤ d.reach radius then
        some ⟨d.id, distance, false⟩
      else none
  else none

/-- A busy driver whose trip ends near the pickup. -/
def asBusy? (pickup : Point) (destinationRadius : Float) (d : Driver) : Option Candidate :=
  (d.destinationMatch? destinationRadius pickup).map fun distance =>
    ⟨d.id, distance, true⟩

end Driver

namespace Fleet

/-- The drivers who may be asked at all. -/
def available (fleet : Fleet) (excluded : List Uuid) : List Driver :=
  fleet.items.filter fun d => d.online && !excluded.contains d.id

def freeCandidates (fleet : Fleet) (pickup : Point) (radius : Float)
    (excluded : List Uuid) (cutoff : Instant) : List Candidate :=
  ((fleet.available excluded).filterMap (·.asFree? pickup radius cutoff)).mergeSort
    Candidate.precedes

def busyCandidates (fleet : Fleet) (pickup : Point) (destinationRadius : Float)
    (excluded : List Uuid) : List Candidate :=
  ((fleet.available excluded).filterMap (·.asBusy? pickup destinationRadius)).mergeSort
    Candidate.precedes

/-- The oldest time from which a position counts. -/
def cutoff (settings : Settings) (now : Instant) : Except Breakdown Instant :=
  match now.add? settings.freshSpan.neg with
  | some t => .ok t
  | none => .error .cutoffOutOfRange

/-- The drivers for a pickup, best first. -/
def candidates (settings : Settings) (fleet : Fleet) (pickup : Point) (radius : Float)
    (excluded : List Uuid) (now : Instant) : Except Breakdown (List Candidate) := do
  let cutoff ← cutoff settings now
  return fleet.freeCandidates pickup radius excluded cutoff ++
    fleet.busyCandidates pickup settings.destinationRadius excluded

/-! ## Who comes into question -/

theorem mem_available {fleet : Fleet} {excluded : List Uuid} {d : Driver} :
    d ∈ fleet.available excluded ↔ d ∈ fleet.items ∧ d.online = true ∧ d.id ∉ excluded := by
  simp [available]

/-- A free driver who is asked is known to be somewhere. -/
theorem asFree?_spec {pickup : Point} {radius : Float} {cutoff : Instant} {d : Driver}
    {candidate : Candidate} (h : d.asFree? pickup radius cutoff = some candidate) :
    candidate.driver = d.id ∧ d.position?.isSome = true := by
  unfold Driver.asFree? at h
  split at h
  · split at h
    · cases h
    · next position hp =>
      dsimp only at h
      split at h
      · cases h
        exact ⟨rfl, by rw [hp]; rfl⟩
      · cases h
  · cases h

/-- A busy driver who is asked is on a trip. -/
theorem asBusy?_spec {pickup : Point} {radius : Float} {d : Driver}
    {candidate : Candidate} (h : d.asBusy? pickup radius = some candidate) :
    candidate.driver = d.id ∧ d.trips ≠ [] := by
  obtain ⟨_, hm, rfl⟩ := Option.map_eq_some_iff.1 h
  refine ⟨rfl, fun hn => ?_⟩
  rw [Driver.destinationMatch?, Driver.currentTrip?, hn] at hm
  cases hm

/-- A candidate is an available driver who is known to be somewhere or is on a
trip. -/
theorem mem_candidates {settings : Settings} {fleet : Fleet} {pickup : Point}
    {radius : Float} {excluded : List Uuid} {now : Instant} {ranked : List Candidate}
    (h : candidates settings fleet pickup radius excluded now = .ok ranked)
    {candidate : Candidate} (hm : candidate ∈ ranked) :
    ∃ d ∈ fleet.available excluded, candidate.driver = d.id ∧
      (d.position?.isSome = true ∨ d.trips ≠ []) := by
  unfold candidates at h
  cases hc : cutoff settings now with
  | error breakdown => rw [hc] at h; cases h
  | ok since =>
      rw [hc] at h
      cases h
      rcases List.mem_append.1 hm with hm | hm
      · obtain ⟨d, hd, hf⟩ := List.mem_filterMap.1 (List.mem_mergeSort.1 hm)
        exact ⟨d, hd, (asFree?_spec hf).1, .inl (asFree?_spec hf).2⟩
      · obtain ⟨d, hd, hf⟩ := List.mem_filterMap.1 (List.mem_mergeSort.1 hm)
        exact ⟨d, hd, (asBusy?_spec hf).1, .inr (asBusy?_spec hf).2⟩

end Fleet

end Hailing
