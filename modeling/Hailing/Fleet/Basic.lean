import Hailing.Driver.Basic
import Hailing.Geo.Bounds
import Hailing.Register

/-!
# The fleet

Every driver who has ever reported a position, set their availability or
taken a trip is on record. A position report counts only if it is newer than
what is on record, so reports may arrive in any order; one from too far in
the future is refused, as it would silence the driver for a while.
-/

namespace Hailing

open Geo (Point)
open Time (Instant Span)

abbrev Fleet := Register Driver Driver.id

namespace Fleet

/-- How far a driver's clock may run ahead. -/
def tolerance : Span := .ofSeconds 30

/-- The driver as they are on record, or a new one. -/
def driver (fleet : Fleet) (id : Uuid) : Driver :=
  (fleet.find? id).getD (.new id)

/-- What became of a report. -/
inductive Reception where
  | applied
  | ignored
  deriving DecidableEq, Repr

def Reception.word : Reception → String
  | .applied => "applied"
  | .ignored => "ignored"

/-- A driver was at `point` at the time of `stamp`. -/
def report (id : Uuid) (point : Point) (stamp now : Instant) (fleet : Fleet) :
    Answer (Reception × Driver) × Fleet :=
  match point.check with
  | .error refusal => (.refused refusal, fleet)
  | .ok () =>
    match now.add? tolerance with
    | none => (.broken .timeOutOfRange, fleet)
    | some latest =>
      if latest < stamp then (.refused (.reportAhead stamp now), fleet)
      else
        let driver := fleet.driver id
        if driver.isNews stamp then
          let driver := { driver with position? := some ⟨point, stamp⟩ }
          (.done (.applied, driver), fleet.put driver)
        else (.done (.ignored, driver), fleet)

/-- A limit for the way to a pickup is a finite number above zero. -/
def checkPickupLimit : Option Float → Except Refusal Unit
  | none => .ok ()
  | some km => if km.isFinite && 0.0 < km then .ok () else .error (.pickupLimit km)

def setAvailability (id : Uuid) (online : Bool) (maxPickup : Option Float)
    (fleet : Fleet) : Answer Driver × Fleet :=
  match checkPickupLimit maxPickup with
  | .error refusal => (.refused refusal, fleet)
  | .ok () =>
    let driver := { fleet.driver id with online := online, maxPickup? := maxPickup }
    (.done driver, fleet.put driver)

/-- Queues a trip if the driver can still take one from `pickup`. -/
def claimTrip (radius : Float) (id : Uuid) (pickup : Point) (trip : Driver.Trip)
    (fleet : Fleet) : Bool × Fleet :=
  let driver := fleet.driver id
  if driver.canTake radius pickup then (true, fleet.put (driver.addTrip trip))
  else (false, fleet)

/-- Takes a trip off a driver; the other trips stay. -/
def markFree (id order : Uuid) (fleet : Fleet) : Fleet :=
  match fleet.find? id with
  | none => fleet
  | some driver => fleet.put (driver.dropTrip order)

/-! ## Drivers stay on record -/

section Known

variable {fleet : Fleet} {other : Uuid}

theorem report_known {id : Uuid} {point : Point} {stamp now : Instant}
    (h : (fleet.find? other).isSome = true) :
    ((fleet.report id point stamp now).2.find? other).isSome = true := by
  unfold report
  split
  · exact h
  · split
    · exact h
    · dsimp only
      split
      · exact h
      · split
        · exact Register.find?_put_isSome h
        · exact h

theorem setAvailability_known {id : Uuid} {online : Bool} {maxPickup : Option Float}
    (h : (fleet.find? other).isSome = true) :
    ((fleet.setAvailability id online maxPickup).2.find? other).isSome = true := by
  unfold setAvailability
  split
  · exact h
  · exact Register.find?_put_isSome h

theorem claimTrip_known {radius : Float} {id : Uuid} {pickup : Point}
    {trip : Driver.Trip} (h : (fleet.find? other).isSome = true) :
    ((fleet.claimTrip radius id pickup trip).2.find? other).isSome = true := by
  unfold claimTrip
  dsimp only
  split
  · exact Register.find?_put_isSome h
  · exact h

theorem markFree_known {id order : Uuid} (h : (fleet.find? other).isSome = true) :
    ((fleet.markFree id order).find? other).isSome = true := by
  unfold markFree
  split
  · exact h
  · exact Register.find?_put_isSome h

end Known

/-! ## The trips of a driver -/

section Trips

variable {fleet : Fleet} {id other : Uuid}

@[simp] theorem driver_id : (fleet.driver id).id = id := by
  unfold driver
  cases h : fleet.find? id with
  | none => rfl
  | some d => exact Register.key_of_find? h

theorem driver_of_find? {d : Driver} (h : fleet.find? id = some d) : fleet.driver id = d := by
  rw [driver, h]
  rfl

/-- Whoever is on a trip is on record. -/
theorem find?_of_trips (h : (fleet.driver id).trips ≠ []) :
    fleet.find? id = some (fleet.driver id) := by
  cases hd : fleet.find? id with
  | none =>
      rw [driver, hd] at h
      exact absurd rfl h
  | some d => rw [driver_of_find? hd]

theorem driver_put (d : Driver) :
    driver (fleet.put d) other = if d.id = other then d else fleet.driver other := by
  unfold driver
  rw [Register.find?_put]
  split <;> rfl

theorem put_trips {d : Driver} (hd : d.id = id) (ht : d.trips = (fleet.driver id).trips) :
    (driver (fleet.put d) other).trips = (fleet.driver other).trips := by
  rw [driver_put]
  split
  · next he => rw [ht, ← hd, he]
  · rfl

theorem report_trips {point : Point} {stamp now : Instant} :
    ((fleet.report id point stamp now).2.driver other).trips =
      (fleet.driver other).trips := by
  unfold report
  split
  · rfl
  · split
    · rfl
    · dsimp only
      split
      · rfl
      · split
        · exact put_trips driver_id rfl
        · rfl

theorem setAvailability_trips {online : Bool} {maxPickup : Option Float} :
    ((fleet.setAvailability id online maxPickup).2.driver other).trips =
      (fleet.driver other).trips := by
  unfold setAvailability
  split
  · rfl
  · exact put_trips driver_id rfl

theorem claimTrip_trips {radius : Float} {pickup : Point} {trip : Driver.Trip}
    (h : (fleet.claimTrip radius id pickup trip).1 = true) :
    ((fleet.claimTrip radius id pickup trip).2.driver other).trips =
      if id = other then ((fleet.driver id).addTrip trip).trips
      else (fleet.driver other).trips := by
  have hid : ((fleet.driver id).addTrip trip).id = id := by
    rw [Driver.addTrip_eq]
    exact driver_id
  unfold claimTrip at h ⊢
  dsimp only at h ⊢
  split at h
  · next hc =>
      rw [if_pos hc, driver_put, hid]
      split <;> rfl
  · cases h

theorem markFree_trips {order : Uuid} :
    ((fleet.markFree id order).driver other).trips =
      if id = other then (fleet.driver other).trips.filter (·.order ≠ order)
      else (fleet.driver other).trips := by
  unfold markFree
  cases h : fleet.find? id with
  | none =>
      dsimp only
      split
      · next he => simp [driver, ← he, h, Driver.new]
      · rfl
  | some d =>
      have hid : d.id = id := Register.key_of_find? h
      dsimp only
      rw [driver_put, show (d.dropTrip order).id = id from hid]
      split
      · next he => simp [driver, ← he, h, Driver.dropTrip]
      · rfl

end Trips

/-! ## Where a driver was last -/

/-- Where the driver was last, as far as is known. -/
def position? (fleet : Fleet) (id : Uuid) : Option Driver.Position :=
  (fleet.find? id).bind (·.position?)

section Positions

variable {fleet : Fleet} {id other : Uuid}

theorem driver_position? : (fleet.driver id).position? = fleet.position? id := by
  unfold driver position?
  cases fleet.find? id <;> rfl

theorem position?_put (d : Driver) :
    position? (fleet.put d) other =
      if d.id = other then d.position? else fleet.position? other := by
  unfold position?
  rw [Register.find?_put]
  split <;> rfl

/-- An entry that leaves the position of its driver as it was leaves all
positions as they were. -/
theorem position?_put_of_eq {d : Driver} (hd : d.id = id)
    (hp : d.position? = fleet.position? id) :
    position? (fleet.put d) other = fleet.position? other := by
  rw [position?_put]
  split
  · next he => rw [hp, ← hd, he]
  · rfl

theorem setAvailability_position? {online : Bool} {maxPickup : Option Float} :
    (fleet.setAvailability id online maxPickup).2.position? other = fleet.position? other := by
  unfold setAvailability
  split
  · rfl
  · exact position?_put_of_eq driver_id driver_position?

theorem claimTrip_position? {radius : Float} {pickup : Point} {trip : Driver.Trip} :
    (fleet.claimTrip radius id pickup trip).2.position? other = fleet.position? other := by
  unfold claimTrip
  dsimp only
  split
  · rw [Driver.addTrip_eq]
    exact position?_put_of_eq driver_id driver_position?
  · rfl

theorem markFree_position? {order : Uuid} :
    (fleet.markFree id order).position? other = fleet.position? other := by
  unfold markFree
  cases h : fleet.find? id with
  | none => rfl
  | some d =>
      have hid : d.id = id := Register.key_of_find? h
      have hp : (d.dropTrip order).position? = fleet.position? id := by
        rw [position?, h]
        rfl
      exact position?_put_of_eq hid hp

/-- A report is refused or breaks down, is old news, or moves its driver. -/
theorem report_cases (id : Uuid) (point : Point) (stamp now : Instant) (fleet : Fleet) :
    (fleet.report id point stamp now).2 = fleet ∧
        (∀ answer, (fleet.report id point stamp now).1 ≠ .done answer) ∨
      (fleet.report id point stamp now).2 = fleet ∧
        (∃ d, (fleet.report id point stamp now).1 = .done (.ignored, d)) ∧
        (∃ position, fleet.position? id = some position ∧ stamp ≤ position.updatedAt) ∨
      (∃ d, (fleet.report id point stamp now).1 = .done (.applied, d)) ∧
        (∀ position, fleet.position? id = some position → position.updatedAt < stamp) ∧
        ∀ other, (fleet.report id point stamp now).2.position? other =
          if id = other then some ⟨point, stamp⟩ else fleet.position? other := by
  unfold report
  split
  · exact .inl ⟨rfl, fun _ h => by cases h⟩
  · split
    · exact .inl ⟨rfl, fun _ h => by cases h⟩
    · dsimp only
      split
      · exact .inl ⟨rfl, fun _ h => by cases h⟩
      · split
        · next hnews =>
          refine .inr (.inr ⟨⟨_, rfl⟩, fun position hp => ?_, fun other => ?_⟩)
          · rw [Driver.isNews, driver_position?, hp] at hnews
            exact of_decide_eq_true hnews
          · rw [position?_put, driver_id]
        · next hnews =>
          refine .inr (.inl ⟨rfl, ⟨_, rfl⟩, ?_⟩)
          rw [Driver.isNews, driver_position?] at hnews
          cases hp : fleet.position? id with
          | none => simp [hp] at hnews
          | some position =>
              rw [hp] at hnews
              exact ⟨position, rfl, Instant.not_lt.1 fun h => hnews (decide_eq_true h)⟩

end Positions

end Fleet

end Hailing
