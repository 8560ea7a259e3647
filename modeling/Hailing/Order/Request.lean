import Hailing.Geo.Bounds
import Hailing.Order.Basic

/-!
# Requests for orders

A request names the rider and the legs of the trip. It is checked leg by
leg, and within a leg the pickup, the dropoff and the price in this order;
the first fault decides. What the request leaves out is filled in: the
category, the distance and the expected duration of a leg, and which leg is
the last.
-/

namespace Hailing.Order

open Geo (Point)

structure NewLeg where
  pickup : Point
  dropoff : Point
  category : Option String
  price : Option Float
  deriving Repr

structure NewOrder where
  rider : Uuid
  kind : Kind
  legs : List NewLeg
  deriving Repr

def defaultCategory : String := "standard"

/-- A price is a finite number and not below zero. -/
def checkPrice : Option Float → Except Refusal Unit
  | none => .ok ()
  | some price =>
    if price.isFinite && 0.0 ≤ price then .ok () else .error (.price price)

/-- Whole minutes, rounded up and at least one. -/
def etaMinutes (distance speed : Float) : UInt32 :=
  let minutes := (distance / speed * 60.0).ceil
  if 1.0 ≤ minutes then minutes.toUInt32 else 1

def NewLeg.check (leg : NewLeg) : Except Refusal Unit := do
  leg.pickup.check
  leg.dropoff.check
  checkPrice leg.price

/-- The leg of the order that a requested leg turns into. -/
def NewLeg.build (speed : Float) (finalStop : Bool) (leg : NewLeg) : Leg :=
  let distance := leg.pickup.haversine leg.dropoff
  { pickup := leg.pickup
    dropoff := leg.dropoff
    finalStop := finalStop
    category := (entered? leg.category).getD defaultCategory
    distance := (distance * 100.0).round / 100.0
    etaMinutes := etaMinutes distance speed
    price := leg.price }

/-- The legs of the order; the last one is the final stop. -/
def buildLegs (speed : Float) : List NewLeg → List Leg
  | [] => []
  | [leg] => [leg.build speed true]
  | leg :: rest => leg.build speed false :: buildLegs speed rest

def NewOrder.check (request : NewOrder) : Except Refusal Unit :=
  if request.legs.isEmpty then .error .noLegs
  else request.legs.forM (·.check)

/-! ## The legs of an order -/

theorem buildLegs_eq_nil {speed : Float} {legs : List NewLeg} :
    buildLegs speed legs = [] ↔ legs = [] := by
  cases legs with
  | nil => simp [buildLegs]
  | cons leg rest => cases rest <;> simp [buildLegs]

/-- The final stop is the last leg and no other. -/
theorem find?_finalStop_buildLegs (speed : Float) (legs : List NewLeg) :
    (buildLegs speed legs).find? (·.finalStop) = (buildLegs speed legs).getLast? := by
  fun_induction buildLegs speed legs with
  | case1 => rfl
  | case2 leg => rfl
  | case3 leg rest hrest ih =>
      have hne : buildLegs speed rest ≠ [] := fun h => hrest (buildLegs_eq_nil.1 h)
      rw [List.find?_cons_of_neg (by simp [NewLeg.build]), ih, List.getLast?_cons]
      cases hl : (buildLegs speed rest).getLast? with
      | none => exact absurd (List.getLast?_eq_none_iff.1 hl) hne
      | some last => rfl

/-- An order ends where its last leg does. -/
theorem destination?_of_built {o : Order} {speed : Float} {legs : List NewLeg}
    (h : o.legs = buildLegs speed legs) :
    o.destination? = o.legs.getLast?.map (·.dropoff) := by
  rw [destination?, h, find?_finalStop_buildLegs, Option.or_self]

theorem NewOrder.legs_ne_nil {request : NewOrder} (h : request.check = .ok ()) :
    request.legs ≠ [] := by
  unfold check at h
  split at h
  · cases h
  · next hn => simpa using hn

end Hailing.Order
