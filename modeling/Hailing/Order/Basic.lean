import Hailing.Geo.Point
import Hailing.Order.Status
import Hailing.Refusal
import Hailing.Text.Blank

/-!
# Orders

An order is a trip of one or more legs for one rider. It is searched for a
driver around the pickup of its first leg, and it ends where its final stop
is. Who drives it, when it was completed and why it was cancelled are filled
in as it goes through its stages.
-/

namespace Hailing

open Geo (Point)
open Time (Instant)

namespace Order

structure Leg where
  pickup : Point
  dropoff : Point
  finalStop : Bool
  category : String
  /-- In kilometres, to two places. -/
  distance : Float
  etaMinutes : UInt32
  price : Option Float
  deriving Repr

structure Cancellation where
  reason : Reason
  otherReason : Option String
  cancelledAt : Instant
  deriving DecidableEq, Repr

/-- What is left of a text that was typed in, if anything is. -/
def entered? (text : Option String) : Option String :=
  (text.map Text.trim).filter (· ≠ "")

/-- The reason `other` asks for a text, the others drop it. -/
def Cancellation.make (reason : Reason) (text : Option String) (moment : Instant) :
    Except Refusal Cancellation :=
  match reason, entered? text with
  | .other, none => .error .reasonMissing
  | .other, some text => .ok ⟨.other, some text, moment⟩
  | reason, _ => .ok ⟨reason, none, moment⟩

/-- Order numbers have at least six digits. -/
def codeOf (number : UInt64) : String :=
  String.ofList ("ORD-".toList ++ Text.padded 6 number.toNat)

end Order

structure Order where
  id : Uuid
  code : String
  rider : Uuid
  kind : Order.Kind
  legs : List Order.Leg
  status : Order.Status
  driver? : Option Uuid
  cancellation? : Option Order.Cancellation
  createdAt : Instant
  completedAt? : Option Instant
  deriving Repr

namespace Order

/-- Where a driver is searched for. -/
def pickup? (o : Order) : Option Point := o.legs.head?.map (·.pickup)

/-- Where the driver is free again: the end of the first leg that is marked
as the final stop, or of the last leg if none is. -/
def destination? (o : Order) : Option Point :=
  ((o.legs.find? (·.finalStop)).or o.legs.getLast?).map (·.dropoff)

def isPending (o : Order) : Bool := o.status = .pending

end Order

end Hailing
