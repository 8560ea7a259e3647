import Hailing.Geo.Point
import Hailing.Time.Instant
import Hailing.Uuid

/-!
# Offers

An offer puts one order to one driver. It is outstanding until the driver
answers or the time runs out, and then it is resolved for good.
-/

namespace Hailing

open Geo (Point)
open Time (Instant)

namespace Offer

inductive Status where
  | requested
  | accepted
  | rejected
  | timeout
  deriving DecidableEq, Repr

namespace Status

def word : Status → String
  | .requested => "requested"
  | .accepted => "accepted"
  | .rejected => "rejected"
  | .timeout => "timeout"

def ofWord? : String → Option Status
  | "requested" => some .requested
  | "accepted" => some .accepted
  | "rejected" => some .rejected
  | "timeout" => some .timeout
  | _ => none

theorem ofWord?_word (s : Status) : ofWord? s.word = some s := by
  cases s <;> rfl

end Status

/-- A driver's answer to an offer. -/
inductive Reply where
  | accept
  | reject
  deriving DecidableEq, Repr

namespace Reply

def word : Reply → String
  | .accept => "accept"
  | .reject => "reject"

def ofWord? : String → Option Reply
  | "accept" => some .accept
  | "reject" => some .reject
  | _ => none

theorem ofWord?_word (r : Reply) : ofWord? r.word = some r := by
  cases r <;> rfl

end Reply

end Offer

structure Offer where
  id : Uuid
  order : Uuid
  driver : Uuid
  status : Offer.Status
  /-- The radius of the search that found the driver. -/
  radius : Float
  distance : Float
  /-- The driver is still on a trip that ends near the pickup. -/
  destinationMatch : Bool
  requestedAt : Instant
  respondedAt? : Option Instant
  deriving Repr

namespace Offer

def isOutstanding (o : Offer) : Bool := o.status = .requested

/-- An outstanding offer with its outcome; a resolved one has its outcome
already, and being outstanding is none. -/
def resolve? (o : Offer) (status : Status) (moment : Instant) : Option Offer :=
  if o.isOutstanding && status ≠ .requested then
    some { o with status := status, respondedAt? := some moment }
  else none

def isOutstandingFor (driver : Uuid) (o : Offer) : Bool :=
  o.isOutstanding && o.driver = driver

/-- An outstanding offer as the driver gets to see it. -/
structure View where
  offer : Uuid
  order : Uuid
  orderCode : String
  pickup : Point
  distance : Float
  requestedAt : Instant
  remainingSeconds : Int64
  deriving Repr

/-- The oldest first. Of two equally old ones either may be listed first; that it is the
one with the smaller code is one way to decide it. -/
def View.precedes (a b : View) : Bool :=
  a.requestedAt < b.requestedAt ||
    (a.requestedAt ≤ b.requestedAt && a.orderCode ≤ b.orderCode)

end Offer

end Hailing
