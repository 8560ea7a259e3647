import Hailing.Time.Instant
import Hailing.Uuid

/-!
# Notices

Riders and drivers are told what happens to an order: the driver of every
offer, the rider when a driver is found and when the trip is over, and the
driver if a confirmed order is cancelled.
-/

namespace Hailing

open Time (Instant)

inductive Event where
  | offerCreated (order : Uuid) (code : String) (offer : Uuid) (expiresInSeconds : UInt64)
  | driverFound (order : Uuid) (code : String) (driver : Uuid)
  | orderCancelled (order : Uuid) (code : String)
  | orderCompleted (order : Uuid) (code : String)
  deriving DecidableEq, Repr

namespace Event

def order : Event → Uuid
  | .offerCreated order _ _ _ => order
  | .driverFound order _ _ => order
  | .orderCancelled order _ => order
  | .orderCompleted order _ => order

def code : Event → String
  | .offerCreated _ code _ _ => code
  | .driverFound _ code _ => code
  | .orderCancelled _ code => code
  | .orderCompleted _ code => code

end Event

structure Notice where
  recipient : Uuid
  event : Event
  sentAt : Instant
  deriving DecidableEq, Repr

end Hailing
