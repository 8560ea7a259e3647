import Hailing.Geo.Wire
import Hailing.Json.Scalar
import Hailing.Order.Request

/-!
# Orders on the wire

The fields of a record stand in the order in which a list in its place
would hold them.
-/

namespace Hailing

open Json
open Geo (Point)
open Time (Instant)

namespace Order

def Status.toValue (s : Status) : Value := .text s.word

def Status.decoder : Decoder Status := Decode.word Status.ofWord?

def Kind.toValue (k : Kind) : Value := .text k.word

def Kind.decoder : Decoder Kind := Decode.word Kind.ofWord?

def Reason.toValue (r : Reason) : Value := .text r.word

def Reason.decoder : Decoder Reason := Decode.word Reason.ofWord?

def Cancellation.toValue (c : Cancellation) : Value :=
  .record
    [ ("reason", c.reason.toValue),
      ("other_reason", .ofOption .text c.otherReason),
      ("cancelled_at", c.cancelledAt.toValue) ]

def Cancellation.decoder : Decoder Cancellation :=
  Form.decoder (Cancellation.mk <$> .required "reason" Reason.decoder
    <*> .optional "other_reason" Decode.text
    <*> .required "cancelled_at" Instant.decoder)

def Leg.toValue (leg : Leg) : Value :=
  .record
    [ ("pickup", leg.pickup.toValue),
      ("dropoff", leg.dropoff.toValue),
      ("is_final_stop", .bool leg.finalStop),
      ("ride_category", .text leg.category),
      ("distance_km", .real leg.distance),
      ("eta_minutes", .whole leg.etaMinutes.toNat),
      ("price", .ofOption .real leg.price) ]

def Leg.decoder : Decoder Leg :=
  Form.decoder (Leg.mk <$> .required "pickup" Point.decoder
    <*> .required "dropoff" Point.decoder
    <*> .required "is_final_stop" Decode.bool
    <*> .required "ride_category" Decode.text
    <*> .required "distance_km" Decode.real
    <*> .required "eta_minutes" Decode.unsigned32
    <*> .optional "price" Decode.real)

def toValue (o : Order) : Value :=
  .record
    [ ("id", o.id.toValue),
      ("code", .text o.code),
      ("rider_id", o.rider.toValue),
      ("kind", o.kind.toValue),
      ("legs", .list (o.legs.map Leg.toValue)),
      ("status", o.status.toValue),
      ("driver_id", .ofOption Uuid.toValue o.driver?),
      ("cancellation", .ofOption Cancellation.toValue o.cancellation?),
      ("created_at", o.createdAt.toValue),
      ("completed_at", .ofOption Instant.toValue o.completedAt?) ]

def decoder : Decoder Order :=
  Form.decoder (Order.mk <$> .required "id" Uuid.decoder
    <*> .required "code" Decode.text
    <*> .required "rider_id" Uuid.decoder
    <*> .required "kind" Kind.decoder
    <*> .required "legs" (Decode.list Leg.decoder)
    <*> .required "status" Status.decoder
    <*> .optional "driver_id" Uuid.decoder
    <*> .optional "cancellation" Cancellation.decoder
    <*> .required "created_at" Instant.decoder
    <*> .optional "completed_at" Instant.decoder)

/-! ## Requests -/

def NewLeg.toValue (leg : NewLeg) : Value :=
  .record
    [ ("pickup", leg.pickup.toValue),
      ("dropoff", leg.dropoff.toValue),
      ("ride_category", .ofOption .text leg.category),
      ("price", .ofOption .real leg.price) ]

def NewLeg.decoder : Decoder NewLeg :=
  Form.decoder (NewLeg.mk <$> .required "pickup" Point.decoder
    <*> .required "dropoff" Point.decoder
    <*> .optional "ride_category" Decode.text
    <*> .optional "price" Decode.real)

def NewOrder.toValue (request : NewOrder) : Value :=
  .record
    [ ("rider_id", request.rider.toValue),
      ("kind", request.kind.toValue),
      ("legs", .list (request.legs.map NewLeg.toValue)) ]

def NewOrder.decoder : Decoder NewOrder :=
  Form.decoder (NewOrder.mk <$> .required "rider_id" Uuid.decoder
    <*> .defaulted "kind" Kind.decoder .pickup
    <*> .required "legs" (Decode.list NewLeg.decoder))

/-- The body of a request to cancel an order. -/
structure Withdrawal where
  reason : Reason
  otherReason : Option String
  deriving Repr

def Withdrawal.toValue (w : Withdrawal) : Value :=
  .record
    [ ("reason", w.reason.toValue),
      ("other_reason", .ofOption .text w.otherReason) ]

def Withdrawal.decoder : Decoder Withdrawal :=
  Form.decoder (Withdrawal.mk <$> .required "reason" Reason.decoder
    <*> .optional "other_reason" Decode.text)

end Order

end Hailing
