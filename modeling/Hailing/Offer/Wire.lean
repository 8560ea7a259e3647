import Hailing.Geo.Wire
import Hailing.Json.Scalar
import Hailing.Offer.Basic

/-!
# Offers on the wire
-/

namespace Hailing

open Json
open Geo (Point)
open Time (Instant)

namespace Offer

def Status.toValue (s : Status) : Value := .text s.word

def Status.decoder : Decoder Status := Decode.word Status.ofWord?

def Reply.toValue (r : Reply) : Value := .text r.word

def Reply.decoder : Decoder Reply := Decode.word Reply.ofWord?

def toValue (o : Offer) : Value :=
  .record
    [ ("id", o.id.toValue),
      ("order_id", o.order.toValue),
      ("driver_id", o.driver.toValue),
      ("status", o.status.toValue),
      ("radius_km", .real o.radius),
      ("distance_km", .real o.distance),
      ("destination_match", .bool o.destinationMatch),
      ("requested_at", o.requestedAt.toValue),
      ("responded_at", .ofOption Instant.toValue o.respondedAt?) ]

def decoder : Decoder Offer :=
  Form.decoder (Offer.mk <$> .required "id" Uuid.decoder
    <*> .required "order_id" Uuid.decoder
    <*> .required "driver_id" Uuid.decoder
    <*> .required "status" Status.decoder
    <*> .required "radius_km" Decode.real
    <*> .required "distance_km" Decode.real
    <*> .required "destination_match" Decode.bool
    <*> .required "requested_at" Instant.decoder
    <*> .optional "responded_at" Instant.decoder)

def View.toValue (v : View) : Value :=
  .record
    [ ("assignment_id", v.offer.toValue),
      ("order_id", v.order.toValue),
      ("order_code", .text v.orderCode),
      ("pickup", v.pickup.toValue),
      ("distance_km", .real v.distance),
      ("requested_at", v.requestedAt.toValue),
      ("remaining_secs", .whole v.remainingSeconds.toInt) ]

def View.decoder : Decoder View :=
  Form.decoder (View.mk <$> .required "assignment_id" Uuid.decoder
    <*> .required "order_id" Uuid.decoder
    <*> .required "order_code" Decode.text
    <*> .required "pickup" Point.decoder
    <*> .required "distance_km" Decode.real
    <*> .required "requested_at" Instant.decoder
    <*> .required "remaining_secs" Decode.signed64)

/-- The body of a driver's answer. -/
structure Response where
  reply : Reply
  deriving DecidableEq, Repr

def Response.toValue (r : Response) : Value := .record [("action", r.reply.toValue)]

def Response.decoder : Decoder Response :=
  Form.decoder (Response.mk <$> .required "action" Reply.decoder)

end Offer

end Hailing
