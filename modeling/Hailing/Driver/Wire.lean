import Hailing.Driver.Basic
import Hailing.Geo.Wire
import Hailing.Json.Scalar

/-!
# Drivers on the wire
-/

namespace Hailing

open Json
open Geo (Point)
open Time (Instant)

namespace Driver

def Position.toValue (p : Position) : Value :=
  .record [("point", p.point.toValue), ("updated_at", p.updatedAt.toValue)]

def Position.decoder : Decoder Position :=
  Form.decoder (Position.mk <$> .required "point" Point.decoder
    <*> .required "updated_at" Instant.decoder)

def Trip.toValue (t : Trip) : Value :=
  .record [("order_id", t.order.toValue), ("destination", t.destination.toValue)]

def Trip.decoder : Decoder Trip :=
  Form.decoder (Trip.mk <$> .required "order_id" Uuid.decoder
    <*> .required "destination" Point.decoder)

def toValue (d : Driver) : Value :=
  .record
    [ ("id", d.id.toValue),
      ("online", .bool d.online),
      ("max_pickup_km", .ofOption .real d.maxPickup?),
      ("location", .ofOption Position.toValue d.position?),
      ("active_trips", .list (d.trips.map Trip.toValue)) ]

def decoder : Decoder Driver :=
  Form.decoder (Driver.mk <$> .required "id" Uuid.decoder
    <*> .required "online" Decode.bool
    <*> .optional "max_pickup_km" Decode.real
    <*> .optional "location" Position.decoder
    <*> .required "active_trips" (Decode.list Trip.decoder))

/-! ## Requests -/

/-- The body of a position report. Without a time it counts as of now. -/
structure Report where
  lat : Float
  lng : Float
  stamp : Option Instant
  deriving Repr

def Report.toValue (r : Report) : Value :=
  .record
    [ ("lat", .real r.lat),
      ("lng", .real r.lng),
      ("at", .ofOption Instant.toValue r.stamp) ]

def Report.decoder : Decoder Report :=
  Form.decoder (Report.mk <$> .required "lat" Decode.real
    <*> .required "lng" Decode.real
    <*> .optional "at" Instant.decoder)

/-- The body of a change of availability. -/
structure Availability where
  online : Bool
  maxPickup : Option Float
  deriving Repr

def Availability.toValue (a : Availability) : Value :=
  .record [("online", .bool a.online), ("max_pickup_km", .ofOption .real a.maxPickup)]

def Availability.decoder : Decoder Availability :=
  Form.decoder (Availability.mk <$> .required "online" Decode.bool
    <*> .optional "max_pickup_km" Decode.real)

end Driver

end Hailing
