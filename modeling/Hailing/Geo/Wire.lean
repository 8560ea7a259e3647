import Hailing.Geo.Point
import Hailing.Json.Form

/-!
# Points on the wire
-/

namespace Hailing.Geo.Point

open Json

def toValue (p : Point) : Value :=
  .record [("lat", .real p.lat), ("lng", .real p.lng)]

def decoder : Decoder Point :=
  Form.decoder (Point.mk <$> .required "lat" Decode.real <*> .required "lng" Decode.real)

end Hailing.Geo.Point
