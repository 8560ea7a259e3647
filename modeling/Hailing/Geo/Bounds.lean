import Hailing.Geo.Point
import Hailing.Refusal

/-!
# Points on the globe

A point is taken only if it lies on the globe; of two coordinates off the
globe the latitude is named.
-/

namespace Hailing.Geo.Point

def check (p : Point) : Except Refusal Unit :=
  if !p.latInRange then .error (.latitude p.lat)
  else if !p.lngInRange then .error (.longitude p.lng)
  else .ok ()

end Hailing.Geo.Point
