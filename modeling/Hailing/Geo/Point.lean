/-!
# Points and distances

A point is a latitude and a longitude in degrees. Distances are measured
along great circles of a sphere, in kilometres. Whatever is compared with a
radius is first rounded to the millimetre, so that a point placed at an
exact distance lies on the boundary and not beside it.
-/

namespace Hailing.Geo

structure Point where
  lat : Float
  lng : Float
  deriving Repr, Inhabited

def earthRadius : Float := 6371.0

def radiansPerDegree : Float := 3.141592653589793 / 180.0

def degreesPerRadian : Float := 180.0 / 3.141592653589793

namespace Point

/-- A latitude on the globe. What is not a number is not on it. -/
def latInRange (p : Point) : Bool := -90.0 ≤ p.lat && p.lat ≤ 90.0

def lngInRange (p : Point) : Bool := -180.0 ≤ p.lng && p.lng ≤ 180.0

/-- The great-circle distance by the haversine formula. -/
def haversine (a b : Point) : Float :=
  let sinLat := ((b.lat - a.lat) * radiansPerDegree / 2.0).sin
  let sinLng := ((b.lng - a.lng) * radiansPerDegree / 2.0).sin
  let cosA := (a.lat * radiansPerDegree).cos
  let cosB := (b.lat * radiansPerDegree).cos
  let h := sinLat * sinLat + cosA * cosB * sinLng * sinLng
  earthRadius * (2.0 * h.sqrt.asin)

/-- The distance rounded to the millimetre. -/
def distance (a b : Point) : Float :=
  (a.haversine b * 1000000.0).round / 1000000.0

/-- The point reached by going `km` due north along the meridian. -/
def offsetNorth (p : Point) (km : Float) : Point :=
  { p with lat := p.lat + km / earthRadius * degreesPerRadian }

end Point

end Hailing.Geo
