import PitFleet.Heading

/-!
# Positions on the ground

Distances, bearings and displacements by a tangent plane: latitudes turn into metres by a fixed
radius of the earth, longitudes are narrowed by the cosine of the latitude they are taken from.
Altitudes are carried along and never used.
-/

namespace PitFleet

/-- Latitude and longitude in degrees, altitude in metres. -/
structure Position (α : Type) where
  latitude : α
  longitude : α
  altitude : α
  deriving BEq, Repr

variable {α : Type} [Scalar α]

def earthRadius : α := 6371000.0

/-- Metres per second in one km/h. -/
def kmh : α := 1.0 / 3.6

/-- Below this speed in m/s a vehicle does not move at all. -/
def negligibleSpeed : α := 0.01

namespace Position

/-- The distance in metres; the cosine is taken at `a` only. -/
def distance (a b : Position α) : α :=
  let north := Scalar.radians (b.latitude - a.latitude)
  let east := Scalar.radians (b.longitude - a.longitude)
  let narrowing := Scalar.cos (Scalar.radians a.latitude)
  Scalar.hypot (east * narrowing * earthRadius) (north * earthRadius)

def bearing (a b : Position α) : α :=
  let north := b.latitude - a.latitude
  let east := b.longitude - a.longitude
  let east := east * Scalar.cos (Scalar.radians a.latitude)
  Heading.normalize (Scalar.degrees (Scalar.atan2 east north))

/-- The position so many metres to the north and to the east. -/
def offset (p : Position α) (north east : α) : Position α :=
  let north := Scalar.degrees (north / earthRadius)
  let east := Scalar.degrees (east / (earthRadius * Scalar.cos (Scalar.radians p.latitude)))
  { p with latitude := p.latitude + north, longitude := p.longitude + east }

def displace (p : Position α) (metres heading : α) : Position α :=
  let angle := Scalar.radians heading
  p.offset (metres * Scalar.cos angle) (metres * Scalar.sin angle)

/-- Where a vehicle at `p` is after so many seconds at constant speed in km/h and heading. -/
def project (p : Position α) (speed heading seconds : α) : Position α :=
  let speed := speed * kmh
  if speed < negligibleSpeed then p else p.displace (speed * seconds) heading

end Position

end PitFleet
