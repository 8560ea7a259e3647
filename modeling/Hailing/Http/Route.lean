import Hailing.Http.Percent
import Hailing.Uuid

/-!
# Routes

The paths under which something can be asked for, each with one method. A
name in a path is taken as it is written; what it stands for is found out
later. The last name of a path cannot be empty.
-/

namespace Hailing.Http

inductive Route where
  | drivers
  | driver (id : String)
  | position (id : String)
  | availability (id : String)
  | offers (id : String)
  | reply (id order : String)
  | orders
  | order (id : String)
  | cancel (id : String)
  | complete (id : String)
  | retry (id : String)
  | driverPosition (id : String)
  | health
  | metrics
  | feed
  deriving DecidableEq, Repr

namespace Route

def ofSegments? : List String → Option Route
  | ["", "drivers"] => some .drivers
  | ["", "drivers", id] => if id = "" then none else some (.driver id)
  | ["", "drivers", id, "location"] => some (.position id)
  | ["", "drivers", id, "availability"] => some (.availability id)
  | ["", "drivers", id, "offers"] => some (.offers id)
  | ["", "drivers", id, "offers", name] =>
    if name = "" then none else some (.reply id name)
  | ["", "orders"] => some .orders
  | ["", "orders", id] => if id = "" then none else some (.order id)
  | ["", "orders", id, "cancel"] => some (.cancel id)
  | ["", "orders", id, "complete"] => some (.complete id)
  | ["", "orders", id, "retry"] => some (.retry id)
  | ["", "orders", id, "driver-location"] => some (.driverPosition id)
  | ["", "health"] => some .health
  | ["", "metrics"] => some .metrics
  | ["", "ws"] => some .feed
  | _ => none

def ofPath? (path : String) : Option Route :=
  ofSegments? ((path.toList.splitOn '/').map String.ofList)

def method : Route → String
  | .position _ => "PUT"
  | .availability _ => "PATCH"
  | .reply _ _ | .orders | .cancel _ | .complete _ | .retry _ => "POST"
  | .drivers | .driver _ | .offers _ | .order _ | .driverPosition _ | .health | .metrics
  | .feed => "GET"

/-- Whatever can be got can also be asked for without its body. -/
def allows (r : Route) (method : String) : Bool :=
  method = r.method || (method = "HEAD" && r.method = "GET")

end Route

/-- A path and the query behind it. What stands behind a hash is for the one
who asks. -/
structure Target where
  path : String
  query : String
  deriving Repr

def Target.ofString (s : String) : Target :=
  let cs := s.toList.takeWhile (· ≠ '#')
  ⟨String.ofList (cs.takeWhile (· ≠ '?')),
    String.ofList ((cs.dropWhile (· ≠ '?')).drop 1)⟩

end Hailing.Http
