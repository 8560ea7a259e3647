import Hailing.Desk.Floor
import Hailing.Http.Route

/-!
# The feed

Everyone who subscribes to the feed gets the notices that are sent from then
on, or of these only the ones for one recipient. A desk can be given a
gateway of its own for its notices; then the feed stays silent.
-/

namespace Hailing

/-- Where notices go. -/
inductive Delivery where
  | feed
  | gateway
  deriving DecidableEq, Repr

structure Subscription where
  recipient : Option Uuid
  /-- How many of the notices sent are not, or no longer, of interest. -/
  seen : Nat
  deriving Repr

namespace Subscription

/-- A subscription starts with what is sent next. -/
def start (recipient : Option Uuid) (sent : List Notice) : Subscription :=
  ⟨recipient, sent.length⟩

def wants (s : Subscription) (n : Notice) : Bool :=
  match s.recipient with
  | none => true
  | some recipient => recipient = n.recipient

/-- The notices that have come since the last reading. -/
def read (delivery : Delivery) (sent : List Notice) (s : Subscription) :
    List Notice × Subscription :=
  let news := match delivery with
    | .feed => (sent.drop s.seen).filter s.wants
    | .gateway => []
  (news, { s with seen := sent.length })

/-- The recipient that a query names. A query that names one twice or names
none that exists is not understood; what else it says does not matter. -/
def recipientOf? (query : String) : Option (Option Uuid) :=
  match (Http.formFields query).filter fun (name, _) => name = some "recipient" with
  | [] => some none
  | [(_, value)] => (value.bind Uuid.ofString?).map some
  | _ => none

/-- The status with which a request for a subscription is answered, and the
subscription if there is one. -/
def request (target : Http.Target) (sent : List Notice) : Nat × Option Subscription :=
  match Http.Route.ofPath? target.path with
  | some .feed =>
    match recipientOf? target.query with
    | some recipient => (101, some (start recipient sent))
    | none => (400, none)
  | _ => (404, none)

end Subscription

end Hailing
