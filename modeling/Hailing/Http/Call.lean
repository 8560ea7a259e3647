import Hailing.Desk.Basic
import Hailing.Http.MediaType
import Hailing.Http.Route

/-!
# Calls

A request that is understood is a call: an operation of the desk with all
that it needs. One that is not understood is rejected, and what is looked at
first decides: the names in the path, then whether the body is said to be
JSON, then the body. Whatever stands behind the value in a body is ignored.
-/

namespace Hailing.Http

open Json (Decoder Value)

structure Request where
  method : String
  target : Target
  contentType : Option String
  body : String
  deriving Repr

/-- Why a request is not understood. -/
inductive Rejection where
  | badRequest
  | notAllowed
  | unsupportedType
  | unprocessable
  deriving DecidableEq, Repr

def Rejection.status : Rejection → Nat
  | .badRequest => 400
  | .notAllowed => 405
  | .unsupportedType => 415
  | .unprocessable => 422

inductive Call where
  | drivers
  | driver (id : Uuid)
  | report (id : Uuid) (report : Driver.Report)
  | availability (id : Uuid) (availability : Driver.Availability)
  | offers (id : Uuid)
  | respond (driver order : Uuid) (reply : Offer.Reply)
  | createOrder (request : Order.NewOrder)
  | order (id : Uuid)
  | cancel (id : Uuid) (withdrawal : Order.Withdrawal)
  | complete (id : Uuid)
  | retry (id : Uuid)
  | driverPosition (id : Uuid)
  | health
  | metrics
  deriving Repr

namespace Request

/-- The identifier that a name in a path stands for. -/
def identifier (name : String) : Except Rejection Uuid :=
  match (percentDecode name).bind Uuid.ofString? with
  | some id => .ok id
  | none => .error .badRequest

/-- The body as a value of a type. -/
def json {α : Type} (r : Request) (decode : Decoder α) : Except Rejection α :=
  if (r.contentType.map isJsonType).getD false then
    match Json.readFront decode r.body with
    | .ok a => .ok a
    | .error .unfitting => .error .unprocessable
    | .error _ => .error .badRequest
  else .error .unsupportedType

/-- What the request asks for. The feed cannot be asked for in this way. -/
def call (r : Request) : Route → Except Rejection Call
  | .drivers => .ok .drivers
  | .driver id => return .driver (← identifier id)
  | .position id => do
    let id ← identifier id
    return .report id (← r.json Driver.Report.decoder)
  | .availability id => do
    let id ← identifier id
    return .availability id (← r.json Driver.Availability.decoder)
  | .offers id => return .offers (← identifier id)
  | .reply id order => do
    let id ← identifier id
    let order ← identifier order
    return .respond id order (← r.json Offer.Response.decoder).reply
  | .orders => return .createOrder (← r.json Order.NewOrder.decoder)
  | .order id => return .order (← identifier id)
  | .cancel id => do
    let id ← identifier id
    return .cancel id (← r.json Order.Withdrawal.decoder)
  | .complete id => return .complete (← identifier id)
  | .retry id => return .retry (← identifier id)
  | .driverPosition id => return .driverPosition (← identifier id)
  | .health => .ok .health
  | .metrics => .ok .metrics
  | .feed => .error (if r.method = "GET" then .badRequest else .notAllowed)

end Request

/-- What a call is answered with. -/
inductive Content where
  | value (v : Value)
  | lines (lines : List String)
  deriving Repr

namespace Call

def receptionValue (r : Fleet.Reception × Driver) : Value :=
  .record [("result", .text r.1.word), ("driver", r.2.toValue)]

/-- Does what is asked for. -/
def run (call : Call) (desk : Desk) : Answer Content × Desk :=
  let change {α : Type} (toValue : α → Value) : Answer α × Desk → Answer Content × Desk :=
    fun (answer, desk) => (answer.map fun a => .value (toValue a), desk)
  let look {α : Type} (toValue : α → Value) (answer : Answer α) : Answer Content × Desk :=
    change toValue (answer, desk)
  match call with
  | .drivers =>
    look (fun ds => .list (ds.map Driver.toValue)) (.done desk.driversById)
  | .driver id => look Driver.toValue (desk.getDriver id)
  | .report id r =>
    change receptionValue
      (desk.reportPosition id ⟨r.lat, r.lng⟩ (r.stamp.getD desk.now))
  | .availability id a => change Driver.toValue (desk.setAvailability id a.online a.maxPickup)
  | .offers id =>
    look (fun vs => .list (vs.map Offer.View.toValue)) (.ofExcept (desk.offersOf id))
  | .respond id orderId reply => change Reaction.toValue (desk.respond orderId id reply)
  | .createOrder request => change Desk.Created.toValue (desk.createOrder request)
  | .order id => look Desk.Details.toValue (desk.getOrder id)
  | .cancel id w => change Order.toValue (desk.cancelOrder id w.reason w.otherReason)
  | .complete id => change Order.toValue (desk.completeOrder id)
  | .retry id => change Outcome.toValue (desk.retry id)
  | .driverPosition id => look Driver.Position.toValue (desk.driverPosition id)
  | .health => look id (.done desk.health)
  | .metrics => (.done (.lines desk.floor.ledger.lines), desk)

end Call

end Hailing.Http
