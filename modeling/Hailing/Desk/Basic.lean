import Hailing.Desk.Lifecycle
import Hailing.Desk.Sweep
import Hailing.Driver.Wire

/-!
# The desk

The desk is the floor and the dockets of all orders. Every operation on an
order takes its docket out, works on the case, and puts the docket back;
an order that is not on record is refused. An operation answers and leaves a
desk behind.
-/

namespace Hailing

open Geo (Point)
open Json (Value)
open Time (Instant)

structure Desk where
  dockets : Register Docket Docket.id
  floor : Floor

namespace Desk

def opening (settings : Settings) (start : Instant) : Desk :=
  ⟨.empty, .opening settings start⟩

def settings (desk : Desk) : Settings := desk.floor.settings

def now (desk : Desk) : Instant := desk.floor.now

def docket? (desk : Desk) (order : Uuid) : Option Docket := desk.dockets.find? order

/-- Works on an order. -/
def handle {α : Type} (order : Uuid) (work : Case → Answer α × Case) (desk : Desk) :
    Answer α × Desk :=
  match desk.docket? order with
  | none => (.refused (.unknownOrder order), desk)
  | some docket =>
    let (answer, c) := work ⟨docket, desk.floor⟩
    (answer, ⟨desk.dockets.put c.docket, c.floor⟩)

/-- Work that nothing speaks against. -/
def freely {α : Type} (work : Case → Except Breakdown α × Case) (c : Case) :
    Answer α × Case :=
  let (answer, c) := work c
  (.ofExcept answer, c)

/-! ## Orders -/

structure Created where
  order : Order
  dispatch : Outcome
  deriving Repr

def Created.toValue (c : Created) : Value :=
  .record [("order", c.order.toValue), ("dispatch", c.dispatch.toValue)]

/-- The order that a request leads to, if the request is in order. -/
def draftOrder (request : Order.NewOrder) (desk : Desk) : Order :=
  { id := desk.floor.nextId
    code := desk.floor.nextCode
    rider := request.rider
    kind := request.kind
    legs := Order.buildLegs desk.settings.averageSpeed request.legs
    status := .pending
    driver? := none
    cancellation? := none
    createdAt := desk.now
    completedAt? := none }

/-- Enters a new order. -/
def enter (order : Order) (desk : Desk) : Desk :=
  { dockets := desk.dockets.put (.new order)
    floor := ((desk.floor.issue.number).openOrder order.id).count
      fun l => { l with pending := l.pending + 1 } }

/-- Enters an order and starts its search. -/
def createOrder (request : Order.NewOrder) (desk : Desk) : Answer Created × Desk :=
  match request.check with
  | .error refusal => (.refused refusal, desk)
  | .ok () =>
    let order := desk.draftOrder request
    (desk.enter order).handle order.id fun c =>
      let (outcome, c) := c.dispatch
      ((Answer.ofExcept outcome).map fun o => ⟨c.docket.order, o⟩, c)

structure Details where
  order : Order
  offers : List Offer
  searching : Bool
  deriving Repr

def Details.toValue (d : Details) : Value :=
  .record
    [ ("order", d.order.toValue),
      ("assignments", .list (d.offers.map Offer.toValue)),
      ("searching", .bool d.searching) ]

def getOrder (order : Uuid) (desk : Desk) : Answer Details :=
  match desk.docket? order with
  | none => .refused (.unknownOrder order)
  | some d => .done ⟨d.order, d.offers, d.searching⟩

def cancelOrder (order : Uuid) (reason : Order.Reason) (text : Option String) (desk : Desk) :
    Answer Order × Desk :=
  desk.handle order (·.cancel reason text)

def completeOrder (order : Uuid) (desk : Desk) : Answer Order × Desk :=
  desk.handle order (·.complete)

def driverPosition (order : Uuid) (desk : Desk) : Answer Driver.Position :=
  match desk.docket? order with
  | none => .refused (.unknownOrder order)
  | some docket => (Case.mk docket desk.floor).driverPosition

def dispatch (order : Uuid) (desk : Desk) : Answer Outcome × Desk :=
  desk.handle order (freely Case.dispatch)

def retry (order : Uuid) (desk : Desk) : Answer Outcome × Desk :=
  desk.handle order (·.retry)

def reassign (order driver : Uuid) (desk : Desk) : Answer Outcome × Desk :=
  desk.handle order (freely (·.reassign driver))

def respond (order driver : Uuid) (reply : Offer.Reply) (desk : Desk) :
    Answer Reaction × Desk :=
  desk.handle order (·.respond driver reply)

/-! ## Drivers -/

def withFleet {α : Type} (work : Fleet → α × Fleet) (desk : Desk) : α × Desk :=
  let (answer, fleet) := work desk.floor.fleet
  (answer, { desk with floor := { desk.floor with fleet := fleet } })

def reportPosition (driver : Uuid) (point : Point) (stamp : Instant) (desk : Desk) :
    Answer (Fleet.Reception × Driver) × Desk :=
  desk.withFleet (Fleet.report driver point stamp desk.now)

def setAvailability (driver : Uuid) (online : Bool) (maxPickup : Option Float) (desk : Desk) :
    Answer Driver × Desk :=
  desk.withFleet (Fleet.setAvailability driver online maxPickup)

def claimTrip (driver : Uuid) (pickup : Point) (trip : Driver.Trip) (desk : Desk) :
    Bool × Desk :=
  desk.withFleet (Fleet.claimTrip desk.settings.destinationRadius driver pickup trip)

def markFree (driver order : Uuid) (desk : Desk) : Desk :=
  (desk.withFleet fun fleet => ((), fleet.markFree driver order)).2

def candidates (excluded : List Uuid) (pickup : Point) (radius : Float) (desk : Desk) :
    Except Breakdown (List Candidate) :=
  desk.floor.fleet.candidates desk.settings pickup radius excluded desk.now

def getDriver (driver : Uuid) (desk : Desk) : Answer Driver :=
  match desk.floor.fleet.find? driver with
  | none => .refused (.unknownDriver driver)
  | some d => .done d

/-- All drivers. In which order they are listed is left open; this is one of those that
there can be. -/
def driversById (desk : Desk) : List Driver :=
  desk.floor.fleet.items.mergeSort fun a b => a.id ≤ b.id

/-! ## Offers of a driver -/

/-- The dockets of the orders that are still open. -/
def openDockets (desk : Desk) : List Docket :=
  desk.floor.openOrders.filterMap desk.docket?

/-- The whole seconds that are left of the time to answer, rounded up from
milliseconds in 64 bits, and never less than zero. -/
def remainingSeconds (window : Time.Span) (now : Instant) (o : Offer) :
    Except Breakdown Int64 :=
  match window.sub? (now - o.requestedAt) with
  | none => .error .timeOutOfRange
  | some left =>
    let seconds := (Int64.ofInt left.millis + 999) / 1000
    .ok (if seconds < 0 then 0 else seconds)

/-- The offers of a docket that a driver may still accept. -/
def views (driver : Uuid) (desk : Desk) (d : Docket) : Except Breakdown (List Offer.View) :=
  match d.isPending, d.order.pickup? with
  | true, some pickup =>
    (d.offers.filter (·.isOutstandingFor driver)).mapM fun o => do
      let remaining ← remainingSeconds desk.settings.offerSpan desk.now o
      return {
        offer := o.id
        order := d.id
        orderCode := d.order.code
        pickup := pickup
        distance := o.distance
        requestedAt := o.requestedAt
        remainingSeconds := remaining }
  | _, _ => .ok []

/-- The offers that are out to a driver. -/
def offersOf (driver : Uuid) (desk : Desk) : Except Breakdown (List Offer.View) := do
  let found ← desk.openDockets.mapM (views driver desk)
  return found.flatten.mergeSort Offer.View.precedes

/-! ## Sweeping and waking -/

/-- Sweeps the orders one after the other. -/
def sweepOrders : List Uuid → SweepReport → Desk → Except Breakdown SweepReport × Desk
  | [], report, desk => (.ok report, desk)
  | order :: rest, report, desk =>
    match desk.docket? order with
    | none => sweepOrders rest report desk
    | some docket =>
      match (Case.mk docket desk.floor).sweep report with
      | (.error breakdown, c) => (.error breakdown, ⟨desk.dockets.put c.docket, c.floor⟩)
      | (.ok report, c) => sweepOrders rest report ⟨desk.dockets.put c.docket, c.floor⟩

def sweep (desk : Desk) : Except Breakdown SweepReport × Desk :=
  let floor := desk.floor.count fun l => { l with sweeps := l.sweeps + 1 }
  sweepOrders floor.openOrders {} { desk with floor := floor }

/-- Goes on with a search that has been taken out of those asleep. The
search of an order that is no longer on record is forgotten. -/
def resume (search : Search) (desk : Desk) : Desk :=
  (desk.handle search.order (freely (·.resume search.radii))).2

/-! ## Records from outside -/

/-- The code of the next order, which no order is going to get then. -/
def takeCode (desk : Desk) : String × Desk :=
  (desk.floor.nextCode, { desk with floor := desk.floor.number })

/-- Puts a docket on record as it is. -/
def insert (docket : Docket) (isOpen : Bool) (desk : Desk) : Desk :=
  { dockets := desk.dockets.put docket
    floor := if isOpen then desk.floor.openOrder docket.id else desk.floor }

/-- Takes a docket off the record; nothing else forgets the order. -/
def remove (order : Uuid) (desk : Desk) : Bool × Desk :=
  ((desk.docket? order).isSome, { desk with dockets := desk.dockets.remove order })

/-! ## Health -/

def health (desk : Desk) : Value :=
  .record
    [ ("status", .text "ok"),
      ("drivers", .whole desk.floor.fleet.size),
      ("orders", .whole desk.dockets.size),
      ("orders_pending", .whole desk.floor.ledger.pending) ]

end Desk

end Hailing
