import Hailing.Desk.Case
import Hailing.Order.Wire
import Hailing.Offer.Wire

/-!
# The life of an order

A driver who accepts an offer gets the trip and the order is confirmed; one
who rejects it is not asked again, and if the order still waits the search
goes on at once. An order can be cancelled until it is completed. An offer
that was out when its order was cancelled stays on the docket: it can no
longer be accepted, and whatever resolves it starts no search.
-/

namespace Hailing

open Json (Value)

/-- What the answer to an offer led to. -/
structure Reaction where
  offer : Offer
  orderStatus : Order.Status
  /-- What became of the search that a rejection started. -/
  next? : Option Outcome
  deriving Repr

def Reaction.toValue (r : Reaction) : Value :=
  .record
    [ ("assignment", r.offer.toValue),
      ("order_status", r.orderStatus.toValue),
      ("next", .ofOption Outcome.toValue r.next?) ]

namespace Case

/-- Queues the trip with the driver. An order without legs has no trip. -/
def claim (driver : Uuid) (c : Case) : Bool × Case :=
  match c.docket.order.pickup?, c.docket.order.destination? with
  | some pickup, some destination =>
    let (claimed, fleet) := c.floor.fleet.claimTrip c.floor.settings.destinationRadius
      driver pickup ⟨c.docket.id, destination⟩
    (claimed, c.onFloor fun f => { f with fleet := fleet })
  | _, _ => (true, c)

/-- The order has found its driver. -/
def confirm (driver : Uuid) (c : Case) : Case :=
  c.onDocket fun d =>
    { d with
      order := { d.order with status := .confirmed, driver? := some driver }
      searching := false }

def notify (recipient : Uuid) (event : Event) (c : Case) : Case :=
  c.onFloor (·.notify recipient event)

/-- Resolves an outstanding offer of the docket. -/
def resolve (offer : Offer) (status : Offer.Status) (c : Case) : Offer × Case :=
  let (resolved, docket) := c.docket.resolve offer status c.floor.now
  (resolved, { c with docket := docket })

def accept (offer : Offer) (c : Case) : Answer Reaction × Case :=
  match c.claim offer.driver with
  | (false, c) => (.refused (.tripElsewhere c.docket.id offer.driver), c)
  | (true, c) =>
    let (resolved, c) := c.resolve offer .accepted
    let c := c.confirm offer.driver
    let c := c.notify c.docket.order.rider
      (.driverFound c.docket.id c.docket.order.code offer.driver)
    let c := c.count fun l => { l with accepted := l.accepted + 1, pending := l.pending - 1 }
    let c := c.settle
    (.done ⟨resolved, c.docket.order.status, none⟩, c)

def reject (offer : Offer) (c : Case) : Answer Reaction × Case :=
  let (resolved, c) := c.resolve offer .rejected
  let c := c.count fun l => { l with rejected := l.rejected + 1 }
  if c.docket.isPending then
    let (outcome, c) := c.reassign offer.driver
    ((Answer.ofExcept outcome).map fun o => ⟨resolved, c.docket.order.status, some o⟩, c)
  else
    let c := (c.onDocket (·.exclude offer.driver)).settle
    (.done ⟨resolved, c.docket.order.status, none⟩, c)

/-- A driver answers the offer that is out to them. -/
def respond (driver : Uuid) (reply : Offer.Reply) (c : Case) : Answer Reaction × Case :=
  if reply = .accept && !c.docket.isPending then
    (.refused (.notAcceptable c.docket.id c.docket.order.status), c)
  else
    match c.docket.offerTo? driver with
    | none => (.refused (.noOffer c.docket.id driver), c)
    | some offer =>
      match reply with
      | .accept => c.accept offer
      | .reject => c.reject offer

def markFree (driver : Uuid) (c : Case) : Case :=
  c.onFloor fun f => { f with fleet := f.fleet.markFree driver c.docket.id }

/-- The driver of a confirmed order is free of it and is told so. -/
def releaseDriver (c : Case) : Case :=
  match c.docket.order.driver? with
  | none => c
  | some driver =>
    (c.markFree driver).notify driver (.orderCancelled c.docket.id c.docket.order.code)

def withdraw (cancellation : Order.Cancellation) (c : Case) : Case :=
  c.onDocket fun d =>
    { d with
      order := { d.order with status := .cancelled, cancellation? := some cancellation }
      searching := false }

def cancel (reason : Order.Reason) (text : Option String) (c : Case) :
    Answer Order × Case :=
  let previous := c.docket.order.status
  if previous ≠ .pending ∧ previous ≠ .confirmed then
    (.refused (.notCancellable c.docket.id previous), c)
  else
    match Order.Cancellation.make reason text c.floor.now with
    | .error refusal => (.refused refusal, c)
    | .ok cancellation =>
      let c := c.withdraw cancellation
      let c :=
        if previous = .pending then c.count fun l => { l with pending := l.pending - 1 }
        else c.releaseDriver
      let c := c.settle
      (.done c.docket.order, c)

/-- The trip is over. -/
def complete (c : Case) : Answer Order × Case :=
  if c.docket.order.status ≠ .confirmed then
    (.refused (.notCompletable c.docket.id c.docket.order.status), c)
  else
    let c := c.onDocket fun d =>
      { d with order :=
          { d.order with status := .completed, completedAt? := some c.floor.now } }
    let c := match c.docket.order.driver? with
      | none => c
      | some driver => c.markFree driver
    let c := c.notify c.docket.order.rider
      (.orderCompleted c.docket.id c.docket.order.code)
    (.done c.docket.order, c)

/-- Where the driver of a confirmed order is. -/
def driverPosition (c : Case) : Answer Driver.Position :=
  match c.docket.order.status, c.docket.order.driver? with
  | .confirmed, some driver =>
    match (c.floor.fleet.find? driver).bind (·.position?) with
    | some position => .done position
    | none => .refused (.noPosition driver)
  | status, _ => .refused (.positionPrivate c.docket.id status)

end Case

end Hailing
