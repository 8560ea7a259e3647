import Hailing.Desk.Floor
import Hailing.Json.Scalar

/-!
# Cases

A case is a docket in hand, together with the floor it is worked on. What
happens to an order happens to a case; so no step can touch another order's
docket.

Here are the steps of a search. A dispatch tries the first radius at once.
If nobody is found there, the wider radii are put to sleep and tried one
after the other as the search wakes up, unless the order has found a driver
or an end in the meantime. Each attempt looks at the fleet as it then is.
-/

namespace Hailing

open Json (Value)

structure Case where
  docket : Docket
  floor : Floor

/-- Why no search was started. -/
inductive SkipReason where
  | notPending
  | offerOutstanding
  | searchInFlight
  deriving DecidableEq, Repr

def SkipReason.message : SkipReason → String
  | .notPending => "order is not pending"
  | .offerOutstanding => "offer already outstanding"
  | .searchInFlight => "search already in flight"

/-- What a dispatch led to. -/
inductive Outcome where
  | offered (offer driver : Uuid) (radius : Float)
  | searching (nextRadius : Float)
  | exhausted
  | skipped (reason : SkipReason)
  deriving Repr

namespace Outcome

def isOffered : Outcome → Bool
  | .offered _ _ _ => true
  | _ => false

def toValue : Outcome → Value
  | .offered offer driver radius =>
    .record
      [ ("outcome", .text "offered"),
        ("assignment_id", offer.toValue),
        ("driver_id", driver.toValue),
        ("radius_km", .real radius) ]
  | .searching nextRadius =>
    .record [("outcome", .text "searching"), ("next_radius_km", .real nextRadius)]
  | .exhausted => .record [("outcome", .text "exhausted")]
  | .skipped reason =>
    .record [("outcome", .text "skipped"), ("reason", .text reason.message)]

end Outcome

def Docket.skipReason? (d : Docket) : Option SkipReason :=
  if !d.isPending then some .notPending
  else if d.hasOutstanding then some .offerOutstanding
  else if d.searching then some .searchInFlight
  else none

namespace Case

def onFloor (step : Floor → Floor) (c : Case) : Case := { c with floor := step c.floor }

def onDocket (step : Docket → Docket) (c : Case) : Case := { c with docket := step c.docket }

def count (step : Ledger → Ledger) (c : Case) : Case := c.onFloor (·.count step)

def settle (c : Case) : Case := c.onFloor (·.settle c.docket)

/-- The driver to be asked within a radius, if there is one. -/
def best? (radius : Float) (c : Case) : Except Breakdown (Option Candidate) :=
  match c.docket.order.pickup? with
  | none => .ok none
  | some pickup => do
    let ranked ← Fleet.candidates c.floor.settings c.floor.fleet pickup radius
      c.docket.excluded c.floor.now
    return ranked.head?

/-- The offer that a candidate is going to get. -/
def draftOffer (candidate : Candidate) (radius : Float) (c : Case) : Offer :=
  { id := c.floor.nextId
    order := c.docket.id
    driver := candidate.driver
    status := .requested
    radius := radius
    distance := candidate.distance
    destinationMatch := candidate.destinationMatch
    requestedAt := c.floor.now
    respondedAt? := none }

/-- Enters an offer and lets the driver know. -/
def makeOffer (offer : Offer) (c : Case) : Case :=
  let event := Event.offerCreated c.docket.id c.docket.order.code offer.id
    (UInt64.ofNat (c.floor.settings.offerWindow / 1000))
  { docket := { c.docket with offers := c.docket.offers ++ [offer] }
    floor := ((c.floor.issue.notify offer.driver event).count
      fun l => { l with requested := l.requested + 1 }).count (·.countSearch .offered) }

/-- The search is over, and the docket says since when. -/
def endSearch (how : SearchEnd) (c : Case) : Case :=
  { docket := { c.docket with searching := false, lastSearchEnded? := some c.floor.now }
    floor := c.floor.count (·.countSearch how) }

def startSearch (c : Case) : Case := c.onDocket fun d => { d with searching := true }

def stopSearch (c : Case) : Case := c.onDocket fun d => { d with searching := false }

/-- Starts a search, unless the order does not need one. -/
def dispatch (c : Case) : Except Breakdown Outcome × Case :=
  match c.docket.skipReason? with
  | some reason => (.ok (.skipped reason), c)
  | none =>
    match c.floor.settings.radii with
    | none => (.error .endlessWidening, c)
    | some ⟨radius, wider⟩ =>
      match c.best? radius, wider with
      | .error breakdown, _ => (.error breakdown, c)
      | .ok (some candidate), _ =>
        let offer := c.draftOffer candidate radius
        (.ok (.offered offer.id offer.driver radius), c.makeOffer offer)
      | .ok none, [] => (.ok .exhausted, c.endSearch .exhausted)
      | .ok none, next :: rest =>
        (.ok (.searching next), c.startSearch.onFloor (·.sleep c.docket.id ⟨next, rest⟩))

/-- Goes on with a search that has slept: tries its radius, and if nobody is
there sleeps again or gives up. -/
def resume (radii : Radii) (c : Case) : Except Breakdown Unit × Case :=
  if !c.docket.isPending || c.docket.hasOutstanding then (.ok (), c.endSearch .abandoned)
  else
    match c.best? radii.first, radii.wider with
    | .error breakdown, _ => (.error breakdown, c)
    | .ok (some candidate), _ =>
      (.ok (), (c.makeOffer (c.draftOffer candidate radii.first)).stopSearch)
    | .ok none, [] => (.ok (), c.endSearch .exhausted)
    | .ok none, next :: rest => (.ok (), c.onFloor (·.sleep c.docket.id ⟨next, rest⟩))

/-- Does not ask a driver again, and starts a new search. -/
def reassign (driver : Uuid) (c : Case) : Except Breakdown Outcome × Case :=
  (c.onDocket (·.exclude driver)).dispatch

/-- Starts a search from outside, which only an order that waits can need. -/
def retry (c : Case) : Answer Outcome × Case :=
  if !c.docket.isPending then
    (.refused (.notRetriable c.docket.id c.docket.order.status), c)
  else
    let (outcome, c) := c.dispatch
    (.ofExcept outcome, c)

end Case

end Hailing
