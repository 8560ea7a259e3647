import Hailing.Decimal.Layout
import Hailing.Decimal.Numeral
import Hailing.Order.Status
import Hailing.Time.Written
import Hailing.Uuid

/-!
# Why something is refused

A refusal is a cause together with what it was about. It belongs to one of
four kinds, and the kind decides how it is announced and which status an
answer over HTTP has; the message says what was wrong. `Breakdown` is for
what no refusal covers: a setting that a computation cannot cope with.
-/

namespace Hailing

open Decimal (plain)
open Time (Instant)

namespace Refusal

inductive Kind where
  | validation
  | notFound
  | conflict
  | internal
  deriving DecidableEq, Repr

namespace Kind

def announcement : Kind → String
  | .validation => "validation failed: "
  | .notFound => "not found: "
  | .conflict => "conflict: "
  | .internal => "internal error: "

/-- The status of an answer over HTTP. -/
def status : Kind → Nat
  | .validation => 400
  | .notFound => 404
  | .conflict => 409
  | .internal => 500

end Kind

/-- The message about something that is not on record. -/
def unknownMessage (what name : String) : String := s!"{what} {name} not found"

end Refusal

inductive Refusal where
  -- Points and reports.
  | latitude (lat : Float)
  | longitude (lng : Float)
  | reportAhead (stamp now : Instant)
  | pickupLimit (km : Float)
  -- New orders.
  | noLegs
  | price (amount : Float)
  | reasonMissing
  -- What is not on record.
  | unknownOrder (order : Uuid)
  | unknownDriver (driver : Uuid)
  | noOffer (order driver : Uuid)
  | noPosition (driver : Uuid)
  -- What the stage of the order or the trips of the driver forbid.
  | notAcceptable (order : Uuid) (status : Order.Status)
  | tripElsewhere (order driver : Uuid)
  | notCancellable (order : Uuid) (status : Order.Status)
  | notCompletable (order : Uuid) (status : Order.Status)
  | notRetriable (order : Uuid) (status : Order.Status)
  | positionPrivate (order : Uuid) (status : Order.Status)
  -- Settings.
  | notPositive (key : String) (value : Float)
  | radiusOrder (largest first : Float)
  | noSweepInterval
  | logFormat (text : String)
  | numeral (key : String) (fault : Decimal.NumeralFault)
  deriving Repr

namespace Refusal

def kind : Refusal → Kind
  | .latitude _ | .longitude _ | .reportAhead _ _ | .pickupLimit _ | .noLegs
  | .price _ | .reasonMissing => .validation
  | .unknownOrder _ | .unknownDriver _ | .noOffer _ _ | .noPosition _ => .notFound
  | .notAcceptable _ _ | .tripElsewhere _ _ | .notCancellable _ _
  | .notCompletable _ _ | .notRetriable _ _ | .positionPrivate _ _ => .conflict
  | .notPositive _ _ | .radiusOrder _ _ | .noSweepInterval | .logFormat _
  | .numeral _ _ => .internal

def message : Refusal → String
  | .latitude lat => s!"latitude {plain lat} is outside [-90, 90]"
  | .longitude lng => s!"longitude {plain lng} is outside [-180, 180]"
  | .reportAhead stamp now =>
    s!"location timestamp {stamp.toProse} is ahead of server time {now.toProse}"
  | .pickupLimit km => s!"max_pickup_km must be > 0, got {plain km}"
  | .noLegs => "an order needs at least one leg"
  | .price amount => s!"price must be >= 0, got {plain amount}"
  | .reasonMissing => "other_reason is required when reason is other"
  | .unknownOrder order => unknownMessage "order" (toString order)
  | .unknownDriver driver => unknownMessage "driver" (toString driver)
  | .noOffer order driver => s!"no outstanding offer of order {order} for driver {driver}"
  | .noPosition driver => s!"driver {driver} has not reported a location"
  | .notAcceptable order status =>
    s!"order {order} is {status.title} and can no longer be accepted"
  | .tripElsewhere order driver =>
    s!"driver {driver} is on a trip that does not end near order {order}"
  | .notCancellable order status =>
    s!"order {order} is {status.title} and cannot be cancelled"
  | .notCompletable order status =>
    s!"order {order} is {status.title}, only confirmed orders can complete"
  | .notRetriable order status =>
    s!"order {order} is {status.title}, only pending orders can be re-dispatched"
  | .positionPrivate order status =>
    s!"order {order} is {status.title}; driver location is only shared while confirmed"
  | .notPositive key value => s!"{key} must be > 0, got {plain value}"
  | .radiusOrder largest first =>
    s!"MAX_SEARCH_RADIUS_KM ({plain largest}) is below INITIAL_RADIUS_KM ({plain first})"
  | .noSweepInterval => "SWEEP_INTERVAL_SECS must be > 0"
  | .logFormat text => s!"invalid LOG_FORMAT: {text}, expected compact or json"
  | .numeral key fault => s!"invalid {key}: {fault.message}"

/-- The message behind the announcement of its kind. -/
def toProse (r : Refusal) : String := r.kind.announcement ++ r.message

end Refusal

/-- A computation that settings or times make impossible. -/
inductive Breakdown where
  /-- The oldest report that still counts would lie outside of the calendar. -/
  | cutoffOutOfRange
  /-- A time or a span lies outside of what is kept. -/
  | timeOutOfRange
  /-- The radius never reaches its maximum. -/
  | endlessWidening
  deriving DecidableEq, Repr

/-- How an operation ends. -/
inductive Answer (α : Type) where
  | done (a : α)
  | refused (r : Refusal)
  | broken (b : Breakdown)
  deriving Repr

namespace Answer

def map {α β : Type} (f : α → β) : Answer α → Answer β
  | .done a => .done (f a)
  | .refused r => .refused r
  | .broken b => .broken b

def ofExcept {α : Type} : Except Breakdown α → Answer α
  | .ok a => .done a
  | .error b => .broken b

end Answer

end Hailing
