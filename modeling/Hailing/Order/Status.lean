/-!
# The stages of an order

An order waits for a driver, is confirmed by one, and is completed; it can
be cancelled before it is completed. The last two stages are final. Each
word has one spelling on the wire and, for a status, another one in the
sentences that are told to people.
-/

namespace Hailing.Order

inductive Status where
  | pending
  | confirmed
  | completed
  | cancelled
  deriving DecidableEq, Repr

namespace Status

def word : Status → String
  | .pending => "pending"
  | .confirmed => "confirmed"
  | .completed => "completed"
  | .cancelled => "cancelled"

/-- The word that stands in a sentence. -/
def title : Status → String
  | .pending => "Pending"
  | .confirmed => "Confirmed"
  | .completed => "Completed"
  | .cancelled => "Cancelled"

def ofWord? : String → Option Status
  | "pending" => some .pending
  | "confirmed" => some .confirmed
  | "completed" => some .completed
  | "cancelled" => some .cancelled
  | _ => none

theorem ofWord?_word (s : Status) : ofWord? s.word = some s := by
  cases s <;> rfl

end Status

/-- Who the ride is for: a pickup of somebody, or the one who orders it. -/
inductive Kind where
  | pickup
  | forMe
  deriving DecidableEq, Repr

namespace Kind

def word : Kind → String
  | .pickup => "pickup"
  | .forMe => "for_me"

def ofWord? : String → Option Kind
  | "pickup" => some .pickup
  | "for_me" => some .forMe
  | _ => none

theorem ofWord?_word (k : Kind) : ofWord? k.word = some k := by
  cases k <;> rfl

end Kind

/-- Why an order was cancelled. -/
inductive Reason where
  | changeInPlans
  | waitingForLongTime
  | driverDeniedToGoToDestination
  | driverDeniedToComeToPickup
  | wrongAddressShown
  | thePriceIsNotReasonable
  | emergencySituation
  | other
  deriving DecidableEq, Repr

namespace Reason

def word : Reason → String
  | .changeInPlans => "change_in_plans"
  | .waitingForLongTime => "waiting_for_long_time"
  | .driverDeniedToGoToDestination => "driver_denied_to_go_to_destination"
  | .driverDeniedToComeToPickup => "driver_denied_to_come_to_pickup"
  | .wrongAddressShown => "wrong_address_shown"
  | .thePriceIsNotReasonable => "the_price_is_not_reasonable"
  | .emergencySituation => "emergency_situation"
  | .other => "other"

def ofWord? : String → Option Reason
  | "change_in_plans" => some .changeInPlans
  | "waiting_for_long_time" => some .waitingForLongTime
  | "driver_denied_to_go_to_destination" => some .driverDeniedToGoToDestination
  | "driver_denied_to_come_to_pickup" => some .driverDeniedToComeToPickup
  | "wrong_address_shown" => some .wrongAddressShown
  | "the_price_is_not_reasonable" => some .thePriceIsNotReasonable
  | "emergency_situation" => some .emergencySituation
  | "other" => some .other
  | _ => none

theorem ofWord?_word (r : Reason) : ofWord? r.word = some r := by
  cases r <;> rfl

end Reason

end Hailing.Order
