import Hailing.Offer.Basic
import Hailing.Order.Basic

/-!
# Dockets

The docket of an order holds all that the desk knows about it: the order,
every offer made for it in the order in which they were made, the drivers
who are not to be asked again, and how the search stands. A docket is
settled when neither a driver nor a sweep has anything left to do with it.
-/

namespace Hailing

open Time (Instant)

structure Docket where
  order : Order
  offers : List Offer
  excluded : List Uuid
  /-- A search is waiting to be widened. -/
  searching : Bool
  /-- When the last search came to nothing. -/
  lastSearchEnded? : Option Instant
  deriving Repr

namespace Docket

def new (order : Order) : Docket := ⟨order, [], [], false, none⟩

def id (d : Docket) : Uuid := d.order.id

def isPending (d : Docket) : Bool := d.order.isPending

def hasOutstanding (d : Docket) : Bool := d.offers.any (·.isOutstanding)

def isSettled (d : Docket) : Bool := !d.isPending && !d.hasOutstanding

/-- The outstanding offer to a driver. -/
def offerTo? (driver : Uuid) (d : Docket) : Option Offer :=
  d.offers.find? (·.isOutstandingFor driver)

def exclude (driver : Uuid) (d : Docket) : Docket :=
  if d.excluded.contains driver then d else { d with excluded := d.excluded ++ [driver] }

/-- The offers with the first outstanding one to a driver replaced. -/
def replaceOffer (driver : Uuid) (offer : Offer) : List Offer → List Offer
  | [] => []
  | o :: rest =>
    if o.isOutstandingFor driver then offer :: rest else o :: replaceOffer driver offer rest

/-- Resolves the outstanding offer to a driver, which is `offer`. -/
def resolve (offer : Offer) (status : Offer.Status) (moment : Instant) (d : Docket) :
    Offer × Docket :=
  let resolved := (offer.resolve? status moment).getD offer
  (resolved, { d with offers := replaceOffer offer.driver resolved d.offers })

end Docket

end Hailing
