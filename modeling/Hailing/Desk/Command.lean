import Hailing.Desk.Timeline

/-!
# Commands

Everything that can happen to a desk, as data: what riders, drivers and the
outside ask of it, the sweeps, the waking of a search, and the setting of the
clock. A run is a list of commands, done one after the other.

Runs are wider than what a desk goes through in time. A search may wake up at
any moment, whichever it is; the open orders may be swept in any order; the
clock may be set to anything. What holds of every run holds of the desk in
time too (`Timeline.runUntil_run`).
-/

namespace Hailing

open Geo (Point)
open Time (Instant)

inductive Command where
  -- Orders.
  | create (request : Order.NewOrder)
  | respond (order driver : Uuid) (reply : Offer.Reply)
  | cancel (order : Uuid) (reason : Order.Reason) (text : Option String)
  | complete (order : Uuid)
  | dispatch (order : Uuid)
  | retry (order : Uuid)
  | reassign (order driver : Uuid)
  -- Drivers.
  | report (driver : Uuid) (point : Point) (stamp : Instant)
  | setAvailability (driver : Uuid) (online : Bool) (maxPickup : Option Float)
  /-- Trips queued and dropped past the orders. -/
  | claimTrip (driver : Uuid) (pickup : Point) (trip : Driver.Trip)
  | markFree (driver order : Uuid)
  -- What goes on by itself.
  /-- Sweeps the open orders in the order in which they are visited. -/
  | sweep (visited : List Uuid)
  /-- Wakes a search up, by its place among those asleep. -/
  | wake (place : Nat)
  | setClock (clock : Clock)

namespace Command

/-- What a command that is done answers with. -/
abbrev Result : Command → Type
  | .create _ => Desk.Created
  | .respond _ _ _ => Reaction
  | .cancel _ _ _ => Order
  | .complete _ => Order
  | .dispatch _ => Outcome
  | .retry _ => Outcome
  | .reassign _ _ => Outcome
  | .report _ _ _ => Fleet.Reception × Driver
  | .setAvailability _ _ _ => Driver
  | .claimTrip _ _ _ => Bool
  | .markFree _ _ => Unit
  | .sweep _ => SweepReport
  | .wake _ => Unit
  | .setClock _ => Unit

/-- Changes the trips of a driver without an order. -/
def isDirect : Command → Bool
  | .claimTrip _ _ _ => true
  | .markFree _ _ => true
  | _ => false

/-- Decides on the stage of an order. -/
def isDecision : Command → Bool
  | .respond _ _ .accept => true
  | .cancel _ _ _ => true
  | .complete _ => true
  | _ => false

/-- The order that is accepted. -/
def accepted? : Command → Option Uuid
  | .respond order _ .accept => some order
  | _ => none

end Command

namespace Answer

variable {α : Type}

def isDone : Answer α → Bool
  | .done _ => true
  | _ => false

def isRefused : Answer α → Bool
  | .refused _ => true
  | _ => false

def isBroken : Answer α → Bool
  | .broken _ => true
  | _ => false

@[simp] theorem isRefused_map {β : Type} (f : α → β) (a : Answer α) :
    (a.map f).isRefused = a.isRefused := by
  cases a <;> rfl

@[simp] theorem isRefused_ofExcept (e : Except Breakdown α) :
    (ofExcept e).isRefused = false := by
  cases e <;> rfl

@[simp] theorem isBroken_map {β : Type} (f : α → β) (a : Answer α) :
    (a.map f).isBroken = a.isBroken := by
  cases a <;> rfl

theorem isBroken_ofExcept {e : Except Breakdown α} :
    (ofExcept e).isBroken = false ↔ ∀ breakdown, e ≠ .error breakdown := by
  cases e <;> simp [ofExcept, isBroken]

end Answer

namespace Desk

/-- Sweeps orders in the order in which they are visited. -/
def sweepAs (visited : List Uuid) (desk : Desk) : Except Breakdown SweepReport × Desk :=
  sweepOrders visited {}
    { desk with floor := desk.floor.count fun l => { l with sweeps := l.sweeps + 1 } }

theorem sweep_eq (desk : Desk) : desk.sweep = desk.sweepAs desk.floor.openOrders := rfl

/-- The desk with a search taken out of those asleep. -/
def takeSearch (place : Nat) (desk : Desk) : Desk :=
  { desk with floor :=
      { desk.floor with sleeping := desk.floor.sleeping.eraseIdx place } }

/-- Does a command. One that fits nothing leaves the desk as it is: a search
that is not asleep, or a list of orders that is not the open ones. -/
def perform : (cmd : Command) → Desk → Answer cmd.Result × Desk
  | .create request, desk => desk.createOrder request
  | .respond order driver reply, desk => desk.respond order driver reply
  | .cancel order reason text, desk => desk.cancelOrder order reason text
  | .complete order, desk => desk.completeOrder order
  | .dispatch order, desk => desk.dispatch order
  | .retry order, desk => desk.retry order
  | .reassign order driver, desk => desk.reassign order driver
  | .report driver point stamp, desk => desk.reportPosition driver point stamp
  | .setAvailability driver online maxPickup, desk =>
    desk.setAvailability driver online maxPickup
  | .claimTrip driver pickup trip, desk =>
    let (claimed, desk) := desk.claimTrip driver pickup trip
    (.done claimed, desk)
  | .markFree driver order, desk => (.done (), desk.markFree driver order)
  | .sweep visited, desk =>
    if visited.isPerm desk.floor.openOrders then
      let (report, desk) := desk.sweepAs visited
      (.ofExcept report, desk)
    else (.done {}, desk)
  | .wake place, desk =>
    match desk.floor.sleeping[place]? with
    | none => (.done (), desk)
    | some search =>
      (desk.takeSearch place).handle search.order (freely (·.resume search.radii))
  | .setClock clock, desk =>
    (.done (), { desk with floor := { desk.floor with clock := clock } })

/-- The desk after a command. -/
def after (cmd : Command) (desk : Desk) : Desk := (desk.perform cmd).2

def run : List Command → Desk → Desk
  | [], desk => desk
  | cmd :: rest, desk => run rest (desk.after cmd)

/-- The commands of a run that were done, and not refused or broken off. -/
def done : List Command → Desk → List Command
  | [], _ => []
  | cmd :: rest, desk =>
    (if (desk.perform cmd).1.isDone then [cmd] else []) ++ done rest (desk.after cmd)

/-- The orders that were accepted in a run, in the order in which they were. -/
def accepted (cmds : List Command) (desk : Desk) : List Uuid :=
  (desk.done cmds).filterMap Command.accepted?

/-- Nothing breaks down in a run. -/
def isWhole : List Command → Desk → Bool
  | [], _ => true
  | cmd :: rest, desk => !(desk.perform cmd).1.isBroken && isWhole rest (desk.after cmd)

/-! ## Runs end to end -/

theorem run_append (as bs : List Command) (desk : Desk) :
    desk.run (as ++ bs) = (desk.run as).run bs := by
  induction as generalizing desk with
  | nil => rfl
  | cons cmd rest ih => exact ih (desk.after cmd)

theorem done_append (as bs : List Command) (desk : Desk) :
    desk.done (as ++ bs) = desk.done as ++ (desk.run as).done bs := by
  induction as generalizing desk with
  | nil => rfl
  | cons cmd rest ih =>
      simp only [List.cons_append, done, run, ih (desk.after cmd), List.append_assoc]

theorem isWhole_append (as bs : List Command) (desk : Desk) :
    desk.isWhole (as ++ bs) = (desk.isWhole as && (desk.run as).isWhole bs) := by
  induction as generalizing desk with
  | nil => rfl
  | cons cmd rest ih =>
      simp only [List.cons_append, isWhole, run, ih (desk.after cmd), Bool.and_assoc]

theorem run_concat (cmds : List Command) (cmd : Command) (desk : Desk) :
    desk.run (cmds ++ [cmd]) = (desk.run cmds).after cmd := run_append cmds [cmd] desk

end Desk

end Hailing
