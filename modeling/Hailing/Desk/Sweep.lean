import Hailing.Desk.Case

/-!
# Sweeping a case

Now and then every open order is looked at. Offers that were not answered
within their time are resolved, and each of their drivers is not asked again;
if the order still waits, the search goes on. An order that waits without an
offer and without a search is searched for anew, once its last search has
rested for long enough.
-/

namespace Hailing

open Json (Value)
open Time (Instant Span)

/-- What sweeping did. -/
structure SweepReport where
  timeouts : Nat := 0
  reassigned : Nat := 0
  retried : Nat := 0
  deriving DecidableEq, Repr

def SweepReport.toValue (r : SweepReport) : Value :=
  .record
    [ ("timeouts", .whole r.timeouts),
      ("reassigned", .whole r.reassigned),
      ("retried", .whole r.retried) ]

/-- The time to answer an outstanding offer has run out. -/
def Offer.isExpired (window : Span) (now : Instant) (o : Offer) : Bool :=
  o.isOutstanding && window ≤ now - o.requestedAt

namespace Docket

/-- Resolves every offer whose time has run out. -/
def expire (window : Span) (now : Instant) (d : Docket) : Docket :=
  { d with offers := d.offers.map fun o =>
      if o.isExpired window now then (o.resolve? .timeout now).getD o else o }

/-- The drivers whose time to answer has run out. -/
def lateDrivers (window : Span) (now : Instant) (d : Docket) : List Uuid :=
  (d.offers.filter (·.isExpired window now)).map (·.driver)

/-- Neither an offer nor a search is under way, though one is needed. -/
def isIdle (d : Docket) : Bool := d.isPending && !d.hasOutstanding && !d.searching

/-- The last search has rested for long enough. -/
def isRested (rest : Span) (now : Instant) (d : Docket) : Bool :=
  match d.lastSearchEnded? with
  | none => true
  | some ended => rest ≤ now - ended

end Docket

namespace Case

/-- What follows from each offer that timed out. -/
def dropLate : List Uuid → SweepReport → Case → Except Breakdown SweepReport × Case
  | [], report, c => (.ok report, c)
  | driver :: rest, report, c =>
    let report := { report with timeouts := report.timeouts + 1 }
    let c := c.count fun l => { l with timeouts := l.timeouts + 1 }
    if !c.docket.isPending then dropLate rest report (c.onDocket (·.exclude driver))
    else
      match c.reassign driver with
      | (.error breakdown, c) => (.error breakdown, c)
      | (.ok outcome, c) =>
        let found := if outcome.isOffered then 1 else 0
        dropLate rest { report with reassigned := report.reassigned + found } c

/-- A new search for an order that has waited for one. -/
def retryIdle (report : SweepReport) (c : Case) : Except Breakdown SweepReport × Case :=
  if c.docket.isIdle && c.docket.isRested c.floor.settings.retrySpan c.floor.now then
    match c.dispatch with
    | (.error breakdown, c) => (.error breakdown, c)
    | (.ok _, c) => (.ok { report with retried := report.retried + 1 }, c)
  else (.ok report, c)

def sweep (report : SweepReport) (c : Case) : Except Breakdown SweepReport × Case :=
  let window := c.floor.settings.offerSpan
  let late := c.docket.lateDrivers window c.floor.now
  match dropLate late report (c.onDocket (·.expire window c.floor.now)) with
  | (.error breakdown, c) => (.error breakdown, c)
  | (.ok report, c) =>
    match c.retryIdle report with
    | (.error breakdown, c) => (.error breakdown, c)
    | (.ok report, c) => (.ok report, c.settle)

end Case

end Hailing
