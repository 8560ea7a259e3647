import Hailing.Desk.Docket
import Hailing.Desk.Ledger
import Hailing.Fleet.Ranking
import Hailing.Notice.Basic

/-!
# The floor

Everything that the orders share: the settings, the clock, the fleet, the
ledger, the list of orders that are still open, the searches that wait to be
widened, and the notices sent. Two things run on: the clock on the wall, which
may be set forwards and backwards, and the ticks by which waiting is
measured, which may not.
-/

namespace Hailing

open Time (Instant Span)

structure Clock where
  /-- What the clock on the wall showed at the start. -/
  start : Instant
  /-- Milliseconds since the start. -/
  ticks : Nat
  /-- By how many milliseconds the clock on the wall has been set forwards,
  all in all. -/
  setBy : Int
  deriving Repr

namespace Clock

/-- What the clock on the wall shows, if the calendar has it. It is reckoned
from the start each time, so setting it forwards and back is as if it had
never been set, even if it starts within a leap second. -/
def shown? (c : Clock) : Option Instant := c.start.add? (.ofMillis (c.ticks + c.setBy))

def wall (c : Clock) : Instant := c.shown?.getD c.start

/-- The clock as it is, unless the calendar ends before what it shows. -/
def kept? (c : Clock) : Option Clock := if c.shown?.isSome then some c else none

/-- Sets the clock on the wall; the ticks do not change. -/
def skew? (ms : Int) (c : Clock) : Option Clock := { c with setBy := c.setBy + ms }.kept?

def forward (ms : Nat) (c : Clock) : Clock := { c with ticks := c.ticks + ms }

/-- The clock some time later. -/
def forward? (ms : Nat) (c : Clock) : Option Clock := (c.forward ms).kept?

end Clock

/-- A search that waits to be widened. -/
structure Search where
  order : Uuid
  radii : Radii
  /-- The tick at which it goes on. -/
  wakeAt : Nat
  deriving Repr

structure Floor where
  settings : Settings
  clock : Clock
  openOrders : List Uuid
  fleet : Fleet
  ledger : Ledger
  sleeping : List Search
  sent : List Notice
  /-- The number of the last order. -/
  lastNumber : UInt64
  /-- How many identifiers have been issued. -/
  issued : Nat

namespace Floor

def now (f : Floor) : Instant := f.clock.wall

def opening (settings : Settings) (start : Instant) : Floor :=
  { settings := settings
    clock := ⟨start, 0, 0⟩
    openOrders := []
    fleet := .empty
    ledger := {}
    sleeping := []
    sent := []
    lastNumber := 0
    issued := 0 }

def notify (recipient : Uuid) (event : Event) (f : Floor) : Floor :=
  { f with sent := f.sent ++ [⟨recipient, event, f.now⟩] }

def count (step : Ledger → Ledger) (f : Floor) : Floor :=
  { f with ledger := step f.ledger }

/-- The identifier that is issued next. -/
def nextId (f : Floor) : Uuid := .issue f.issued

def issue (f : Floor) : Floor := { f with issued := f.issued + 1 }

/-- The code of the next order. -/
def nextCode (f : Floor) : String := Order.codeOf (f.lastNumber + 1)

def number (f : Floor) : Floor := { f with lastNumber := f.lastNumber + 1 }

def openOrder (order : Uuid) (f : Floor) : Floor :=
  if f.openOrders.contains order then f
  else { f with openOrders := f.openOrders ++ [order] }

def closeOrder (order : Uuid) (f : Floor) : Floor :=
  { f with openOrders := f.openOrders.filter (· ≠ order) }

/-- Takes a docket that is settled off the list of open orders. -/
def settle (d : Docket) (f : Floor) : Floor :=
  if d.isSettled then f.closeOrder d.id else f

/-- Puts a search to sleep for as long as a search rests. -/
def sleep (order : Uuid) (radii : Radii) (f : Floor) : Floor :=
  let search := ⟨order, radii, f.clock.ticks + f.settings.radiusWait⟩
  { f with sleeping := f.sleeping ++ [search] }

/-! Opening and settling an order touch the list of open orders only. -/

theorem openOrder_eq (order : Uuid) (f : Floor) :
    f.openOrder order = { f with openOrders := (f.openOrder order).openOrders } := by
  unfold openOrder
  split <;> rfl

theorem settle_eq (d : Docket) (f : Floor) :
    f.settle d = { f with openOrders := (f.settle d).openOrders } := by
  unfold settle
  split <;> rfl

theorem settle_openOrders_sublist (d : Docket) (f : Floor) :
    (f.settle d).openOrders.Sublist f.openOrders := by
  unfold settle
  split
  · exact List.filter_sublist
  · exact List.Sublist.refl _

theorem mem_settle {order : Uuid} {d : Docket} {f : Floor} :
    order ∈ (f.settle d).openOrders ↔
      order ∈ f.openOrders ∧ (d.isSettled = true → order ≠ d.id) := by
  unfold settle
  split
  · next h => simp [closeOrder, h]
  · next h => simp [h]

theorem mem_openOrder {order other : Uuid} {f : Floor} :
    other ∈ (f.openOrder order).openOrders ↔ other = order ∨ other ∈ f.openOrders := by
  unfold openOrder
  split
  · next h =>
      have hmem : order ∈ f.openOrders := by simpa using h
      exact ⟨.inr, fun ho => ho.elim (fun he => he ▸ hmem) fun hm => hm⟩
  · simp [or_comm]

theorem openOrder_nodup {order : Uuid} {f : Floor} (h : f.openOrders.Nodup) :
    (f.openOrder order).openOrders.Nodup := by
  unfold openOrder
  split
  · exact h
  · next hn =>
      refine List.nodup_append.2 ⟨h, by simp, fun a ha b hb he => hn ?_⟩
      rw [List.mem_singleton] at hb
      rw [← hb, ← he]
      exact List.contains_iff_mem.2 ha

@[simp] theorem openOrder_issued (order : Uuid) (f : Floor) :
    (f.openOrder order).issued = f.issued := by rw [openOrder_eq]

@[simp] theorem openOrder_fleet (order : Uuid) (f : Floor) :
    (f.openOrder order).fleet = f.fleet := by rw [openOrder_eq]

@[simp] theorem openOrder_sleeping (order : Uuid) (f : Floor) :
    (f.openOrder order).sleeping = f.sleeping := by rw [openOrder_eq]

@[simp] theorem openOrder_ledger (order : Uuid) (f : Floor) :
    (f.openOrder order).ledger = f.ledger := by rw [openOrder_eq]

@[simp] theorem openOrder_sent (order : Uuid) (f : Floor) :
    (f.openOrder order).sent = f.sent := by rw [openOrder_eq]

@[simp] theorem settle_issued (d : Docket) (f : Floor) :
    (f.settle d).issued = f.issued := by rw [settle_eq]

@[simp] theorem settle_fleet (d : Docket) (f : Floor) :
    (f.settle d).fleet = f.fleet := by rw [settle_eq]

@[simp] theorem settle_sleeping (d : Docket) (f : Floor) :
    (f.settle d).sleeping = f.sleeping := by rw [settle_eq]

@[simp] theorem settle_ledger (d : Docket) (f : Floor) :
    (f.settle d).ledger = f.ledger := by rw [settle_eq]

@[simp] theorem settle_sent (d : Docket) (f : Floor) :
    (f.settle d).sent = f.sent := by rw [settle_eq]

/-! Searches are told apart by their orders. -/

/-- The searches of an order that are asleep. -/
def asleep (order : Uuid) (f : Floor) : List Search := f.sleeping.filter (·.order = order)

theorem mem_asleep {order : Uuid} {f : Floor} {search : Search} :
    search ∈ f.asleep order ↔ search ∈ f.sleeping ∧ search.order = order := by
  simp [asleep]

theorem asleep_congr {f f' : Floor} (h : f'.sleeping = f.sleeping) (order : Uuid) :
    f'.asleep order = f.asleep order := by
  rw [asleep, h, asleep]

theorem length_asleep_sleep (order : Uuid) (radii : Radii) (f : Floor) :
    ((f.sleep order radii).asleep order).length = (f.asleep order).length + 1 := by
  simp [sleep, asleep]

theorem asleep_sleep_of_ne {order other : Uuid} (h : other ≠ order) (radii : Radii)
    (f : Floor) : (f.sleep order radii).asleep other = f.asleep other := by
  simp [sleep, asleep, h.symm]

end Floor

end Hailing
