import Mathlib.Data.List.Basic
import Hailing.Proofs.SingleOffer

/-!
# Drivers and orders agree

The trips of a driver stand in the fleet, and whom an order went to stands in
its docket. The two are written one after the other, by an acceptance, a
recall and a completion, and by nothing else as long as nobody goes past the
orders (`Command.isDirect`). What relates them is the list of acceptances: the
trips of a driver are the orders of this list that are still confirmed with
the driver, in the same order (`Agreed`).

Two facts from elsewhere make this work. An order is accepted once
(`accepted_once`), so the trip that an acceptance queues is a new one and is
not silently dropped. And a confirmed order has a driver (`Docket.Orderly`),
so the trip that a recall takes off stands with the driver from whom it is
taken.
-/

namespace Hailing

open Geo (Point)
open Time (Instant)

/-! ## Where a trip ends -/

/-- An order has legs and ends where its last leg does. -/
def Docket.Routed (d : Docket) : Prop :=
  d.order.legs ≠ [] ∧ d.order.destination? = d.order.legs.getLast?.map (·.dropoff)

theorem Order.destination?_congr {a b : Order} (h : b.legs = a.legs) :
    b.destination? = a.destination? := by
  rw [destination?, h, destination?]

theorem Desk.draftOrder_routed {request : Order.NewOrder} (h : request.check = .ok ())
    (desk : Desk) : (Docket.new (desk.draftOrder request)).Routed := by
  constructor
  · exact fun hnil => Order.NewOrder.legs_ne_nil h (Order.buildLegs_eq_nil.1 hnil)
  · exact Order.destination?_of_built rfl

theorem Case.Decided.legs_eq {c c' : Case} {cmd : Command} (h : Decided c cmd c') :
    c'.docket.order.legs = c.docket.order.legs := by
  cases h with
  | taken _ _ _ hc =>
      rw [← claim_docket hc]
      rfl
  | withdrawn => rfl
  | recalled =>
      show (releaseDriver _).docket.order.legs = _
      rw [releaseDriver_docket]
      rfl
  | completed =>
      rw [completed_docket]

/-- The legs of an order are there to stay. -/
theorem Case.routed_law : Law fun a b => a.Routed → b.Routed := by
  have hlegs : ∀ {a b : Docket}, b.order.legs = a.order.legs → a.Routed → b.Routed := by
    intro a b hl h
    rw [Docket.Routed, Order.destination?_congr hl, hl]
    exact h
  exact
    { refl := fun _ h => h
      trans := fun h₁ h₂ h => h₂ (h₁ h)
      moved := fun _ hm => hlegs (congrArg Order.legs hm.order_eq)
      decided := fun _ hd => hlegs hd.legs_eq
      resumed := fun _ hr => hlegs (congrArg Order.legs hr.order_eq) }

theorem Docket.Routed.ends {d : Docket} (h : d.Routed) :
    ∃ pickup destination, d.order.pickup? = some pickup ∧
      d.order.destination? = some destination := by
  obtain ⟨hne, hend⟩ := h
  cases hl : d.order.legs with
  | nil => exact absurd hl hne
  | cons leg rest =>
      rw [hl, List.getLast?_cons] at hend
      refine ⟨leg.pickup, _, ?_, hend⟩
      rw [Order.pickup?, hl]
      rfl

/-- A claim that succeeds queues the trip of the order. -/
theorem Case.claim_trips {driver : Uuid} {c c' : Case} (h : c.claim driver = (true, c'))
    {pickup destination : Point} (hp : c.docket.order.pickup? = some pickup)
    (hd : c.docket.order.destination? = some destination) (other : Uuid) :
    (c'.floor.fleet.driver other).trips =
      if driver = other then
        ((c.floor.fleet.driver driver).addTrip ⟨c.docket.id, destination⟩).trips
      else (c.floor.fleet.driver other).trips := by
  unfold claim at h
  rw [hp, hd] at h
  obtain ⟨hclaimed, rfl⟩ := Prod.mk.inj h
  exact Fleet.claimTrip_trips hclaimed

theorem Case.releaseDriver_trips {c : Case} {driver : Uuid}
    (h : c.docket.order.driver? = some driver) (other : Uuid) :
    (c.releaseDriver.floor.fleet.driver other).trips =
      if driver = other then
        (c.floor.fleet.driver other).trips.filter (·.order ≠ c.docket.id)
      else (c.floor.fleet.driver other).trips := by
  rw [releaseDriver, h]
  exact Fleet.markFree_trips

theorem Case.completed_trips {c : Case} {driver : Uuid}
    (h : c.docket.order.driver? = some driver) (other : Uuid) :
    (c.completed.floor.fleet.driver other).trips =
      if driver = other then
        (c.floor.fleet.driver other).trips.filter (·.order ≠ c.docket.id)
      else (c.floor.fleet.driver other).trips := by
  simp only [completed, onDocket, h]
  exact Fleet.markFree_trips

/-! ## Trips as the dockets have them -/

/-- The trip that a driver has for an order, if it is confirmed with them. -/
def Docket.tripOf? (driver : Uuid) (d : Docket) : Option Driver.Trip :=
  if d.order.status = .confirmed ∧ d.order.driver? = some driver then
    d.order.destination?.map fun destination => ⟨d.id, destination⟩
  else none

namespace Docket

theorem tripOf?_order {driver : Uuid} {d : Docket} {trip : Driver.Trip}
    (h : d.tripOf? driver = some trip) : trip.order = d.id := by
  unfold tripOf? at h
  split at h
  · obtain ⟨_, -, rfl⟩ := Option.map_eq_some_iff.1 h
    rfl
  · cases h

theorem tripOf?_of_ne {d : Docket} (h : d.order.status ≠ .confirmed) (driver : Uuid) :
    d.tripOf? driver = none := by
  rw [tripOf?, if_neg fun hc => h hc.1]

/-- A driver has a trip for an order if it is confirmed with them, and it ends
where the last leg does. -/
theorem Routed.tripOf?_cases {d : Docket} (h : d.Routed) (driver : Uuid) :
    ((d.order.status = .confirmed ∧ d.order.driver? = some driver) ∧
        ∃ leg, d.order.legs.getLast? = some leg ∧
          d.tripOf? driver = some ⟨d.id, leg.dropoff⟩) ∨
      (¬(d.order.status = .confirmed ∧ d.order.driver? = some driver) ∧
        d.tripOf? driver = none) := by
  by_cases hc : d.order.status = .confirmed ∧ d.order.driver? = some driver
  · obtain ⟨_, destination, -, hd⟩ := h.ends
    obtain ⟨leg, hl, hleg⟩ := Option.map_eq_some_iff.1 (h.2.symm.trans hd)
    refine .inl ⟨hc, leg, hl, ?_⟩
    rw [tripOf?, if_pos hc, hd, hleg]
    rfl
  · exact .inr ⟨hc, if_neg hc⟩

theorem tripOf?_congr {d d' : Docket} (h : d'.order = d.order) (driver : Uuid) :
    d'.tripOf? driver = d.tripOf? driver := by
  rw [tripOf?, id, h, tripOf?, id]

end Docket

/-- Whoever accepted an order has its trip. -/
theorem Case.taken_tripOf? {offer : Offer} {c : Case} {destination : Point}
    (h : c.docket.order.destination? = some destination) (driver : Uuid) :
    (c.taken offer).docket.tripOf? driver =
      if offer.driver = driver then some ⟨c.docket.id, destination⟩ else none := by
  have hend : (c.taken offer).docket.order.destination? = some destination := h
  have hdriver : (c.taken offer).docket.order.driver? = some offer.driver := rfl
  rw [Docket.tripOf?, hend, hdriver]
  by_cases he : offer.driver = driver
  · rw [if_pos he, he]
    exact if_pos ⟨rfl, rfl⟩
  · rw [if_neg he]
    exact if_neg fun hc => he (Option.some.inj hc.2)

namespace Desk

def tripOf? (driver : Uuid) (desk : Desk) (order : Uuid) : Option Driver.Trip :=
  (desk.docket? order).bind (·.tripOf? driver)

theorem tripOf?_order {driver order : Uuid} {desk : Desk} {trip : Driver.Trip}
    (h : desk.tripOf? driver order = some trip) : trip.order = order := by
  obtain ⟨docket, hd, ht⟩ := Option.bind_eq_some_iff.1 h
  rw [Docket.tripOf?_order ht, id_of_docket? hd]

theorem tripOf?_putBack (driver : Uuid) (c : Case) (desk : Desk) (order : Uuid) :
    (desk.putBack c).tripOf? driver order =
      if c.docket.id = order then c.docket.tripOf? driver else desk.tripOf? driver order := by
  rw [tripOf?, docket?_putBack]
  split <;> rfl

/-- Work that leaves the order alone leaves its trip alone. -/
theorem tripOf?_putBack_of_eq {desk : Desk} {docket : Docket} {c : Case}
    (hd : desk.docket? docket.id = some docket) (ho : c.docket.order = docket.order)
    (driver order : Uuid) :
    (desk.putBack c).tripOf? driver order = desk.tripOf? driver order := by
  rw [tripOf?_putBack]
  split
  · next he =>
      have hid : c.docket.id = docket.id := congrArg Order.id ho
      rw [tripOf?, ← he, hid, hd, Docket.tripOf?_congr ho]
      rfl
  · rfl

/-- The fleet and the dockets agree on who drives what, given the orders that
were accepted so far. -/
structure Agreed (accepted : List Uuid) (desk : Desk) : Prop where
  trips : ∀ driver, (desk.floor.fleet.driver driver).trips =
    accepted.filterMap (desk.tripOf? driver)
  accepted : ∀ {driver order trip}, desk.tripOf? driver order = some trip → order ∈ accepted

theorem Agreed.congr {accepted : List Uuid} {desk desk' : Desk} (h : desk.Agreed accepted)
    (ht : ∀ driver, (desk'.floor.fleet.driver driver).trips =
      (desk.floor.fleet.driver driver).trips)
    (ho : ∀ driver order, desk'.tripOf? driver order = desk.tripOf? driver order) :
    desk'.Agreed accepted := by
  constructor
  · intro driver
    rw [ht, h.trips]
    exact List.filterMap_congr fun order _ => (ho driver order).symm
  · intro driver order trip hf
    rw [ho] at hf
    exact h.accepted hf

theorem Move.agreed {accepted : List Uuid} {desk desk' : Desk} (h : Move desk desk')
    (hi : desk'.floor.issued ≤ Uuid.capacity) (ha : desk.Agreed accepted) :
    desk'.Agreed accepted := by
  cases h with
  | worked hd hm =>
      refine ha.congr (fun driver => ?_) fun driver order => ?_
      · show (Fleet.driver (Case.floor _).fleet driver).trips = _
        rw [hm.fleet_eq]
      · exact tripOf?_putBack_of_eq hd hm.order_eq driver order
  | entered _ hn =>
      rw [enter_issued] at hi
      refine ha.congr (fun driver => by rw [enter_fleet]) fun driver order => ?_
      rw [tripOf?, docket?_enter]
      split
      · next he =>
          have hnew : desk.docket? order = none := he ▸ hn hi
          rw [tripOf?, hnew]
          exact Docket.tripOf?_of_ne (fun h => by cases h) driver
      · rfl
  | reported => exact ha.congr (fun _ => Fleet.report_trips) fun _ _ => rfl
  | madeAvailable => exact ha.congr (fun _ => Fleet.setAvailability_trips) fun _ _ => rfl
  | sweepCounted => exact ha.congr (fun _ => rfl) fun _ _ => rfl

theorem Moves.agreed {accepted : List Uuid} {desk desk' : Desk} (h : Moves desk desk')
    (hi : desk'.floor.issued ≤ Uuid.capacity) (ha : desk.Agreed accepted) :
    desk'.Agreed accepted := by
  induction h with
  | refl => exact ha
  | tail _ hm ih => exact hm.agreed hi (ih (Nat.le_trans hm.issued_le hi))

/-! ## Decisions -/

section Decisions

variable {accepted : List Uuid} {desk : Desk} {docket : Docket} {c : Case}

/-- A driver with whom the order is not confirmed has no trip for it. -/
theorem Agreed.no_trip (h : desk.Agreed accepted)
    (hd : desk.docket? docket.id = some docket) {driver : Uuid}
    (hn : docket.tripOf? driver = none) :
    ∀ trip ∈ (desk.floor.fleet.driver driver).trips, trip.order ≠ docket.id := by
  intro trip hmem he
  rw [h.trips] at hmem
  obtain ⟨order, -, hf⟩ := List.mem_filterMap.1 hmem
  obtain rfl : docket.id = order := he.symm.trans (tripOf?_order hf)
  rw [tripOf?, hd] at hf
  exact absurd (hn.symm.trans hf) (by simp)

/-- A driver who does not have the order has no trip to be taken off. -/
theorem Agreed.filter_eq (h : desk.Agreed accepted)
    (hd : desk.docket? docket.id = some docket) {driver : Uuid}
    (hn : docket.tripOf? driver = none) :
    (desk.floor.fleet.driver driver).trips.filter (·.order ≠ docket.id) =
      (desk.floor.fleet.driver driver).trips :=
  List.filter_eq_self.2 fun trip hmem => decide_eq_true (h.no_trip hd hn trip hmem)

/-- Taking the trip off from its driver takes it off from everybody. -/
theorem Agreed.freed (h : desk.Agreed accepted)
    (hd : desk.docket? docket.id = some docket) {owner : Uuid}
    (ho : docket.order.driver? = some owner) (driver : Uuid) :
    (if owner = driver then
      (desk.floor.fleet.driver driver).trips.filter (·.order ≠ docket.id)
    else (desk.floor.fleet.driver driver).trips) =
      (desk.floor.fleet.driver driver).trips.filter (·.order ≠ docket.id) := by
  split
  · rfl
  · next hne =>
      refine (h.filter_eq hd (if_neg fun hc => hne ?_)).symm
      exact Option.some.inj (ho.symm.trans hc.2)

/-- The order is over, and its trip is taken off. -/
theorem Agreed.ended (h : desk.Agreed accepted) (hid : c.docket.id = docket.id)
    (hn : ∀ driver, c.docket.tripOf? driver = none)
    (ht : ∀ driver, (c.floor.fleet.driver driver).trips =
      (desk.floor.fleet.driver driver).trips.filter (·.order ≠ docket.id)) :
    (desk.putBack c).Agreed accepted := by
  constructor
  · intro driver
    refine (ht driver).trans ?_
    rw [h.trips, List.filter_filterMap]
    refine List.filterMap_congr fun order _ => ?_
    rw [tripOf?_putBack, hid]
    split
    · next he =>
        cases hf : desk.tripOf? driver order with
        | none => exact (hn driver).symm
        | some trip => simp [tripOf?_order hf, he, hn]
    · next hne =>
        cases hf : desk.tripOf? driver order with
        | none => rfl
        | some trip => simp [tripOf?_order hf, Ne.symm hne]
  · intro driver order trip hf
    rw [tripOf?_putBack] at hf
    split at hf
    · rw [hn] at hf
      cases hf
    · exact h.accepted hf

/-- The order is accepted, and its trip is queued behind the others. -/
theorem Agreed.taken (h : desk.Agreed accepted) (hid : c.docket.id = docket.id)
    (hnew : docket.id ∉ accepted) (taker : Uuid) (destination : Point)
    (hn : ∀ driver, c.docket.tripOf? driver =
      if taker = driver then some ⟨docket.id, destination⟩ else none)
    (ht : ∀ driver, (c.floor.fleet.driver driver).trips =
      if taker = driver then
        (desk.floor.fleet.driver driver).trips ++ [⟨docket.id, destination⟩]
      else (desk.floor.fleet.driver driver).trips) :
    (desk.putBack c).Agreed (accepted ++ [docket.id]) := by
  constructor
  · intro driver
    have hold : accepted.filterMap ((desk.putBack c).tripOf? driver) =
        accepted.filterMap (desk.tripOf? driver) := by
      refine List.filterMap_congr fun order hmem => ?_
      have hne : docket.id ≠ order := fun he => hnew (he ▸ hmem)
      rw [tripOf?_putBack, hid, if_neg hne]
    refine (ht driver).trans ?_
    rw [List.filterMap_append, hold, ← h.trips, List.filterMap_cons, tripOf?_putBack, hid,
      if_pos rfl, hn]
    split <;> simp
  · intro driver order trip hf
    rw [tripOf?_putBack, hid] at hf
    split at hf
    · next he => simp [he]
    · exact List.mem_append_left _ (h.accepted hf)

/-- What a decision does to both sides. -/
theorem Agreed.decided {cmd : Command} (h : desk.Agreed accepted)
    (hd : desk.docket? docket.id = some docket) (hc : Case.Decided ⟨docket, desk.floor⟩ cmd c)
    (ho : docket.Orderly) (hr : docket.Routed)
    (hnew : docket.order.status = .pending → docket.id ∉ accepted) :
    (desk.putBack c).Agreed (accepted ++ cmd.accepted?.toList) := by
  have hid := hc.id_eq
  have hstatus : ∀ {status : Order.Status}, docket.order.status = status →
      status ≠ .confirmed → ∀ driver, docket.tripOf? driver = none :=
    fun hs hne => Docket.tripOf?_of_ne (hs ▸ hne)
  cases hc with
  | @taken offer c₁ hp hl _ hclaim =>
      obtain ⟨pickup, destination, hpick, hdest⟩ := hr.ends
      have hdocket : c₁.docket = docket := Case.claim_docket hclaim
      have hfleet : (c₁.taken offer).floor.fleet = c₁.floor.fleet := Floor.settle_fleet _ _
      refine h.taken hid (hnew hp) offer.driver destination (fun driver => ?_) fun driver => ?_
      · rw [← hdocket] at hdest
        rw [Case.taken_tripOf? hdest, hdocket]
      · have hnone := hstatus hp (by decide) offer.driver
        rw [hfleet, Case.claim_trips hclaim hpick hdest]
        split
        · next he =>
            rw [← he]
            exact Driver.addTrip_trips (h.no_trip hd hnone)
        · rfl
  | withdrawn hp =>
      show (desk.putBack _).Agreed (accepted ++ [])
      rw [List.append_nil]
      refine h.ended hid (fun _ => Docket.tripOf?_of_ne (fun h => by cases h) _)
        fun driver => ?_
      rw [h.filter_eq hd (hstatus hp (by decide) driver)]
      exact congrArg _ (congrArg (Fleet.driver · driver) (Floor.settle_fleet _ _))
  | @recalled _ _ cancellation hp =>
      show (desk.putBack _).Agreed (accepted ++ [])
      rw [List.append_nil]
      obtain ⟨owner, howner⟩ := ho.exists_driver (.inl hp)
      refine h.ended hid (fun driver => ?_) fun driver => ?_
      · show (Case.releaseDriver _).docket.tripOf? driver = none
        rw [Case.releaseDriver_docket]
        exact Docket.tripOf?_of_ne (fun h => by cases h) driver
      · have hcase : (Case.withdraw cancellation
            ⟨docket, desk.floor⟩).docket.order.driver? = some owner := howner
        rw [← h.freed hd howner driver]
        refine Eq.trans ?_ (Case.releaseDriver_trips hcase driver)
        exact congrArg _ (congrArg (Fleet.driver · driver) (Floor.settle_fleet _ _))
  | completed hp =>
      show (desk.putBack _).Agreed (accepted ++ [])
      rw [List.append_nil]
      obtain ⟨owner, howner⟩ := ho.exists_driver (.inl hp)
      refine h.ended hid (fun driver => ?_) fun driver => ?_
      · rw [Case.completed_docket]
        exact Docket.tripOf?_of_ne (fun h => by cases h) driver
      · rw [← h.freed hd howner driver]
        exact Case.completed_trips howner driver

end Decisions

/-! ## Whole runs -/

def Routed (desk : Desk) : Prop :=
  ∀ ⦃order docket⦄, desk.docket? order = some docket → docket.Routed

theorem Turn.agreed {accepted : List Uuid} {desk desk' : Desk} {cmd : Command}
    (h : Turn desk cmd desk') (hs : desk.Sound) (hi : desk'.floor.issued ≤ Uuid.capacity)
    (hdirect : cmd.isDirect = false)
    (hr : desk.Routed)
    (hold : ∀ order ∈ accepted, ∃ docket, desk.docket? order = some docket ∧
      docket.order.status ≠ .pending)
    (ha : desk.Agreed accepted) : desk'.Agreed (accepted ++ desk.acceptance cmd) := by
  cases h with
  | passed hn hm =>
      rw [acceptance_eq_nil hn, List.append_nil]
      exact Moves.agreed hm.moves hi ha
  | decided hd hdone hc =>
      rw [acceptance, if_pos hdone]
      refine ha.decided hd hc (hs.orderly hd) (hr hd) fun hp hmem => ?_
      obtain ⟨found, hf, hne⟩ := hold _ hmem
      rw [hd] at hf
      obtain rfl := Option.some.inj hf
      exact hne hp
  | woken _ hd hresumed =>
      rw [acceptance_eq_nil (fun h => by cases h), List.append_nil]
      have hid := id_of_docket? hd
      rw [← hid] at hd
      refine ha.congr (fun driver => ?_) (tripOf?_putBack_of_eq hd hresumed.order_eq)
      show (Fleet.driver (Case.floor _).fleet driver).trips = _
      rw [hresumed.fleet_eq]
      rfl
  | lost | clockSet =>
      rw [acceptance_eq_nil (fun h => by cases h), List.append_nil]
      exact ha.congr (fun _ => rfl) fun _ _ => rfl
  | claimed | freed => cases hdirect

theorem Drafted.routed {record : Order} (h : Drafted record) : (Docket.new record).Routed := by
  obtain ⟨desk, request, hr, rfl⟩ := h
  exact desk.draftOrder_routed hr

theorem run_routed {settings : Settings} {start : Instant} {cmds : List Command}
    (hi : ((opening settings start).run cmds).floor.issued ≤ Uuid.capacity) :
    ((opening settings start).run cmds).Routed :=
  fun _ _ hd => run_docket (P := Docket.Routed) Case.routed_law (fun _ hr => hr.routed) hi hd

theorem run_agreed {settings : Settings} {start : Instant} {cmds : List Command}
    (hi : ((opening settings start).run cmds).floor.issued ≤ Uuid.capacity)
    (hdirect : ∀ cmd ∈ cmds, cmd.isDirect = false) :
    ((opening settings start).run cmds).Agreed ((opening settings start).accepted cmds) := by
  revert hdirect
  refine run_induction (P := fun cmds desk => (∀ cmd ∈ cmds, cmd.isDirect = false) →
    desk.Agreed ((opening settings start).accepted cmds))
    (opening_sound settings start) ?_ ?_ hi
  · intro _
    exact ⟨fun _ => rfl, fun h => by cases h⟩
  · intro cmds cmd hs ht hi ih hdirect
    have hbefore := Nat.le_trans ht.issued_le hi
    have hcmd : cmd.isDirect = false := hdirect cmd (by simp)
    have hrest : ∀ cmd ∈ cmds, cmd.isDirect = false :=
      fun cmd hmem => hdirect cmd (List.mem_append_left _ hmem)
    rw [accepted_concat]
    exact ht.agreed hs hi hcmd (run_routed hbefore) (accepted_once hbefore).2
      (ih hrest)

/-- The order is confirmed and goes to the driver. -/
def isConfirmedWith (driver : Uuid) (desk : Desk) (order : Uuid) : Bool :=
  (desk.docket? order).any fun d =>
    d.order.status = .confirmed && d.order.driver? = some driver

theorem isConfirmedWith_iff {driver order : Uuid} {desk : Desk} :
    desk.isConfirmedWith driver order = true ↔ ∃ docket, desk.docket? order = some docket ∧
      docket.order.status = .confirmed ∧ docket.order.driver? = some driver := by
  simp [isConfirmedWith, Option.any_eq_true]

/-- The orders of trips are those confirmed with the driver. -/
theorem tripOf?_map_order {desk : Desk}
    (hr : desk.Routed)
    (driver order : Uuid) :
    (desk.tripOf? driver order).map (·.order) =
      Option.guard (desk.isConfirmedWith driver) order := by
  cases hd : desk.docket? order with
  | none => simp [tripOf?, isConfirmedWith, Option.guard, hd]
  | some docket =>
      have htrip : desk.tripOf? driver order = docket.tripOf? driver := by rw [tripOf?, hd]; rfl
      rcases (hr hd).tripOf?_cases driver with ⟨hc, leg, -, ht⟩ | ⟨hc, ht⟩
      · have hwith := isConfirmedWith_iff.2 ⟨docket, hd, hc⟩
        rw [htrip, ht, Option.guard, if_pos hwith, ← id_of_docket? hd]
        rfl
      · have hwith : desk.isConfirmedWith driver order = false := by
          rw [← Bool.not_eq_true, isConfirmedWith_iff]
          rintro ⟨found, hf, hfound⟩
          rw [hd] at hf
          obtain rfl := Option.some.inj hf
          exact hc hfound
        rw [htrip, ht, Option.guard, hwith]
        rfl

section Agreement

variable {accepted : List Uuid} {desk : Desk}

theorem Agreed.orders_eq (h : desk.Agreed accepted)
    (hr : desk.Routed) (driver : Uuid) :
    (desk.floor.fleet.driver driver).trips.map (·.order) =
      accepted.filter (desk.isConfirmedWith driver) := by
  rw [h.trips, List.map_filterMap, ← List.filterMap_eq_filter]
  exact List.filterMap_congr fun order _ => tripOf?_map_order hr driver order

theorem Agreed.mem_orders (h : desk.Agreed accepted)
    (hr : desk.Routed)
    {driver order : Uuid} :
    order ∈ (desk.floor.fleet.driver driver).trips.map (·.order) ↔
      ∃ docket, desk.docket? order = some docket ∧
        docket.order.status = .confirmed ∧ docket.order.driver? = some driver := by
  rw [h.orders_eq hr, List.mem_filter, isConfirmedWith_iff]
  refine ⟨fun hc => hc.2, fun hc => ⟨?_, hc⟩⟩
  obtain ⟨docket, hd, hwith⟩ := hc
  rcases (hr hd).tripOf?_cases driver with ⟨-, leg, -, ht⟩ | ⟨hn, -⟩
  · have htrip : desk.tripOf? driver order = some _ := Option.bind_eq_some_iff.2 ⟨docket, hd, ht⟩
    exact h.accepted htrip
  · exact absurd hwith hn

/-- A trip ends where the last leg of its order does. -/
theorem Agreed.trip_ends (h : desk.Agreed accepted)
    (hr : desk.Routed)
    {driver : Uuid} {trip : Driver.Trip}
    (hmem : trip ∈ (desk.floor.fleet.driver driver).trips) :
    ∃ docket leg, desk.docket? trip.order = some docket ∧
      docket.order.legs.getLast? = some leg ∧ trip.destination = leg.dropoff := by
  rw [h.trips] at hmem
  obtain ⟨order, -, hf⟩ := List.mem_filterMap.1 hmem
  obtain rfl := tripOf?_order hf
  obtain ⟨docket, hd, ht⟩ := Option.bind_eq_some_iff.1 hf
  rcases (hr hd).tripOf?_cases driver with ⟨-, leg, hl, hleg⟩ | ⟨-, hnone⟩
  · rw [hleg] at ht
    obtain rfl := Option.some.inj ht
    exact ⟨docket, leg, hd, hl, rfl⟩
  · rw [hnone] at ht
    cases ht

theorem Agreed.isFree_iff (h : desk.Agreed accepted)
    (hr : desk.Routed) (driver : Uuid) :
    (desk.floor.fleet.driver driver).isFree = true ↔
      ∀ order docket, desk.docket? order = some docket →
        ¬(docket.order.status = .confirmed ∧ docket.order.driver? = some driver) := by
  rw [Driver.isFree, List.isEmpty_iff]
  constructor
  · intro hnil order docket hd hc
    have hin := (h.mem_orders hr).2 ⟨docket, hd, hc⟩
    rw [hnil] at hin
    cases hin
  · intro hnone
    refine List.eq_nil_iff_forall_not_mem.2 fun trip hmem => ?_
    obtain ⟨docket, hd, hc⟩ := (h.mem_orders hr).1 (List.mem_map_of_mem hmem)
    exact hnone trip.order docket hd hc

end Agreement

/-- After every run in which trips are only touched by way of the orders, the
trips of a driver are the orders confirmed with them, each once and in the
order in which they were accepted, and each ends where the last leg of the
order does. So a driver is free exactly if no confirmed order names them, and
nobody has a trip left for an order that is cancelled or completed. -/
theorem trips_are_confirmed_orders (settings : Settings) (start : Instant)
    (cmds : List Command)
    (hi : ((opening settings start).run cmds).floor.issued ≤ Uuid.capacity)
    (hdirect : ∀ cmd ∈ cmds, cmd.isDirect = false) (driver : Uuid) :
    let desk := (opening settings start).run cmds
    let trips := (desk.floor.fleet.driver driver).trips
    trips.map (·.order) =
        ((opening settings start).accepted cmds).filter (desk.isConfirmedWith driver) ∧
      (trips.map (·.order)).Nodup ∧
      (∀ order, order ∈ trips.map (·.order) ↔
        ∃ docket, desk.docket? order = some docket ∧
          docket.order.status = .confirmed ∧ docket.order.driver? = some driver) ∧
      (∀ trip ∈ trips, ∃ docket leg, desk.docket? trip.order = some docket ∧
        docket.order.legs.getLast? = some leg ∧ trip.destination = leg.dropoff) ∧
      ((desk.floor.fleet.driver driver).isFree = true ↔
        ∀ order docket, desk.docket? order = some docket →
          ¬(docket.order.status = .confirmed ∧ docket.order.driver? = some driver)) ∧
      (∀ order docket, desk.docket? order = some docket →
        docket.order.status = .cancelled ∨ docket.order.status = .completed →
        ∀ trip ∈ trips, trip.order ≠ order) := by
  have ha := run_agreed hi hdirect
  have hr := run_routed hi
  intro desk trips
  refine ⟨ha.orders_eq hr driver, ?_, fun order => ha.mem_orders hr,
    fun trip hmem => ha.trip_ends hr hmem, ha.isFree_iff hr driver, ?_⟩
  · rw [show trips.map (·.order) = _ from ha.orders_eq hr driver]
    exact (accepted_once hi).1.filter _
  · intro order docket hd hover trip htrip he
    obtain ⟨found, hf, hc, -⟩ := (ha.mem_orders hr).1 (List.mem_map.2 ⟨trip, htrip, he⟩)
    obtain rfl := Option.some.inj (hd.symm.trans hf)
    rw [hc] at hover
    rcases hover with h | h <;> cases h

theorem trips_are_confirmed_orders_trial :
    ((opening {} trialStart).run trialRun).floor.issued ≤ Uuid.capacity ∧
      (∀ cmd ∈ trialRun, cmd.isDirect = false) ∧
      (((opening {} trialStart).run trialRun).floor.fleet.driver (.ofNat 9)).trips.map (·.order) =
        ((opening {} trialStart).accepted trialRun).filter
          (((opening {} trialStart).run trialRun).isConfirmedWith (.ofNat 9)) := by
  have hi : ((opening {} trialStart).run trialRun).floor.issued ≤ Uuid.capacity := by
    decide +kernel
  have hdirect : ∀ cmd ∈ trialRun, cmd.isDirect = false := by simp [trialRun, Command.isDirect]
  exact ⟨hi, hdirect, (trips_are_confirmed_orders {} trialStart trialRun hi hdirect (.ofNat 9)).1⟩

end Desk

end Hailing
