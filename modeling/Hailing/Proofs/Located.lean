import Hailing.Proofs.Exclusion
import Hailing.Proofs.Positions

/-!
# A confirmed order has a driver to show

A free driver is asked only where they are known to be, but of a busy driver
nobody asks that: what counts is where the trip ends. Still the driver of a
confirmed order is always known to be somewhere. A driver gets on a trip by
accepting an offer, and the first offer went to them while they were free; and
what was known once is never forgotten. So the invariant is about two kinds of
drivers at once, those who were asked and those who are on a trip (`Located`),
and each kind keeps the other one going.

A trip that is queued past the orders breaks the chain, so there must be none.
-/

namespace Hailing

open Geo (Point)
open Time (Instant)

/-- Queues a trip past the orders. -/
def Command.isClaim : Command → Bool
  | .claimTrip _ _ _ => true
  | _ => false

namespace Fleet

/-- Drivers stay where they were, or go somewhere else. -/
def Places (fleet fleet' : Fleet) : Prop :=
  ∀ driver, (fleet.position? driver).isSome = true → (fleet'.position? driver).isSome = true

theorem Places.of_eq {fleet fleet' : Fleet}
    (h : ∀ driver, fleet'.position? driver = fleet.position? driver) : fleet.Places fleet' :=
  fun driver hd => (congrArg Option.isSome (h driver)).trans hd

theorem report_places (id : Uuid) (point : Point) (stamp now : Instant) (fleet : Fleet) :
    fleet.Places (fleet.report id point stamp now).2 := by
  rcases report_cases id point stamp now fleet with ⟨h, -⟩ | ⟨h, -⟩ | ⟨-, -, h⟩
  · rw [h]
    exact fun _ hd => hd
  · rw [h]
    exact fun _ hd => hd
  · intro driver hd
    rw [h]
    split
    · rfl
    · exact hd

/-- Everybody who is on a trip is known to be somewhere. -/
def TripsLocated (fleet : Fleet) : Prop :=
  ∀ driver, (fleet.driver driver).trips ≠ [] → (fleet.position? driver).isSome = true

theorem TripsLocated.congr {fleet fleet' : Fleet} (h : fleet.TripsLocated)
    (hp : fleet.Places fleet')
    (ht : ∀ driver, (fleet'.driver driver).trips ≠ [] → (fleet.driver driver).trips ≠ []) :
    fleet'.TripsLocated :=
  fun driver hd => hp driver (h driver (ht driver hd))

theorem report_tripsLocated {fleet : Fleet} (h : fleet.TripsLocated) (id : Uuid)
    (point : Point) (stamp now : Instant) :
    (fleet.report id point stamp now).2.TripsLocated := by
  refine h.congr (report_places id point stamp now fleet) fun driver hd => ?_
  rwa [report_trips] at hd

theorem setAvailability_tripsLocated {fleet : Fleet} (h : fleet.TripsLocated) (id : Uuid)
    (online : Bool) (maxPickup : Option Float) :
    (fleet.setAvailability id online maxPickup).2.TripsLocated := by
  refine h.congr (.of_eq fun _ => setAvailability_position?) fun driver hd => ?_
  rwa [setAvailability_trips] at hd

/-- A trip may be given to a driver who is known to be somewhere. -/
theorem claimTrip_tripsLocated {fleet : Fleet} (h : fleet.TripsLocated) {radius : Float}
    {id : Uuid} {pickup : Point} {trip : Driver.Trip}
    (hc : (fleet.claimTrip radius id pickup trip).1 = true)
    (hp : (fleet.position? id).isSome = true) :
    (fleet.claimTrip radius id pickup trip).2.TripsLocated := by
  intro driver hd
  rw [claimTrip_position?]
  rw [claimTrip_trips hc] at hd
  split at hd
  · next he => exact he ▸ hp
  · exact h driver hd

theorem markFree_tripsLocated {fleet : Fleet} (h : fleet.TripsLocated) (id order : Uuid) :
    (fleet.markFree id order).TripsLocated := by
  refine h.congr (.of_eq fun _ => markFree_position?) fun driver hd hn => hd ?_
  rw [markFree_trips, hn]
  split <;> rfl

end Fleet

/-- Everybody who was asked is known to be somewhere. -/
def Docket.AskedLocated (fleet : Fleet) (d : Docket) : Prop :=
  ∀ driver ∈ d.asked, (fleet.position? driver).isSome = true

theorem Docket.AskedLocated.congr {fleet fleet' : Fleet} {d d' : Docket}
    (h : d.AskedLocated fleet) (hp : fleet.Places fleet') (ha : d'.asked = d.asked) :
    d'.AskedLocated fleet' :=
  fun driver hd => hp driver (h driver (ha ▸ hd))

namespace Case

/-! ## Whoever is asked is known to be somewhere -/

structure Located (c : Case) : Prop where
  asked : c.docket.AskedLocated c.floor.fleet
  trips : c.floor.fleet.TripsLocated

theorem Located.congr {c c' : Case} (h : c.Located) (hf : c'.floor.fleet = c.floor.fleet)
    (ha : c'.docket.asked = c.docket.asked) : c'.Located where
  asked := by
    rw [hf]
    exact h.asked.congr (fun _ hd => hd) ha
  trips := hf ▸ h.trips

/-- A candidate is free and was seen, or is busy and so was seen before. -/
theorem best?_located {c : Case} (h : c.floor.fleet.TripsLocated) {radius : Float}
    {candidate : Candidate} (hb : c.best? radius = .ok (some candidate)) :
    (c.floor.fleet.position? candidate.driver).isSome = true := by
  obtain ⟨d, hd, hsame, hcase⟩ := best?_available hb
  have hfound : c.floor.fleet.find? d.id = some d :=
    Register.mem_items.1 (Fleet.mem_available.1 hd).1
  rw [hsame]
  rcases hcase with hseen | htrips
  · rw [Fleet.position?, hfound]
    exact hseen
  · refine h d.id ?_
    rw [Fleet.driver, hfound]
    exact htrips

theorem makeOffer_located {c : Case} (h : c.Located) {radius : Float} {candidate : Candidate}
    (hb : c.best? radius = .ok (some candidate)) :
    (c.makeOffer (c.draftOffer candidate radius)).Located where
  asked := by
    intro driver hd
    rw [Docket.asked, makeOffer, List.map_append, List.mem_append] at hd
    rcases hd with hd | hd
    · exact h.asked driver hd
    · obtain rfl := List.mem_singleton.1 hd
      exact best?_located h.trips hb
  trips := h.trips

theorem Move.located {c c' : Case} (hm : Move c c') (h : c.Located) : c'.Located := by
  cases hm with
  | dispatched hd =>
      cases hd with
      | skipped => exact h
      | offered _ _ hb => exact makeOffer_located h hb
      | searching | exhausted => exact h.congr rfl rfl
  | excluded driver =>
      exact h.congr rfl (by rw [onDocket, Docket.asked, Docket.exclude_offers]; rfl)
  | closed hl =>
      refine h.congr (Floor.settle_fleet _ _) ?_
      rw [← Docket.answered_asked hl _ c.floor.now, Docket.asked, Docket.asked]
      exact congrArg _ (Docket.exclude_offers _ _)
  | settled => exact h.congr (Floor.settle_fleet _ _) rfl

theorem Moves.located {c c' : Case} (hm : Moves c c') (h : c.Located) : c'.Located := by
  induction hm with
  | refl => exact h
  | tail _ hm ih => exact hm.located ih

theorem Resumed.located {radii : Radii} {c c' : Case} (hr : Resumed radii c c')
    (h : c.Located) : c'.Located := by
  cases hr with
  | offered _ _ hb => exact (makeOffer_located h hb).congr rfl rfl
  | abandoned | exhausted | widened => exact h.congr rfl rfl

/-- A decision gives a trip to nobody but the driver of the last offer. -/
theorem Decided.tripsLocated {c c' : Case} {cmd : Command} (hd : Decided c cmd c')
    (h : c.Located) : c'.floor.fleet.TripsLocated := by
  cases hd with
  | @taken offer c₁ _ hl _ hc =>
      have hasked : offer.driver ∈ c.docket.asked :=
        List.mem_map_of_mem (List.mem_of_getLast? hl)
      have hfleet : (c₁.taken offer).floor.fleet = c₁.floor.fleet := Floor.settle_fleet _ _
      rw [hfleet]
      rcases claim_cases offer.driver c with hclaim | ⟨pickup, trip, hclaim⟩
      · obtain ⟨-, rfl⟩ := Prod.mk.inj (hclaim.symm.trans hc)
        exact h.trips
      · obtain ⟨hclaimed, rfl⟩ := Prod.mk.inj (hclaim.symm.trans hc)
        exact Fleet.claimTrip_tripsLocated h.trips hclaimed (h.asked _ hasked)
  | @withdrawn _ _ cancellation =>
      have hfleet : ((c.withdraw cancellation).count
          fun l => { l with pending := l.pending - 1 }).settle.floor.fleet = c.floor.fleet :=
        Floor.settle_fleet _ _
      rw [hfleet]
      exact h.trips
  | @recalled _ _ cancellation =>
      have hfleet : (c.withdraw cancellation).releaseDriver.settle.floor.fleet =
          (c.withdraw cancellation).releaseDriver.floor.fleet := Floor.settle_fleet _ _
      rw [hfleet, releaseDriver]
      split
      · exact h.trips
      · exact Fleet.markFree_tripsLocated h.trips _ _
  | completed =>
      unfold Case.completed
      dsimp only
      split
      · exact h.trips
      · exact Fleet.markFree_tripsLocated h.trips _ _

theorem Decided.located {c c' : Case} {cmd : Command} (hd : Decided c cmd c')
    (h : c.Located) : c'.Located where
  asked := h.asked.congr (.of_eq hd.position?_eq) hd.asked_eq.1
  trips := hd.tripsLocated h

end Case

namespace Desk

/-! ## On the desk -/

/-- Everybody who was asked or is on a trip is known to be somewhere. -/
structure Located (desk : Desk) : Prop where
  asked : ∀ {order docket}, desk.docket? order = some docket →
    docket.AskedLocated desk.floor.fleet
  trips : desk.floor.fleet.TripsLocated

namespace Located

variable {desk desk' : Desk}

theorem case (h : desk.Located) {order : Uuid} {docket : Docket}
    (hd : desk.docket? order = some docket) : Case.Located ⟨docket, desk.floor⟩ :=
  ⟨h.asked hd, h.trips⟩

theorem putBack (h : desk.Located) {c : Case} (hc : c.Located)
    (hp : desk.floor.fleet.Places c.floor.fleet) : (desk.putBack c).Located where
  asked := by
    intro order found hf
    rcases docket?_putBack_cases hf with ⟨-, rfl⟩ | ⟨-, hf⟩
    · exact hc.asked
    · exact (h.asked hf).congr hp rfl
  trips := hc.trips

theorem aside (h : desk.Located) (hd : desk'.dockets = desk.dockets)
    (hp : desk.floor.fleet.Places desk'.floor.fleet)
    (ht : desk'.floor.fleet.TripsLocated) : desk'.Located where
  asked := by
    intro order found hf
    rw [docket?_congr hd] at hf
    exact (h.asked hf).congr hp rfl
  trips := ht

end Located

theorem Move.located {desk desk' : Desk} (hm : Move desk desk') (h : desk.Located) :
    desk'.Located := by
  cases hm with
  | worked hd hm =>
      refine h.putBack (hm.located (h.case hd)) ?_
      rw [hm.fleet_eq]
      exact fun _ hd => hd
  | entered =>
      refine ⟨fun {order docket} hf => ?_, by rw [enter_fleet]; exact h.trips⟩
      rw [docket?_enter] at hf
      rw [enter_fleet]
      split at hf
      · obtain rfl := Option.some.inj hf
        intro driver hd
        cases hd
      · exact h.asked hf
  | reported driver point stamp =>
      exact h.aside rfl (Fleet.report_places driver point stamp desk.now desk.floor.fleet)
        (Fleet.report_tripsLocated h.trips driver point stamp desk.now)
  | madeAvailable driver online maxPickup =>
      exact h.aside rfl (.of_eq fun _ => Fleet.setAvailability_position?)
        (Fleet.setAvailability_tripsLocated h.trips driver online maxPickup)
  | sweepCounted => exact h.aside rfl (fun _ hd => hd) h.trips

theorem Moves.located {desk desk' : Desk} (hm : Moves desk desk') (h : desk.Located) :
    desk'.Located := by
  induction hm with
  | refl => exact h
  | tail _ hm ih => exact hm.located ih

theorem Turn.located {desk desk' : Desk} {cmd : Command} (ht : Turn desk cmd desk')
    (hn : cmd.isClaim = false) (h : desk.Located) : desk'.Located := by
  cases ht with
  | passed _ hm => exact Moves.located hm.moves h
  | decided hd _ hc => exact h.putBack (hc.located (h.case hd)) (.of_eq hc.position?_eq)
  | woken _ hd hr =>
      refine h.putBack (hr.located ⟨h.asked hd, h.trips⟩) ?_
      rw [hr.fleet_eq]
      exact fun _ hd => hd
  | claimed => cases hn
  | freed driver order =>
      refine h.aside rfl (.of_eq fun _ => Fleet.markFree_position?) ?_
      exact Fleet.markFree_tripsLocated h.trips driver order
  | lost | clockSet => exact h.aside rfl (fun _ hd => hd) h.trips

theorem opening_located (settings : Settings) (start : Instant) :
    (opening settings start).Located where
  asked := by intro order docket hf; cases hf
  trips := fun _ ht => absurd rfl ht

theorem run_located (settings : Settings) (start : Instant) {cmds : List Command}
    (hn : ∀ cmd ∈ cmds, cmd.isClaim = false) : ((opening settings start).run cmds).Located := by
  induction cmds using List.reverseRecOn with
  | nil => exact opening_located settings start
  | append_singleton cmds cmd ih =>
      have hs := run_sound (opening_sound settings start) cmds
      rw [run_concat]
      refine (after_turn hs cmd).located (hn cmd (by simp)) (ih fun other hm => hn other ?_)
      exact List.mem_append_left _ hm

/-! ## Where the driver of an order is -/

/-- The position of the driver is told of a confirmed order, and of no other. -/
theorem driverPosition_of_located {desk : Desk} (hs : desk.Sound) (h : desk.Located)
    {order : Uuid} {docket : Docket} (hd : desk.docket? order = some docket) :
    (docket.order.status = .confirmed ∧ ∃ driver position,
        docket.order.driver? = some driver ∧ desk.position? driver = some position ∧
        desk.driverPosition order = .done position) ∨
      docket.order.status ≠ .confirmed ∧
        desk.driverPosition order = .refused (.positionPrivate order docket.order.status) := by
  have hid : docket.order.id = order := id_of_docket? hd
  have horderly := hs.orderly hd
  simp only [driverPosition, hd, Case.driverPosition]
  by_cases hc : docket.order.status = .confirmed
  · obtain ⟨driver, hdriver⟩ := horderly.exists_driver (.inl hc)
    have hasked : driver ∈ docket.asked := by
      rw [horderly.driver_eq, Docket.takenBy?] at hdriver
      obtain ⟨offer, hl, ho⟩ := Option.bind_eq_some_iff.1 hdriver
      split at ho
      · obtain rfl := Option.some.inj ho
        exact List.mem_map_of_mem (List.mem_of_getLast? hl)
      · cases ho
    obtain ⟨position, hp⟩ := Option.isSome_iff_exists.1 (h.asked hd driver hasked)
    refine .inl ⟨hc, driver, position, hdriver, hp, ?_⟩
    rw [Fleet.position?] at hp
    rw [hc, hdriver]
    dsimp only
    rw [hp]
  · refine .inr ⟨hc, ?_⟩
    split
    · next hstatus _ => exact absurd hstatus hc
    · rw [Docket.id, hid]

/-- Without trips queued past the orders, the position of the driver is told of
every confirmed order; of any other order it is kept private, and never is it
missing. -/
theorem confirmed_driver_located (settings : Settings) (start : Instant) (cmds : List Command)
    (hn : ∀ cmd ∈ cmds, cmd.isClaim = false) :
    let desk := (opening settings start).run cmds
    (∀ order docket, desk.docket? order = some docket →
      (docket.order.status = .confirmed → ∃ driver position,
        docket.order.driver? = some driver ∧ desk.position? driver = some position ∧
        desk.driverPosition order = .done position) ∧
      (docket.order.status ≠ .confirmed → ∃ refusal : Refusal,
        desk.driverPosition order = .refused refusal ∧ refusal.kind = .conflict ∧
        refusal = .positionPrivate order docket.order.status)) ∧
    ∀ order driver, desk.driverPosition order ≠ .refused (.noPosition driver) := by
  have hs := run_sound (opening_sound settings start) cmds
  have hl := run_located settings start hn
  refine ⟨fun order docket hd => ?_, fun order driver h => ?_⟩
  · rcases driverPosition_of_located hs hl hd with ⟨hc, hfound⟩ | ⟨hc, hprivate⟩
    · exact ⟨fun _ => hfound, fun hnot => absurd hc hnot⟩
    · exact ⟨fun hconf => absurd hconf hc, fun _ => ⟨_, hprivate, rfl, rfl⟩⟩
  · cases hd : ((opening settings start).run cmds).docket? order with
    | none =>
        rw [driverPosition, hd] at h
        cases h
    | some docket =>
        rcases driverPosition_of_located hs hl hd with ⟨-, _, _, -, -, hdone⟩ | ⟨-, hprivate⟩
        · cases hdone.symm.trans h
        · cases hprivate.symm.trans h

theorem confirmed_driver_located_trial :
    (∀ cmd ∈ trialRun, cmd.isClaim = false) ∧
      ∀ driver, ((opening {} trialStart).run trialRun).driverPosition trialOrder ≠
        .refused (.noPosition driver) := by
  have hn : ∀ cmd ∈ trialRun, cmd.isClaim = false := by decide +kernel
  exact ⟨hn, (confirmed_driver_located {} trialStart trialRun hn).2 trialOrder⟩

end Desk

end Hailing
