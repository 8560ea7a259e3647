import Hailing.Proofs.Acceptance
import Hailing.Proofs.Ranking
import Hailing.Proofs.Refusals

/-!
# Queues of trips

A driver on a trip has a queue of them, and the trip at its head decides whether
another one can be taken. A claim adds at the end and a trip may leave from anywhere,
so the head changes when it is the one that leaves: a claim that was granted may be
refused when it is made again, and one that was refused may be granted later. What a
call does to a queue therefore depends on all calls before it, and is said of the fleet
that these have left behind (`Fleet.served`).

Three facts carry the rest. No order stands in a queue twice (`QueuedOnce`), which is
why a trip that leaves takes nothing else with it. A claim is refused, or known already,
or queued, and only the last of these changes anything (`Fleet.Claim`). And the ranking
asks of a driver on a trip what a claim asks, and of a free one more than that
(`Driver.Eligible.freeFor`), so nobody is ranked in vain.
-/

namespace Hailing

open Geo (Point)
open Time (Instant)

/-! ## The queue of one driver -/

namespace Driver

variable {d : Driver} {trip : Trip}

/-- No order stands in the queue twice. -/
def QueuedOnce (d : Driver) : Prop := (d.trips.map (·.order)).Nodup

theorem QueuedOnce.congr {d' : Driver} (h : d.QueuedOnce) (ht : d'.trips = d.trips) :
    d'.QueuedOnce := by
  rw [QueuedOnce, ht]
  exact h

/-- A trip that leaves right after it was queued leaves the queue as it was. -/
theorem dropTrip_queued (h : ∀ t ∈ d.trips, t.order ≠ trip.order) :
    dropTrip trip.order { d with trips := d.trips ++ [trip] } = d := by
  have hrest := List.filter_eq_self.2 fun t ht => decide_eq_true (h t ht)
  have hfilter : (d.trips ++ [trip]).filter (·.order ≠ trip.order) = d.trips := by
    rw [List.filter_append, hrest]
    simp
  show { d with trips := _ } = d
  rw [hfilter]

theorem QueuedOnce.addTrip (h : d.QueuedOnce) (trip : Trip) : (d.addTrip trip).QueuedOnce := by
  cases hknown : d.hasTrip trip.order with
  | true => rwa [addTrip_of_hasTrip hknown]
  | false =>
      have hnew := hasTrip_eq_false.1 hknown
      rw [addTrip_of_new hnew]
      show ((d.trips ++ [trip]).map (·.order)).Nodup
      rw [List.map_append, List.nodup_append]
      refine ⟨h, List.nodup_singleton _, fun order hmem last hlast he => ?_⟩
      obtain ⟨t, ht, rfl⟩ := List.mem_map.1 hmem
      exact hnew t ht (he.trans (List.mem_singleton.1 hlast))

/-- One trip leaves, and the others keep their order. -/
theorem QueuedOnce.dropTrip_eq (h : d.QueuedOnce) {before later : List Trip}
    (ht : d.trips = before ++ trip :: later) :
    d.dropTrip trip.order = { d with trips := before ++ later } := by
  have hn : ((before ++ trip :: later).map (·.order)).Nodup := ht ▸ h
  rw [List.map_append, List.map_cons, List.nodup_middle, List.nodup_cons,
    ← List.map_append] at hn
  -- No other trip is for this order, so the filter takes out nothing else.
  have hothers : ∀ t ∈ before ++ later, t.order ≠ trip.order := fun t hmem he =>
    hn.1 (he ▸ List.mem_map_of_mem hmem)
  have hfilter : (before ++ trip :: later).filter (·.order ≠ trip.order) = before ++ later := by
    rw [List.filter_append, List.filter_cons_of_neg (by simp), ← List.filter_append]
    exact List.filter_eq_self.2 fun t hmem => decide_eq_true (hothers t hmem)
  rw [dropTrip, ht, hfilter]

theorem not_freeFor_iff {radius : Float} {pickup : Point} :
    ¬d.FreeFor radius pickup ↔ ∃ current later, d.trips = current :: later ∧
      ¬current.destination.distance pickup < radius := by
  unfold FreeFor
  cases d.trips with
  | nil => simp
  | cons current later => simp

/-- Whoever can be asked can take the trip. -/
theorem Eligible.freeFor {pickup : Point} {radius destinationRadius : Float} {cutoff : Instant}
    {c : Candidate} (h : d.Eligible pickup radius destinationRadius cutoff c) :
    d.FreeFor destinationRadius pickup := by
  cases h with
  | free ht => exact .inl ht
  | busy ht hnear => exact .inr ⟨_, _, ht, hnear⟩

end Driver

namespace Fleet

/-! ## Claims -/

section Claims

variable {fleet fleet' : Fleet} {radius : Float} {id order : Uuid} {pickup : Point}
  {trip again : Driver.Trip} {d : Driver}

/-- What comes of a claim. -/
inductive Claim (radius : Float) (id : Uuid) (pickup : Point) (trip : Driver.Trip)
    (fleet : Fleet) : Bool × Fleet → Prop
  | refused (hfar : ¬(fleet.driver id).FreeFor radius pickup) :
      Claim radius id pickup trip fleet (false, fleet)
  | known (hfree : (fleet.driver id).FreeFor radius pickup)
      (hknown : (fleet.driver id).hasTrip trip.order = true) :
      Claim radius id pickup trip fleet (true, fleet)
  | queued (hfree : (fleet.driver id).FreeFor radius pickup)
      (hnew : ∀ t ∈ (fleet.driver id).trips, t.order ≠ trip.order) :
      Claim radius id pickup trip fleet (true, fleet.put
        { fleet.driver id with trips := (fleet.driver id).trips ++ [trip] })

theorem claimTrip_claim (radius : Float) (id : Uuid) (pickup : Point) (trip : Driver.Trip)
    (fleet : Fleet) :
    Claim radius id pickup trip fleet (fleet.claimTrip radius id pickup trip) := by
  unfold claimTrip
  dsimp only
  split
  · next hc =>
      have hfree := Driver.canTake_iff.1 hc
      cases hknown : (fleet.driver id).hasTrip trip.order with
      | true =>
          -- Only somebody on record has a queue, so the entry is put back where it was.
          have hd : fleet.find? id = some (fleet.driver id) := find?_of_trips fun hnil => by
            rw [Driver.hasTrip, hnil] at hknown
            cases hknown
          rw [Driver.addTrip_of_hasTrip hknown, Register.put_of_find? hd]
          exact .known hfree hknown
      | false =>
          have hnew := Driver.hasTrip_eq_false.1 hknown
          rw [Driver.addTrip_of_new hnew]
          exact .queued hfree hnew
  · next hc => exact .refused fun hfree => hc (Driver.canTake_iff.2 hfree)

theorem claimTrip_fst_iff : (fleet.claimTrip radius id pickup trip).1 = true ↔
    (fleet.driver id).FreeFor radius pickup := by
  have h := claimTrip_claim radius id pickup trip fleet
  generalize fleet.claimTrip radius id pickup trip = result at h
  cases h with
  | refused hfar => exact iff_of_false (by simp) hfar
  | known hfree | queued hfree => exact iff_of_true rfl hfree

theorem claimTrip_refused_iff : (fleet.claimTrip radius id pickup trip).1 = false ↔
    ∃ d current later, fleet.find? id = some d ∧ d.trips = current :: later ∧
      ¬current.destination.distance pickup < radius := by
  rw [← Bool.not_eq_true, claimTrip_fst_iff, Driver.not_freeFor_iff]
  constructor
  · rintro ⟨current, later, ht, hfar⟩
    have hne : (fleet.driver id).trips ≠ [] := by simp [ht]
    exact ⟨_, current, later, find?_of_trips hne, ht, hfar⟩
  · rintro ⟨d, current, later, hd, ht, hfar⟩
    rw [driver_of_find? hd]
    exact ⟨current, later, ht, hfar⟩

/-- A claim for an order that stands in the queue changes nothing. -/
theorem claimTrip_of_hasTrip (h : (fleet.driver id).hasTrip trip.order = true) :
    (fleet.claimTrip radius id pickup trip).2 = fleet := by
  have hclaim := claimTrip_claim radius id pickup trip fleet
  generalize fleet.claimTrip radius id pickup trip = result at hclaim
  cases hclaim with
  | refused | known => rfl
  | queued _ hnew =>
      rw [Driver.hasTrip_eq_false.2 hnew] at h
      cases h

/-- After a claim that was granted the order stands in the queue. -/
theorem hasTrip_of_claimTrip (h : fleet.claimTrip radius id pickup trip = (true, fleet')) :
    (fleet'.driver id).hasTrip trip.order = true := by
  have hclaim := claimTrip_claim radius id pickup trip fleet
  rw [h] at hclaim
  cases hclaim with
  | known _ hknown => exact hknown
  | queued =>
      rw [driver_put, if_pos driver_id]
      simp [Driver.hasTrip]

theorem claimTrip_again (h : fleet.claimTrip radius id pickup trip = (true, fleet'))
    (ho : again.order = trip.order) : (fleet'.claimTrip radius id pickup again).2 = fleet' :=
  claimTrip_of_hasTrip (ho ▸ hasTrip_of_claimTrip h)

theorem claimTrip_new (hd : fleet.find? id = some d)
    (hnew : ∀ t ∈ d.trips, t.order ≠ trip.order)
    (h : fleet.claimTrip radius id pickup trip = (true, fleet')) :
    fleet' = fleet.put { d with trips := d.trips ++ [trip] } := by
  have hclaim := claimTrip_claim radius id pickup trip fleet
  rw [h] at hclaim
  cases hclaim with
  | known _ hknown =>
      rw [driver_of_find? hd, Driver.hasTrip_eq_false.2 hnew] at hknown
      cases hknown
  | queued => rw [driver_of_find? hd]

/-! ## Trips that leave -/

theorem markFree_of_find? (hd : fleet.find? id = some d) :
    fleet.markFree id order = fleet.put (d.dropTrip order) := by
  rw [markFree, hd]

theorem markFree_of_none (h : ∀ d, fleet.find? id = some d → ∀ t ∈ d.trips, t.order ≠ order) :
    fleet.markFree id order = fleet := by
  cases hd : fleet.find? id with
  | none => rw [markFree, hd]
  | some d => rw [markFree_of_find? hd, Driver.dropTrip_of_none (h d hd), Register.put_of_find? hd]

theorem markFree_find?_of_ne {other : Uuid} (h : other ≠ id) :
    (fleet.markFree id order).find? other = fleet.find? other := by
  cases hd : fleet.find? id with
  | none => rw [markFree, hd]
  | some d =>
      have hid : d.id = id := Register.key_of_find? hd
      have hne : (d.dropTrip order).id ≠ other := fun he => h (he.symm.trans hid)
      rw [markFree_of_find? hd, Register.find?_put_of_ne hne]

theorem markFree_claimed (hd : fleet.find? id = some d)
    (hnew : ∀ t ∈ d.trips, t.order ≠ trip.order)
    (h : fleet.claimTrip radius id pickup trip = (true, fleet')) :
    fleet'.markFree id trip.order = fleet := by
  have hid : d.id = id := Register.key_of_find? hd
  obtain rfl := claimTrip_new hd hnew h
  have hqueued : (fleet.put { d with trips := d.trips ++ [trip] } : Fleet).find? id =
      some { d with trips := d.trips ++ [trip] } := by
    rw [Register.find?_put, if_pos hid]
  rw [markFree_of_find? hqueued, Driver.dropTrip_queued hnew]
  exact Register.put_put_of_find? rfl hd

end Claims

/-! ## What a ranking asks -/

section Ranked

variable {settings : Settings} {fleet : Fleet} {pickup : Point} {radius : Float}
  {excluded : List Uuid} {now : Instant} {found : List Candidate} {d : Driver}

theorem candidates_eq_ok (h : candidates settings fleet pickup radius excluded now = .ok found) :
    ∃ cutoff, found = ranked settings fleet pickup radius excluded cutoff := by
  cases hc : now.add? settings.freshSpan.neg with
  | none =>
      rw [candidates, Fleet.cutoff, hc] at h
      cases h
  | some cutoff => exact ⟨cutoff, (Except.ok.inj ((candidates_eq hc).symm.trans h)).symm⟩

/-- Whoever is in a ranking can take the trip. -/
theorem freeFor_of_mem_candidates
    (h : candidates settings fleet pickup radius excluded now = .ok found) {c : Candidate}
    (hc : c ∈ found) : (fleet.driver c.driver).FreeFor settings.destinationRadius pickup := by
  obtain ⟨cutoff, rfl⟩ := candidates_eq_ok h
  obtain ⟨d, hd, -, -, hasked⟩ := mem_ranked.1 hc
  rw [hasked.driver_eq, driver_of_find? (Register.mem_items.1 hd)]
  exact hasked.freeFor

/-- A driver on a trip who can take another one is in every ranking that does not leave
them out. -/
theorem exists_candidate_of_busy
    (h : candidates settings fleet pickup radius excluded now = .ok found)
    (hd : d ∈ fleet.items) (hbusy : d.trips ≠ []) (honline : d.online = true)
    (hasked : d.id ∉ excluded) (hfree : d.FreeFor settings.destinationRadius pickup) :
    ∃ c ∈ found, c.driver = d.id := by
  obtain ⟨cutoff, rfl⟩ := candidates_eq_ok h
  rcases hfree with hnil | ⟨current, later, ht, hnear⟩
  · exact absurd hnil hbusy
  · exact ⟨_, mem_ranked.2 ⟨d, hd, honline, hasked, .busy ht hnear⟩, rfl⟩

end Ranked

/-! ## Whole runs -/

/-- What the fleet is called for, by the desk or past it. -/
inductive Call where
  | report (driver : Uuid) (point : Point) (stamp now : Instant)
  | setAvailability (driver : Uuid) (online : Bool) (maxPickup : Option Float)
  | claimTrip (driver : Uuid) (pickup : Point) (trip : Driver.Trip)
  | markFree (driver order : Uuid)

/-- The fleet after a call. -/
def after (radius : Float) (fleet : Fleet) : Call → Fleet
  | .report driver point stamp now => (fleet.report driver point stamp now).2
  | .setAvailability driver online maxPickup =>
    (fleet.setAvailability driver online maxPickup).2
  | .claimTrip driver pickup trip => (fleet.claimTrip radius driver pickup trip).2
  | .markFree driver order => fleet.markFree driver order

/-- The fleet after calls one after the other, with nobody on record at first. -/
def served (radius : Float) (calls : List Call) : Fleet := calls.foldl (after radius) .empty

def QueuedOnce (fleet : Fleet) : Prop := ∀ id, (fleet.driver id).QueuedOnce

theorem QueuedOnce.after {fleet : Fleet} (h : fleet.QueuedOnce) (radius : Float) (call : Call) :
    (fleet.after radius call).QueuedOnce := by
  intro other
  cases call with
  | report => exact (h other).congr report_trips
  | setAvailability => exact (h other).congr setAvailability_trips
  | claimTrip driver pickup trip =>
      show ((fleet.claimTrip radius driver pickup trip).2.driver other).QueuedOnce
      cases hc : (fleet.claimTrip radius driver pickup trip).1 with
      | false =>
          rw [(claimTrip_failed hc).2]
          exact h other
      | true =>
          rw [Driver.QueuedOnce, claimTrip_trips hc]
          split
          · exact (h driver).addTrip trip
          · exact h other
  | markFree driver order =>
      show ((fleet.markFree driver order).driver other).QueuedOnce
      rw [Driver.QueuedOnce, markFree_trips]
      split
      · exact (List.filter_sublist.map _).nodup (h other)
      · exact h other

theorem served_queuedOnce (radius : Float) (calls : List Call) :
    (served radius calls).QueuedOnce := by
  have hempty : QueuedOnce .empty := fun _ => List.nodup_nil
  exact List.foldlRecOn calls (Fleet.after radius) hempty fun _ h call _ => h.after radius call

theorem QueuedOnce.of_find? {fleet : Fleet} (h : fleet.QueuedOnce) {id : Uuid} {d : Driver}
    (hd : fleet.find? id = some d) : d.QueuedOnce :=
  driver_of_find? hd ▸ h id

theorem QueuedOnce.markFree_find? {fleet : Fleet} (h : fleet.QueuedOnce) {id : Uuid} {d : Driver}
    (hd : fleet.find? id = some d) {before later : List Driver.Trip} {trip : Driver.Trip}
    (ht : d.trips = before ++ trip :: later) :
    (fleet.markFree id trip.order).find? id = some { d with trips := before ++ later } := by
  have hid : d.id = id := Register.key_of_find? hd
  rw [markFree_of_find? hd, (h.of_find? hd).dropTrip_eq ht, Register.find?_put, if_pos hid]

/-- After whatever calls, no order stands in a queue twice. A claim is refused exactly if
the driver is on a trip that does not end near the pickup; then nothing changes, and no
ranking for this pickup has the driver in it. Whoever is ranked can claim a trip from the
pickup, and a driver on a trip who may be asked is ranked exactly if they can. A claim that
was granted changes nothing if it is made again, whether it is granted again or not; if
the order was a new one and the driver known, its trip stands at the end of the queue, and
when it leaves the fleet is as it was before the claim. A trip that leaves takes no other
with it, and the others keep their order. -/
theorem queues_and_rankings_agree (settings : Settings) (calls : List Call) :
    let near := settings.destinationRadius
    let fleet := served near calls
    (∀ d ∈ fleet.items, (d.trips.map (·.order)).Nodup) ∧
    (∀ driver pickup trip,
      ((fleet.claimTrip near driver pickup trip).1 = false ↔
        ∃ d current later, fleet.find? driver = some d ∧ d.trips = current :: later ∧
          ¬current.destination.distance pickup < near) ∧
      ((fleet.claimTrip near driver pickup trip).1 = false →
        (fleet.claimTrip near driver pickup trip).2 = fleet ∧
        ∀ radius excluded now ranked,
          candidates settings fleet pickup radius excluded now = .ok ranked →
          ∀ c ∈ ranked, c.driver ≠ driver)) ∧
    (∀ pickup radius excluded now ranked,
      candidates settings fleet pickup radius excluded now = .ok ranked →
      (∀ c ∈ ranked, ∀ trip, (fleet.claimTrip near c.driver pickup trip).1 = true) ∧
      ∀ d ∈ fleet.items, d.trips ≠ [] → d.online = true → d.id ∉ excluded → ∀ trip,
        ((∃ c ∈ ranked, c.driver = d.id) ↔
          (fleet.claimTrip near d.id pickup trip).1 = true)) ∧
    (∀ driver pickup trip fleet',
      fleet.claimTrip near driver pickup trip = (true, fleet') →
      (∀ again : Driver.Trip, again.order = trip.order →
        (fleet'.claimTrip near driver pickup again).2 = fleet') ∧
      ∀ d, fleet.find? driver = some d → (∀ t ∈ d.trips, t.order ≠ trip.order) →
        fleet'.find? driver = some { d with trips := d.trips ++ [trip] } ∧
          fleet'.markFree driver trip.order = fleet) ∧
    ∀ driver order,
      (∀ d before trip later, fleet.find? driver = some d →
        d.trips = before ++ trip :: later → trip.order = order →
        (fleet.markFree driver order).find? driver =
          some { d with trips := before ++ later }) ∧
      ((∀ d, fleet.find? driver = some d → ∀ t ∈ d.trips, t.order ≠ order) →
        fleet.markFree driver order = fleet) ∧
      ∀ other, other ≠ driver → (fleet.markFree driver order).find? other = fleet.find? other := by
  intro near fleet
  have hq : fleet.QueuedOnce := served_queuedOnce near calls
  refine ⟨fun d hd => hq.of_find? (Register.mem_items.1 hd), ?_, ?_, ?_, ?_⟩
  · refine fun driver pickup trip => ⟨claimTrip_refused_iff, fun hrefused => ?_⟩
    refine ⟨(claimTrip_failed hrefused).2, fun radius excluded now ranked hranked c hc he => ?_⟩
    have hgranted : (fleet.claimTrip near driver pickup trip).1 = true :=
      claimTrip_fst_iff.2 (he ▸ freeFor_of_mem_candidates hranked hc)
    rw [hrefused] at hgranted
    cases hgranted
  · intro pickup radius excluded now ranked hranked
    have hcan : ∀ c ∈ ranked, ∀ trip, (fleet.claimTrip near c.driver pickup trip).1 = true :=
      fun c hc _ => claimTrip_fst_iff.2 (freeFor_of_mem_candidates hranked hc)
    refine ⟨hcan, fun d hd hbusy honline hasked trip => ⟨?_, fun hgranted => ?_⟩⟩
    · rintro ⟨c, hc, he⟩
      exact he ▸ hcan c hc trip
    · have hfree := claimTrip_fst_iff.1 hgranted
      rw [driver_of_find? (Register.mem_items.1 hd)] at hfree
      exact exists_candidate_of_busy hranked hd hbusy honline hasked hfree
  · refine fun driver pickup trip fleet' hclaim => ⟨fun again => claimTrip_again hclaim, ?_⟩
    intro d hd hnew
    refine ⟨?_, markFree_claimed hd hnew hclaim⟩
    have hid : d.id = driver := Register.key_of_find? hd
    rw [claimTrip_new hd hnew hclaim, Register.find?_put, if_pos hid]
  · refine fun driver order => ⟨?_, markFree_of_none, fun other => markFree_find?_of_ne⟩
    rintro d before trip later hd ht rfl
    exact hq.markFree_find? hd ht

/-- A free driver, and one who is on a trip. -/
def trialCalls : List Call :=
  [ .report (.ofNat 7) ⟨41.3, 69.24⟩ Desk.trialStart Desk.trialStart,
    .claimTrip (.ofNat 8) ⟨41.3, 69.24⟩ ⟨.ofNat 100, ⟨41.4, 69.24⟩⟩,
    .setAvailability (.ofNat 8) true (some 4.0) ]

/-- Nothing is nearer than a radius that is not a number. -/
def trialSettings : Settings := { destinationRadius := 0.0 / 0.0 }

theorem not_lt_trialRadius (x : Float) : ¬x < trialSettings.destinationRadius := by
  intro h
  have hnan : trialSettings.destinationRadius.isNaN = true := by decide +kernel
  rw [(Decimal.isNaN_of_lt h).2] at hnan
  cases hnan

theorem trialCalls_free : ∃ d,
    (served trialSettings.destinationRadius trialCalls).find? (.ofNat 7) = some d ∧
      d.trips = [] := by
  have horders : ((served trialSettings.destinationRadius trialCalls).find? (.ofNat 7)).map
      (fun d => d.trips.map (·.order)) = some [] := by decide +kernel
  obtain ⟨d, hd, hnil⟩ := Option.map_eq_some_iff.1 horders
  exact ⟨d, hd, List.map_eq_nil_iff.1 hnil⟩

theorem trialCalls_busy : ∃ d trip,
    (served trialSettings.destinationRadius trialCalls).find? (.ofNat 8) = some d ∧
      d.online = true ∧ d.trips = [trip] ∧ trip.order = .ofNat 100 := by
  have horders : ((served trialSettings.destinationRadius trialCalls).find? (.ofNat 8)).map
      (fun d => (d.online, d.trips.map (·.order))) = some (true, [.ofNat 100]) := by
    decide +kernel
  obtain ⟨d, hd, hone⟩ := Option.map_eq_some_iff.1 horders
  obtain ⟨honline, htrips⟩ := Prod.mk.inj hone
  obtain ⟨trip, ht, horder⟩ := List.map_eq_singleton_iff.1 htrips
  exact ⟨d, trip, hd, honline, ht, horder⟩

/-- The driver on a trip is refused another one and is not ranked; the free one is
granted it, and loses it again. -/
theorem queues_and_rankings_agree_trial :
    let near := trialSettings.destinationRadius
    let fleet := served near trialCalls
    let pickup : Point := ⟨41.3, 69.24⟩
    let trip : Driver.Trip := ⟨.ofNat 101, ⟨41.5, 69.24⟩⟩
    ((fleet.claimTrip near (.ofNat 8) pickup trip).1 = false ∧
      (fleet.claimTrip near (.ofNat 8) pickup trip).2 = fleet) ∧
    (∃ ranked, candidates trialSettings fleet pickup 5.0 [] Desk.trialStart = .ok ranked ∧
      (∀ c ∈ ranked, c.driver ≠ .ofNat 8) ∧
      (∀ c ∈ ranked, (fleet.claimTrip near c.driver pickup trip).1 = true) ∧
      ((∃ c ∈ ranked, c.driver = .ofNat 8) ↔
        (fleet.claimTrip near (.ofNat 8) pickup trip).1 = true)) ∧
    (∃ fleet', fleet.claimTrip near (.ofNat 7) pickup trip = (true, fleet') ∧
      (fleet'.claimTrip near (.ofNat 7) pickup trip).2 = fleet' ∧
      fleet'.markFree (.ofNat 7) trip.order = fleet) ∧
    ((fleet.markFree (.ofNat 8) (.ofNat 100)).find? (.ofNat 8)).map (·.trips) = some [] ∧
    fleet.markFree (.ofNat 8) trip.order = fleet := by
  intro near fleet pickup trip
  obtain ⟨-, hclaims, hranked, hagain, hleave⟩ :=
    queues_and_rankings_agree trialSettings trialCalls
  obtain ⟨free, hfree, hnil⟩ := trialCalls_free
  obtain ⟨busy, current, hbusy, honline, ht, horder⟩ := trialCalls_busy
  have hid : busy.id = .ofNat 8 := Register.key_of_find? hbusy
  have hmem : busy ∈ fleet.items := Register.mem_items.2 (hid ▸ hbusy)
  -- The driver on a trip.
  obtain ⟨hrefused, hunchanged⟩ := hclaims (.ofNat 8) pickup trip
  have hno := hrefused.2 ⟨busy, current, [], hbusy, ht, not_lt_trialRadius _⟩
  -- The ranking.
  obtain ⟨cutoff, hcut⟩ := Option.isSome_iff_exists.1
    (show (Desk.trialStart.add? trialSettings.freshSpan.neg).isSome = true by decide +kernel)
  have hfound : candidates trialSettings fleet pickup 5.0 [] Desk.trialStart = .ok _ :=
    candidates_eq hcut
  obtain ⟨hcan, hiff⟩ := hranked _ _ _ _ _ hfound
  have hbusyIff := hiff busy hmem (by simp [ht]) honline (by simp) trip
  rw [hid] at hbusyIff
  -- The free driver.
  have hyes : (fleet.claimTrip near (.ofNat 7) pickup trip).1 = true := by decide +kernel
  have hnew : ∀ t ∈ free.trips, t.order ≠ trip.order := by simp [hnil]
  obtain ⟨hsame, hundo⟩ := hagain (.ofNat 7) pickup trip _ (Prod.ext hyes rfl)
  refine ⟨⟨hno, (hunchanged hno).1⟩,
    ⟨_, hfound, (hunchanged hno).2 _ _ _ _ hfound, fun c hc => hcan c hc trip, hbusyIff⟩,
    ⟨_, Prod.ext hyes rfl, hsame trip rfl, (hundo free hfree hnew).2⟩, ?_, ?_⟩
  · rw [(hleave (.ofNat 8) (.ofNat 100)).1 busy [] current [] hbusy ht horder]
    rfl
  · refine (hleave (.ofNat 8) trip.order).2.1 fun d hd t hmem => ?_
    obtain rfl := Option.some.inj (hbusy.symm.trans hd)
    rw [ht, List.mem_singleton] at hmem
    rw [hmem, horder]
    decide

end Fleet

end Hailing
