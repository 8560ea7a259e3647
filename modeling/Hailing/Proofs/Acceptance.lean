import Hailing.Proofs.Lawful

/-!
# Accepting an offer

Whether a driver can accept an order is asked of two tables, of the docket and of the
fleet, and of the fleet as it is now: a driver who was free when the offer was made may
be on a trip by the time of the answer. The result is that nothing else is asked
(`acceptance_is_exact`). Three things that the fleet or the docket might lack are always
there: an order has legs and so a pickup, whoever has an offer is on record, and the trip
that is queued is a new one and not dropped as known.

What an acceptance changes is one equation (`Desk.handOver`), which is stronger than a
list of what it leaves alone. For it one has to know that no search is waiting while an
offer is out (`Docket.Paused`): the acceptance ends the search of the order, if there
is one, and so changes nothing there.
-/

namespace Hailing

open Geo (Point)
open Time (Instant)

/-- The driver is free, or the trip they are on ends nearer to the pickup than `radius`. -/
def Driver.FreeFor (radius : Float) (pickup : Point) (d : Driver) : Prop :=
  d.trips = [] ∨ ∃ trip rest, d.trips = trip :: rest ∧
    trip.destination.distance pickup < radius

theorem Driver.canTake_iff {radius : Float} {pickup : Point} {d : Driver} :
    d.canTake radius pickup = true ↔ d.FreeFor radius pickup := by
  unfold canTake FreeFor isFree destinationMatch? currentTrip?
  cases d.trips with
  | nil => simp
  | cons trip rest =>
      simp only [List.isEmpty_cons, Bool.false_or, List.head?_cons, Option.bind_eq_bind,
        Option.bind_some, reduceCtorEq, false_or, List.cons.injEq]
      constructor
      · intro h
        refine ⟨trip, rest, ⟨rfl, rfl⟩, ?_⟩
        by_contra hfar
        rw [if_neg hfar] at h
        cases h
      · rintro ⟨_, _, ⟨rfl, rfl⟩, hnear⟩
        rw [if_pos hnear]
        rfl

namespace Case

/-! ## One case -/

/-- The trip of the order is queued with a driver. -/
def queueTrip (driver : Uuid) (destination : Point) (c : Case) : Case :=
  let trip : Driver.Trip := ⟨c.docket.id, destination⟩
  c.onFloor fun f => { f with fleet := f.fleet.put ((f.fleet.driver driver).addTrip trip) }

/-- A claim asks the driver, as they are on the floor. -/
theorem claim_of_ends {c : Case} {pickup destination : Point}
    (hp : c.docket.order.pickup? = some pickup)
    (hd : c.docket.order.destination? = some destination) (driver : Uuid) :
    c.claim driver =
      if (c.floor.fleet.driver driver).canTake c.floor.settings.destinationRadius pickup then
        (true, c.queueTrip driver destination)
      else (false, c) := by
  unfold claim Fleet.claimTrip
  rw [hp, hd]
  dsimp only
  split <;> rfl

/-- While the order waits, the driver of its offer gets it if they can take the trip. -/
theorem accept_of_last {c : Case} (h : c.docket.OneOpen) (hw : c.docket.order.status = .pending)
    {offer : Offer} (hl : c.docket.offers.getLast? = some offer) (ho : offer.isOutstanding = true)
    {pickup destination : Point} (hp : c.docket.order.pickup? = some pickup)
    (hd : c.docket.order.destination? = some destination) :
    c.respond offer.driver .accept =
      if (c.floor.fleet.driver offer.driver).canTake c.floor.settings.destinationRadius pickup then
        (.done ⟨offer.closed .accepted c.floor.now, .confirmed, none⟩,
          (c.queueTrip offer.driver destination).taken offer)
      else (.refused (.tripElsewhere c.docket.id offer.driver), c) := by
  have hfound := h.offerTo?_of_last hl ho
  have hwaits : c.docket.isPending = true := Docket.isPending_iff.2 hw
  have hclaim := claim_of_ends hp hd offer.driver
  have haccept : c.respond offer.driver .accept = c.accept offer := by
    simp [respond, hwaits, hfound]
  rw [haccept, accept]
  split at hclaim
  · next ht =>
      have hres : (c.queueTrip offer.driver destination).docket.resolve offer .accepted
          (c.queueTrip offer.driver destination).floor.now =
            (offer.closed .accepted c.floor.now, c.docket.answered offer .accepted c.floor.now) :=
        h.resolve_eq c.floor.now hl ho (by decide)
      rw [if_pos ht, hclaim]
      dsimp only
      rw [resolve, hres]
      rfl
  · next ht => rw [if_neg ht, hclaim]

end Case

/-- Nothing is left to be done about an order that its driver has accepted. -/
theorem Docket.OneOpen.settled_of_accepted {d : Docket} (h : d.OneOpen) (offer : Offer)
    (moment : Instant) {order : Order} (hs : order.status = .confirmed) (searching : Bool) :
    isSettled { d.answered offer .accepted moment with
      order := order, searching := searching } = true := by
  have hearlier : ∀ o ∈ d.offers.dropLast, o.status ≠ .requested := fun o ho =>
    by simpa [Offer.isOutstanding] using h o ho
  simpa [isSettled, isPending, Order.isPending, hs, hasOutstanding, answered,
    Offer.isOutstanding, Offer.closed] using hearlier

theorem Case.taken_floor {c : Case} (h : c.docket.OneOpen) (offer : Offer) :
    (c.taken offer).floor =
      ((c.floor.notify c.docket.order.rider
        (.driverFound c.docket.id c.docket.order.code offer.driver)).count
          fun l => { l with accepted := l.accepted + 1, pending := l.pending - 1 }).closeOrder
        c.docket.id :=
  if_pos (h.settled_of_accepted offer c.floor.now rfl false)

namespace Desk

/-- The order of a docket goes to the driver of its last offer, who was `d` so far, and
whose trip ends at `destination`. -/
def handOver (docket : Docket) (offer : Offer) (d : Driver) (destination : Point)
    (desk : Desk) : Desk :=
  let floor := desk.floor
  let order := { docket.order with status := .confirmed, driver? := some d.id }
  let offers := docket.offers.dropLast ++ [offer.closed .accepted desk.now]
  let trip : Driver.Trip := ⟨docket.id, destination⟩
  let event := Event.driverFound docket.id docket.order.code d.id
  { dockets := desk.dockets.put { docket with order := order, offers := offers }
    floor := { floor with
      openOrders := floor.openOrders.filter (· ≠ docket.id)
      fleet := floor.fleet.put { d with trips := d.trips ++ [trip] }
      ledger := { floor.ledger with
        accepted := floor.ledger.accepted + 1
        pending := floor.ledger.pending - 1 }
      sent := floor.sent ++ [⟨docket.order.rider, event, desk.now⟩] } }

variable {desk : Desk}

theorem handOver_docket? (docket : Docket) (offer : Offer) (d : Driver) (destination : Point)
    {other : Uuid} (h : other ≠ docket.id) :
    (desk.handOver docket offer d destination).docket? other = desk.docket? other :=
  Register.find?_put_of_ne h.symm

theorem handOver_find? (docket : Docket) (offer : Offer) (d : Driver) (destination : Point)
    {other : Uuid} (h : other ≠ d.id) :
    (desk.handOver docket offer d destination).floor.fleet.find? other =
      desk.floor.fleet.find? other :=
  Register.find?_put_of_ne h.symm

/-- A driver who gets the trip gets the order, and nothing else is changed. -/
theorem putBack_taken {docket : Docket} (ho : docket.OneOpen) (hq : docket.searching = false)
    {offer : Offer} {d : Driver} (hf : desk.floor.fleet.find? offer.driver = some d)
    (hn : ∀ trip ∈ d.trips, trip.order ≠ docket.id) (destination : Point) :
    desk.putBack (((Case.mk docket desk.floor).queueTrip offer.driver destination).taken offer) =
      desk.handOver docket offer d destination := by
  have hid : d.id = offer.driver := Register.key_of_find? hf
  have hdriver : desk.floor.fleet.driver offer.driver = d := by rw [Fleet.driver, hf]; rfl
  have hqueued : (Case.mk docket desk.floor).queueTrip offer.driver destination =
      ⟨docket, { desk.floor with
        fleet := desk.floor.fleet.put (d.addTrip ⟨docket.id, destination⟩) }⟩ := by
    rw [← hdriver]
    rfl
  have hgiven : d.addTrip ⟨docket.id, destination⟩ =
      { d with trips := d.trips ++ [⟨docket.id, destination⟩] } := by
    rw [Driver.addTrip_eq, Driver.addTrip_trips hn]
  rw [putBack, hqueued, Case.taken_floor ho, handOver, hgiven, hid]
  obtain ⟨order, offers, excluded, searching, ended⟩ := docket
  cases hq
  rfl

/-! ## On a desk -/

theorem respond_of_docket? {docket : Docket} (hd : desk.docket? docket.id = some docket)
    (driver : Uuid) (reply : Offer.Reply) :
    desk.respond docket.id driver reply =
      (((Case.mk docket desk.floor).respond driver reply).1,
        desk.putBack ((Case.mk docket desk.floor).respond driver reply).2) := by
  rw [respond, handle, hd]
  rfl

theorem respond_unknown {order : Uuid} (hd : desk.docket? order = none) (driver : Uuid)
    (reply : Offer.Reply) :
    desk.respond order driver reply = (.refused (.unknownOrder order), desk) := by
  rw [respond, handle, hd]

theorem accept_not_pending {docket : Docket} (hd : desk.docket? docket.id = some docket)
    (hn : docket.order.status ≠ .pending) (driver : Uuid) :
    desk.respond docket.id driver .accept =
      (.refused (.notAcceptable docket.id docket.order.status), desk) := by
  have hwaits : docket.isPending = false := by simpa [Docket.isPending, Order.isPending] using hn
  rw [respond_of_docket? hd, Case.respond, hwaits]
  exact congrArg _ (putBack_self hd)

theorem accept_not_asked {docket : Docket} (hd : desk.docket? docket.id = some docket)
    (hw : docket.order.status = .pending) {driver : Uuid}
    (hn : ∀ offer, ¬desk.LiveFor driver docket offer) :
    desk.respond docket.id driver .accept = (.refused (.noOffer docket.id driver), desk) := by
  have hnone : docket.offerTo? driver = none := List.find?_eq_none.2 fun offer hmem hfor => by
    rw [Offer.isOutstandingFor, Bool.and_eq_true, Offer.isOutstanding_iff] at hfor
    exact hn offer ⟨hd, hw, hmem, hfor.1, of_decide_eq_true hfor.2⟩
  rw [respond_of_docket? hd, Case.respond, Docket.isPending_iff.2 hw, hnone]
  exact congrArg _ (putBack_self hd)

/-- The driver of a live offer is on record. -/
theorem LiveFor.exists_driver (hdesk : desk.Lawful) {driver : Uuid} {docket : Docket}
    {offer : Offer} (h : desk.LiveFor driver docket offer) :
    ∃ d, desk.floor.fleet.find? driver = some d :=
  Option.isSome_iff_exists.1 (h.asked ▸ hdesk.known_driver h.known h.mem)

/-- The driver of a live offer gets the order, or is on a trip elsewhere. -/
theorem LiveFor.accept_eq (hs : desk.Sound) (hr : desk.Routed) {driver : Uuid} {docket : Docket}
    {offer : Offer} (h : desk.LiveFor driver docket offer) {d : Driver}
    (hf : desk.floor.fleet.find? driver = some d) :
    ∃ pickup leg, docket.order.pickup? = some pickup ∧ docket.order.legs.getLast? = some leg ∧
      (d.FreeFor desk.settings.destinationRadius pickup →
        desk.respond docket.id driver .accept =
          (.done ⟨offer.closed .accepted desk.now, .confirmed, none⟩, desk.putBack
            (((Case.mk docket desk.floor).queueTrip driver leg.dropoff).taken offer))) ∧
      (¬d.FreeFor desk.settings.destinationRadius pickup →
        desk.respond docket.id driver .accept =
          (.refused (.tripElsewhere docket.id driver), desk)) := by
  have hl := h.last hs
  obtain ⟨hd, hw, -, ho, rfl⟩ := h
  obtain ⟨pickup, destination, hp, hdest⟩ := (hr hd).ends
  obtain ⟨leg, hleg, rfl⟩ := Option.map_eq_some_iff.1 ((hr hd).2.symm.trans hdest)
  have hdriver : desk.floor.fleet.driver offer.driver = d := by rw [Fleet.driver, hf]; rfl
  have haccept := Case.accept_of_last (c := ⟨docket, desk.floor⟩) (hs.orderly hd).oneOpen hw hl
    (Offer.isOutstanding_iff.2 ho) hp hdest
  dsimp only at haccept
  rw [hdriver] at haccept
  unfold settings
  refine ⟨pickup, leg, hp, hleg, fun hfree => ?_, fun hfar => ?_⟩
  · rw [respond_of_docket? hd, haccept, if_pos (Driver.canTake_iff.2 hfree)]
    rfl
  · rw [respond_of_docket? hd, haccept, if_neg (mt Driver.canTake_iff.1 hfar)]
    exact congrArg _ (putBack_self hd)

/-- On a desk as runs leave it, the driver of a live offer gets the order, unless they are on
a trip elsewhere, and nothing else is changed. (The trip of the order must not be queued.) -/
theorem LiveFor.accept_exact (hdesk : desk.Lawful) {radius : Float}
    (hr : desk.settings.destinationRadius = radius) {driver : Uuid} {docket : Docket}
    {offer : Offer} (h : desk.LiveFor driver docket offer)
    (hnew : ∀ trip ∈ (desk.floor.fleet.driver driver).trips, trip.order ≠ docket.id) :
    ∃ pickup leg d, docket.order.pickup? = some pickup ∧
      docket.order.legs.getLast? = some leg ∧ desk.floor.fleet.find? driver = some d ∧
      (¬d.FreeFor radius pickup →
        desk.respond docket.id driver .accept =
          (.refused (.tripElsewhere docket.id driver), desk)) ∧
      (d.FreeFor radius pickup →
        desk.respond docket.id driver .accept =
          (.done ⟨offer.closed .accepted desk.now, .confirmed, none⟩,
            desk.handOver docket offer d leg.dropoff)) := by
  subst hr
  have hs := hdesk.sound
  have hpaused : docket.searching = false := hdesk.paused h.known
    (Docket.hasOutstanding_of_last (h.last hs) (Offer.isOutstanding_iff.2 h.out))
  obtain ⟨d, hf⟩ := h.exists_driver hdesk
  obtain ⟨pickup, leg, hp, hleg, htaken, helsewhere⟩ := h.accept_eq hs hdesk.routed hf
  refine ⟨pickup, leg, d, hp, hleg, hf, helsewhere, fun hfree => (htaken hfree).trans ?_⟩
  rw [Fleet.driver, hf] at hnew
  obtain rfl := h.asked
  exact congrArg _ (putBack_taken (hs.orderly h.known).oneOpen hpaused hf hnew _)

/-- After a run in which trips are only touched by way of the orders, the trip of an order
that waits is not queued. -/
theorem LiveFor.no_trip {settings : Settings} {start : Instant} {cmds : List Command}
    (hi : ((opening settings start).run cmds).floor.issued ≤ Uuid.capacity)
    (hdirect : ∀ cmd ∈ cmds, cmd.isDirect = false) {driver : Uuid} {docket : Docket}
    {offer : Offer} (h : ((opening settings start).run cmds).LiveFor driver docket offer) :
    ∀ trip ∈ (((opening settings start).run cmds).floor.fleet.driver driver).trips,
      trip.order ≠ docket.id :=
  (run_agreed hi hdirect).no_trip h.known (Docket.tripOf?_of_ne (h.waits ▸ by decide) driver)

/-- The answer is a refusal of a kind, and nothing is changed. -/
def Refuses {α : Type} (kind : Refusal.Kind) (refusal : Refusal) (desk : Desk)
    (result : Answer α × Desk) : Prop :=
  result = (.refused refusal, desk) ∧ refusal.kind = kind

theorem Refuses.not_done {α : Type} {kind : Refusal.Kind} {refusal : Refusal} {desk : Desk}
    {result : Answer α × Desk} (h : desk.Refuses kind refusal result) :
    result.1.isDone ≠ true := by
  rw [h.1]
  exact Bool.false_ne_true

/-- After every run in which trips are only touched by way of the orders, a driver who
accepts an order gets it exactly if the order is on record and waits, its offer is out to
them, and they are free or the trip they are on ends near the pickup. Whoever does not get
it is told the first of these that fails, and nothing is changed. For whoever gets it the
offer, the order, the list of open orders, the trips of the driver, the two counts and the
notices are as `handOver` says, and all else is as it was. -/
theorem acceptance_is_exact (settings : Settings) (start : Instant) (cmds : List Command)
    (hi : ((opening settings start).run cmds).floor.issued ≤ Uuid.capacity)
    (hdirect : ∀ cmd ∈ cmds, cmd.isDirect = false) (order driver : Uuid) :
    let desk := (opening settings start).run cmds
    let result := desk.respond order driver .accept
    (result.1.isDone = true ↔
      ∃ docket offer pickup d, docket.id = order ∧ desk.LiveFor driver docket offer ∧
        docket.order.pickup? = some pickup ∧ desk.floor.fleet.find? driver = some d ∧
        d.FreeFor settings.destinationRadius pickup) ∧
    (desk.docket? order = none → desk.Refuses .notFound (.unknownOrder order) result) ∧
    ∀ docket, desk.docket? order = some docket →
      (docket.order.status ≠ .pending →
        desk.Refuses .conflict (.notAcceptable order docket.order.status) result) ∧
      (docket.order.status = .pending → (∀ offer, ¬desk.LiveFor driver docket offer) →
        desk.Refuses .notFound (.noOffer order driver) result) ∧
      ∀ offer, desk.LiveFor driver docket offer →
        ∃ pickup leg d, docket.order.pickup? = some pickup ∧
          docket.order.legs.getLast? = some leg ∧ desk.floor.fleet.find? driver = some d ∧
          docket.offers = docket.offers.dropLast ++ [offer] ∧
          (¬d.FreeFor settings.destinationRadius pickup →
            desk.Refuses .conflict (.tripElsewhere order driver) result) ∧
          (d.FreeFor settings.destinationRadius pickup →
            result = (.done ⟨offer.closed .accepted desk.now, .confirmed, none⟩,
              desk.handOver docket offer d leg.dropoff) ∧
            (∀ other, other ≠ order → result.2.docket? other = desk.docket? other) ∧
            ∀ other, other ≠ driver →
              result.2.floor.fleet.find? other = desk.floor.fleet.find? other) := by
  intro desk result
  have hdesk : desk.Lawful := run_lawful hi
  have hsettings : desk.settings = settings := run_settings (opening_sound settings start) cmds
  have hradius := congrArg Settings.destinationRadius hsettings
  have hunknown : desk.docket? order = none →
      desk.Refuses .notFound (.unknownOrder order) result :=
    fun hd => ⟨respond_unknown hd _ _, rfl⟩
  have hover : ∀ docket, desk.docket? order = some docket → docket.order.status ≠ .pending →
      desk.Refuses .conflict (.notAcceptable order docket.order.status) result := by
    intro docket hd hn
    obtain rfl := id_of_docket? hd
    exact ⟨accept_not_pending hd hn driver, rfl⟩
  have hidle : ∀ docket, desk.docket? order = some docket → docket.order.status = .pending →
      (∀ offer, ¬desk.LiveFor driver docket offer) →
      desk.Refuses .notFound (.noOffer order driver) result := by
    intro docket hd hw hn
    obtain rfl := id_of_docket? hd
    exact ⟨accept_not_asked hd hw hn, rfl⟩
  refine ⟨⟨fun hdone => ?_, ?_⟩, hunknown, fun docket hd => ⟨hover docket hd, hidle docket hd,
    fun offer hlive => ?_⟩⟩
  · -- Each of the refusals goes against the order having been given away.
    cases hd : desk.docket? order with
    | none => exact absurd hdone (hunknown hd).not_done
    | some docket =>
        by_cases hw : docket.order.status = .pending
        · by_cases hasked : ∃ offer, desk.LiveFor driver docket offer
          · obtain ⟨offer, hlive⟩ := hasked
            obtain rfl := id_of_docket? hd
            obtain ⟨pickup, leg, d, hp, -, hf, helsewhere, -⟩ :=
              hlive.accept_exact hdesk hradius (hlive.no_trip hi hdirect)
            refine ⟨docket, offer, pickup, d, rfl, hlive, hp, hf, ?_⟩
            by_contra hfar
            have hrefused : desk.Refuses .conflict _ result := ⟨helsewhere hfar, rfl⟩
            exact hrefused.not_done hdone
          · exact absurd hdone (hidle docket hd hw (not_exists.1 hasked)).not_done
        · exact absurd hdone (hover docket hd hw).not_done
  · rintro ⟨docket, offer, pickup, d, rfl, hlive, hp, hf, hfree⟩
    obtain ⟨_, leg, _, hp', -, hf', -, htaken⟩ :=
      hlive.accept_exact hdesk hradius (hlive.no_trip hi hdirect)
    obtain rfl := Option.some.inj (hp.symm.trans hp')
    obtain rfl := Option.some.inj (hf.symm.trans hf')
    exact congrArg (·.1.isDone) (htaken hfree)
  · obtain rfl := id_of_docket? hd
    obtain ⟨pickup, leg, d, hp, hleg, hf, helsewhere, htaken⟩ :=
      hlive.accept_exact hdesk hradius (hlive.no_trip hi hdirect)
    refine ⟨pickup, leg, d, hp, hleg, hf, Docket.offers_eq_of_last (hlive.last hdesk.sound),
      fun hfar => ⟨helsewhere hfar, rfl⟩,
      fun hfree => ⟨htaken hfree, fun other hne => ?_, fun other hne => ?_⟩⟩
    · rw [show result = _ from htaken hfree]
      exact handOver_docket? _ _ _ _ hne
    · rw [show result = _ from htaken hfree]
      exact handOver_find? _ _ _ _ (Register.key_of_find? hf ▸ hne)

/-- The order of the trial run is cancelled, so nobody can accept it any more. Where it has
been offered to a driver, who is free, it is theirs if they accept. -/
theorem acceptance_is_exact_trial :
    let desk := (opening {} trialStart).run trialRun
    let asked := askedDesk 0
    (desk.floor.issued ≤ Uuid.capacity ∧ (∀ cmd ∈ trialRun, cmd.isDirect = false) ∧
      desk.Refuses .conflict (.notAcceptable trialOrder .cancelled)
        (desk.respond trialOrder (.ofNat 9) .accept)) ∧
    ∃ docket offer leg d, asked.LiveFor (.ofNat 9) docket offer ∧ docket.id = trialOrder ∧
      asked.floor.fleet.find? (.ofNat 9) = some d ∧ d.trips = [] ∧
      docket.order.legs.getLast? = some leg ∧
      asked.respond trialOrder (.ofNat 9) .accept =
        (.done ⟨offer.closed .accepted asked.now, .confirmed, none⟩,
          asked.handOver docket offer d leg.dropoff) := by
  intro desk asked
  constructor
  · have hi : desk.floor.issued ≤ Uuid.capacity := by decide +kernel
    have hdirect : ∀ cmd ∈ trialRun, cmd.isDirect = false := by simp [trialRun, Command.isDirect]
    have hcancelled : (desk.docket? trialOrder).map (·.order.status) = some .cancelled := by
      decide +kernel
    obtain ⟨docket, hd, hs⟩ := Option.map_eq_some_iff.1 hcancelled
    have hrefused := ((acceptance_is_exact {} trialStart trialRun hi hdirect trialOrder
      (.ofNat 9)).2.2 docket hd).1
    rw [hs] at hrefused
    exact ⟨hi, hdirect, hrefused (by decide)⟩
  · have hfree : (asked.floor.fleet.driver (.ofNat 9)).trips = [] := askedDesk_free 0
    obtain ⟨docket, offer, hlive, hid, -, -⟩ := askedDesk_live 0
    obtain ⟨pickup, leg, d, -, hleg, hf, -, htaken⟩ :=
      hlive.accept_exact (askedDesk_lawful 0) rfl fun trip hm => by
        rw [askedDesk_free 0] at hm
        cases hm
    have hnone : d.trips = [] := by rwa [Fleet.driver, hf] at hfree
    rw [← hid]
    exact ⟨docket, offer, leg, d, hlive, rfl, hf, hnone, hleg, htaken (.inl hnone)⟩

end Desk

end Hailing
