import Hailing.Proofs.Acceptance
import Hailing.Proofs.InRange
import Hailing.Proofs.TimeLeft
import Hailing.Proofs.TurnedDown

/-!
# What is shown can be answered

A driver who is shown an offer expects to be able to answer it. The list and the answer
look at different things: the list goes through the open orders, the answer takes the
docket from the record and looks for the offer itself. They agree since exactly one offer
of an order is out at a time (`listed_offers_are_live`). What is listed can be accepted,
unless the driver is on a trip elsewhere; what is not listed cannot.

A rejection is more than an answer. The search that follows it at once looks back as far as
positions are fresh, and it breaks down where the calendar does not go back that far
(`Case.reject_isDone_iff`). So a listed offer can be rejected exactly if the clock shows a
time from which one can look back; and the clock may have been set back since the offer was
made (`rejection_breaks_down`).
-/

namespace Hailing

open Time (Instant Span)

namespace Case

variable {c : Case}

/-- A search that is begun ends exactly if the calendar goes back far enough. -/
theorem dispatch_isOk_iff (hs : c.docket.skipReason? = none)
    (hr : c.floor.settings.radii.isSome = true) {pickup : Geo.Point}
    (hp : c.docket.order.pickup? = some pickup) :
    (∃ outcome, c.dispatch.1 = .ok outcome) ↔
      c.floor.settings.freshSpan.nanos ≤ c.floor.now.age := by
  constructor
  · rintro ⟨outcome, h⟩
    obtain ⟨⟨radius, wider⟩, hradii⟩ := Option.isSome_iff_exists.1 hr
    cases hc : Fleet.candidates c.floor.settings c.floor.fleet pickup radius c.docket.excluded
      c.floor.now with
    | ok ranked => exact Fleet.candidates_ok_iff.1 ⟨ranked, hc⟩
    | error breakdown =>
        have hbest : c.best? radius = .error breakdown := by
          unfold best?
          rw [hp]
          dsimp only
          rw [hc]
          rfl
        rw [dispatch, hs, hradii] at h
        dsimp only at h
        rw [hbest] at h
        cases h
  · intro hreaches
    obtain ⟨outcome, h, -⟩ := dispatch_ok (c := c) ⟨hr, hreaches⟩
    exact ⟨outcome, h⟩

/-- Once an offer of an order that waits is turned down a search is called for. -/
theorem drop_calls (ho : c.docket.OneOpen) (hq : c.docket.Paused)
    (hw : c.docket.isPending = true) {offer : Offer}
    (hl : c.docket.offers.getLast? = some offer) (hout : offer.isOutstanding = true)
    {status : Offer.Status} (hs : status ≠ .requested) :
    (c.drop offer status).docket.skipReason? = none := by
  refine Docket.skipReason?_eq_none.2 ⟨drop_isPending.trans hw, drop_hasOutstanding ho hs, ?_⟩
  exact (Docket.exclude_searching _ _).trans (hq (Docket.hasOutstanding_of_last hl hout))

/-- The offer of an order that waits can be rejected exactly if the calendar goes back far
enough. In no case is the rejection refused. -/
theorem reject_isDone_iff (ho : c.docket.OneOpen) (hq : c.docket.Paused)
    (hr : c.floor.settings.radii.isSome = true) {pickup : Geo.Point}
    (hp : c.docket.order.pickup? = some pickup) (hw : c.docket.order.status = .pending)
    {offer : Offer} (hl : c.docket.offers.getLast? = some offer)
    (hout : offer.isOutstanding = true) :
    ((c.respond offer.driver .reject).1.isDone = true ↔
      c.floor.settings.freshSpan.nanos ≤ c.floor.now.age) ∧
      (c.respond offer.driver .reject).1.isRefused = false := by
  have hwaits := Docket.isPending_iff.2 hw
  have hskip : (c.drop offer .rejected).docket.skipReason? = none :=
    drop_calls ho hq hwaits hl hout (by decide)
  have hpickup : (c.drop offer .rejected).docket.order.pickup? = some pickup :=
    (congrArg Order.pickup? (Docket.exclude_order _ _)).trans hp
  have hends := dispatch_isOk_iff (c := c.drop offer .rejected) hskip hr hpickup
  rw [reject_eq_turnedDown ho hl hout, turnedDown_of_pending hwaits]
  refine ⟨Iff.trans ?_ hends, by simp⟩
  cases (c.drop offer .rejected).dispatch.1 with
  | ok outcome => exact ⟨fun _ => ⟨outcome, rfl⟩, fun _ => rfl⟩
  | error breakdown => exact ⟨fun h => (by cases h), fun ⟨_, h⟩ => (by cases h)⟩

end Case

/-! ## The order of the views -/

namespace Offer.View

theorem precedes_iff {v w : View} : v.precedes w = true ↔
    v.requestedAt.key < w.requestedAt.key ∨
      v.requestedAt.key ≤ w.requestedAt.key ∧ v.orderCode ≤ w.orderCode := by
  simp only [precedes, Bool.or_eq_true, Bool.and_eq_true, decide_eq_true_eq]
  rfl

theorem precedes_trans (u v w : View) (huv : u.precedes v = true) (hvw : v.precedes w = true) :
    u.precedes w = true := by
  rw [precedes_iff] at *
  rcases huv with huv | ⟨huv, hcode⟩
  · exact .inl (by omega)
  · rcases hvw with hvw | ⟨hvw, hcode'⟩
    · exact .inl (by omega)
    · exact .inr ⟨by omega, String.le_trans hcode hcode'⟩

theorem precedes_total (v w : View) : (v.precedes w || w.precedes v) = true := by
  rw [Bool.or_eq_true, precedes_iff, precedes_iff]
  rcases String.le_total v.orderCode w.orderCode with hcode | hcode
  · by_cases h : v.requestedAt.key ≤ w.requestedAt.key
    · exact .inl (.inr ⟨h, hcode⟩)
    · exact .inr (.inl (by omega))
  · by_cases h : w.requestedAt.key ≤ v.requestedAt.key
    · exact .inr (.inr ⟨h, hcode⟩)
    · exact .inl (.inl (by omega))

theorem le_of_precedes {v w : View} (h : v.precedes w = true) :
    v.requestedAt ≤ w.requestedAt := by
  rcases precedes_iff.1 h with hlt | ⟨hle, -⟩
  · exact Instant.le_of_lt hlt
  · exact hle

end Offer.View

/-- At most one offer of an order is out to a driver. -/
theorem Docket.Orderly.offersTo_length_le {d : Docket} (h : d.Orderly) (driver : Uuid) :
    (d.offersTo driver).length ≤ 1 := by
  unfold offersTo
  split
  · rw [← List.countP_eq_length_filter]
    refine (List.countP_mono_left fun o _ hfor => ?_).trans h.exclusive.requested_le
    rw [Offer.isOutstandingFor, Bool.and_eq_true, Offer.isOutstanding_iff] at hfor
    exact decide_eq_true hfor.1
  · exact Nat.zero_le _

namespace Desk

variable {desk : Desk} {order driver : Uuid} {listed : List Offer.View}

/-- The oldest come first. -/
theorem offersOf_sorted (h : desk.offersOf driver = .ok listed) :
    listed.Pairwise fun v w => v.requestedAt ≤ w.requestedAt := by
  cases hf : desk.openDockets.mapM (views driver desk) with
  | error => simp [offersOf, hf, bind, Except.bind] at h
  | ok found =>
      simp only [offersOf, hf, bind, Except.bind, pure, Except.pure] at h
      cases h
      exact (List.pairwise_mergeSort Offer.View.precedes_trans Offer.View.precedes_total
        found.flatten).imp Offer.View.le_of_precedes

/-- No order is out to a driver twice. -/
theorem outTo_nodup (hs : desk.Sound) (hx : desk.Indexed) :
    ((desk.outTo driver).map (·.1.id)).Nodup := by
  have hdockets : (desk.openDockets.map (·.id)).Nodup :=
    ((openDockets_perm hs hx).map _).nodup_iff.2
      (desk.dockets.nodup.sublist (List.filter_sublist.map _))
  refine ((List.mergeSort_perm _ _).map _).nodup_iff.2 ?_
  rw [List.map_flatMap, List.nodup_flatMap]
  have hids : ∀ d : Docket, ((d.offersTo driver).map fun o => (d, o)).map (fun x => x.1.id) =
      List.replicate (d.offersTo driver).length d.id := fun d => by simp [Function.comp_def]
  simp only [hids, List.nodup_replicate]
  refine ⟨fun d hd => ?_, (List.pairwise_map.1 hdockets).imp fun hne => ?_⟩
  · have hfound := Register.mem_items.1 ((mem_openDockets hx).1 hd).1
    exact (hs.orderly hfound).offersTo_length_le driver
  · intro order ha hb
    exact hne ((List.eq_of_mem_replicate ha).symm.trans (List.eq_of_mem_replicate hb))

theorem offersOf_nodup (hs : desk.Sound) (hx : desk.Indexed)
    (h : desk.offersOf driver = .ok listed) : (listed.map (·.order)).Nodup := by
  have hids : (desk.outTo driver).map (·.1.id) = listed.map (·.order) := by
    rw [← List.forall₂_eq_eq_eq, List.forall₂_map_left_iff, List.forall₂_map_right_iff]
    exact (offersOf_shows h).imp fun _ _ hv => hv.order.symm
  exact hids ▸ outTo_nodup hs hx

/-! ## Answers -/

/-- Whoever has no offer that is out to them cannot accept. -/
theorem accept_refused (hn : ∀ docket offer, docket.id = order →
    ¬desk.LiveFor driver docket offer) :
    ∃ refusal, desk.respond order driver .accept = (.refused refusal, desk) := by
  cases hd : desk.docket? order with
  | none => exact ⟨_, respond_unknown hd driver .accept⟩
  | some docket =>
      obtain rfl := id_of_docket? hd
      by_cases hw : docket.order.status = .pending
      · exact ⟨_, accept_not_asked hd hw fun offer => hn docket offer rfl⟩
      · exact ⟨_, accept_not_pending hd hw driver⟩

variable {docket : Docket} {offer : Offer}

/-- A live offer can be rejected exactly if the calendar goes back far enough. -/
theorem LiveFor.reject_isDone_iff (hdesk : desk.Lawful) (h : desk.LiveFor driver docket offer)
    (hr : desk.settings.radii.isSome = true) :
    let rejection := (desk.respond docket.id driver .reject).1
    (rejection.isDone = true ↔ desk.settings.freshSpan.nanos ≤ desk.now.age) ∧
      rejection.isRefused = false := by
  intro rejection
  have hs := hdesk.sound
  obtain ⟨pickup, _, hp, -⟩ := (hdesk.routed h.known).ends
  have hrejection : rejection = ((Case.mk docket desk.floor).respond offer.driver .reject).1 := by
    rw [h.asked]
    exact congrArg Prod.fst (respond_of_docket? h.known driver .reject)
  rw [hrejection]
  exact Case.reject_isDone_iff (c := ⟨docket, desk.floor⟩) (hs.orderly h.known).oneOpen
    (hdesk.paused h.known) hr hp h.waits (h.last hs) (Offer.isOutstanding_iff.2 h.out)

/-- A live offer can be accepted, unless the driver is on a trip elsewhere. -/
theorem LiveFor.accept (hdesk : desk.Lawful) (h : desk.LiveFor driver docket offer)
    {pickup : Geo.Point} (hp : docket.order.pickup? = some pickup) :
    let acceptance := desk.respond docket.id driver .accept
    acceptance.1.isDone = true ∨
      desk.Refuses .conflict (.tripElsewhere docket.id driver) acceptance ∧
        ∃ d, desk.floor.fleet.find? driver = some d ∧
          ¬d.FreeFor desk.settings.destinationRadius pickup := by
  intro acceptance
  obtain ⟨d, hf⟩ := h.exists_driver hdesk
  obtain ⟨_, leg, hp', -, htaken, helsewhere⟩ := h.accept_eq hdesk.sound hdesk.routed hf
  obtain rfl := Option.some.inj (hp.symm.trans hp')
  by_cases hfree : d.FreeFor desk.settings.destinationRadius pickup
  · exact .inl (congrArg (·.1.isDone) (htaken hfree))
  · exact .inr ⟨⟨helsewhere hfree, rfl⟩, d, hf, hfree⟩

/-- An offer was made at one of the radii, so there are some. -/
theorem LiveFor.radii_isSome {settings : Settings} {start : Instant} {cmds : List Command}
    (hi : ((opening settings start).run cmds).floor.issued ≤ Uuid.capacity)
    (h : ((opening settings start).run cmds).LiveFor driver docket offer) :
    ((opening settings start).run cmds).settings.radii.isSome = true := by
  obtain ⟨radii, hradii, -⟩ :=
    ((run_obeys Case.inRange_rule hi _ _ h.known).offers offer h.mem).radius
  exact Option.isSome_iff_exists.2 ⟨radii, hradii⟩

/-- After every run, and whatever the clock shows, a driver is shown the offers that are out
to them on orders that wait, and nothing else; each order once, and the oldest offer first.
(There is a list if each of the times that are left can be reckoned with.) A listed offer can
be accepted, unless the driver is on a trip that does not end near the pickup. Its rejection
is not refused, and it is done exactly if the calendar goes back from now as far as positions
are fresh. Of an order that is not listed nothing can be accepted. -/
theorem listed_offers_are_live (settings : Settings) (start : Instant) (cmds : List Command)
    (hi : ((opening settings start).run cmds).floor.issued ≤ Uuid.capacity) (driver : Uuid) :
    let desk := (opening settings start).run cmds
    let window := settings.offerSpan
    ((∀ docket offer, desk.LiveFor driver docket offer → offer.Countable window desk.now) →
      ∃ listed, desk.offersOf driver = .ok listed) ∧
    ∀ listed, desk.offersOf driver = .ok listed →
      (listed.Pairwise fun v w => v.requestedAt ≤ w.requestedAt) ∧
      (listed.map (·.order)).Nodup ∧
      (∀ v ∈ listed, ∃ docket offer, desk.LiveFor driver docket offer ∧
        v.Shows window desk.now docket offer) ∧
      (∀ docket offer, desk.LiveFor driver docket offer →
        ∃ v ∈ listed, v.Shows window desk.now docket offer) ∧
      (∀ v ∈ listed,
        let rejection := (desk.respond v.order driver .reject).1
        let acceptance := desk.respond v.order driver .accept
        ((rejection.isDone = true ↔ settings.freshSpan.nanos ≤ desk.now.age) ∧
          rejection.isRefused = false) ∧
        (acceptance.1.isDone = true ∨
          desk.Refuses .conflict (.tripElsewhere v.order driver) acceptance ∧
            ∃ d, desk.floor.fleet.find? driver = some d ∧
              ¬d.FreeFor settings.destinationRadius v.pickup)) ∧
      ∀ order, order ∉ listed.map (·.order) →
        ∃ refusal, desk.respond order driver .accept = (.refused refusal, desk) := by
  intro desk window
  have hdesk : desk.Lawful := run_lawful hi
  have hx := hdesk.indexed
  have hr := hdesk.routed
  have hsettings : desk.settings = settings := run_settings (opening_sound settings start) cmds
  have hspan : desk.settings.offerSpan = window := congrArg Settings.offerSpan hsettings
  rw [← hspan]
  refine ⟨exists_offersOf hx hr, fun listed h => ⟨offersOf_sorted h,
    offersOf_nodup hdesk.sound hx h, fun v hv => live_of_shown hx hr h hv,
    fun docket offer hlive => shown_of_live hx hr h hlive,
    fun v hv => ?_, fun order hunlisted => ?_⟩⟩
  · obtain ⟨docket, offer, hlive, hshows⟩ := live_of_shown hx hr h hv
    have hreject := hlive.reject_isDone_iff hdesk (hlive.radii_isSome hi)
    have haccept := hlive.accept hdesk hshows.pickup
    rw [hsettings] at hreject haccept
    rw [hshows.order]
    exact ⟨hreject, haccept⟩
  · refine accept_refused fun docket offer hid hlive => hunlisted ?_
    obtain ⟨v, hv, hshows⟩ := shown_of_live hx hr h hlive
    exact List.mem_map.2 ⟨v, hv, hshows.order.trans hid⟩

/-- The order of the trial run is cancelled: its driver is shown nothing and can no longer
accept it. A driver to whom it has been offered is shown this, and can answer either way. -/
theorem listed_offers_are_live_trial :
    let desk := (opening {} trialStart).run trialRun
    let asked := askedDesk 0
    (desk.floor.issued ≤ Uuid.capacity ∧ desk.offersOf (.ofNat 9) = .ok [] ∧
      ∃ refusal, desk.respond trialOrder (.ofNat 9) .accept = (.refused refusal, desk)) ∧
    ∃ docket offer listed v, asked.LiveFor (.ofNat 9) docket offer ∧ docket.id = trialOrder ∧
      asked.offersOf (.ofNat 9) = .ok listed ∧ v ∈ listed ∧
      v.Shows asked.settings.offerSpan asked.now docket offer ∧
      (asked.respond docket.id (.ofNat 9) .reject).1.isDone = true ∧
      (asked.respond docket.id (.ofNat 9) .accept).1.isDone = true := by
  intro desk asked
  constructor
  · have hi : desk.floor.issued ≤ Uuid.capacity := by decide +kernel
    have hnone : desk.offersOf (.ofNat 9) = .ok [] := by
      have hlist : (desk.offersOf (.ofNat 9)).toOption.map (·.isEmpty) = some true := by
        decide +kernel
      cases h : desk.offersOf (.ofNat 9) with
      | error => rw [h] at hlist; cases hlist
      | ok listed =>
          rw [h] at hlist
          rw [List.isEmpty_iff.1 (Option.some.inj hlist)]
    obtain ⟨-, -, -, -, -, hunlisted⟩ :=
      (listed_offers_are_live {} trialStart trialRun hi (.ofNat 9)).2 [] hnone
    exact ⟨hi, hnone, hunlisted trialOrder List.not_mem_nil⟩
  · have hdesk : asked.Lawful := askedDesk_lawful 0
    obtain ⟨docket, offer, hlive, hid, -, -⟩ := askedDesk_live 0
    obtain ⟨listed, hlisted⟩ : ∃ listed, asked.offersOf (.ofNat 9) = .ok listed :=
      exists_ok_of_isSome (by decide +kernel)
    obtain ⟨v, hv, hshows⟩ := shown_of_live hdesk.indexed hdesk.routed hlisted hlive
    have hreject := (hlive.reject_isDone_iff hdesk (by decide +kernel)).1
    refine ⟨docket, offer, listed, v, hlive, hid, hlisted, hv, hshows,
      hreject.2 (by decide +kernel), ?_⟩
    refine (hlive.accept hdesk hshows.pickup).resolve_right ?_
    rintro ⟨-, d, hf, hfar⟩
    have hfree := askedDesk_free 0
    rw [Fleet.driver, hf] at hfree
    exact hfar (.inl hfree)

/-- An environment in which positions are fresh for as long as the calendar goes back from
the time of `openOffer`, to the second. -/
def edgeFreshness : Environment :=
  fun name => if name = "LOCATION_FRESHNESS_SECS" then some "8336310515975" else none

/-- These settings are accepted, and when the offer was made a search could look back. If the
clock is set back by a second the offer is still listed, but its rejection breaks down. -/
theorem rejection_breaks_down :
    let settings : Settings := { freshness := 8336310515975000 }
    let desk := openDesk settings
      ⟨19783, 35974, 500000, by decide, by decide, by decide, by decide⟩
    edgeFreshness.settings = .ok settings ∧
      settings.freshSpan.nanos ≤ openOffer.requestedAt.age ∧
      (desk.offersOf (.ofNat 9)).toOption.map (·.map (·.order)) = some [.ofNat 1] ∧
      (desk.respond (.ofNat 1) (.ofNat 9) .reject).1.isBroken = true :=
  ⟨rfl, by decide +kernel, by decide +kernel, by decide +kernel⟩

end Desk

end Hailing
