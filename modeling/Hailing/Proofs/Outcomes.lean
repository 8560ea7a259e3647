import Hailing.Proofs.Answerable

/-!
# What a dispatch reports

Whoever starts a search is told what came of it, and looks at that instead of the docket.
So the report has to say what happened, and nothing else may have happened: from the
docket and the searches asleep, before and after, the outcome can be read off, and the
other way round (`Case.dispatch_iff`).

For three of the outcomes what happened is a difference between before and after. That
the docket gives now as the time at which the last search ended is not: it may have done
so before, and the dispatch is skipped since the order was cancelled at the same instant.
What tells a search that found nobody is that now is entered whatever stood there, which
is what `Case.dated` is for.

A dispatch is skipped only where it is not called for. An order that has just been entered
waits, and nobody has been asked or is searched for. Of an order that waits and whose
offer is rejected the same holds once the offer is closed, since no search is asleep while
an offer is out (`Docket.Paused`). So in both cases there is a search, and it is reported
(`Desk.outcomes_are_what_happened`).
-/

namespace Hailing

open Time (Instant)

/-- That there is this reason to start no search. The first one that there is counts. -/
def SkipReason.Holds (d : Docket) : SkipReason → Prop
  | .notPending => d.order.status ≠ .pending
  | .offerOutstanding => d.order.status = .pending ∧ ∃ o ∈ d.offers, o.status = .requested
  | .searchInFlight =>
    d.order.status = .pending ∧ (∀ o ∈ d.offers, o.status ≠ .requested) ∧ d.searching = true

namespace Docket

variable {d : Docket}

theorem not_hasOutstanding_iff :
    d.hasOutstanding = false ↔ ∀ o ∈ d.offers, o.status ≠ .requested := by
  rw [← Bool.not_eq_true, hasOutstanding_iff]
  simp

theorem skipReason?_eq_some {reason : SkipReason} :
    d.skipReason? = some reason ↔ reason.Holds d := by
  have hkind : reason.Holds d ↔ match reason with
      | .notPending => d.isPending = false
      | .offerOutstanding => d.isPending = true ∧ d.hasOutstanding = true
      | .searchInFlight =>
          d.isPending = true ∧ d.hasOutstanding = false ∧ d.searching = true := by
    cases reason <;>
      simp only [SkipReason.Holds, ← isPending_iff, ← hasOutstanding_iff, ← not_hasOutstanding_iff,
        Bool.not_eq_true, ne_eq]
  rw [hkind, skipReason?]
  cases reason <;> cases d.isPending <;> cases d.hasOutstanding <;> cases d.searching <;> simp

theorem skipReason?_ne_none :
    d.skipReason? ≠ none ↔
      d.order.status ≠ .pending ∨ (∃ o ∈ d.offers, o.status = .requested) ∨
        d.searching = true := by
  rw [Ne, skipReason?_eq_none, ← hasOutstanding_iff, ne_eq, ← isPending_iff]
  cases d.isPending <;> cases d.hasOutstanding <;> cases d.searching <;> simp

end Docket

namespace Case

variable {c c' : Case} {outcome : Outcome}

/-! ## What happened -/

/-- The case with another time at which the last search ended. -/
def dated (earlier : Option Instant) (c : Case) : Case :=
  c.onDocket fun d => { d with lastSearchEnded? := earlier }

/-- What each outcome says of a dispatch. That a search has ended now is more than that the
docket says so: it says so whatever it said before. -/
def Happens (c : Case) : Outcome → Prop
  | .skipped reason => reason.Holds c.docket ∧ c.dispatch.2 = c
  | .offered id driver radius =>
    (∃ wider, c.floor.settings.radii = some ⟨radius, wider⟩) ∧ driver ∉ c.docket.excluded ∧
      ∃ offer, c.dispatch.2.docket.offers = c.docket.offers ++ [offer] ∧
        offer.status = .requested ∧ offer.id = id ∧ offer.driver = driver ∧ offer.radius = radius
  | .searching next =>
    c.dispatch.2.docket.offers = c.docket.offers ∧
      c.docket.searching = false ∧ c.dispatch.2.docket.searching = true ∧
      ∃ first rest, c.floor.settings.radii = some ⟨first, next :: rest⟩ ∧
        c.dispatch.2.floor.sleeping = c.floor.sleeping ++
          [⟨c.docket.id, ⟨next, rest⟩, c.floor.clock.ticks + c.floor.settings.radiusWait⟩]
  | .exhausted =>
    (∃ only, c.floor.settings.radii = some ⟨only, []⟩) ∧
      c.dispatch.2.docket.offers = c.docket.offers ∧
      c.dispatch.2.docket.lastSearchEnded? = some c.floor.now ∧
      ∀ earlier, (c.dated earlier).dispatch.2.docket.lastSearchEnded? = some c.floor.now

/-- A search does not look at when another one ended. -/
theorem Dispatched.dated (h : Dispatched c outcome c') (earlier : Option Instant) :
    ∃ c'', Dispatched (c.dated earlier) outcome c'' ∧ c''.docket.lastSearchEnded? =
      match outcome with
      | .exhausted => some c.floor.now
      | _ => earlier := by
  cases h with
  | skipped hs => exact ⟨_, .skipped hs, rfl⟩
  | offered hs hr hb => exact ⟨_, .offered hs hr hb, rfl⟩
  | searching hs hr hb => exact ⟨_, .searching hs hr hb, rfl⟩
  | exhausted hs hr hb => exact ⟨_, .exhausted hs hr hb, rfl⟩

theorem Breaks.dated {breakdown : Breakdown} (h : c.Breaks breakdown)
    (earlier : Option Instant) : (c.dated earlier).Breaks breakdown := h

theorem Dispatched.happens (h : Dispatched c outcome c') : c.Happens outcome := by
  have hd := h.dispatch_eq
  cases outcome <;> rw [Happens, hd]
  case skipped reason =>
      cases h with
      | skipped hs => exact ⟨Docket.skipReason?_eq_some.1 hs, rfl⟩
  case offered id driver radius =>
      cases h with
      | offered hs hr hb => exact ⟨⟨_, hr⟩, (best?_spec hb).1, _, rfl, rfl, rfl, rfl, rfl⟩
  case searching next =>
      cases h with
      | searching hs hr hb =>
          exact ⟨rfl, (Docket.skipReason?_eq_none.1 hs).2.2, rfl, _, _, hr, rfl⟩
  case exhausted =>
      have hentered : ∀ earlier,
          (c.dated earlier).dispatch.2.docket.lastSearchEnded? = some c.floor.now := by
        intro earlier
        obtain ⟨c'', hdated, hended⟩ := h.dated earlier
        rw [hdated.dispatch_eq]
        exact hended
      cases h with
      | exhausted hs hr hb => exact ⟨⟨_, hr⟩, rfl, rfl, hentered⟩

/-- What happened is one thing only. -/
theorem Dispatched.unique (h : Dispatched c outcome c') {other : Outcome}
    (ho : c.Happens other) : outcome = other := by
  have hd := h.dispatch_eq
  cases other with
  | skipped reason =>
      have hs := Docket.skipReason?_eq_some.2 ho.1
      have hskip : Dispatched c (.skipped reason) c := .skipped hs
      cases hd.symm.trans hskip.dispatch_eq
      rfl
  | offered id driver radius =>
      obtain ⟨-, -, offer, hoffers, -, rfl, rfl, rfl⟩ := ho
      rw [hd] at hoffers
      cases h with
      | skipped | searching | exhausted =>
          exact absurd hoffers (by simp [startSearch, endSearch, onDocket, onFloor])
      | offered hs hr hb =>
          obtain rfl := List.singleton_inj.1 (List.append_cancel_left hoffers)
          rfl
  | searching next =>
      obtain ⟨hoffers, hidle, hbusy, _, _, hr', -⟩ := ho
      rw [hd] at hoffers hbusy
      cases h with
      | skipped => simp [hidle] at hbusy
      | exhausted => cases hbusy
      | offered => simp [makeOffer] at hoffers
      | searching hs hr hb =>
          cases hr.symm.trans hr'
          rfl
  | exhausted =>
      -- A docket without a time is given one by such a search only.
      obtain ⟨c'', hdated, hended⟩ := h.dated none
      have hnow := ho.2.2.2 none
      rw [hdated.dispatch_eq, hended] at hnow
      cases h <;> first | rfl | cases hnow

/-- A dispatch that breaks down does nothing. -/
theorem Breaks.not_happens {breakdown : Breakdown} (h : c.Breaks breakdown) :
    ¬ c.Happens outcome := by
  intro ho
  have hd := h.dispatch_eq
  cases outcome with
  | skipped reason =>
      have hs := Docket.skipReason?_eq_some.2 ho.1
      rw [h.1] at hs
      cases hs
  | offered id driver radius =>
      obtain ⟨-, -, offer, hoffers, -⟩ := ho
      rw [hd] at hoffers
      simp at hoffers
  | searching next =>
      obtain ⟨-, hidle, hbusy, -⟩ := ho
      rw [hd, hidle] at hbusy
      cases hbusy
  | exhausted =>
      have hnow := ho.2.2.2 none
      rw [(h.dated none).dispatch_eq] at hnow
      cases hnow

/-- From what happened the report can be told, and the other way round. -/
theorem dispatch_iff : c.dispatch.1 = .ok outcome ↔ c.Happens outcome := by
  constructor
  · intro h
    exact (Dispatched.of_eq (Prod.ext h rfl : c.dispatch = (.ok outcome, c.dispatch.2))).happens
  · intro h
    rcases dispatch_cases c with ⟨breakdown, hd⟩ | ⟨outcome', c', hd, hdispatched⟩
    · exact absurd h (breaks_of_dispatch hd).not_happens
    · rw [hd, hdispatched.unique h]

/-- A dispatch is skipped, or there are radii and the calendar goes back far enough. -/
theorem dispatch_answers_iff {pickup : Geo.Point} (hp : c.docket.order.pickup? = some pickup) :
    (∃ outcome, c.dispatch.1 = .ok outcome) ↔
      c.docket.skipReason? ≠ none ∨ c.floor.settings.radii.isSome = true ∧
        c.floor.settings.freshSpan.nanos ≤ c.floor.now.age := by
  cases hs : c.docket.skipReason? with
  | some reason =>
      have hskip : Dispatched c (.skipped reason) c := .skipped hs
      rw [hskip.dispatch_eq]
      simp
  | none =>
      cases hr : c.floor.settings.radii with
      | none =>
          have hbreaks : c.Breaks .endlessWidening := ⟨hs, .inl ⟨hr, rfl⟩⟩
          rw [hbreaks.dispatch_eq]
          simp
      | some radii =>
          rw [dispatch_isOk_iff hs (by rw [hr]; rfl) hp]
          simp

theorem exists_skipped_iff :
    (∃ reason, c.dispatch.1 = .ok (.skipped reason)) ↔ c.docket.skipReason? ≠ none := by
  rw [Option.ne_none_iff_exists']
  refine exists_congr fun reason => ⟨fun h => ?_, fun hs => ?_⟩
  · exact Docket.skipReason?_eq_some.2 (dispatch_iff.1 h).1
  · have hskip : Dispatched c (.skipped reason) c := .skipped hs
    rw [hskip.dispatch_eq]

/-- Where a search is called for a dispatch reports one. -/
theorem not_skipped (hs : c.docket.skipReason? = none) (h : c.dispatch.1 = .ok outcome)
    (reason : SkipReason) : outcome ≠ .skipped reason := by
  rintro rfl
  exact exists_skipped_iff.1 ⟨reason, h⟩ hs

/-- Among the searches that are made, it is enough for one that found nobody that the docket
says now. -/
theorem exhausted_iff (hs : c.docket.skipReason? = none) (h : c.dispatch.1 = .ok outcome) :
    outcome = .exhausted ↔ (∃ only, c.floor.settings.radii = some ⟨only, []⟩) ∧
      c.dispatch.2.docket.offers = c.docket.offers ∧
      c.dispatch.2.docket.lastSearchEnded? = some c.floor.now := by
  have happened := dispatch_iff.1 h
  constructor
  · rintro rfl
    obtain ⟨honly, hoffers, hnow, -⟩ := happened
    exact ⟨honly, hoffers, hnow⟩
  · rintro ⟨⟨only, honly⟩, hoffers, -⟩
    cases outcome with
    | skipped reason => exact absurd rfl (not_skipped hs h reason)
    | offered id driver radius =>
        obtain ⟨-, -, offer, happended, -⟩ := happened
        rw [hoffers] at happended
        simp at happended
    | searching next =>
        obtain ⟨-, -, -, first, rest, hwider, -⟩ := happened
        cases honly.symm.trans hwider
    | exhausted => rfl

/-- The search that follows a rejection is reported with it, and it is not skipped. -/
theorem reject_reports (ho : c.docket.OneOpen) (hq : c.docket.Paused)
    (hw : c.docket.isPending = true) {offer : Offer}
    (hl : c.docket.offers.getLast? = some offer) (hout : offer.isOutstanding = true)
    {reaction : Reaction} (h : (c.respond offer.driver .reject).1 = .done reaction) :
    ∃ outcome, reaction.next? = some outcome ∧ ∀ reason, outcome ≠ .skipped reason := by
  have hcalled := drop_calls ho hq hw hl hout (by decide : Offer.Status.rejected ≠ .requested)
  rw [reject_eq_turnedDown ho hl hout, turnedDown_of_pending hw] at h
  cases hd : (c.drop offer .rejected).dispatch.1 with
  | error breakdown =>
      rw [hd] at h
      cases h
  | ok outcome =>
      rw [hd] at h
      obtain rfl := Answer.done.inj h
      exact ⟨outcome, rfl, not_skipped hcalled hd⟩

end Case

namespace Desk

/-- The search for an order that has just been entered is not skipped, and what is answered
is the order on record. -/
theorem createOrder_reports {request : Order.NewOrder} {desk : Desk} {created : Created}
    (h : (desk.createOrder request).1 = .done created) :
    (∀ reason, created.dispatch ≠ .skipped reason) ∧ created.order.status = .pending ∧
      ∃ docket, (desk.createOrder request).2.docket? created.order.id = some docket ∧
        docket.order = created.order := by
  obtain ⟨horder, houtcome, hdesk⟩ := createOrder_done h
  rw [hdesk, horder]
  refine ⟨Case.not_skipped rfl houtcome, rfl, _, ?_, newCase_order request desk⟩
  rw [docket?_putBack]
  exact if_pos (newCase_id request desk)

/-- An order is entered and searched for if there are radii and the calendar goes back far
enough. -/
theorem createOrder_isDone_iff {request : Order.NewOrder} (hr : request.check = .ok ())
    (desk : Desk) :
    (desk.createOrder request).1.isDone = true ↔
      desk.settings.radii.isSome = true ∧ desk.settings.freshSpan.nanos ≤ desk.now.age := by
  obtain ⟨pickup, _, hp, -⟩ := (desk.draftOrder_routed hr).ends
  have hends := Case.dispatch_answers_iff (c := desk.newCase request) hp
  have hsteady := enter_steady (desk.draftOrder request) desk
  have hsettings : (desk.newCase request).floor.settings = desk.settings := hsteady.settings
  have hnow : (desk.newCase request).floor.now = desk.now := hsteady.now_eq
  have hcalled : (desk.newCase request).docket.skipReason? = none := rfl
  rw [hsettings, hnow, hcalled] at hends
  rw [createOrder_eq hr desk]
  cases hd : (desk.newCase request).dispatch.1 with
  | ok outcome =>
      rw [hd] at hends
      simpa [Answer.ofExcept, Answer.map, Answer.isDone] using hends
  | error breakdown =>
      rw [hd] at hends
      simpa [Answer.ofExcept, Answer.map, Answer.isDone] using hends

/-- The search that follows a rejection is not skipped. -/
theorem LiveFor.reject_reports {desk : Desk} (hdesk : desk.Lawful) {driver : Uuid}
    {docket : Docket} {offer : Offer} (h : desk.LiveFor driver docket offer) {reaction : Reaction}
    (hdone : (desk.respond docket.id driver .reject).1 = .done reaction) :
    ∃ outcome, reaction.next? = some outcome ∧ ∀ reason, outcome ≠ .skipped reason := by
  have hs := hdesk.sound
  rw [respond_of_docket? h.known, ← h.asked] at hdone
  exact Case.reject_reports (hs.orderly h.known).oneOpen (hdesk.paused h.known)
    (Docket.isPending_iff.2 h.waits) (h.last hs) (Offer.isOutstanding_iff.2 h.out) hdone

/-- The outcome of a dispatch is what happened, whoever is around. A dispatch is skipped if
and only if the order does not wait, has an offer out or is being searched for, and then
nothing changes; it breaks down if and only if a search is called for and there are no radii
or the calendar does not go back far enough. Where one is made, it found nobody if and only if
there is one radius, nobody is asked, and the docket says that a search has ended now. An order
that has just been entered is never skipped, and neither is one that waits and whose offer has
been rejected. -/
theorem outcomes_are_what_happened (settings : Settings) (start : Instant) (cmds : List Command)
    (hi : ((opening settings start).run cmds).floor.issued ≤ Uuid.capacity) :
    let desk := (opening settings start).run cmds
    let canSearch := settings.radii.isSome = true ∧ settings.freshSpan.nanos ≤ desk.now.age
    (∀ order docket, desk.docket? order = some docket → ∀ fleet : Fleet,
      let c : Case := ⟨docket, { desk.floor with fleet := fleet }⟩
      let isSkipped := ∃ reason, c.dispatch.1 = .ok (.skipped reason)
      (∀ outcome, c.dispatch.1 = .ok outcome ↔ c.Happens outcome) ∧
      (isSkipped ↔ docket.order.status ≠ .pending ∨ (∃ o ∈ docket.offers, o.status = .requested) ∨
        docket.searching = true) ∧
      (isSkipped → c.dispatch.2 = c) ∧
      ((∃ outcome, c.dispatch.1 = .ok outcome) ↔ isSkipped ∨ canSearch) ∧
      (¬ isSkipped → canSearch → (c.dispatch.1 = .ok .exhausted ↔
        (∃ only, settings.radii = some ⟨only, []⟩) ∧ c.dispatch.2.docket.offers = docket.offers ∧
          c.dispatch.2.docket.lastSearchEnded? = some desk.now))) ∧
    (∀ request, (request.check = .ok () →
        ((desk.createOrder request).1.isDone = true ↔ canSearch)) ∧
      ∀ created, (desk.createOrder request).1 = .done created →
        (∀ reason, created.dispatch ≠ .skipped reason) ∧ created.order.status = .pending ∧
        ∃ docket, (desk.createOrder request).2.docket? created.order.id = some docket ∧
          docket.order = created.order) ∧
    ∀ driver docket offer, desk.LiveFor driver docket offer →
      ((desk.respond docket.id driver .reject).1.isDone = true ↔
        settings.freshSpan.nanos ≤ desk.now.age) ∧
      ∀ reaction, (desk.respond docket.id driver .reject).1 = .done reaction →
        ∃ outcome, reaction.next? = some outcome ∧ ∀ reason, outcome ≠ .skipped reason := by
  intro desk canSearch
  have hdesk : desk.Lawful := run_lawful hi
  have hsettings : desk.floor.settings = settings :=
    run_settings (opening_sound settings start) cmds
  refine ⟨fun order docket hd fleet => ?_, fun request => ⟨fun hr => ?_, fun created h => ?_⟩,
    fun driver docket offer hlive =>
      ⟨?_, fun reaction h => hlive.reject_reports hdesk h⟩⟩
  · intro c isSkipped
    have hskipped : isSkipped ↔ docket.skipReason? ≠ none := Case.exists_skipped_iff
    obtain ⟨pickup, _, hp, -⟩ := (hdesk.routed hd).ends
    have hanswers := Case.dispatch_answers_iff (c := c) hp
    rw [show c.floor.settings = settings from hsettings] at hanswers
    refine ⟨fun outcome => Case.dispatch_iff, ?_, fun ⟨reason, h⟩ => ?_, ?_, fun hmade hcan => ?_⟩
    · rw [hskipped, Docket.skipReason?_ne_none]
    · exact (Case.dispatch_iff.1 h).2
    · rw [hanswers, hskipped]
      exact Iff.rfl
    · have hcalled : c.docket.skipReason? = none := not_not.1 (mt hskipped.2 hmade)
      obtain ⟨outcome, hd⟩ := hanswers.2 (.inr hcan)
      have hexhausted := Case.exhausted_iff hcalled hd
      rw [show c.floor.settings = settings from hsettings] at hexhausted
      rw [hd, Except.ok.injEq]
      exact hexhausted
  · rw [createOrder_isDone_iff hr, show desk.settings = settings from hsettings]
  · exact createOrder_reports h
  · have hends := (hlive.reject_isDone_iff hdesk (hlive.radii_isSome hi)).1
    rwa [show desk.settings = settings from hsettings] at hends

/-- The order of the trial run is being searched for after its first command. -/
theorem outcomes_are_what_happened_trial :
    let desk := (opening {} trialStart).run (trialRun.take 1)
    desk.floor.issued ≤ Uuid.capacity ∧ ∃ docket, desk.docket? trialOrder = some docket ∧
      docket.searching = true ∧
      ∃ reason, (Case.mk docket desk.floor).dispatch.1 = .ok (.skipped reason) := by
  intro desk
  have hi : desk.floor.issued ≤ Uuid.capacity := by decide +kernel
  have hsearching : (desk.docket? trialOrder).map (·.searching) = some true := by decide +kernel
  obtain ⟨docket, hd, hbusy⟩ := Option.map_eq_some_iff.1 hsearching
  obtain ⟨-, hskipped, -, -, -⟩ :=
    (outcomes_are_what_happened {} trialStart (trialRun.take 1) hi).1 trialOrder docket hd
      desk.floor.fleet
  exact ⟨hi, docket, hd, hbusy, hskipped.2 (.inr (.inr hbusy))⟩

end Desk

end Hailing
