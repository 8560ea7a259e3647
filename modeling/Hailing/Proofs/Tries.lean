import Hailing.Proofs.OneSearch
import Hailing.Proofs.TurnedDown

/-!
# Trying a radius

A search tries its radii one at a time, the first one in the command that dispatches
the order and each of the others when it wakes up. Wherever it is done, three things
can come of it (`Case.Tried`): an offer to the best driver, if there is one, a search
put to sleep with the radii that are left, or the end of the search if none is left.
Who was looked for (`Case.query`) can be told afterwards, as a try changes neither the
drivers that are excluded nor anything on the floor that a search looks at.

Here is the first try. Commands dispatch orders in many ways, and what dispatches they
made can be seen in their answers and in the log of a sweep (`Desk.dispatchesOf`). One
that was not skipped has tried the first radius of all (`Desk.dispatchesOf_begins`).
This holds at the end of the command, since nothing that comes after the dispatch in
it concerns the order any more. A sweep is the exception: where searches do not rest,
it starts over one that has just found nobody, and that finds nobody again.
-/

namespace Hailing

open Time (Instant)

namespace Case

/-! ## Who is looked for -/

/-- All who come into question for the order within a radius, the best first: the
candidates around the pickup of its first leg, in the fleet as it is now, less the
drivers that are excluded. -/
def query (radius : Float) (c : Case) : Except Breakdown (List Candidate) :=
  match c.docket.order.legs with
  | [] => .ok []
  | leg :: _ =>
    c.floor.fleet.candidates c.floor.settings leg.pickup radius c.docket.excluded c.floor.now

variable {c c' c₁ c₂ : Case} {radii : Radii} {earlier : List Offer} {outcome : Outcome}

/-- The driver who is asked is the first of them. -/
theorem best?_eq_query (radius : Float) (c : Case) :
    c.best? radius = (·.head?) <$> c.query radius := by
  unfold best? query Order.pickup?
  cases c.docket.order.legs <;> rfl

theorem best?_eq_some {radius : Float} {candidate : Candidate} :
    c.best? radius = .ok (some candidate) ↔
      ∃ others, c.query radius = .ok (candidate :: others) := by
  rw [best?_eq_query]
  rcases c.query radius with breakdown | ⟨_ | ⟨first, others⟩⟩ <;> simp

theorem best?_eq_none {radius : Float} : c.best? radius = .ok none ↔ c.query radius = .ok [] := by
  rw [best?_eq_query]
  rcases c.query radius with breakdown | ⟨_ | ⟨first, others⟩⟩ <;> simp

theorem best?_eq_error {radius : Float} {breakdown : Breakdown} :
    c.best? radius = .error breakdown ↔ c.query radius = .error breakdown := by
  rw [best?_eq_query]
  cases c.query radius <;> simp

theorem query_congr (ho : c'.docket.order = c.docket.order)
    (hx : c'.docket.excluded = c.docket.excluded) (hf : c.floor.Alike c'.floor) (radius : Float) :
    c'.query radius = c.query radius := by
  simp only [query, ho, hx, hf.settings, hf.fleet, hf.now_eq]

/-! ## What comes of a try -/

/-- The first one of some radii has just been tried for an order that had been made
the offers `earlier`. -/
inductive Tried (radii : Radii) (earlier : List Offer) (c : Case) : Prop
  | offered {candidate : Candidate} {others : List Candidate} (id : Uuid)
      (hq : c.query radii.first = .ok (candidate :: others))
      (ho : c.docket.offers = earlier ++
        [{ id := id
           order := c.docket.id
           driver := candidate.driver
           status := .requested
           radius := radii.first
           distance := candidate.distance
           destinationMatch := candidate.destinationMatch
           requestedAt := c.floor.now
           respondedAt? := none }])
      (hs : c.docket.searching = false) (ha : c.floor.asleep c.docket.id = [])
  | widened {next : Float} {rest : List Float} (hw : radii.wider = next :: rest)
      (hq : c.query radii.first = .ok []) (ho : c.docket.offers = earlier)
      (hs : c.docket.searching = true)
      (ha : c.floor.asleep c.docket.id =
        [⟨c.docket.id, ⟨next, rest⟩, c.floor.clock.ticks + c.floor.settings.radiusWait⟩])
  | exhausted (hw : radii.wider = []) (hq : c.query radii.first = .ok [])
      (ho : c.docket.offers = earlier) (hs : c.docket.searching = false)
      (he : c.docket.lastSearchEnded? = some c.floor.now) (ha : c.floor.asleep c.docket.id = [])

/-- What came of a try can still be seen later. -/
theorem Tried.onFloor (h : c.Tried radii earlier) {g : Floor} (hg : c.floor.Alike g)
    (ha : g.asleep c.docket.id = c.floor.asleep c.docket.id) :
    Tried radii earlier ⟨c.docket, g⟩ := by
  have hquery : ∀ radius, (Case.mk c.docket g).query radius = c.query radius :=
    query_congr rfl rfl hg
  cases h with
  | offered id hq ho hs hnil =>
      refine .offered id ((hquery _).trans hq) ?_ hs (ha.trans hnil)
      rw [ho]
      simp only [hg.now_eq]
  | widened hw hq ho hs hsleep =>
      refine .widened hw ((hquery _).trans hq) ho hs ?_
      show g.asleep c.docket.id = _
      rw [ha, hsleep, hg.clock, hg.settings]
  | exhausted hw hq ho hs he hnil =>
      refine .exhausted hw ((hquery _).trans hq) ho hs ?_ (ha.trans hnil)
      rw [he]
      exact congrArg some hg.now_eq.symm

theorem Dispatched.isStart_iff (h : Dispatched c outcome c') :
    outcome.isStart = true ↔ c.docket.skipReason? = none := by
  cases h with
  | skipped hs => simp [Outcome.isStart, hs]
  | offered hs | searching hs | exhausted hs => simp [Outcome.isStart, hs]

theorem Dispatched.tried (h : Dispatched c outcome c') (hs : c.docket.skipReason? = none)
    (hp : c.docket.Pursued c.floor) :
    ∃ radii, c.floor.settings.radii = some radii ∧ c'.Tried radii c.docket.offers := by
  have hnil := hp.asleep_eq_nil hs
  have hidle := (Docket.skipReason?_eq_none.1 hs).2.2
  cases h with
  | skipped hs' =>
      rw [hs] at hs'
      cases hs'
  | offered _ hr hb =>
      obtain ⟨_, hq⟩ := best?_eq_some.1 hb
      exact ⟨_, hr, .offered _ hq rfl hidle hnil⟩
  | searching _ hr hb =>
      have hq := best?_eq_none.1 hb
      exact ⟨_, hr, .widened rfl hq rfl rfl (Floor.asleep_sleep_of_nil hnil _)⟩
  | exhausted _ hr hb => exact ⟨_, hr, .exhausted rfl (best?_eq_none.1 hb) rfl rfl rfl hnil⟩

theorem Resumed.tried (h : Resumed radii c c') (hp : c.docket.isPending = true)
    (hn : c.docket.hasOutstanding = false) (hs : c.docket.searching = true)
    (hnil : c.floor.asleep c.docket.id = []) : c'.Tried radii c.docket.offers := by
  cases h with
  | abandoned h => simp [hp, hn] at h
  | offered _ _ hb =>
      obtain ⟨_, hq⟩ := best?_eq_some.1 hb
      exact .offered _ hq rfl rfl hnil
  | exhausted _ _ hb hw => exact .exhausted hw (best?_eq_none.1 hb) rfl rfl rfl hnil
  | widened _ _ hb hw =>
      exact .widened hw (best?_eq_none.1 hb) rfl hs (Floor.asleep_sleep_of_nil hnil _)

/-! ## A search begins -/

/-- A search has begun: the first radius of all has been tried for an order that waits.
Of the offers that there were the last one may have been answered before. -/
structure Begins (radii : Radii) (c c' : Case) : Prop where
  same : c'.docket.id = c.docket.id
  waiting : c'.docket.isPending = true
  planned : c.floor.settings.radii = some radii
  tried : ∃ earlier, earlier.map (·.id) = c.docket.offerIds ∧ c'.Tried radii earlier

theorem Dispatched.begins (h : Dispatched c outcome c') (hs : c.docket.skipReason? = none)
    (hp : c.docket.Pursued c.floor) : ∃ radii, Begins radii c c' := by
  obtain ⟨radii, hr, htried⟩ := h.tried hs hp
  have hwait := h.isPending_eq.trans (Docket.skipReason?_eq_none.1 hs).1
  exact ⟨radii, congrArg Order.id (Move.dispatched h).order_eq, hwait, hr, _, rfl, htried⟩

/-- What is done before may answer offers, but it makes none. -/
theorem Begins.of_earlier (h : Begins radii c₁ c') (hid : c₁.docket.id = c.docket.id)
    (hf : c₁.floor.settings = c.floor.settings)
    (hids : c₁.docket.offerIds = c.docket.offerIds) : Begins radii c c' := by
  obtain ⟨earlier, hearlier, htried⟩ := h.tried
  exact ⟨h.same.trans hid, h.waiting, hf ▸ h.planned, earlier, hearlier.trans hids, htried⟩

theorem Begins.settle (h : Begins radii c c') : Begins radii c c'.settle := by
  obtain ⟨earlier, hearlier, htried⟩ := h.tried
  refine ⟨h.same, h.waiting, h.planned, earlier, hearlier, htried.onFloor ?_ ?_⟩
  · exact ⟨(Floor.Steady.settle _ _).settings, (Floor.Steady.settle _ _).clock,
      Floor.settle_fleet _ _⟩
  · exact Floor.asleep_congr (Floor.settle_sleeping _ _) _

theorem drop_offerIds {offer : Offer} (hl : c.docket.offers.getLast? = some offer)
    (status : Offer.Status) : (c.drop offer status).docket.offerIds = c.docket.offerIds :=
  (Docket.exclude_offerIds _ _).trans (Docket.answered_offerIds hl _ _)

theorem drop_pursued {offer : Offer} {status : Offer.Status} (hp : c.docket.isPending = true)
    (hl : c.docket.offers.getLast? = some offer) (ho : offer.isOutstanding = true)
    (hs : status = .rejected ∨ status = .timeout ∧
      offer.isExpired c.floor.settings.offerSpan c.floor.now = true)
    (hc : c.docket.Pursued c.floor) :
    (c.drop offer status).docket.Pursued (c.drop offer status).floor := by
  have hclosed := pursued_rule.moved (.closed hl ho hs) hc
  rwa [settle_of_pending (drop_isPending.trans hp)] at hclosed

/-- An offer that is turned down is followed by a search or by a dispatch that is
skipped. -/
theorem turnedDown_begins {offer : Offer} {status : Offer.Status}
    (hl : c.docket.offers.getLast? = some offer) (ho : offer.isOutstanding = true)
    (hs : status = .rejected ∨ status = .timeout ∧
      offer.isExpired c.floor.settings.offerSpan c.floor.now = true)
    (hc : c.docket.Pursued c.floor)
    (h : c.turnedDown offer status = (.ok (some outcome), c')) (hstart : outcome.isStart = true) :
    ∃ radii, Begins radii c c' := by
  cases hp : c.docket.isPending with
  | false =>
      rw [turnedDown_of_over hp] at h
      cases h
  | true =>
      rw [turnedDown_of_pending hp] at h
      rcases dispatch_cases (c.drop offer status) with ⟨_, hd⟩ | ⟨outcome', c₁, hd, hdispatched⟩
      · rw [hd] at h
        cases h
      · rw [hd] at h
        cases h
        obtain ⟨radii, hbegins⟩ := hdispatched.begins (hdispatched.isStart_iff.1 hstart)
          (drop_pursued hp hl ho hs hc)
        exact ⟨radii, hbegins.of_earlier drop_id rfl (drop_offerIds hl status)⟩

/-! ## From outside -/

theorem dispatch_begins (hp : c.docket.Pursued c.floor)
    (h : (Answer.ofExcept c.dispatch.1).done? = some outcome) (hstart : outcome.isStart = true) :
    ∃ radii, Begins radii c c.dispatch.2 := by
  rcases dispatch_cases c with ⟨_, hd⟩ | ⟨_, _, hd, hdispatched⟩
  · rw [hd] at h
    cases h
  · rw [hd] at h ⊢
    cases h
    exact hdispatched.begins (hdispatched.isStart_iff.1 hstart) hp

theorem reassign_begins (driver : Uuid) (hp : c.docket.Pursued c.floor)
    (h : (Answer.ofExcept (c.reassign driver).1).done? = some outcome)
    (hstart : outcome.isStart = true) : ∃ radii, Begins radii c (c.reassign driver).2 := by
  obtain ⟨radii, hbegins⟩ := dispatch_begins (pursued_rule.moved (.excluded driver) hp) h hstart
  exact ⟨radii, hbegins.of_earlier (congrArg Order.id (Docket.exclude_order _ _)) rfl
    (Docket.exclude_offerIds _ _)⟩

theorem retry_begins (hp : c.docket.Pursued c.floor) (h : c.retry.1.done? = some outcome)
    (hstart : outcome.isStart = true) : ∃ radii, Begins radii c c.retry.2 := by
  unfold retry at h ⊢
  split
  · next hover =>
    rw [if_pos hover] at h
    cases h
  · next hwait =>
    rw [if_neg hwait] at h
    exact dispatch_begins hp h hstart

/-- An acceptance starts no search, and a rejection turns an offer down. -/
theorem respond_begins (ho : c.docket.OneOpen) (hp : c.docket.Pursued c.floor) {driver : Uuid}
    {reply : Offer.Reply} (h : (c.respond driver reply).1.done?.bind (·.next?) = some outcome)
    (hstart : outcome.isStart = true) : ∃ radii, Begins radii c (c.respond driver reply).2 := by
  cases reply with
  | accept =>
      rw [respond_accept_next] at h
      cases h
  | reject =>
      cases hf : c.docket.offerTo? driver with
      | none =>
          rw [respond, if_neg (by simp), hf] at h
          cases h
      | some offer =>
          obtain ⟨hl, hout, rfl⟩ := ho.offerTo?_eq_last hf
          rw [reject_eq_turnedDown ho hl hout] at h ⊢
          rcases hturned : c.turnedDown offer .rejected with ⟨_ | next?, c'⟩
          · rw [hturned] at h
            cases h
          · rw [hturned] at h
            obtain rfl : next? = some outcome := h
            exact turnedDown_begins hl hout (.inl rfl) hp hturned hstart

/-! ## Sweeps -/

theorem retryIdleNoting_cases (report : SweepReport) (c : Case) :
    (∃ result, c.retryIdleNoting report = ([], result, c)) ∨
      ∃ outcome result c', c.retryIdleNoting report = ([outcome], result, c') ∧
        c.docket.isIdle = true ∧ Dispatched c outcome c' := by
  unfold retryIdleNoting
  split
  · next h =>
    rw [Bool.and_eq_true] at h
    rcases dispatch_cases c with ⟨breakdown, hd⟩ | ⟨outcome, c', hd, hdispatched⟩
    · rw [hd]
      exact .inl ⟨_, rfl⟩
    · rw [hd]
      exact .inr ⟨_, _, _, rfl, h.1, hdispatched⟩
  · exact .inl ⟨_, rfl⟩

/-- An idle order is searched for. -/
theorem Dispatched.begins_of_idle (h : Dispatched c outcome c') (hi : c.docket.isIdle = true)
    (hp : c.docket.Pursued c.floor) : ∃ radii, Begins radii c c' := by
  refine h.begins ?_ hp
  by_contra hs
  rw [Docket.isIdle_eq_false hs] at hi
  cases hi

/-- A search that has just found nobody may be started over. -/
theorem retryIdleNoting_begins {first : Outcome} (hd : Dispatched c first c₁)
    (hp : c.docket.Pursued c.floor) {report : SweepReport} {noted : List Outcome}
    {result : Except Breakdown SweepReport}
    (h : c₁.retryIdleNoting report = (noted, result, c₂)) (hm : outcome ∈ first :: noted)
    (hstart : outcome.isStart = true) : ∃ radii, Begins radii c c₂ := by
  rcases retryIdleNoting_cases report c₁ with ⟨_, hr⟩ | ⟨_, _, _, hr, hi, hagain⟩
  · cases h.symm.trans hr
    obtain rfl := List.mem_singleton.1 hm
    exact hd.begins (hd.isStart_iff.1 hstart) hp
  · cases h.symm.trans hr
    obtain ⟨radii, hbegins⟩ := hagain.begins_of_idle hi (hd.pursued hp)
    refine ⟨radii, hbegins.of_earlier (congrArg Order.id (Move.dispatched hd).order_eq)
      hd.steady.settings ?_⟩
    cases hd with
    | offered => simp [makeOffer, draftOffer, Docket.isIdle, Docket.hasOutstanding,
        Offer.isOutstanding] at hi
    | skipped | searching | exhausted => rfl

/-- A dispatch that a sweep notes has begun a search, unless it was skipped. -/
theorem sweepNoting_begins (ho : c.docket.OneOpen) (hp : c.docket.Pursued c.floor)
    {report : SweepReport} {noted : List Outcome} {result : Except Breakdown SweepReport}
    (h : c.sweepNoting report = (noted, result, c')) (hm : outcome ∈ noted)
    (hstart : outcome.isStart = true) : ∃ radii, Begins radii c c' := by
  rcases sweepNoting_cases ho h with
    ⟨_, he, hlapsed⟩ | ⟨_, _, _, _, c₂, hlapsed, hretry, rfl, hc'⟩
  · subst he
    cases hlapsed with
    | broken => cases hm
  have hend : (∃ radii, Begins radii c c₂) → ∃ radii, Begins radii c c' := by
    rintro ⟨radii, hbegins⟩
    rcases hc' with ⟨-, rfl⟩ | ⟨-, rfl⟩
    · exact ⟨radii, hbegins⟩
    · exact ⟨radii, hbegins.settle⟩
  refine hend ?_
  cases hlapsed with
  | none =>
      rcases retryIdleNoting_cases report c with ⟨_, hr⟩ | ⟨_, _, _, hr, hi, hagain⟩
      · cases hretry.symm.trans hr
        cases hm
      · cases hretry.symm.trans hr
        exact hagain.begins_of_idle hi hp
  | @kept offer _ _ hover =>
      rcases retryIdleNoting_cases (report + { timeouts := 1 }) (c.drop offer .timeout) with
        ⟨_, hr⟩ | ⟨_, _, _, hr, hi, -⟩
      · cases hretry.symm.trans hr
        cases hm
      · rw [Docket.isIdle, drop_isPending, hover] at hi
        cases hi
  | passedOn hl he hwait hdispatched =>
      have hdropped := drop_pursued hwait hl (Offer.isExpired_outstanding he) (.inr ⟨rfl, he⟩) hp
      obtain ⟨radii, hbegins⟩ := retryIdleNoting_begins hdispatched hdropped hretry hm hstart
      exact ⟨radii, hbegins.of_earlier drop_id rfl (drop_offerIds hl .timeout)⟩

end Case

namespace Desk

/-- In a command a search has begun for the order. -/
def Begins (order : Uuid) (radii : Radii) (desk desk' : Desk) : Prop :=
  desk.settings.radii = some radii ∧ ∃ earlier docket,
    earlier.map (·.id) = (desk.offersFor order).map (·.id) ∧
    desk'.docket? order = some docket ∧ docket.isPending = true ∧
    Case.Tried radii earlier ⟨docket, desk'.floor⟩

variable {desk desk₁ desk' : Desk} {order : Uuid} {radii : Radii}

theorem Begins.putBack {docket : Docket} {c : Case} (hd : desk.docket? docket.id = some docket)
    (h : Case.Begins radii ⟨docket, desk.floor⟩ c) :
    desk.Begins docket.id radii (desk.putBack c) := by
  obtain ⟨earlier, hearlier, htried⟩ := h.tried
  refine ⟨h.planned, earlier, c.docket, ?_, ?_, h.waiting, htried⟩
  · rw [offersFor, hd]
    exact hearlier
  · rw [docket?_putBack, if_pos h.same]

/-- What is done to other orders in the same command does not matter. -/
theorem Begins.before (h : desk₁.Begins order radii desk') (ha : desk.Aside order desk₁) :
    desk.Begins order radii desk' := by
  obtain ⟨hr, earlier, docket, hearlier, hd, hwait, htried⟩ := h
  refine ⟨?_, earlier, docket, ?_, hd, hwait, htried⟩
  · rw [settings, ← ha.alike.settings]
    exact hr
  · rw [hearlier, offersFor, ha.docket, offersFor]

theorem Begins.afterwards (h : desk.Begins order radii desk₁) (ha : desk₁.Aside order desk') :
    desk.Begins order radii desk' := by
  obtain ⟨hr, earlier, docket, hearlier, hd, hwait, htried⟩ := h
  refine ⟨hr, earlier, docket, hearlier, ha.docket.trans hd, hwait, htried.onFloor ha.alike ?_⟩
  obtain rfl := id_of_docket? hd
  exact ha.asleep

/-! ## The dispatches of a command -/

/-- The dispatches that a command makes, and of which orders. -/
def dispatchesOf (cmd : Command) (desk : Desk) : List (Uuid × Outcome) :=
  match cmd with
  | .create request =>
    (desk.createOrder request).1.done?.toList.map fun created =>
      (created.order.id, created.dispatch)
  | .sweep visited =>
    if visited.isPerm desk.floor.openOrders then desk.sweepLog visited else []
  | .respond order _ _ | .dispatch order | .retry order | .reassign order _ =>
    (desk.outcomesOf cmd).map fun outcome => (order, outcome)
  | _ => []

/-- They are the dispatches that the accounts are kept of. -/
theorem dispatchesOf_outcomes (cmd : Command) (desk : Desk) :
    (desk.dispatchesOf cmd).map (·.2) = desk.outcomesOf cmd := by
  cases cmd with
  | create => simp [dispatchesOf, outcomesOf, Option.toList_map, Function.comp_def]
  | sweep visited =>
      rw [dispatchesOf, outcomesOf]
      split
      · exact sweepLog_outcomes visited desk
      · rfl
  | respond | dispatch | retry | reassign => simp [dispatchesOf, Function.comp_def]
  | cancel | complete | report | setAvailability | claimTrip | markFree | wake | setClock => rfl

/-- Work on one case in which a search begins. -/
theorem handle_begins {α : Type} {work : Case → Answer α × Case} {next? : α → Option Outcome}
    {outcome : Outcome}
    (hw : ∀ docket, desk.docket? docket.id = some docket →
      (work ⟨docket, desk.floor⟩).1.done?.bind next? = some outcome →
      ∃ radii, Case.Begins radii ⟨docket, desk.floor⟩ (work ⟨docket, desk.floor⟩).2)
    (h : (desk.handle order work).1.done?.bind next? = some outcome) :
    ∃ radii, desk.Begins order radii (desk.handle order work).2 := by
  rcases handle_cases order work desk with ⟨-, heq⟩ | ⟨docket, rfl, hd, heq⟩
  · rw [heq] at h
    cases h
  · rw [heq] at h ⊢
    obtain ⟨radii, hbegins⟩ := hw docket hd h
    exact ⟨radii, .putBack hd hbegins⟩

theorem handle_begins_of_outcome {work : Case → Answer Outcome × Case} {outcome : Outcome}
    (hw : ∀ docket, desk.docket? docket.id = some docket →
      (work ⟨docket, desk.floor⟩).1.done? = some outcome →
      ∃ radii, Case.Begins radii ⟨docket, desk.floor⟩ (work ⟨docket, desk.floor⟩).2)
    (h : (desk.handle order work).1.done? = some outcome) :
    ∃ radii, desk.Begins order radii (desk.handle order work).2 := by
  rw [← Option.bind_fun_some (desk.handle order work).1.done?] at h
  refine handle_begins (fun docket hd h' => hw docket hd ?_) h
  rwa [Option.bind_fun_some] at h'

theorem createOrder_begins (hs : desk.Sound) (hk : desk.SearchesKnown)
    {request : Order.NewOrder} {created : Created}
    (hi : (desk.createOrder request).2.floor.issued ≤ Uuid.capacity)
    (h : (desk.createOrder request).1.done? = some created)
    (hstart : created.dispatch.isStart = true) :
    ∃ radii, desk.Begins created.order.id radii (desk.createOrder request).2 := by
  cases hr : request.check with
  | error refusal =>
      rw [createOrder, hr] at h
      cases h
  | ok =>
      have hid := newCase_id request desk
      have hle := Nat.le_trans
        (Case.dispatch_sought (desk.newCase request)).moves.later.issued_le
        (createOrder_eq hr desk ▸ hi)
      rw [newCase, enter_issued] at hle
      have hnew := hs.nextId_unused hle
      have hnil : (desk.newCase request).floor.asleep (desk.newCase request).docket.id = [] :=
        (Floor.asleep_congr (Floor.openOrder_sleeping _ _) _).trans (hk _ hnew)
      rw [createOrder_eq hr] at h ⊢
      rcases Case.dispatch_cases (desk.newCase request) with
        ⟨_, hd⟩ | ⟨outcome, c, hd, hdispatched⟩
      · rw [hd] at h
        cases h
      · rw [hd] at h hid ⊢
        cases h
        obtain ⟨radii, hbegins⟩ :=
          hdispatched.begins (hdispatched.isStart_iff.1 hstart) (.of_nil hnil)
        obtain ⟨earlier, hearlier, htried⟩ := hbegins.tried
        have hsame : c.docket.order.id = (desk.draftOrder request).id := hid
        refine ⟨radii, ?_, earlier, c.docket, ?_, ?_, hbegins.waiting, htried⟩
        · rw [← hbegins.planned, settings, ← (enter_steady _ desk).settings]
          rfl
        · have hnone : desk.docket? c.docket.order.id = none := hsame ▸ hnew
          rw [hearlier, offersFor, hnone]
          rfl
        · exact (docket?_putBack _ _ _).trans (if_pos rfl)

/-- In a sweep the search of each order is for itself. -/
theorem sweepOrdersLog_begins {visited : List Uuid} (hv : visited.Nodup) (hs : desk.Sound)
    (hp : desk.Obeys Docket.Pursued) {report : SweepReport} {outcome : Outcome}
    (hm : (order, outcome) ∈ sweepOrdersLog visited report desk)
    (hstart : outcome.isStart = true) :
    ∃ radii, desk.Begins order radii (sweepOrders visited report desk).2 := by
  induction visited generalizing report desk with
  | nil => cases hm
  | cons head rest ih =>
      obtain ⟨hnot, hrest⟩ := List.nodup_cons.1 hv
      cases hd : desk.docket? head with
      | none =>
          obtain ⟨hgo, hlog⟩ := sweepOrders_of_none hd rest report
          rw [hgo]
          rw [hlog] at hm
          exact ih hrest hs hp hm
      | some docket =>
          obtain rfl := id_of_docket? hd
          have hone := (hs.orderly hd).oneOpen
          have hmoves := (Case.sweep_worked (c := ⟨docket, desk.floor⟩) hone report).moves
          have hsnd := Case.sweepNoting_snd report ⟨docket, desk.floor⟩
          rcases hswept : (Case.mk docket desk.floor).sweepNoting report with ⟨noted, result, c⟩
          rw [hswept] at hsnd
          rw [← hsnd] at hmoves
          have hfirst : outcome ∈ noted →
              ∃ radii, desk.Begins docket.id radii (desk.putBack c) := by
            intro hnoted
            obtain ⟨radii, hbegins⟩ :=
              Case.sweepNoting_begins hone (hp _ _ hd) hswept hnoted hstart
            exact ⟨radii, .putBack hd hbegins⟩
          rw [sweepOrdersLog, hd] at hm
          rw [sweepOrders, hd]
          dsimp only at hm ⊢
          rw [hswept] at hm
          rw [← hsnd]
          cases result with
          | error =>
              obtain ⟨_, hnoted, heq⟩ := List.mem_map.1 hm
              cases heq
              exact hfirst hnoted
          | ok report₁ =>
              rcases List.mem_append.1 hm with hm | hm
              · obtain ⟨_, hnoted, heq⟩ := List.mem_map.1 hm
                cases heq
                have hsound := Move.sound (.worked hd hmoves) hs
                obtain ⟨radii, hbegins⟩ := hfirst hnoted
                exact ⟨radii, hbegins.afterwards (sweepOrders_aside hsound hnot report₁)⟩
              · have hne : order ≠ docket.id := fun he =>
                  hnot (he ▸ mem_of_mem_sweepOrdersLog hm)
                obtain ⟨radii, hbegins⟩ := ih hrest (Move.sound (.worked hd hmoves) hs)
                  (hp.worked Case.pursued_rule hd hmoves) hm
                exact ⟨radii, hbegins.before (.putBack hmoves hne)⟩

/-- Whatever command an order is dispatched in, if the dispatch is not skipped then the
first radius of all is tried. -/
theorem dispatchesOf_begins (hs : desk.Sound) (hk : desk.SearchesKnown)
    (hp : desk.Obeys Docket.Pursued) {cmd : Command} {outcome : Outcome}
    (hi : (desk.after cmd).floor.issued ≤ Uuid.capacity)
    (hm : (order, outcome) ∈ desk.dispatchesOf cmd) (hstart : outcome.isStart = true) :
    ∃ radii, desk.Begins order radii (desk.after cmd) := by
  cases cmd with
  | create request =>
      obtain ⟨created, hcreated, heq⟩ := List.mem_map.1 hm
      cases heq
      exact createOrder_begins hs hk hi (Option.mem_toList.1 hcreated) hstart
  | sweep visited =>
      rw [dispatchesOf] at hm
      rw [after, perform]
      split at hm
      · next hv =>
          have hperm := List.isPerm_iff.1 hv
          have hcounted : desk.countSweep.Sound := Move.sound .sweepCounted hs
          obtain ⟨radii, hbegins⟩ := sweepOrdersLog_begins
            (hperm.nodup_iff.2 hs.distinct) hcounted
            (fun _ _ hd => Case.pursued_rule.fewer (hp _ _ hd) rfl (.refl _)) hm hstart
          rw [if_pos hv]
          exact ⟨radii, hbegins.before (.countSweep order desk)⟩
      · cases hm
  | respond _ driver reply =>
      obtain ⟨_, hmem, heq⟩ := List.mem_map.1 hm
      cases heq
      refine handle_begins (fun _ hd h => ?_) (Option.mem_toList.1 hmem)
      exact Case.respond_begins (hs.orderly hd).oneOpen (hp _ _ hd) h hstart
  | dispatch =>
      obtain ⟨_, hmem, heq⟩ := List.mem_map.1 hm
      cases heq
      exact handle_begins_of_outcome (fun _ hd h => Case.dispatch_begins (hp _ _ hd) h hstart)
        (Option.mem_toList.1 hmem)
  | retry =>
      obtain ⟨_, hmem, heq⟩ := List.mem_map.1 hm
      cases heq
      exact handle_begins_of_outcome (fun _ hd h => Case.retry_begins (hp _ _ hd) h hstart)
        (Option.mem_toList.1 hmem)
  | reassign _ driver =>
      obtain ⟨_, hmem, heq⟩ := List.mem_map.1 hm
      cases heq
      exact handle_begins_of_outcome
        (fun _ hd h => Case.reassign_begins driver (hp _ _ hd) h hstart) (Option.mem_toList.1 hmem)
  | cancel | complete | report | setAvailability | claimTrip | markFree | wake | setClock =>
      cases hm

end Desk

end Hailing
