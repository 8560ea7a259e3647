import Mathlib.Data.Rat.Floor
import Hailing.Proofs.Freshness
import Hailing.Proofs.Lawful
import Hailing.Proofs.SweptCases
import Hailing.Proofs.Sweeps

/-!
# The time that is left

A driver is told how many seconds are left to answer, and a sweep decides for itself
when the time has run out. Both go by `Offer.timeLeft`, the nanoseconds that are left:
the sweep asks whether it is above zero, while the seconds are rounded up from whole
milliseconds. What is left of a millisecond is dropped before, so the two do not agree
everywhere (`time_left_drops_a_fraction`). They differ in the last fraction of a
millisecond of each second, and only there (`Offer.secondsLeft_eq_ceil`): the driver is
told one second less than there is, in the last second zero.

The seconds are reckoned in 64 bits. That an offer is `Offer.Countable` means that
nothing wraps around on the way; which settings make it so is another matter.
-/

namespace Hailing

open Time (Instant Span)

/-! ## Reckoning in 64 bits -/

/-- The fraction of a quotient is dropped on both sides of zero. -/
theorem tdiv_cases (a b : Int) :
    0 ≤ a ∧ a.tdiv b = a / b ∨ a < 0 ∧ a.tdiv b = -(-a / b) := by
  rcases Int.lt_or_le a 0 with h | h
  · refine .inr ⟨h, ?_⟩
    rw [← Int.tdiv_eq_ediv_of_nonneg (by omega), Int.neg_tdiv, Int.neg_neg]
  · exact .inl ⟨h, Int.tdiv_eq_ediv_of_nonneg h⟩

theorem toInt_roundedUp {ms : Int} (hlow : -0x8000000000000000 ≤ ms)
    (hhigh : ms + 999 ≤ 0x7fffffffffffffff) :
    let seconds := (Int64.ofInt ms + 999) / 1000
    (if seconds < 0 then 0 else seconds).toInt = max 0 ((ms + 999) / 1000) := by
  intro seconds
  have hsum : (Int64.ofInt ms + 999).toInt = ms + 999 := by
    rw [Int64.toInt_add, Int64.toInt_ofInt_of_le (by omega) (by omega),
      show (999 : Int64).toInt = 999 from rfl]
    exact Int.bmod_eq_of_le (by omega) (by omega)
  have hquotient : seconds.toInt = (ms + 999).tdiv 1000 := by
    rw [Int64.toInt_div_of_ne_right _ _ (by decide), hsum]
    rfl
  have hcases := tdiv_cases (ms + 999) 1000
  split
  · next hneg =>
      rw [Int64.lt_iff_toInt_lt, hquotient] at hneg
      show (0 : Int) = _
      have hzero : (0 : Int64).toInt = 0 := rfl
      omega
  · next hpos =>
      rw [Int64.lt_iff_toInt_lt, hquotient] at hpos
      have hzero : (0 : Int64).toInt = 0 := rfl
      omega

namespace Offer

variable {window : Span} {now : Instant} {o : Offer}

/-- The nanoseconds that are left to answer, zero or less if the time has run out. -/
def timeLeft (window : Span) (now : Instant) (o : Offer) : Int :=
  window.nanos - (now - o.requestedAt).nanos

/-- The whole milliseconds that are left, and 999 more, are a signed 64-bit number. -/
def Countable (window : Span) (now : Instant) (o : Offer) : Prop :=
  (o.timeLeft window now).tdiv 1000000 + 999 ≤ 0x7fffffffffffffff

instance : Decidable (o.Countable window now) := by
  unfold Countable
  infer_instance

theorem Countable.timeLeft_le (h : o.Countable window now) :
    o.timeLeft window now ≤ Span.limit := by
  have hmillis := tdiv_cases (o.timeLeft window now) 1000000
  unfold Countable at h
  unfold Span.limit Span.limitMillis
  omega

/-- The whole milliseconds that are left, rounded up to seconds. -/
def secondsLeft (window : Span) (now : Instant) (o : Offer) : Int :=
  max 0 (((o.timeLeft window now).tdiv 1000000 + 999) / 1000)

theorem isExpired_iff (ho : o.isOutstanding = true) :
    o.isExpired window now = true ↔ o.timeLeft window now ≤ 0 := by
  rw [isExpired, ho, Bool.true_and, decide_eq_true_eq]
  show window.nanos ≤ (now - o.requestedAt).nanos ↔ _
  unfold timeLeft
  omega

theorem secondsLeft_eq_zero_iff :
    o.secondsLeft window now = 0 ↔ o.timeLeft window now < 1000000 := by
  have hmillis := tdiv_cases (o.timeLeft window now) 1000000
  unfold secondsLeft
  omega

/-- Some time is left, and less than a millisecond of it is over whole seconds. -/
def InLastFraction (window : Span) (now : Instant) (o : Offer) : Prop :=
  0 < o.timeLeft window now ∧ 0 < o.timeLeft window now % 1000000000 ∧
    o.timeLeft window now % 1000000000 < 1000000

theorem secondsLeft_eq_ceil :
    (¬o.InLastFraction window now →
      o.secondsLeft window now = max 0 ⌈(o.timeLeft window now : ℚ) / 1000000000⌉) ∧
    (o.InLastFraction window now →
      o.secondsLeft window now = ⌈(o.timeLeft window now : ℚ) / 1000000000⌉ - 1) := by
  have hceil := Rat.ceil_intCast_div_natCast (o.timeLeft window now) 1000000000
  push_cast at hceil
  rw [hceil]
  have hmillis := tdiv_cases (o.timeLeft window now) 1000000
  unfold secondsLeft InLastFraction
  omega

end Offer

namespace Desk

variable {window : Span} {now : Instant} {o : Offer}

theorem neg_limit_le_timeLeft (hw : 0 ≤ window.nanos) : -Span.limit ≤ o.timeLeft window now := by
  have hlong := Instant.sub_lt_limit now o.requestedAt
  unfold Offer.timeLeft
  omega

/-- The difference only fails to exist if it is too long. -/
theorem sub?_requestedAt (hw : 0 ≤ window.nanos) : window.sub? (now - o.requestedAt) =
    if o.timeLeft window now ≤ Span.limit then some ⟨o.timeLeft window now⟩ else none := by
  have hlow : -Span.limit ≤ o.timeLeft window now := neg_limit_le_timeLeft hw
  show (if -Span.limit ≤ o.timeLeft window now ∧ o.timeLeft window now ≤ Span.limit then _
    else _) = _
  simp only [hlow, true_and]
  rfl

theorem remainingSeconds_isOk_iff (hw : 0 ≤ window.nanos) :
    (∃ seconds, remainingSeconds window now o = .ok seconds) ↔
      o.timeLeft window now ≤ Span.limit := by
  rw [remainingSeconds, sub?_requestedAt hw]
  split <;> simp_all

/-- Without a wrap-around the seconds shown are those that are left. -/
theorem remainingSeconds_of_countable (hw : 0 ≤ window.nanos) (h : o.Countable window now) :
    ∃ seconds, remainingSeconds window now o = .ok seconds ∧
      seconds.toInt = o.secondsLeft window now := by
  have hmillis := tdiv_cases (o.timeLeft window now) 1000000
  have hlow : -Span.limit ≤ o.timeLeft window now := neg_limit_le_timeLeft hw
  unfold Span.limit Span.limitMillis at hlow
  refine ⟨_, by rw [remainingSeconds, sub?_requestedAt hw, if_pos h.timeLeft_le], ?_⟩
  exact toInt_roundedUp (show _ ≤ (o.timeLeft window now).tdiv 1000000 by omega) h

/-- There is a list if each of the times that are left can be reckoned with. -/
theorem exists_offersOf {desk : Desk} {driver : Uuid} (hx : desk.Indexed) (hr : desk.Routed)
    (h : ∀ docket offer, desk.LiveFor driver docket offer →
      offer.Countable desk.settings.offerSpan desk.now) :
    ∃ listed, desk.offersOf driver = .ok listed := by
  refine offersOf_isOk_iff.2 fun x hout => ?_
  have hcount := h x.1 x.2 ((mem_outTo_iff hx hr).1 hout)
  obtain ⟨seconds, hseconds, -⟩ := remainingSeconds_of_countable (Span.ofWait_nonneg _) hcount
  exact ⟨seconds, hseconds⟩

end Desk

/-! ## What a sweep does about it -/

namespace Case

/-- A search adds offers behind those that there are. -/
theorem Retried.offers_eq {report : SweepReport} {c c' : Case}
    {result : Except Breakdown SweepReport} (h : Retried report c result c') :
    ∃ new, c'.docket.offers = c.docket.offers ++ new := by
  cases h with
  | none | broken => exact ⟨[], (List.append_nil _).symm⟩
  | redispatched _ _ hd =>
      obtain ⟨new, hnew, -⟩ := hd.offers_eq
      exact ⟨new, hnew⟩

/-- What became of an offer that was out, and of new ones behind it. -/
theorem Expired.offers_eq {report : SweepReport} {c c₁ : Case}
    {result : Except Breakdown SweepReport} (h : Expired report c result c₁) {offer : Offer}
    (hl : c.docket.offers.getLast? = some offer) :
    ∃ new, c₁.docket.offers = c.docket.offers.dropLast ++
      (if offer.isExpired c.floor.settings.offerSpan c.floor.now then
        offer.closed .timeout c.floor.now else offer) :: new := by
  have hdrop : (c.drop offer .timeout).docket.offers =
      c.docket.offers.dropLast ++ [offer.closed .timeout c.floor.now] :=
    Docket.exclude_offers _ _
  cases h with
  | none hn =>
      have hkept : offer.isExpired c.floor.settings.offerSpan c.floor.now = false := by
        rw [Docket.lateDrivers, List.map_eq_nil_iff, List.filter_eq_nil_iff] at hn
        simpa using hn offer (List.mem_of_getLast? hl)
      rw [hkept]
      exact ⟨[], Docket.offers_eq_of_last hl⟩
  | @kept last hl' he | @broken last _ hl' he =>
      obtain rfl := Option.some.inj (hl.symm.trans hl')
      rw [if_pos he]
      exact ⟨[], hdrop⟩
  | @reassigned last _ _ hl' he _ hd =>
      obtain rfl := Option.some.inj (hl.symm.trans hl')
      obtain ⟨new, hnew, -⟩ := hd.offers_eq
      rw [if_pos he]
      exact ⟨new, by rw [hnew, hdrop]; simp⟩

/-- A sweep closes the offer that is out if its time has run out, and otherwise leaves it. -/
theorem sweep_offers_eq {c : Case} (h : c.docket.OneOpen) {offer : Offer}
    (hl : c.docket.offers.getLast? = some offer) (report : SweepReport) :
    ∃ new, (c.sweep report).2.docket.offers = c.docket.offers.dropLast ++
      (if offer.isExpired c.floor.settings.offerSpan c.floor.now then
        offer.closed .timeout c.floor.now else offer) :: new := by
  rcases sweep_cases h report with ⟨_, c', hs, he⟩ | ⟨_, c₁, he, hrest⟩
  · rw [hs]
    exact he.offers_eq hl
  · obtain ⟨new, hnew⟩ := he.offers_eq hl
    obtain ⟨more, hmore⟩ : ∃ more, (c.sweep report).2.docket.offers = c₁.docket.offers ++ more := by
      rcases hrest with ⟨_, c', hs, hr⟩ | ⟨_, c₂, hr, hs⟩
      all_goals
        rw [hs]
        exact hr.offers_eq
    exact ⟨new ++ more, by rw [hmore, hnew]; simp⟩

end Case

namespace Desk

/-- A sweep that ends closes the offers that have run out, and leaves those that have not. -/
theorem sweepAs_offersFor {desk swept : Desk} (hs : desk.Sound) (hx : desk.Indexed)
    {visited : List Uuid} (hv : visited.Perm desk.floor.openOrders) {report : SweepReport}
    (h : desk.sweepAs visited = (.ok report, swept)) {order : Uuid} {docket : Docket}
    (hd : desk.docket? order = some docket) {offer : Offer}
    (hl : docket.offers.getLast? = some offer) (ho : offer.isOutstanding = true) :
    ∃ new, swept.offersFor order = docket.offers.dropLast ++
      (if offer.timeLeft desk.settings.offerSpan desk.now ≤ 0 then
        offer.closed .timeout desk.now else offer) :: new := by
  have hperform : desk.perform (.sweep visited) = (.done report, swept) := by
    rw [perform, if_pos (List.isPerm_iff.2 hv), h]
    rfl
  obtain ⟨found, hf, hcase⟩ := after_sweep hs hd visited
  rw [after, hperform] at hf
  rw [hperform] at hcase
  have hopen : order ∈ desk.floor.openOrders :=
    (hx order).2 ⟨docket, hd, Docket.not_settled_of_last hl ho⟩
  obtain ⟨-, report', floor, hfloor, rfl⟩ := hcase.resolve_right fun hn => by
    cases hn.2 (List.isPerm_iff.2 hv) hopen
  obtain ⟨new, hnew⟩ := Case.sweep_offers_eq (c := ⟨docket, floor⟩) (hs.orderly hd).oneOpen hl
    report'
  refine ⟨new, (Origin.old hf).offersFor_eq.1.trans (hnew.trans ?_)⟩
  dsimp only
  rw [hfloor.settings, hfloor.now_eq]
  simp only [Offer.isExpired_iff ho]
  rfl

section Live

variable {desk : Desk} {driver : Uuid} {docket : Docket} {offer : Offer}

/-- An offer that is out is shown with the seconds that are left. -/
theorem LiveFor.seconds_shown (hdesk : desk.Lawful) (h : desk.LiveFor driver docket offer)
    {window : Span} (hw : desk.settings.offerSpan = window)
    (hcount : offer.Countable window desk.now) {listed : List Offer.View}
    (hlisted : desk.offersOf driver = .ok listed) :
    (∃ v ∈ listed, v.order = docket.id) ∧
      ∀ v ∈ listed, v.order = docket.id → v.offer = offer.id ∧
        v.remainingSeconds.toInt = offer.secondsLeft window desk.now := by
  subst hw
  obtain ⟨v, hv, hshown⟩ := shown_of_live hdesk.indexed hdesk.routed hlisted h
  refine ⟨⟨v, hv, hshown.order⟩, fun v hv he => ?_⟩
  have hshows := shows_of_live hdesk.sound hdesk.indexed hdesk.routed hlisted h hv he
  obtain ⟨seconds, hseconds, hvalue⟩ :=
    remainingSeconds_of_countable (Span.ofWait_nonneg _) hcount
  obtain rfl := Except.ok.inj (hseconds.symm.trans hshows.remaining)
  exact ⟨hshows.offer, hvalue⟩

/-- A sweep closes it exactly if its time has run out. -/
theorem LiveFor.swept (hdesk : desk.Lawful) (h : desk.LiveFor driver docket offer)
    {window : Span} (hw : desk.settings.offerSpan = window) {visited : List Uuid}
    (hv : visited.Perm desk.floor.openOrders) {report : SweepReport} {swept : Desk}
    (hswept : desk.sweepAs visited = (.ok report, swept)) :
    docket.offers = docket.offers.dropLast ++ [offer] ∧
      ∃ new, swept.offersFor docket.id = docket.offers.dropLast ++
        (if offer.timeLeft window desk.now ≤ 0 then offer.closed .timeout desk.now
          else offer) :: new := by
  subst hw
  have hl := h.last hdesk.sound
  exact ⟨Docket.offers_eq_of_last hl, sweepAs_offersFor hdesk.sound hdesk.indexed hv hswept
    h.known hl (Offer.isOutstanding_iff.2 h.out)⟩

end Live

/-- After every run, and whatever the clock shows, the offers of a driver are listed if each
of the times that are left can be reckoned with. Then the seconds shown with an offer are
never less than zero. They are the time that is left, rounded up to whole seconds, except in
the last fraction of a millisecond of a second, where they are one less; so they are zero
from a millisecond before the time has run out on. A sweep at this time closes the offer
exactly if the time has run out, and it ends wherever searches come to an end. -/
theorem time_left_is_rounded_up (settings : Settings) (start : Instant) (cmds : List Command)
    (hi : ((opening settings start).run cmds).floor.issued ≤ Uuid.capacity) (driver : Uuid) :
    let desk := (opening settings start).run cmds
    let window := settings.offerSpan
    ((∀ docket offer, desk.LiveFor driver docket offer → offer.Countable window desk.now) →
      ∃ listed, desk.offersOf driver = .ok listed) ∧
    ∀ docket offer, desk.LiveFor driver docket offer → offer.Countable window desk.now →
      let left := offer.timeLeft window desk.now
      (∀ listed, desk.offersOf driver = .ok listed →
        (∃ v ∈ listed, v.order = docket.id) ∧
        ∀ v ∈ listed, v.order = docket.id → v.offer = offer.id ∧
          let seconds := v.remainingSeconds.toInt
          0 ≤ seconds ∧
          (¬offer.InLastFraction window desk.now →
            seconds = max 0 ⌈(left : ℚ) / 1000000000⌉) ∧
          (offer.InLastFraction window desk.now → seconds = ⌈(left : ℚ) / 1000000000⌉ - 1) ∧
          (seconds = 0 ↔ left < 1000000)) ∧
      ∀ visited : List Uuid, visited.Perm desk.floor.openOrders →
        (desk.floor.CanSearch → ∃ report, (desk.sweepAs visited).1 = .ok report) ∧
        ∀ report swept, desk.sweepAs visited = (.ok report, swept) →
          docket.offers = docket.offers.dropLast ++ [offer] ∧
          ∃ new, swept.offersFor docket.id = docket.offers.dropLast ++
            (if left ≤ 0 then offer.closed .timeout desk.now else offer) :: new := by
  intro desk window
  have hdesk : desk.Lawful := run_lawful hi
  have hsettings : desk.settings = settings := run_settings (opening_sound settings start) cmds
  have hspan : desk.settings.offerSpan = window := congrArg Settings.offerSpan hsettings
  refine ⟨fun h => exists_offersOf hdesk.indexed hdesk.routed (hspan ▸ h),
    fun docket offer hlive hcount => ⟨fun listed hlisted => ?_, fun visited hv =>
      ⟨fun hsearch => sweepAs_ok hdesk.sound hsearch visited,
        fun report swept hswept => hlive.swept hdesk hspan hv hswept⟩⟩⟩
  obtain ⟨hlists, hshows⟩ := hlive.seconds_shown hdesk hspan hcount hlisted
  refine ⟨hlists, fun v hv he => ?_⟩
  obtain ⟨hoffer, hvalue⟩ := hshows v hv he
  rw [hvalue]
  exact ⟨hoffer, Int.le_max_left _ _, Offer.secondsLeft_eq_ceil.1,
    Offer.secondsLeft_eq_ceil.2, Offer.secondsLeft_eq_zero_iff⟩

/-- The order of the trial run is cancelled, so nothing is out and the list is there. Where it
has been offered to a driver, one second is shown in the last millisecond, and a sweep closes
the offer when 25 seconds have gone by. -/
theorem time_left_is_rounded_up_trial :
    (((opening {} trialStart).run trialRun).floor.issued ≤ Uuid.capacity ∧
      ∃ listed, ((opening {} trialStart).run trialRun).offersOf (.ofNat 9) = .ok listed) ∧
    (∃ docket offer listed, (askedDesk 24999).LiveFor (.ofNat 9) docket offer ∧
      (askedDesk 24999).offersOf (.ofNat 9) = .ok listed ∧ (∃ v ∈ listed, v.order = docket.id) ∧
      ∀ v ∈ listed, v.order = docket.id → v.remainingSeconds.toInt = 1) ∧
    ∃ docket offer report swept new, (askedDesk 25000).LiveFor (.ofNat 9) docket offer ∧
      (askedDesk 25000).sweepAs [trialOrder] = (.ok report, swept) ∧
      swept.offersFor docket.id = offer.closed .timeout (askedDesk 25000).now :: new := by
  refine ⟨?_, ?_, ?_⟩
  · have hi : ((opening {} trialStart).run trialRun).floor.issued ≤ Uuid.capacity := by
      decide +kernel
    have hover : ((opening {} trialStart).run trialRun).dockets.items.all
        (·.order.status ≠ .pending) = true := by
      decide +kernel
    refine ⟨hi, (time_left_is_rounded_up {} trialStart trialRun hi (.ofNat 9)).1
      fun docket offer hlive => ?_⟩
    have hwaits := List.all_eq_true.1 hover docket (List.mem_of_find?_eq_some hlive.known)
    exact absurd hlive.waits (by simpa using hwaits)
  · obtain ⟨docket, offer, hlive, -, -, hmade⟩ := askedDesk_live 24999
    have hleft : offer.timeLeft (Settings.offerSpan {}) (askedDesk 24999).now = 1000000 := by
      rw [Offer.timeLeft, hmade]
      decide +kernel
    have hcount : offer.Countable (Settings.offerSpan {}) (askedDesk 24999).now := by
      rw [Offer.Countable, hleft]
      decide
    obtain ⟨listed, hlisted⟩ : ∃ listed, (askedDesk 24999).offersOf (.ofNat 9) = .ok listed :=
      exists_ok_of_isSome (by decide +kernel)
    obtain ⟨hshown, hvalue⟩ := hlive.seconds_shown (askedDesk_lawful 24999)
      (congrArg _ (askedDesk_settings 24999)) hcount hlisted
    refine ⟨docket, offer, listed, hlive, hlisted, hshown, fun v hv he => ?_⟩
    rw [(hvalue v hv he).2, Offer.secondsLeft, hleft]
    rfl
  · obtain ⟨docket, offer, hlive, -, hoffers, hmade⟩ := askedDesk_live 25000
    have hleft : offer.timeLeft (Settings.offerSpan {}) (askedDesk 25000).now ≤ 0 := by
      rw [Offer.timeLeft, hmade]
      decide +kernel
    have hdesk := askedDesk_lawful 25000
    have hopen : (askedDesk 25000).floor.openOrders = [trialOrder] := by decide +kernel
    obtain ⟨report, hreport⟩ := sweepAs_ok hdesk.sound
      ⟨by decide +kernel, by decide +kernel⟩ [trialOrder]
    obtain ⟨-, new, hswept⟩ := hlive.swept hdesk (congrArg _ (askedDesk_settings 25000))
      (.of_eq hopen.symm) (Prod.ext hreport rfl)
    rw [if_pos hleft, hoffers] at hswept
    exact ⟨docket, offer, report, _, new, hlive, Prod.ext hreport rfl, hswept⟩

/-! An offer was made at half a millisecond past a second. -/

def openOffer : Offer :=
  { id := .ofNat 3
    order := .ofNat 1
    driver := .ofNat 9
    status := .requested
    radius := 5.0
    distance := 1.0
    destinationMatch := false
    requestedAt := { trialStart with
      second := 35975
      nano := 500000
      second_lt := by decide
      nano_lt := by decide }
    respondedAt? := none }

/-- A desk on which nothing else is on record. -/
def openDesk (settings : Settings) (start : Instant) : Desk :=
  let desk := opening settings start
  let order := { desk.draftOrder trialRequest with id := .ofNat 1 }
  desk.insert { Docket.new order with offers := [openOffer] } true

/-- After 24.9995 of 25 seconds the driver is told that no second is left, and the sweep
finds that there is time. -/
theorem time_left_drops_a_fraction :
    openOffer.timeLeft (Settings.offerSpan {}) trialStart = 500000 ∧
      ((openDesk {} trialStart).offersOf (.ofNat 9)).toOption.map
        (·.map (·.remainingSeconds)) = some [0] ∧
      (openDesk {} trialStart).sweep.1.toOption = some {} ∧
      ((openDesk {} trialStart).sweep.2.offersFor (.ofNat 1)).map (·.status) = [.requested] := by
  decide +kernel

end Desk

end Hailing
