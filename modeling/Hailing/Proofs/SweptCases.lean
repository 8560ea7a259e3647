import Hailing.Proofs.Accounts
import Hailing.Proofs.SweepOrder

/-!
# What a sweep makes of one order

A sweep of an order has two halves, which look for different things. The first
closes the offer that has run out and starts a search in its place; the second
starts a search for an order that has waited for long enough. As long as a search
rests at all before it is tried again, an order has a part in one of them only:
after a dispatch, whatever it led to, no search is due (`Dispatched.not_due`). The
case that needs this is a search that found nobody. It has ended just now, so it
has not rested yet, and the second half does not start it over.

So what a sweep makes of a case is one of four things (`Swept`), with one dispatch
at most. In each of them nothing is left to do afterwards (`Swept.quiet`), as an
offer that has been made just now has not run out either, and what the sweep
reports can be read off the docket before and the offers that were added
(`Swept.report_eq`).
-/

namespace Hailing

open Time (Instant Span)

namespace Time

/-- A time that is waited for has not passed at once. -/
theorem not_wait_le_sub_self {ms : Nat} (h : 0 < ms) (t : Instant) :
    ¬ Span.ofWait ms ≤ t - t := by
  have hself : (t - t).nanos = 0 := by
    show (((t.day - t.day) * 86400 + (t.second - t.second) + _) * nanosPerSecond +
      (t.nano - t.nano) : Int) = 0
    simp
  show ¬ min (ms : Int) Span.limitMillis * 1000000 ≤ (t - t).nanos
  unfold Span.limitMillis
  omega

end Time

namespace Docket

/-- The offers whose time has run out. -/
def late (window : Span) (now : Instant) (d : Docket) : List Offer :=
  d.offers.filter (·.isExpired window now)

/-- The order waits without an offer and without a search, and for long enough. -/
def isDue (rest : Span) (now : Instant) (d : Docket) : Bool := d.isIdle && d.isRested rest now

/-- A sweep has nothing to do. -/
structure Quiet (settings : Settings) (now : Instant) (d : Docket) : Prop where
  late : d.late settings.offerSpan now = []
  due : d.isDue settings.retrySpan now = false

variable {window rest : Span} {now : Instant} {d : Docket}

/-- What it means to be due, word by word. -/
theorem isDue_eq (rest : Span) (now : Instant) (d : Docket) :
    d.isDue rest now = (d.order.status = .pending && d.offers.all (·.status ≠ .requested) &&
      !d.searching && d.lastSearchEnded?.all fun ended => rest ≤ now - ended) := by
  have hout : (!d.hasOutstanding) = d.offers.all (·.status ≠ .requested) := by
    simp [hasOutstanding, Offer.isOutstanding, List.not_any_eq_all_not]
  have hrested : d.isRested rest now = d.lastSearchEnded?.all fun ended => rest ≤ now - ended := by
    unfold isRested
    cases d.lastSearchEnded? <;> rfl
  rw [isDue, isIdle, hout, hrested]
  rfl

theorem late_eq_nil : d.late window now = [] ↔ ∀ o ∈ d.offers, o.isExpired window now = false := by
  simp [late, List.filter_eq_nil_iff]

theorem not_due_of_not_idle (h : d.isIdle = false) : d.isDue rest now = false := by
  rw [isDue, h, Bool.false_and]

theorem isIdle_eq_false (h : d.skipReason? ≠ none) : d.isIdle = false := by
  rw [Ne, skipReason?_eq_none] at h
  unfold isIdle
  cases hp : d.isPending <;> cases ho : d.hasOutstanding <;> cases hs : d.searching <;> simp_all

theorem late_of_settled (h : d.isSettled = true) : d.late window now = [] := by
  rw [isSettled, Bool.and_eq_true, Bool.not_eq_true', Bool.not_eq_true'] at h
  refine late_eq_nil.2 fun o hm => ?_
  have ho : o.isOutstanding = false := Bool.eq_false_iff.2 (List.any_eq_false.1 h.2 o hm)
  rw [Offer.isExpired, ho, Bool.false_and]

theorem not_due_of_settled (h : d.isSettled = true) : d.isDue rest now = false := by
  refine not_due_of_not_idle ?_
  rw [isSettled, Bool.and_eq_true, Bool.not_eq_true'] at h
  rw [isIdle, h.1, Bool.false_and, Bool.false_and]

/-- Only the last offer can be late. -/
theorem OneOpen.late_eq (h : d.OneOpen) {offer : Offer} (hl : d.offers.getLast? = some offer)
    (he : offer.isExpired window now = true) : d.late window now = [offer] := by
  rw [late, offers_eq_of_last hl, List.filter_append, filter_isExpired_eq window now h]
  simp [he]

/-- An offer that has run out is closed by a sweep, and the others are not touched. -/
theorem expire_offers (window : Span) (now : Instant) (d : Docket) :
    (d.expire window now).offers =
      d.offers.map fun o => if o.isExpired window now then o.closed .timeout now else o := by
  refine List.map_congr_left fun o _ => ?_
  split
  · next he =>
    rw [Offer.resolve?_eq_closed (Offer.isExpired_outstanding he) (by decide)]
    rfl
  · rfl

/-- A late offer is answered in its place. -/
theorem OneOpen.expire_eq (h : d.OneOpen) {offer : Offer} (hl : d.offers.getLast? = some offer)
    (he : offer.isExpired window now = true) :
    d.expire window now = d.answered offer .timeout now := by
  rcases h.late_cases window now with ⟨hn, -⟩ | ⟨late, hlate, -, -, hexpire⟩
  · have hnone : d.late window now = [] := List.map_eq_nil_iff.1 hn
    rw [h.late_eq hl he] at hnone
    cases hnone
  · rwa [Option.some.inj (hl.symm.trans hlate)]

theorem isPending_of_due (h : d.isDue rest now = true) : d.isPending = true := by
  simp only [isDue, isIdle, Bool.and_eq_true] at h
  exact h.1.1.1

theorem expire_of_late_eq_nil (h : d.late window now = []) : d.expire window now = d := by
  have hsame : (d.expire window now).offers = d.offers := by
    rw [expire_offers]
    refine (List.map_congr_left fun o hm => ?_).trans (List.map_id _)
    rw [late_eq_nil.1 h o hm]
    rfl
  exact congrArg (fun offers => { d with offers := offers }) hsame

end Docket

/-- What a sweep reports if it comes to some dockets and adds some offers to each of
them. -/
def SweepReport.ofDockets (settings : Settings) (now : Instant) (added : Docket → List Offer)
    (dockets : List Docket) : SweepReport where
  timeouts := (dockets.flatMap (·.late settings.offerSpan now)).length
  reassigned := (dockets.flatMap fun d =>
    (d.late settings.offerSpan now).filter fun _ => (added d).any (·.isOutstanding)).length
  retried := dockets.countP (·.isDue settings.retrySpan now)

namespace SweepReport

variable {settings : Settings} {now : Instant} {added : Docket → List Offer}

theorem ofDockets_timeouts (dockets : List Docket) :
    (ofDockets settings now added dockets).timeouts =
      (dockets.flatMap (·.offers)).countP (·.isExpired settings.offerSpan now) := by
  rw [List.countP_eq_length_filter, List.filter_flatMap]
  rfl

theorem ofDockets_reassigned (dockets : List Docket) :
    (ofDockets settings now added dockets).reassigned =
      (dockets.flatMap fun d => d.offers.filter fun o =>
        o.isExpired settings.offerSpan now && (added d).any (·.isOutstanding)).length := by
  simp only [ofDockets, Docket.late, List.filter_filter, Bool.and_comm]

theorem ofDockets_singleton (d : Docket) :
    ofDockets settings now added [d] =
      { timeouts := (d.late settings.offerSpan now).length
        reassigned :=
          ((d.late settings.offerSpan now).filter fun _ => (added d).any (·.isOutstanding)).length
        retried := if d.isDue settings.retrySpan now then 1 else 0 } := by
  simp [ofDockets, List.countP_singleton]

theorem ofDockets_cons (d : Docket) (dockets : List Docket) :
    ofDockets settings now added (d :: dockets) =
      ofDockets settings now added [d] + ofDockets settings now added dockets := by
  simp only [ofDockets, add_def, List.flatMap_cons, List.flatMap_nil, List.length_append,
    List.append_nil, List.countP_cons, List.countP_nil, Nat.zero_add, Nat.add_comm]

theorem ofDockets_perm {dockets dockets' : List Docket} (h : dockets.Perm dockets') :
    ofDockets settings now added dockets = ofDockets settings now added dockets' := by
  simp only [ofDockets, (h.flatMap_right _).length_eq, h.countP_eq]

/-- Settled dockets have no part in a report. -/
theorem ofDockets_filter (dockets : List Docket) :
    ofDockets settings now added (dockets.filter fun d => !d.isSettled) =
      ofDockets settings now added dockets := by
  induction dockets with
  | nil => rfl
  | cons d rest ih =>
      rw [ofDockets_cons, ← ih]
      cases hs : d.isSettled with
      | false => rw [List.filter_cons_of_pos (by simp [hs]), ofDockets_cons]
      | true =>
          have hnothing : ofDockets settings now added [d] = {} := by
            rw [ofDockets_singleton, Docket.late_of_settled hs, Docket.not_due_of_settled hs]
            rfl
          rw [List.filter_cons_of_neg (by simp [hs]), hnothing, nothing_add]

end SweepReport

namespace Case

/-! ## Dispatches -/

/-- What a dispatch adds to the offers: one at most, and that is made now. -/
theorem Dispatched.offers_eq {c c' : Case} {outcome : Outcome} (h : Dispatched c outcome c') :
    ∃ new, c'.docket.offers = c.docket.offers ++ new ∧
      new.any (·.isOutstanding) = outcome.isOffered ∧
      ∀ o ∈ new, o.requestedAt = c.floor.now := by
  cases h with
  | skipped | searching | exhausted =>
      exact ⟨[], by simp [endSearch, startSearch, onDocket, onFloor], rfl, fun _ hm => by cases hm⟩
  | offered =>
      refine ⟨[_], rfl, rfl, fun o hm => ?_⟩
      rw [List.mem_singleton.1 hm]
      rfl

/-- After a dispatch no search is due, whatever it led to. -/
theorem Dispatched.not_due {c c' : Case} {outcome : Outcome} (h : Dispatched c outcome c')
    (hr : 0 < c.floor.settings.retryAfter) :
    c'.docket.isDue c.floor.settings.retrySpan c.floor.now = false := by
  cases h with
  | skipped hs =>
      refine Docket.not_due_of_not_idle (Docket.isIdle_eq_false ?_)
      rw [hs]
      exact Option.some_ne_none _
  | offered =>
      refine Docket.not_due_of_not_idle ?_
      simp [makeOffer, draftOffer, Docket.isIdle, Docket.hasOutstanding, Offer.isOutstanding]
  | searching => exact Docket.not_due_of_not_idle (by simp [startSearch, onDocket, onFloor,
      Docket.isIdle])
  | exhausted =>
      have hnot : ¬ c.floor.settings.retrySpan ≤ c.floor.now - c.floor.now :=
        Time.not_wait_le_sub_self hr _
      simp [endSearch, Docket.isDue, Docket.isRested, hnot]

/-- A dispatch makes no offer that has run out. -/
theorem Dispatched.late_eq {c c' : Case} {outcome : Outcome} (h : Dispatched c outcome c')
    (hw : 0 < c.floor.settings.offerWindow) :
    c'.docket.late c.floor.settings.offerSpan c.floor.now =
      c.docket.late c.floor.settings.offerSpan c.floor.now := by
  obtain ⟨new, hoffers, -, hnow⟩ := h.offers_eq
  have hfresh : new.filter (·.isExpired c.floor.settings.offerSpan c.floor.now) = [] := by
    refine List.filter_eq_nil_iff.2 fun o hm hx => ?_
    rw [Offer.isExpired, hnow o hm, Bool.and_eq_true, decide_eq_true_eq] at hx
    exact Time.not_wait_le_sub_self hw _ hx.2
  rw [Docket.late, hoffers, List.filter_append, hfresh, List.append_nil, Docket.late]

theorem Dispatched.isPending_eq {c c' : Case} {outcome : Outcome} (h : Dispatched c outcome c') :
    c'.docket.isPending = c.docket.isPending := congrArg Order.isPending h.order_eq

/-! ## Sweeps -/

/-- What a sweep that ends makes of a case, what it adds to its report, and what it
notes. -/
inductive Swept (c : Case) : SweepReport → List Outcome → Case → Prop
  | left (hq : c.docket.Quiet c.floor.settings c.floor.now) : Swept c {} [] c.settle
  | closed {offer : Offer} (hl : c.docket.offers.getLast? = some offer)
      (he : offer.isExpired c.floor.settings.offerSpan c.floor.now = true)
      (hp : c.docket.isPending = false) :
      Swept c { timeouts := 1 } [] (c.drop offer .timeout).settle
  | passedOn {offer : Offer} {outcome : Outcome} {c' : Case}
      (hl : c.docket.offers.getLast? = some offer)
      (he : offer.isExpired c.floor.settings.offerSpan c.floor.now = true)
      (hp : c.docket.isPending = true) (hd : Dispatched (c.drop offer .timeout) outcome c') :
      Swept c { timeouts := 1, reassigned := if outcome.isOffered then 1 else 0 } [outcome] c'
  | retried {outcome : Outcome} {c' : Case}
      (hl : c.docket.late c.floor.settings.offerSpan c.floor.now = [])
      (hdue : c.docket.isDue c.floor.settings.retrySpan c.floor.now = true)
      (hd : Dispatched c outcome c') : Swept c { retried := 1 } [outcome] c'

variable {c c' : Case} {report report' found : SweepReport} {noted : List Outcome}

theorem retryIdleNoting_of_not_due
    (h : c.docket.isDue c.floor.settings.retrySpan c.floor.now = false) :
    c.retryIdleNoting report = ([], .ok report, c) := by
  have hnot : ¬ (c.docket.isIdle &&
      c.docket.isRested c.floor.settings.retrySpan c.floor.now) = true :=
    fun hd => absurd (h.symm.trans hd) (by decide)
  rw [retryIdleNoting, if_neg hnot]

theorem retryIdleNoting_of_due
    (h : c.docket.isDue c.floor.settings.retrySpan c.floor.now = true)
    (hr : c.retryIdleNoting report = (noted, .ok report', c')) :
    ∃ outcome, noted = [outcome] ∧ report' = report + { retried := 1 } ∧
      Dispatched c outcome c' := by
  rw [Docket.isDue] at h
  rw [retryIdleNoting, if_pos h] at hr
  rcases dispatch_cases c with ⟨_, hd⟩ | ⟨outcome, c₁, hd, hdispatched⟩
  · rw [hd] at hr
    cases hr
  · rw [hd] at hr
    cases hr
    exact ⟨outcome, rfl, rfl, hdispatched⟩

/-- What a sweep makes of late offers and what it notes: the last offer is dropped if it
has run out, and then the order is dispatched if it waits. -/
inductive Lapsed (c : Case) (report : SweepReport) :
    List Outcome → Except Breakdown SweepReport → Case → Prop
  | none (hl : c.docket.late c.floor.settings.offerSpan c.floor.now = []) :
      Lapsed c report [] (.ok report) c
  | kept {offer : Offer} (hl : c.docket.offers.getLast? = some offer)
      (he : offer.isExpired c.floor.settings.offerSpan c.floor.now = true)
      (hp : c.docket.isPending = false) :
      Lapsed c report [] (.ok (report + { timeouts := 1 })) (c.drop offer .timeout)
  | broken {offer : Offer} {breakdown : Breakdown}
      (hl : c.docket.offers.getLast? = some offer)
      (he : offer.isExpired c.floor.settings.offerSpan c.floor.now = true)
      (hp : c.docket.isPending = true) :
      Lapsed c report [] (.error breakdown) (c.drop offer .timeout)
  | passedOn {offer : Offer} {outcome : Outcome} {c' : Case}
      (hl : c.docket.offers.getLast? = some offer)
      (he : offer.isExpired c.floor.settings.offerSpan c.floor.now = true)
      (hp : c.docket.isPending = true) (hd : Dispatched (c.drop offer .timeout) outcome c') :
      Lapsed c report [outcome] (.ok (report +
        { timeouts := 1, reassigned := if outcome.isOffered then 1 else 0 })) c'

theorem dropLateNoting_lapsed (ho : c.docket.OneOpen) {result : Except Breakdown SweepReport}
    (h : dropLateNoting (c.docket.lateDrivers c.floor.settings.offerSpan c.floor.now) report
      (c.onDocket (·.expire c.floor.settings.offerSpan c.floor.now)) = (noted, result, c')) :
    Lapsed c report noted result c' := by
  rcases ho.late_cases c.floor.settings.offerSpan c.floor.now with
    ⟨hn, hexpire⟩ | ⟨offer, hl, he, hn, hexpire⟩
  · rw [hn, onDocket, hexpire] at h
    cases h
    exact .none (List.map_eq_nil_iff.1 hn)
  · have hcount : (c.onDocket (·.expire c.floor.settings.offerSpan c.floor.now)).count
        (fun l => { l with timeouts := l.timeouts + 1 }) =
        ⟨c.docket.answered offer .timeout c.floor.now, (c.drop offer .timeout).floor⟩ := by
      rw [onDocket, hexpire]
      rfl
    have hpend : (c.docket.answered offer .timeout c.floor.now).isPending =
        c.docket.isPending := rfl
    have hdrop : onDocket (·.exclude offer.driver)
        ⟨c.docket.answered offer .timeout c.floor.now, (c.drop offer .timeout).floor⟩ =
        c.drop offer .timeout := rfl
    simp only [hn, dropLateNoting, hcount, hpend, reassign, hdrop] at h
    cases hp : c.docket.isPending with
    | false =>
        simp only [hp, Bool.not_false, if_true] at h
        cases h
        exact .kept hl he hp
    | true =>
        simp only [hp, Bool.not_true, Bool.false_eq_true, if_false] at h
        rcases dispatch_cases (c.drop offer .timeout) with ⟨_, hd⟩ | ⟨outcome, c₁, hd, hdispatched⟩
        · rw [hd] at h
          cases h
          exact .broken hl he hp
        · rw [hd] at h
          cases h
          exact .passedOn hl he hp hdispatched

/-- A sweep breaks down over a late offer, or it comes to the search that may be due. -/
theorem sweepNoting_cases (ho : c.docket.OneOpen) {result : Except Breakdown SweepReport}
    (h : c.sweepNoting report = (noted, result, c')) :
    (∃ breakdown, result = .error breakdown ∧ Lapsed c report noted result c') ∨
      ∃ first report₁ c₁ retried c₂, Lapsed c report first (.ok report₁) c₁ ∧
        c₁.retryIdleNoting report₁ = (retried, result, c₂) ∧ noted = first ++ retried ∧
        ((∃ breakdown, result = .error breakdown) ∧ c' = c₂ ∨
          (∃ report₂, result = .ok report₂) ∧ c' = c₂.settle) := by
  unfold sweepNoting at h
  dsimp only at h
  rcases hlate : dropLateNoting (c.docket.lateDrivers c.floor.settings.offerSpan c.floor.now) report
    (c.onDocket (·.expire c.floor.settings.offerSpan c.floor.now)) with
    ⟨first, breakdown | report₁, c₁⟩
  · rw [hlate] at h
    cases h
    exact .inl ⟨breakdown, rfl, dropLateNoting_lapsed ho hlate⟩
  · rw [hlate] at h
    dsimp only at h
    have hlapsed := dropLateNoting_lapsed ho hlate
    rcases hretry : c₁.retryIdleNoting report₁ with ⟨retried, breakdown | report₂, c₂⟩
    · rw [hretry] at h
      cases h
      exact .inr ⟨_, _, _, _, _, hlapsed, hretry, rfl, .inl ⟨⟨breakdown, rfl⟩, rfl⟩⟩
    · rw [hretry] at h
      cases h
      exact .inr ⟨_, _, _, _, _, hlapsed, hretry, rfl, .inr ⟨⟨report₂, rfl⟩, rfl⟩⟩

/-- A sweep that ends does one of four things. -/
theorem sweepNoting_swept (ho : c.docket.OneOpen) (hr : 0 < c.floor.settings.retryAfter)
    (h : c.sweepNoting report = (noted, .ok report', c')) :
    ∃ found, report' = report + found ∧ Swept c found noted c' := by
  rcases sweepNoting_cases ho h with
    ⟨_, he, -⟩ | ⟨_, _, c₁, _, _, hlapsed, hretry, rfl, ⟨⟨_, he⟩, -⟩ | ⟨-, rfl⟩⟩
  · cases he
  · cases he
  cases hlapsed with
  | none hl =>
      cases hdue : c.docket.isDue c.floor.settings.retrySpan c.floor.now with
      | false =>
          rw [retryIdleNoting_of_not_due hdue] at hretry
          cases hretry
          exact ⟨{}, (SweepReport.add_nothing report).symm, .left ⟨hl, hdue⟩⟩
      | true =>
          obtain ⟨outcome, rfl, rfl, hd⟩ := retryIdleNoting_of_due hdue hretry
          rw [settle_of_pending (hd.isPending_eq.trans (Docket.isPending_of_due hdue))]
          exact ⟨_, rfl, .retried hl hdue hd⟩
  | @kept offer hl he hp =>
      have hidle : (c.drop offer .timeout).docket.isIdle = false := by
        rw [Docket.isIdle, drop_isPending, hp, Bool.false_and, Bool.false_and]
      rw [retryIdleNoting_of_not_due (Docket.not_due_of_not_idle hidle)] at hretry
      cases hretry
      exact ⟨_, rfl, .closed hl he hp⟩
  | passedOn hl he hp hd =>
      have hnot : c₁.docket.isDue c₁.floor.settings.retrySpan c₁.floor.now = false := by
        rw [hd.steady.settings, hd.steady.now_eq]
        exact hd.not_due hr
      have hp₁ : c₁.docket.isPending = true := by
        rw [hd.isPending_eq, drop_isPending, hp]
      rw [retryIdleNoting_of_not_due hnot] at hretry
      cases hretry
      rw [settle_of_pending hp₁]
      exact ⟨_, rfl, .passedOn hl he hp hd⟩

/-- Where there is nothing to do, a sweep settles the docket. -/
theorem sweep_of_quiet (hq : c.docket.Quiet c.floor.settings c.floor.now) :
    c.sweep report = (.ok report, c.settle) := by
  have hcase : c.onDocket (·.expire c.floor.settings.offerSpan c.floor.now) = c := by
    rw [onDocket, Docket.expire_of_late_eq_nil hq.late]
  have hnobody : c.docket.lateDrivers c.floor.settings.offerSpan c.floor.now = [] :=
    List.map_eq_nil_iff.2 hq.late
  rw [← sweepNoting_snd]
  simp only [sweepNoting, hcase, hnobody, dropLateNoting, retryIdleNoting_of_not_due hq.due]

theorem Swept.moves (h : Swept c found noted c') : Moves c c' := by
  cases h with
  | left => exact .single .settled
  | closed hl he => exact .single (.closed hl (Offer.isExpired_outstanding he) (.inr ⟨rfl, he⟩))
  | passedOn hl he hp hd =>
      have ho := Offer.isExpired_outstanding he
      exact Worked.moves (.dropped hp hl ho (.inr ⟨rfl, he⟩) (.single (.dispatched hd)))
  | retried _ _ hd => exact .single (.dispatched hd)

/-- What a sweep notes is one dispatch at most. -/
theorem Swept.length_le (h : Swept c found noted c') : noted.length ≤ 1 := by
  cases h <;> simp

/-- The offers that have run out are closed, and what is added comes behind. It is a
new offer if a search was passed on with one. -/
theorem Swept.offers_eq (ho : c.docket.OneOpen) (h : Swept c found noted c') :
    ∃ new, c'.docket.offers =
        (c.docket.expire c.floor.settings.offerSpan c.floor.now).offers ++ new ∧
      (c.docket.late c.floor.settings.offerSpan c.floor.now ≠ [] →
        found.reassigned = if new.any (·.isOutstanding) then 1 else 0) := by
  have hdropped : ∀ {offer : Offer}, c.docket.offers.getLast? = some offer →
      offer.isExpired c.floor.settings.offerSpan c.floor.now = true →
      (c.drop offer .timeout).docket.offers =
        (c.docket.expire c.floor.settings.offerSpan c.floor.now).offers := by
    intro offer hl he
    rw [ho.expire_eq hl he]
    exact Docket.exclude_offers _ _
  cases h with
  | left hq =>
      rw [Docket.expire_of_late_eq_nil hq.late]
      exact ⟨[], (List.append_nil _).symm, fun hne => absurd hq.late hne⟩
  | closed hl he => exact ⟨[], (hdropped hl he).trans (List.append_nil _).symm, fun _ => rfl⟩
  | passedOn hl he _ hd =>
      obtain ⟨new, hnew, hoffered, -⟩ := hd.offers_eq
      refine ⟨new, hnew.trans (congrArg (· ++ new) (hdropped hl he)), fun _ => ?_⟩
      rw [hoffered]
  | retried hl _ hd =>
      obtain ⟨new, hnew, -⟩ := hd.offers_eq
      rw [Docket.expire_of_late_eq_nil hl]
      exact ⟨new, hnew, fun hne => absurd hl hne⟩

/-- The report of a sweep is to be seen on the docket before and after. -/
theorem Swept.report_eq (ho : c.docket.OneOpen) (h : Swept c found noted c') :
    found = .ofDockets c.floor.settings c.floor.now
      (fun d => c'.docket.offers.drop d.offers.length) [c.docket] := by
  obtain ⟨new, hnew, hoffered⟩ := h.offers_eq ho
  have hdrop : c'.docket.offers.drop c.docket.offers.length = new := by
    rw [hnew]
    refine List.drop_left' ?_
    rw [Docket.expire_offers, List.length_map]
  have hout : ∀ {offer : Offer}, c.docket.offers.getLast? = some offer →
      offer.isExpired c.floor.settings.offerSpan c.floor.now = true →
      c.docket.late c.floor.settings.offerSpan c.floor.now = [offer] ∧
        c.docket.isDue c.floor.settings.retrySpan c.floor.now = false := by
    intro offer hl he
    refine ⟨ho.late_eq hl he, Docket.not_due_of_not_idle ?_⟩
    have hout := Docket.hasOutstanding_of_last hl (Offer.isExpired_outstanding he)
    rw [Docket.isIdle, hout, Bool.not_true, Bool.and_false, Bool.false_and]
  rw [SweepReport.ofDockets_singleton, hdrop]
  cases h with
  | left hq => simp [hq.late, hq.due]
  | closed hl he =>
      obtain ⟨hlate, hdue⟩ := hout hl he
      have hnone := hoffered (by simp [hlate])
      simp only [hlate, hdue]
      cases hn : new.any (·.isOutstanding) with
      | false => simp
      | true => simp [hn] at hnone
  | @passedOn offer outcome _ hl he =>
      obtain ⟨hlate, hdue⟩ := hout hl he
      have hsome := hoffered (by simp [hlate])
      simp only at hsome
      rw [hlate, hdue, hsome]
      cases new.any (·.isOutstanding) <;> simp
  | retried hl hdue => simp [hl, hdue]

/-- Nothing is left to do after a sweep. -/
theorem Swept.quiet (ho : c.docket.OneOpen) (hw : 0 < c.floor.settings.offerWindow)
    (hr : 0 < c.floor.settings.retryAfter) (h : Swept c found noted c') :
    c'.docket.Quiet c.floor.settings c.floor.now := by
  -- The last offer is not out any more once it is dropped, and the others never were.
  have hdropped : ∀ offer : Offer,
      (c.drop offer .timeout).docket.late c.floor.settings.offerSpan c.floor.now = [] := by
    intro offer
    refine Docket.late_eq_nil.2 fun o hm => ?_
    have hm' : o ∈ (c.docket.answered offer .timeout c.floor.now).offers :=
      Docket.exclude_offers offer.driver _ ▸ hm
    rcases List.mem_append.1 hm' with hm' | hm'
    · rw [Offer.isExpired, ho o hm', Bool.false_and]
    · rw [List.mem_singleton.1 hm']
      rfl
  cases h with
  | left hq => exact hq
  | @closed offer _ _ hp =>
      refine ⟨hdropped offer, Docket.not_due_of_not_idle ?_⟩
      show (c.drop offer .timeout).docket.isIdle = false
      rw [Docket.isIdle, drop_isPending, hp, Bool.false_and, Bool.false_and]
  | passedOn _ _ _ hd => exact ⟨(hd.late_eq hw).trans (hdropped _), hd.not_due hr⟩
  | retried hl _ hd => exact ⟨(hd.late_eq hw).trans hl, hd.not_due hr⟩

end Case

end Hailing
