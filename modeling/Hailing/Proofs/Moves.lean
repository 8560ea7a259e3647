import Mathlib.Logic.Relation
import Hailing.Proofs.Dockets

/-!
# What the work on a case is made of

Each operation on an order is opened here once, and what it can do is written
down as a relation between the case before and the case after, guards
included. Everything that is proved of runs later goes through these
relations and not through the operations.

A search has its own two: `Dispatched` for its first radius and `Resumed` for
a wider one. Neither has a case for a breakdown, as one leaves the case as it
was. `Decided` is for the three ways to decide on the stage of an order. What
remains leaves the order alone, and it is made of four moves: a dispatch, the
exclusion of a driver, the closing of the last offer, and the settling of the
docket. A rejection and a sweep close an offer in the same way, which is why
they have a move for it in common.

The order of the moves matters once. Each piece of work excludes a driver or
closes an offer first, if at all, and searches afterwards (`Worked`), so
nobody is excluded between being asked and the end of the work.
-/

namespace Hailing

open Time (Instant Span)

def Ledger.countOffer (status : Offer.Status) (l : Ledger) : Ledger :=
  match status with
  | .requested => { l with requested := l.requested + 1 }
  | .accepted => { l with accepted := l.accepted + 1 }
  | .rejected => { l with rejected := l.rejected + 1 }
  | .timeout => { l with timeouts := l.timeouts + 1 }

theorem Docket.skipReason?_eq_none {d : Docket} :
    d.skipReason? = none ↔
      d.isPending = true ∧ d.hasOutstanding = false ∧ d.searching = false := by
  unfold skipReason?
  cases d.isPending <;> cases d.hasOutstanding <;> cases d.searching <;> simp

theorem Docket.isPending_iff {d : Docket} :
    d.isPending = true ↔ d.order.status = .pending := by
  simp [isPending, Order.isPending]

/-- Identifiers are drawn and not given back, drivers stay on record, and an
order is taken off the list of those open but not put on it. -/
structure Floor.Later (f f' : Floor) : Prop where
  issued_le : f.issued ≤ f'.issued
  openOrders : f'.openOrders.Sublist f.openOrders
  known : ∀ {driver}, (f.fleet.find? driver).isSome = true →
    (f'.fleet.find? driver).isSome = true

namespace Floor.Later

theorem of_eq {f f' : Floor} (hi : f'.issued = f.issued)
    (ho : f'.openOrders = f.openOrders) (hf : f'.fleet = f.fleet) : f.Later f' :=
  ⟨Nat.le_of_eq hi.symm, ho ▸ .refl _, fun h => hf ▸ h⟩

theorem refl (f : Floor) : f.Later f := of_eq rfl rfl rfl

theorem trans {f g h : Floor} (hfg : f.Later g) (hgh : g.Later h) : f.Later h :=
  ⟨Nat.le_trans hfg.issued_le hgh.issued_le, hgh.openOrders.trans hfg.openOrders,
    fun hd => hgh.known (hfg.known hd)⟩

theorem settle (d : Docket) (f : Floor) : f.Later (f.settle d) where
  issued_le := Nat.le_of_eq (f.settle_issued d).symm
  openOrders := f.settle_openOrders_sublist d
  known := by
    intro driver hd
    rw [f.settle_fleet]
    exact hd

end Floor.Later

/-- Neither the clock nor the settings change. -/
structure Floor.Steady (f f' : Floor) : Prop where
  clock : f'.clock = f.clock
  settings : f'.settings = f.settings

namespace Floor.Steady

theorem refl (f : Floor) : Steady f f := ⟨rfl, rfl⟩

theorem trans {f g h : Floor} (hfg : Steady f g) (hgh : Steady g h) : Steady f h :=
  ⟨hgh.clock.trans hfg.clock, hgh.settings.trans hfg.settings⟩

theorem settle (d : Docket) (f : Floor) : Steady f (f.settle d) := by
  rw [Floor.settle_eq]
  exact ⟨rfl, rfl⟩

theorem now_eq {f f' : Floor} (h : Steady f f') : f'.now = f.now := congrArg Clock.wall h.clock

end Floor.Steady

namespace Case

/-! ## Searches -/

/-- What a dispatch does. -/
inductive Dispatched (c : Case) : Outcome → Case → Prop
  | skipped {reason : SkipReason} (hs : c.docket.skipReason? = some reason) :
      Dispatched c (.skipped reason) c
  | offered {radius : Float} {wider : List Float} {candidate : Candidate}
      (hs : c.docket.skipReason? = none)
      (hr : c.floor.settings.radii = some ⟨radius, wider⟩)
      (hb : c.best? radius = .ok (some candidate)) :
      Dispatched c (.offered c.floor.nextId candidate.driver radius)
        (c.makeOffer (c.draftOffer candidate radius))
  | searching {radius next : Float} {rest : List Float}
      (hs : c.docket.skipReason? = none)
      (hr : c.floor.settings.radii = some ⟨radius, next :: rest⟩)
      (hb : c.best? radius = .ok none) :
      Dispatched c (.searching next)
        (c.startSearch.onFloor (·.sleep c.docket.id ⟨next, rest⟩))
  | exhausted {radius : Float} (hs : c.docket.skipReason? = none)
      (hr : c.floor.settings.radii = some ⟨radius, []⟩)
      (hb : c.best? radius = .ok none) :
      Dispatched c .exhausted (c.endSearch .exhausted)

theorem dispatch_cases (c : Case) :
    (∃ breakdown, c.dispatch = (.error breakdown, c)) ∨
      ∃ outcome c', c.dispatch = (.ok outcome, c') ∧ Dispatched c outcome c' := by
  unfold dispatch
  split
  · next reason hs => exact .inr ⟨_, _, rfl, .skipped hs⟩
  · next hs =>
      split
      · exact .inl ⟨_, rfl⟩
      · next radius wider hr =>
          split
          · exact .inl ⟨_, rfl⟩
          · next candidate hb => exact .inr ⟨_, _, rfl, .offered hs hr hb⟩
          · next hb => exact .inr ⟨_, _, rfl, .exhausted hs hr hb⟩
          · next next rest hb => exact .inr ⟨_, _, rfl, .searching hs hr hb⟩

theorem Dispatched.dispatch_eq {c c' : Case} {outcome : Outcome} (h : Dispatched c outcome c') :
    c.dispatch = (.ok outcome, c') := by
  cases h with
  | skipped hs => simp only [dispatch, hs]
  | offered hs hr hb =>
      simp only [dispatch, hs, hr, hb]
      rfl
  | searching hs hr hb | exhausted hs hr hb => simp only [dispatch, hs, hr, hb]

/-- What a search does when it goes on with a wider radius. -/
inductive Resumed (radii : Radii) (c : Case) : Case → Prop
  | abandoned (h : c.docket.isPending = false ∨ c.docket.hasOutstanding = true) :
      Resumed radii c (c.endSearch .abandoned)
  | offered {candidate : Candidate} (hp : c.docket.isPending = true)
      (hn : c.docket.hasOutstanding = false)
      (hb : c.best? radii.first = .ok (some candidate)) :
      Resumed radii c (c.makeOffer (c.draftOffer candidate radii.first)).stopSearch
  | exhausted (hp : c.docket.isPending = true) (hn : c.docket.hasOutstanding = false)
      (hb : c.best? radii.first = .ok none) (hw : radii.wider = []) :
      Resumed radii c (c.endSearch .exhausted)
  | widened {next : Float} {rest : List Float} (hp : c.docket.isPending = true)
      (hn : c.docket.hasOutstanding = false) (hb : c.best? radii.first = .ok none)
      (hw : radii.wider = next :: rest) :
      Resumed radii c (c.onFloor (·.sleep c.docket.id ⟨next, rest⟩))

theorem resume_cases (radii : Radii) (c : Case) :
    (∃ breakdown, c.resume radii = (.error breakdown, c)) ∨
      ∃ c', c.resume radii = (.ok (), c') ∧ Resumed radii c c' := by
  unfold resume
  split
  · next h => exact .inr ⟨_, rfl, .abandoned (by simpa using h)⟩
  · next h =>
      have hp : c.docket.isPending = true := by simp_all
      have hn : c.docket.hasOutstanding = false := by simp_all
      split
      · exact .inl ⟨_, rfl⟩
      · next candidate hb => exact .inr ⟨_, rfl, .offered hp hn hb⟩
      · next hb hw => exact .inr ⟨_, rfl, .exhausted hp hn hb hw⟩
      · next hb hw => exact .inr ⟨_, rfl, .widened hp hn hb hw⟩

/-! ## Moves -/

/-- The last offer is turned down and its driver not asked again. -/
def drop (offer : Offer) (status : Offer.Status) (c : Case) : Case :=
  { docket := (c.docket.answered offer status c.floor.now).exclude offer.driver
    floor := c.floor.count (·.countOffer status) }

/-- What leaves the order itself alone. An offer is closed by its driver or
when its time has run out, and if the order no longer waits this settles the
docket. -/
inductive Move (c : Case) : Case → Prop
  | dispatched {outcome : Outcome} {c' : Case} (h : Dispatched c outcome c') : Move c c'
  | excluded (driver : Uuid) : Move c (c.onDocket (·.exclude driver))
  | closed {offer : Offer} {status : Offer.Status}
      (hl : c.docket.offers.getLast? = some offer) (ho : offer.isOutstanding = true)
      (hs : status = .rejected ∨ status = .timeout ∧
        offer.isExpired c.floor.settings.offerSpan c.floor.now = true) :
      Move c (c.drop offer status).settle
  | settled : Move c c.settle

/-- A chain of moves. -/
abbrev Moves : Case → Case → Prop := Relation.ReflTransGen Move

theorem settle_of_pending {c : Case} (hp : c.docket.isPending = true) : c.settle = c := by
  simp [settle, onFloor, Floor.settle, Docket.isSettled, hp]

theorem drop_isPending {offer : Offer} {status : Offer.Status} {c : Case} :
    (c.drop offer status).docket.isPending = c.docket.isPending := by
  simp [drop, Docket.isPending, Docket.answered]

/-- Searching for drivers. -/
inductive Seek (c : Case) : Case → Prop
  | dispatched {outcome : Outcome} {c' : Case} (h : Dispatched c outcome c') : Seek c c'
  | settled : Seek c c.settle

abbrev Sought : Case → Case → Prop := Relation.ReflTransGen Seek

/-- A piece of work: a driver is excluded or an offer is closed, or neither,
and then drivers are searched for. -/
inductive Worked (c c' : Case) : Prop
  | sought (h : Sought c c')
  | excluded (driver : Uuid) (h : Sought (c.onDocket (·.exclude driver)) c')
  | closed {offer : Offer} {status : Offer.Status}
      (hl : c.docket.offers.getLast? = some offer) (ho : offer.isOutstanding = true)
      (hs : status = .rejected ∨ status = .timeout ∧
        offer.isExpired c.floor.settings.offerSpan c.floor.now = true)
      (h : Sought (c.drop offer status).settle c')

theorem Sought.moves {c c' : Case} (h : Sought c c') : Moves c c' := by
  induction h with
  | refl => exact .refl
  | tail _ hs ih =>
      cases hs with
      | dispatched hd => exact ih.tail (.dispatched hd)
      | settled => exact ih.tail .settled

theorem Worked.moves {c c' : Case} (h : Worked c c') : Moves c c' := by
  cases h with
  | sought h => exact Sought.moves h
  | excluded driver h => exact .head (.excluded driver) (Sought.moves h)
  | closed hl ho hs h => exact .head (.closed hl ho hs) (Sought.moves h)

/-- While the order waits there is nothing to settle when an offer is closed. -/
theorem Worked.dropped {offer : Offer} {status : Offer.Status} {c c' : Case}
    (hp : c.docket.isPending = true) (hl : c.docket.offers.getLast? = some offer)
    (ho : offer.isOutstanding = true)
    (hs : status = .rejected ∨ status = .timeout ∧
      offer.isExpired c.floor.settings.offerSpan c.floor.now = true)
    (h : Sought (c.drop offer status) c') : Worked c c' := by
  refine .closed hl ho hs ?_
  rwa [settle_of_pending (drop_isPending.trans hp)]

theorem dispatch_sought (c : Case) : Sought c c.dispatch.2 := by
  rcases dispatch_cases c with ⟨_, h⟩ | ⟨_, _, h, hd⟩
  · rw [h]
  · rw [h]
    exact .single (.dispatched hd)

theorem reassign_worked (driver : Uuid) (c : Case) : Worked c (c.reassign driver).2 :=
  .excluded driver (dispatch_sought _)

theorem retry_worked (c : Case) : Worked c c.retry.2 := by
  unfold retry
  split
  · exact .sought .refl
  · exact .sought (dispatch_sought c)

/-! ## Rejections -/

/-- A rejection is refused, or it drops the offer and goes on. -/
theorem reject_cases {c : Case} (h : c.docket.OneOpen) (driver : Uuid) :
    (∃ refusal, c.respond driver .reject = (.refused refusal, c)) ∨
      ∃ offer, c.docket.offers.getLast? = some offer ∧ offer.isOutstanding = true ∧
        offer.driver = driver ∧
        ((c.docket.isPending = true ∧ ∃ react : Outcome → Reaction,
            c.respond driver .reject =
              ((Answer.ofExcept (c.drop offer .rejected).dispatch.1).map react,
                (c.drop offer .rejected).dispatch.2)) ∨
          (c.docket.isPending = false ∧ ∃ reaction,
            c.respond driver .reject =
              (.done reaction, (c.drop offer .rejected).settle))) := by
  rw [respond, if_neg (by simp)]
  split
  · exact .inl ⟨_, rfl⟩
  · next offer hf =>
      obtain ⟨hl, ho, hd⟩ := h.offerTo?_eq_last hf
      refine .inr ⟨offer, hl, ho, hd, ?_⟩
      have hres := h.resolve_eq c.floor.now hl ho
        (show Offer.Status.rejected ≠ .requested by decide)
      simp only [reject, resolve, hres]
      have hsame : (({ c with docket := c.docket.answered offer .rejected c.floor.now } :
          Case).count fun l => { l with rejected := l.rejected + 1 }).docket.isPending =
          c.docket.isPending := rfl
      rw [hsame]
      cases hp : c.docket.isPending with
      | true => exact .inl ⟨rfl, _, rfl⟩
      | false => exact .inr ⟨rfl, _, rfl⟩

theorem reject_worked {c : Case} (h : c.docket.OneOpen) (driver : Uuid) :
    Worked c (c.respond driver .reject).2 := by
  rcases reject_cases h driver with ⟨_, hr⟩ | ⟨offer, hl, ho, -, hr⟩
  · rw [hr]
    exact .sought .refl
  · rcases hr with ⟨hp, _, hr⟩ | ⟨_, _, hr⟩
    · rw [hr]
      exact .dropped hp hl ho (.inl rfl) (dispatch_sought _)
    · rw [hr]
      exact .closed hl ho (.inl rfl) .refl

/-! ## Sweeps -/

/-- What a sweep makes of late offers, of which there is at most one. -/
inductive Expired (report : SweepReport) (c : Case) :
    Except Breakdown SweepReport → Case → Prop
  | none (hn : c.docket.lateDrivers c.floor.settings.offerSpan c.floor.now = []) :
      Expired report c (.ok report) c
  | kept {offer : Offer} (hl : c.docket.offers.getLast? = some offer)
      (he : offer.isExpired c.floor.settings.offerSpan c.floor.now = true)
      (hp : c.docket.isPending = false) :
      Expired report c (.ok { report with timeouts := report.timeouts + 1 })
        (c.drop offer .timeout)
  | broken {offer : Offer} {breakdown : Breakdown}
      (hl : c.docket.offers.getLast? = some offer)
      (he : offer.isExpired c.floor.settings.offerSpan c.floor.now = true)
      (hp : c.docket.isPending = true) :
      Expired report c (.error breakdown) (c.drop offer .timeout)
  | reassigned {offer : Offer} {outcome : Outcome} {c' : Case}
      (hl : c.docket.offers.getLast? = some offer)
      (he : offer.isExpired c.floor.settings.offerSpan c.floor.now = true)
      (hp : c.docket.isPending = true)
      (hd : Dispatched (c.drop offer .timeout) outcome c') :
      Expired report c
        (.ok { report with
          timeouts := report.timeouts + 1
          reassigned := report.reassigned + if outcome.isOffered then 1 else 0 }) c'

theorem dropLate_cases {c : Case} (h : c.docket.OneOpen) (report : SweepReport) :
    Expired report c
      (dropLate (c.docket.lateDrivers c.floor.settings.offerSpan c.floor.now) report
        (c.onDocket (·.expire c.floor.settings.offerSpan c.floor.now))).1
      (dropLate (c.docket.lateDrivers c.floor.settings.offerSpan c.floor.now) report
        (c.onDocket (·.expire c.floor.settings.offerSpan c.floor.now))).2 := by
  rcases h.late_cases c.floor.settings.offerSpan c.floor.now with
    ⟨hn, hd⟩ | ⟨offer, hl, he, hn, hd⟩
  · have hsame : c.onDocket (·.expire c.floor.settings.offerSpan c.floor.now) = c := by
      rw [onDocket, hd]
    rw [hsame, hn]
    exact .none hn
  · have hexpire : c.onDocket (·.expire c.floor.settings.offerSpan c.floor.now) =
        { c with docket := c.docket.answered offer .timeout c.floor.now } := by
      rw [onDocket, hd]
    have hdrop : ((({ c with docket := c.docket.answered offer .timeout c.floor.now } :
        Case).count fun l => { l with timeouts := l.timeouts + 1 }).onDocket
        (·.exclude offer.driver)) = c.drop offer .timeout := rfl
    have hpend : (({ c with docket := c.docket.answered offer .timeout c.floor.now } :
        Case).count fun l => { l with timeouts := l.timeouts + 1 }).docket.isPending =
        c.docket.isPending := rfl
    rw [hexpire, hn, dropLate, hpend, hdrop, reassign, hdrop]
    cases hp : c.docket.isPending with
    | false => exact .kept hl he hp
    | true =>
        rcases dispatch_cases (c.drop offer .timeout) with ⟨_, hr⟩ | ⟨outcome, c', hr, hd⟩
        · rw [hr]
          exact .broken hl he hp
        · rw [hr]
          exact .reassigned hl he hp hd

/-- What a sweep makes of an order that waits idly. -/
inductive Retried (report : SweepReport) (c : Case) :
    Except Breakdown SweepReport → Case → Prop
  | none (h : (c.docket.isIdle &&
        c.docket.isRested c.floor.settings.retrySpan c.floor.now) = false) :
      Retried report c (.ok report) c
  | broken {breakdown : Breakdown} (hi : c.docket.isIdle = true) :
      Retried report c (.error breakdown) c
  | redispatched {outcome : Outcome} {c' : Case} (hi : c.docket.isIdle = true)
      (hr : c.docket.isRested c.floor.settings.retrySpan c.floor.now = true)
      (hd : Dispatched c outcome c') :
      Retried report c (.ok { report with retried := report.retried + 1 }) c'

theorem retryIdle_cases (report : SweepReport) (c : Case) :
    Retried report c (c.retryIdle report).1 (c.retryIdle report).2 := by
  unfold retryIdle
  split
  · next h =>
      rw [Bool.and_eq_true] at h
      rcases dispatch_cases c with ⟨_, hr⟩ | ⟨outcome, c', hr, hd⟩
      · rw [hr]
        exact .broken h.1
      · rw [hr]
        exact .redispatched h.1 h.2 hd
  · next h => exact .none (by simpa using h)

/-- A sweep is these two, and then the docket is settled. -/
theorem sweep_cases {c : Case} (h : c.docket.OneOpen) (report : SweepReport) :
    (∃ breakdown c', c.sweep report = (.error breakdown, c') ∧
        Expired report c (.error breakdown) c') ∨
      ∃ report₁ c₁, Expired report c (.ok report₁) c₁ ∧
        ((∃ breakdown c', c.sweep report = (.error breakdown, c') ∧
            Retried report₁ c₁ (.error breakdown) c') ∨
          ∃ report₂ c₂, Retried report₁ c₁ (.ok report₂) c₂ ∧
            c.sweep report = (.ok report₂, c₂.settle)) := by
  have hlate := dropLate_cases h report
  unfold sweep
  dsimp only
  generalize dropLate _ report _ = late at hlate ⊢
  obtain ⟨result, c₁⟩ := late
  cases result with
  | error breakdown => exact .inl ⟨_, _, rfl, hlate⟩
  | ok report₁ =>
      refine .inr ⟨report₁, c₁, hlate, ?_⟩
      dsimp only
      have hretry := retryIdle_cases report₁ c₁
      generalize c₁.retryIdle report₁ = retried at hretry ⊢
      obtain ⟨result, c₂⟩ := retried
      cases result with
      | error breakdown => exact .inl ⟨_, _, rfl, hretry⟩
      | ok report₂ => exact .inr ⟨_, _, hretry, rfl⟩

/-- What a search adds to the late offers is a piece of work with them. If the
order does not wait there is no search, and the docket is settled. -/
theorem Expired.worked {report : SweepReport} {c c₁ : Case}
    {result : Except Breakdown SweepReport} (h : Expired report c result c₁) :
    (∀ c₂, Sought c₁ c₂ → Worked c c₂) ∨
      c₁.docket.isPending = false ∧ Worked c c₁.settle := by
  cases h with
  | none => exact .inl fun _ h => .sought h
  | kept hl he hp =>
      have ho := Offer.isExpired_outstanding he
      exact .inr ⟨drop_isPending.trans hp, .closed hl ho (.inr ⟨rfl, he⟩) .refl⟩
  | broken hl he hp =>
      have ho := Offer.isExpired_outstanding he
      exact .inl fun _ h => .dropped hp hl ho (.inr ⟨rfl, he⟩) h
  | reassigned hl he hp hd =>
      have ho := Offer.isExpired_outstanding he
      exact .inl fun _ h => .dropped hp hl ho (.inr ⟨rfl, he⟩) (.head (.dispatched hd) h)

theorem Retried.sought {report : SweepReport} {c c' : Case}
    {result : Except Breakdown SweepReport} (h : Retried report c result c') :
    Sought c c' := by
  cases h with
  | none | broken => exact .refl
  | redispatched _ _ hd => exact .single (.dispatched hd)

/-- An order that no longer waits is not searched for anew. -/
theorem Retried.of_not_pending {report : SweepReport} {c c' : Case}
    {result : Except Breakdown SweepReport} (h : Retried report c result c')
    (hp : c.docket.isPending = false) : result = .ok report ∧ c' = c := by
  cases h with
  | none => exact ⟨rfl, rfl⟩
  | broken hi | redispatched hi => simp [Docket.isIdle, hp] at hi

theorem sweep_worked {c : Case} (h : c.docket.OneOpen) (report : SweepReport) :
    Worked c (c.sweep report).2 := by
  rcases sweep_cases h report with ⟨_, c', hs, he⟩ | ⟨_, c₁, he, hrest⟩
  · rw [hs]
    rcases he.worked with hw | ⟨hp, -⟩
    · exact hw c' .refl
    · cases he with
      | broken _ _ hp' => rw [drop_isPending, hp'] at hp; cases hp
  · rcases he.worked with hw | ⟨hp, hw⟩
    · rcases hrest with ⟨_, c', hs, hr⟩ | ⟨_, c₂, hr, hs⟩
      · rw [hs]
        exact hw c' hr.sought
      · rw [hs]
        exact hw c₂.settle (hr.sought.tail .settled)
    · rcases hrest with ⟨_, c', hs, hr⟩ | ⟨_, c₂, hr, hs⟩
      · cases (hr.of_not_pending hp).1
      · rw [hs, (hr.of_not_pending hp).2]
        exact hw

/-! ## Decisions -/

/-- The last offer is accepted by a driver who has the trip. -/
def taken (offer : Offer) (c : Case) : Case :=
  let order := { c.docket.order with
    status := .confirmed
    driver? := some offer.driver }
  let docket := { c.docket.answered offer .accepted c.floor.now with
    order := order
    searching := false }
  let floor := (c.floor.notify order.rider (.driverFound order.id order.code offer.driver)).count
    fun l => { l with accepted := l.accepted + 1, pending := l.pending - 1 }
  ⟨docket, floor.settle docket⟩

/-- The trip of a confirmed order is over. -/
def completed (c : Case) : Case :=
  let c := c.onDocket fun d =>
    { d with order := { d.order with status := .completed, completedAt? := some c.floor.now } }
  let c := match c.docket.order.driver? with
    | none => c
    | some driver => c.markFree driver
  c.notify c.docket.order.rider (.orderCompleted c.docket.id c.docket.order.code)

/-- What a command that decides on the stage of an order does when it is done.
A driver accepts the last offer and gets the trip; an order is withdrawn while
it waits, or recalled from its driver; a trip is over. -/
inductive Decided (c : Case) : Command → Case → Prop
  | taken {offer : Offer} {c' : Case} (hp : c.docket.order.status = .pending)
      (hl : c.docket.offers.getLast? = some offer) (ho : offer.isOutstanding = true)
      (hc : c.claim offer.driver = (true, c')) :
      Decided c (.respond c.docket.id offer.driver .accept) (c'.taken offer)
  | withdrawn {reason : Order.Reason} {text : Option String}
      {cancellation : Order.Cancellation} (hp : c.docket.order.status = .pending)
      (hm : Order.Cancellation.make reason text c.floor.now = .ok cancellation) :
      Decided c (.cancel c.docket.id reason text)
        ((c.withdraw cancellation).count fun l => { l with pending := l.pending - 1 }).settle
  | recalled {reason : Order.Reason} {text : Option String}
      {cancellation : Order.Cancellation} (hp : c.docket.order.status = .confirmed)
      (hm : Order.Cancellation.make reason text c.floor.now = .ok cancellation) :
      Decided c (.cancel c.docket.id reason text)
        (c.withdraw cancellation).releaseDriver.settle
  | completed (hp : c.docket.order.status = .confirmed) :
      Decided c (.complete c.docket.id) c.completed

/-- A claim is about the trip of the order, if the order has one. -/
theorem claim_cases (driver : Uuid) (c : Case) :
    c.claim driver = (true, c) ∨ ∃ pickup trip,
      let claimed := c.floor.fleet.claimTrip c.floor.settings.destinationRadius driver pickup trip
      c.claim driver = (claimed.1, c.onFloor fun f => { f with fleet := claimed.2 }) := by
  unfold claim
  split
  · exact .inr ⟨_, _, rfl⟩
  · exact .inl rfl

/-- A claim that succeeds queues the trip and does nothing else. -/
theorem claim_eq {driver : Uuid} {c c' : Case} {claimed : Bool}
    (h : c.claim driver = (claimed, c')) :
    c' = { c with floor := { c.floor with fleet := c'.floor.fleet } } ∧
      (claimed = false → c' = c) := by
  unfold claim at h
  split at h
  · next pickup destination _ _ =>
      dsimp only at h
      rcases hf : c.floor.fleet.claimTrip c.floor.settings.destinationRadius driver pickup
        ⟨c.docket.id, destination⟩ with ⟨b, fleet⟩
      rw [hf] at h
      obtain ⟨rfl, rfl⟩ := Prod.mk.inj h
      refine ⟨rfl, fun hb => ?_⟩
      unfold Fleet.claimTrip at hf
      dsimp only at hf
      split at hf
      · rw [← (Prod.mk.inj hf).1] at hb
        cases hb
      · rw [← (Prod.mk.inj hf).2]
        rfl
  · obtain ⟨rfl, rfl⟩ := Prod.mk.inj h
    exact ⟨rfl, fun hb => by cases hb⟩

/-- What is refused and leaves the case as it was, or else decides. -/
def Decides {α : Type} (cmd : Command) (c : Case) (result : Answer α × Case) : Prop :=
  (∃ refusal, result = (.refused refusal, c)) ∨
    ∃ a c', result = (.done a, c') ∧ Decided c cmd c'

theorem accept_decides {c : Case} (h : c.docket.OneOpen) (driver : Uuid) :
    Decides (.respond c.docket.id driver .accept) c (c.respond driver .accept) := by
  unfold respond
  split
  · exact .inl ⟨_, rfl⟩
  · next hw =>
      have hp : c.docket.order.status = .pending :=
        Docket.isPending_iff.1 (by simpa using hw)
      split
      · exact .inl ⟨_, rfl⟩
      · next offer hf =>
          obtain ⟨hl, ho, rfl⟩ := h.offerTo?_eq_last hf
          dsimp only
          unfold accept
          rcases hc : c.claim offer.driver with ⟨_ | _, c₁⟩
          · rw [(claim_eq hc).2 rfl]
            exact .inl ⟨_, rfl⟩
          · have hsame : c₁.docket = c.docket := by rw [(claim_eq hc).1]
            have hres := h.resolve_eq c₁.floor.now hl ho
              (show Offer.Status.accepted ≠ .requested by decide)
            refine .inr ⟨⟨offer.closed .accepted c₁.floor.now, .confirmed, none⟩, _, ?_,
              .taken hp hl ho hc⟩
            dsimp only
            rw [resolve, hsame, hres]
            dsimp only [taken]
            rw [hsame]
            rfl

theorem cancel_decides (reason : Order.Reason) (text : Option String) (c : Case) :
    Decides (.cancel c.docket.id reason text) c (c.cancel reason text) := by
  unfold cancel
  dsimp only
  split
  · exact .inl ⟨_, rfl⟩
  · next hs =>
      split
      · exact .inl ⟨_, rfl⟩
      · next cancellation hm =>
          by_cases hp : c.docket.order.status = .pending
          · rw [if_pos hp]
            exact .inr ⟨_, _, rfl, .withdrawn hp hm⟩
          · have hc : c.docket.order.status = .confirmed := by
              by_contra hc
              exact hs ⟨hp, hc⟩
            rw [if_neg hp]
            exact .inr ⟨_, _, rfl, .recalled hc hm⟩

theorem complete_decides (c : Case) : Decides (.complete c.docket.id) c c.complete := by
  unfold complete
  split
  · exact .inl ⟨_, rfl⟩
  · next hs => exact .inr ⟨_, _, rfl, .completed (by simpa using hs)⟩

/-! ## What the steps leave alone

A search never touches the order or the fleet, and a decision touches only
the stage of the order and the trips of its driver. Beside that a floor only
moves on (`Floor.Later`), and neither its clock nor its settings change
(`Floor.Steady`). -/

theorem Dispatched.order_eq {c c' : Case} {outcome : Outcome}
    (h : Dispatched c outcome c') : c'.docket.order = c.docket.order := by
  cases h <;> rfl

theorem Dispatched.fleet_eq {c c' : Case} {outcome : Outcome}
    (h : Dispatched c outcome c') : c'.floor.fleet = c.floor.fleet := by
  cases h <;> rfl

theorem Dispatched.later {c c' : Case} {outcome : Outcome}
    (h : Dispatched c outcome c') : c.floor.Later c'.floor := by
  cases h with
  | skipped | searching | exhausted => exact .of_eq rfl rfl rfl
  | offered => exact ⟨Nat.le_succ _, .refl _, fun h => h⟩

theorem Resumed.order_eq {radii : Radii} {c c' : Case} (h : Resumed radii c c') :
    c'.docket.order = c.docket.order := by
  cases h <;> rfl

theorem Resumed.fleet_eq {radii : Radii} {c c' : Case} (h : Resumed radii c c') :
    c'.floor.fleet = c.floor.fleet := by
  cases h <;> rfl

theorem Resumed.later {radii : Radii} {c c' : Case} (h : Resumed radii c c') :
    c.floor.Later c'.floor := by
  cases h with
  | abandoned | exhausted | widened => exact .of_eq rfl rfl rfl
  | offered => exact ⟨Nat.le_succ _, .refl _, fun h => h⟩

theorem Move.order_eq {c c' : Case} (h : Move c c') :
    c'.docket.order = c.docket.order := by
  cases h with
  | dispatched h => exact h.order_eq
  | excluded driver => exact Docket.exclude_order driver c.docket
  | closed => exact Docket.exclude_order _ _
  | settled => rfl

theorem Move.fleet_eq {c c' : Case} (h : Move c c') :
    c'.floor.fleet = c.floor.fleet := by
  cases h with
  | dispatched h => exact h.fleet_eq
  | excluded => rfl
  | closed => exact Floor.settle_fleet _ _
  | settled => exact Floor.settle_fleet _ _

theorem settle_later (c : Case) : c.floor.Later c.settle.floor := .settle _ _

theorem Move.later {c c' : Case} (h : Move c c') : c.floor.Later c'.floor := by
  cases h with
  | dispatched h => exact h.later
  | excluded => exact .refl _
  | closed =>
      refine .trans ?_ (settle_later _)
      exact .of_eq rfl rfl rfl
  | settled => exact settle_later _

theorem Moves.order_eq {c c' : Case} (h : Moves c c') :
    c'.docket.order = c.docket.order := by
  induction h with
  | refl => rfl
  | tail _ hm ih => exact hm.order_eq.trans ih

theorem Moves.fleet_eq {c c' : Case} (h : Moves c c') :
    c'.floor.fleet = c.floor.fleet := by
  induction h with
  | refl => rfl
  | tail _ hm ih => exact hm.fleet_eq.trans ih

theorem Moves.later {c c' : Case} (h : Moves c c') : c.floor.Later c'.floor := by
  induction h with
  | refl => exact .refl _
  | tail _ hm ih => exact ih.trans hm.later

theorem Dispatched.steady {c c' : Case} {outcome : Outcome} (h : Dispatched c outcome c') :
    c.floor.Steady c'.floor := by
  cases h <;> exact ⟨rfl, rfl⟩

theorem Move.steady {c c' : Case} (h : Move c c') : c.floor.Steady c'.floor := by
  cases h with
  | dispatched hd => exact hd.steady
  | excluded => exact .refl _
  | closed =>
      refine .trans ?_ (.settle _ _)
      exact ⟨rfl, rfl⟩
  | settled => exact .settle _ _

theorem Moves.steady {c c' : Case} (h : Moves c c') : c.floor.Steady c'.floor := by
  induction h with
  | refl => exact .refl _
  | tail _ hm ih => exact ih.trans hm.steady

theorem Resumed.steady {radii : Radii} {c c' : Case} (h : Resumed radii c c') :
    c.floor.Steady c'.floor := by
  cases h <;> exact ⟨rfl, rfl⟩

theorem releaseDriver_docket (c : Case) : c.releaseDriver.docket = c.docket := by
  unfold releaseDriver
  split <;> rfl

theorem releaseDriver_later (c : Case) : c.floor.Later c.releaseDriver.floor := by
  unfold releaseDriver
  split
  · exact .refl _
  · exact ⟨Nat.le_refl _, .refl _, Fleet.markFree_known⟩

theorem releaseDriver_steady (c : Case) : c.floor.Steady c.releaseDriver.floor := by
  unfold releaseDriver
  split <;> exact ⟨rfl, rfl⟩

theorem completed_docket (c : Case) :
    c.completed.docket = { c.docket with order :=
      { c.docket.order with status := .completed, completedAt? := some c.floor.now } } := by
  unfold completed
  dsimp only
  split <;> rfl

theorem completed_later (c : Case) : c.floor.Later c.completed.floor := by
  unfold completed
  dsimp only
  split
  · exact .of_eq rfl rfl rfl
  · exact ⟨Nat.le_refl _, .refl _, Fleet.markFree_known⟩

theorem completed_steady (c : Case) : c.floor.Steady c.completed.floor := by
  unfold completed
  dsimp only
  split <;> exact ⟨rfl, rfl⟩

theorem claim_docket {driver : Uuid} {c c' : Case} {claimed : Bool}
    (h : c.claim driver = (claimed, c')) : c'.docket = c.docket := by
  rw [(claim_eq h).1]

theorem claim_later {driver : Uuid} {c c' : Case} {claimed : Bool}
    (h : c.claim driver = (claimed, c')) : c.floor.Later c'.floor := by
  unfold claim at h
  split at h
  · obtain ⟨-, rfl⟩ := Prod.mk.inj h
    exact ⟨Nat.le_refl _, .refl _, Fleet.claimTrip_known⟩
  · obtain ⟨-, rfl⟩ := Prod.mk.inj h
    exact .refl _

theorem claim_steady {driver : Uuid} {c c' : Case} {claimed : Bool}
    (h : c.claim driver = (claimed, c')) : c.floor.Steady c'.floor := by
  rw [(claim_eq h).1]
  exact ⟨rfl, rfl⟩

theorem Decided.id_eq {c c' : Case} {cmd : Command} (h : Decided c cmd c') :
    c'.docket.id = c.docket.id := by
  cases h with
  | taken _ _ _ hc =>
      rw [← claim_docket hc]
      rfl
  | withdrawn => rfl
  | recalled =>
      show (releaseDriver _).docket.id = _
      rw [releaseDriver_docket]
      rfl
  | completed =>
      rw [completed_docket]
      rfl

theorem Decided.later {c c' : Case} {cmd : Command} (h : Decided c cmd c') :
    c.floor.Later c'.floor := by
  cases h with
  | taken _ _ _ hc =>
      refine (claim_later hc).trans (.trans ?_ (.settle _ _))
      exact .of_eq rfl rfl rfl
  | withdrawn =>
      refine .trans ?_ (settle_later _)
      exact .of_eq rfl rfl rfl
  | recalled => exact .trans (releaseDriver_later (c.withdraw _)) (settle_later _)
  | completed => exact completed_later c

theorem Decided.steady {c c' : Case} {cmd : Command} (h : Decided c cmd c') :
    c.floor.Steady c'.floor := by
  cases h with
  | taken _ _ _ hc =>
      refine (claim_steady hc).trans (.trans ?_ (.settle _ _))
      exact ⟨rfl, rfl⟩
  | withdrawn =>
      refine .trans ?_ (.settle _ _)
      exact ⟨rfl, rfl⟩
  | recalled => exact .trans (releaseDriver_steady (c.withdraw _)) (.settle _ _)
  | completed => exact completed_steady c

/-! ## Dockets stay orderly -/

theorem Dispatched.orderly {c c' : Case} {outcome : Outcome}
    (h : Dispatched c outcome c') (hd : c.docket.Orderly) : c'.docket.Orderly := by
  cases h with
  | skipped => exact hd
  | offered hs =>
      obtain ⟨hp, hn, -⟩ := Docket.skipReason?_eq_none.1 hs
      exact hd.offered (Docket.isPending_iff.1 hp) hn rfl
  | searching | exhausted => exact hd.congr rfl rfl

theorem Resumed.orderly {radii : Radii} {c c' : Case} (h : Resumed radii c c')
    (hd : c.docket.Orderly) : c'.docket.Orderly := by
  cases h with
  | offered hp hn => exact (hd.offered (Docket.isPending_iff.1 hp) hn rfl).congr rfl rfl
  | abandoned | exhausted | widened => exact hd.congr rfl rfl

theorem Move.orderly {c c' : Case} (h : Move c c') (hd : c.docket.Orderly) :
    c'.docket.Orderly := by
  cases h with
  | dispatched h => exact h.orderly hd
  | excluded driver =>
      exact hd.congr (Docket.exclude_order _ _) (Docket.exclude_offers _ _)
  | closed hl ho hs =>
      have hs' := hs.imp_right And.left
      exact (hd.turnedDown hl ho hs').congr (Docket.exclude_order _ _)
        (Docket.exclude_offers _ _)
  | settled => exact hd

theorem Moves.orderly {c c' : Case} (h : Moves c c') (hd : c.docket.Orderly) :
    c'.docket.Orderly := by
  induction h with
  | refl => exact hd
  | tail _ hm ih => exact hm.orderly ih

theorem withdraw_orderly {c : Case} (hd : c.docket.Orderly)
    (cancellation : Order.Cancellation) : (c.withdraw cancellation).docket.Orderly := by
  have hstage : Order.Status.cancelled = .confirmed ∨ Order.Status.cancelled = .completed →
      c.docket.order.status = .confirmed ∨ c.docket.order.status = .completed := by
    rintro (h | h) <;> cases h
  have h := hd.closed
    { c.docket.order with status := .cancelled, cancellation? := some cancellation }
    rfl (fun h => by cases h) hstage
  exact h.congr rfl rfl

theorem Decided.orderly {c c' : Case} {cmd : Command} (h : Decided c cmd c')
    (hd : c.docket.Orderly) : c'.docket.Orderly := by
  cases h with
  | taken _ hl _ hc =>
      rw [← claim_docket hc] at hd hl
      exact (hd.confirmed rfl rfl).congr rfl rfl
  | withdrawn => exact withdraw_orderly hd _
  | recalled =>
      show (releaseDriver _).docket.Orderly
      rw [releaseDriver_docket]
      exact withdraw_orderly hd _
  | completed hp =>
      rw [completed_docket]
      exact hd.closed _ rfl (fun h => by cases h) fun _ => .inl hp

end Case

end Hailing
