import Mathlib.Data.List.Infix
import Mathlib.Data.List.Pairwise
import Hailing.Proofs.Stages

/-!
# The offers of an order, and their times

The offers on a docket are a record. New ones are entered at the end, an offer
that is out gets its outcome where it stands (`Offer.Becomes`), and nothing
else is ever written into one; this is so whatever the clock on the wall shows.

The times that are entered beside it are right as long as the clock is not set
back. Then all that is on a docket was entered before now (`Docket.Timed`), so
what is entered now comes last: an offer is made after the answer to the one
before it, as that one is not out any more, and the trip is over after its
driver has accepted it. The clock is read again and again on the way, also
within one command: an offer that runs out and the next one have two readings.
So it is shown of a docket by itself, on which any number of steps follow each
other at readings that never go back (`Docket.History`), and a desk whose clock
never goes back is one that leads to such dockets (`run_dated`).
-/

namespace Hailing

open Time (Instant Span)

/-- What may have become of an offer. -/
inductive Offer.Becomes (o : Offer) : Offer → Prop
  | same : Becomes o o
  | closed {status : Offer.Status} (moment : Instant) (ho : o.status = .requested)
      (hs : status ≠ .requested) : Becomes o (o.closed status moment)

theorem Offer.Becomes.trans {a b c : Offer} (h₁ : a.Becomes b) (h₂ : b.Becomes c) :
    a.Becomes c := by
  cases h₁ with
  | same => exact h₂
  | closed _ hreq hs =>
      cases h₂ with
      | same => exact .closed _ hreq hs
      | closed _ ho => exact absurd ho hs

/-- Only the completion enters a time. -/
theorem Order.Advance.times {o o' : Order} {moment : Instant} {cmd : Command}
    (h : o.Advance moment cmd o') : o'.createdAt = o.createdAt ∧
      (o'.completedAt? = o.completedAt? ∨ o'.completedAt? = some moment) := by
  cases h with
  | confirmed | cancelled => exact ⟨rfl, .inl rfl⟩
  | completed => exact ⟨rfl, .inr rfl⟩

namespace Docket

/-- The offers that were on the docket are still there, each at its place. -/
def Extends (d d' : Docket) : Prop :=
  ∀ (place : Nat) (offer : Offer), d.offers[place]? = some offer →
    ∃ offer', d'.offers[place]? = some offer' ∧ offer.Becomes offer'

/-- The offers that have an outcome are those with the time of an answer. -/
def Marked (d : Docket) : Prop :=
  ∀ o ∈ d.offers, (o.respondedAt?.isSome = true ↔ o.status ≠ .requested)

/-- The times on a docket are in order, and none is later than a moment. -/
structure Timed (window : Span) (moment : Instant) (d : Docket) : Prop where
  created : d.order.createdAt ≤ moment
  requested : ∀ o ∈ d.offers, d.order.createdAt ≤ o.requestedAt ∧ o.requestedAt ≤ moment
  responded : ∀ o ∈ d.offers, ∀ t, o.respondedAt? = some t → o.requestedAt ≤ t ∧ t ≤ moment
  apart : d.offers.Pairwise fun a b => ∃ t, a.respondedAt? = some t ∧ t ≤ b.requestedAt
  late : ∀ o ∈ d.offers, o.status = .timeout →
    ∃ t, o.respondedAt? = some t ∧ window ≤ t - o.requestedAt
  ended : ∀ t, d.order.completedAt? = some t → t ≤ moment ∧
    ∀ o ∈ d.offers, o.status = .accepted → ∃ s, o.respondedAt? = some s ∧ s ≤ t

/-! ## What is entered on a docket -/

/-- What a step enters on a docket at a moment: nothing, an offer at the end,
or the answer to the last one. -/
inductive Enters (window : Span) (moment : Instant) (d d' : Docket) : Prop
  | nothing (h : d'.offers = d.offers)
  | offer {offer : Offer} (hp : d.order.status = .pending) (hn : d.hasOutstanding = false)
      (hs : offer.status = .requested) (ht : offer.requestedAt = moment)
      (hr : offer.respondedAt? = none) (h : d'.offers = d.offers ++ [offer])
  | answer {offer : Offer} {status : Offer.Status} (hl : d.offers.getLast? = some offer)
      (ho : offer.status = .requested) (hs : status ≠ .requested)
      (hx : status = .timeout → window ≤ moment - offer.requestedAt)
      (ha : status = .accepted → d.order.status = .pending)
      (h : d'.offers = d.offers.dropLast ++ [offer.closed status moment])

/-- What a step makes of the order of a docket. -/
def Restages (moment : Instant) (d d' : Docket) : Prop :=
  d'.order = d.order ∨ ∃ cmd, d.order.Advance moment cmd d'.order

variable {window : Span} {moment : Instant} {d d' : Docket}

theorem Enters.extends (h : Enters window moment d d') : d.Extends d' := by
  intro place old hat
  cases h with
  | nothing h => exact ⟨old, by rw [h, hat], .same⟩
  | offer _ _ _ _ _ h =>
      have hlt := (List.getElem?_eq_some_iff.1 hat).1
      exact ⟨old, by rw [h, List.getElem?_append_left hlt, hat], .same⟩
  | answer hl ho hs _ _ h =>
      rw [offers_eq_of_last hl] at hat
      rw [h]
      rcases Nat.lt_or_ge place d.offers.dropLast.length with hlt | hge
      · rw [List.getElem?_append_left hlt] at hat ⊢
        exact ⟨old, hat, .same⟩
      · rw [List.getElem?_append_right hge, List.getElem?_singleton] at hat ⊢
        split at hat
        · next hzero =>
            obtain rfl := Option.some.inj hat
            exact ⟨_, if_pos hzero, .closed moment ho hs⟩
        · cases hat

/-- An answer touches no offer but the last. -/
theorem mem_answered {o offer : Offer} {status : Offer.Status}
    (h : o ∈ (d.answered offer status moment).offers) :
    o ∈ d.offers ∨ o = offer.closed status moment := by
  rcases List.mem_append.1 h with h | h
  · exact .inl (List.mem_of_mem_dropLast h)
  · exact .inr (List.mem_singleton.1 h)

theorem Enters.marked (h : Enters window moment d d') (hm : d.Marked) : d'.Marked := by
  intro o ho
  cases h with
  | nothing h => exact hm o (h ▸ ho)
  | offer _ _ hs _ hr h =>
      rw [h, List.mem_append, List.mem_singleton] at ho
      rcases ho with ho | rfl
      · exact hm o ho
      · simp [hs, hr]
  | answer _ _ hs _ _ h =>
      rw [h] at ho
      rcases mem_answered ho with ho | rfl
      · exact hm o ho
      · simp [Offer.closed, hs]

/-! ## The times are in order -/

theorem Marked.exists_time (h : d.Marked) {o : Offer} (hm : o ∈ d.offers)
    (hs : o.status ≠ .requested) : ∃ t, o.respondedAt? = some t :=
  Option.isSome_iff_exists.1 ((h o hm).2 hs)

theorem Timed.new {record : Order} (hc : record.completedAt? = none) :
    (Docket.new record).Timed window record.createdAt where
  created := Instant.le_refl _
  requested _ hm := by cases hm
  responded _ hm := by cases hm
  apart := .nil
  late _ hm := by cases hm
  ended t ht := by
    rw [show (Docket.new record).order.completedAt? = none from hc] at ht
    cases ht

theorem Timed.later {moment' : Instant} (h : d.Timed window moment) (hle : moment ≤ moment') :
    d.Timed window moment' where
  created := Instant.le_trans h.created hle
  requested o hm := (h.requested o hm).imp_right fun ht => Instant.le_trans ht hle
  responded o hm t ht := (h.responded o hm t ht).imp_right fun hr => Instant.le_trans hr hle
  apart := h.apart
  late := h.late
  ended t ht := (h.ended t ht).imp_left fun hr => Instant.le_trans hr hle

/-- An offer that is made now comes after the answers to all others. -/
theorem Timed.offered (h : d.Timed window moment) (hd : d.Orderly) (hm : d.Marked)
    (hp : d.order.status = .pending) (hn : d.hasOutstanding = false) {offer : Offer}
    (hs : offer.status = .requested) (ht : offer.requestedAt = moment)
    (hr : offer.respondedAt? = none) :
    Timed window moment { d with offers := d.offers ++ [offer] } where
  created := h.created
  requested o ho := by
    rcases List.mem_append.1 ho with ho | ho
    · exact h.requested o ho
    · obtain rfl := List.mem_singleton.1 ho
      rw [ht]
      exact ⟨h.created, Instant.le_refl _⟩
  responded o ho t hat := by
    rcases List.mem_append.1 ho with ho | ho
    · exact h.responded o ho t hat
    · obtain rfl := List.mem_singleton.1 ho
      rw [hr] at hat
      cases hat
  apart := by
    refine List.pairwise_append.2 ⟨h.apart, List.pairwise_singleton _ _, fun a ha b hb => ?_⟩
    obtain rfl := List.mem_singleton.1 hb
    have hdown := hd.turnedDown_of_waiting hp hn a ha
    have hanswered : a.status ≠ .requested := by rcases hdown with hs | hs <;> simp [hs]
    obtain ⟨t, hat⟩ := hm.exists_time ha hanswered
    exact ⟨t, hat, ht ▸ (h.responded a ha t hat).2⟩
  late o ho hlate := by
    rcases List.mem_append.1 ho with ho | ho
    · exact h.late o ho hlate
    · obtain rfl := List.mem_singleton.1 ho
      rw [hs] at hlate
      cases hlate
  ended t ht := by
    refine (h.ended t ht).imp_right fun hended o ho ha => ?_
    rcases List.mem_append.1 ho with ho | ho
    · exact hended o ho ha
    · obtain rfl := List.mem_singleton.1 ho
      rw [hs] at ha
      cases ha

/-- The last offer is answered now. -/
theorem Timed.answered (h : d.Timed window moment) (hf : d.order.Filled) {offer : Offer}
    {status : Offer.Status} (hl : d.offers.getLast? = some offer)
    (hx : status = .timeout → window ≤ moment - offer.requestedAt)
    (ha : status = .accepted → d.order.status = .pending) :
    (d.answered offer status moment).Timed window moment where
  created := h.created
  requested o ho := by
    rcases mem_answered ho with ho | rfl
    · exact h.requested o ho
    · exact h.requested offer (List.mem_of_getLast? hl)
  responded o ho t hat := by
    rcases mem_answered ho with ho | rfl
    · exact h.responded o ho t hat
    · obtain rfl := Option.some.inj hat
      exact ⟨(h.requested offer (List.mem_of_getLast? hl)).2, Instant.le_refl _⟩
  apart := by
    have happart := h.apart
    rw [offers_eq_of_last hl, List.pairwise_append] at happart
    refine List.pairwise_append.2
      ⟨happart.1, List.pairwise_singleton _ _, fun a hmem b hb => ?_⟩
    obtain rfl := List.mem_singleton.1 hb
    exact happart.2.2 a hmem offer (List.mem_singleton_self _)
  late o ho hlate := by
    rcases mem_answered ho with ho | rfl
    · exact h.late o ho hlate
    · exact ⟨moment, rfl, hx hlate⟩
  ended t ht := by
    refine (h.ended t ht).imp_right fun hended o ho hacc => ?_
    rcases mem_answered ho with ho | rfl
    · exact hended o ho hacc
    · -- An order that is completed does not wait to be accepted.
      have hcompleted := hf.completed.1 (by rw [show d.order.completedAt? = some t from ht]; rfl)
      rw [ha hacc] at hcompleted
      cases hcompleted

/-- The order moves on now. -/
theorem Timed.restaged (h : d.Timed window moment) (hm : d.Marked) {o : Order}
    (hc : o.createdAt = d.order.createdAt)
    (hd : o.completedAt? = d.order.completedAt? ∨ o.completedAt? = some moment) :
    Timed window moment { d with order := o } where
  created := hc ▸ h.created
  requested := hc ▸ h.requested
  responded := h.responded
  apart := h.apart
  late := h.late
  ended t ht := by
    rcases hd with hd | hd
    · exact h.ended t (hd ▸ ht)
    · obtain rfl := Option.some.inj (hd.symm.trans ht)
      refine ⟨Instant.le_refl _, fun a ha hs => ?_⟩
      obtain ⟨s, hat⟩ := hm.exists_time ha (by simp [hs])
      exact ⟨s, hat, (h.responded a ha s hat).2⟩

theorem Enters.timed (h : Enters window moment d d') (hd : d.Orderly) (hf : d.order.Filled)
    (hm : d.Marked) (ht : d.Timed window moment) :
    Timed window moment { d with offers := d'.offers } := by
  cases h with
  | nothing h => exact h ▸ ht
  | offer hp hn hs hreq hr h =>
      rw [h]
      exact ht.offered hd hm hp hn hs hreq hr
  | answer hl _ _ hx ha h =>
      rw [h]
      exact ht.answered hf hl hx ha

theorem Restages.timed (h : Restages moment d d') (hm : d.Marked) (ht : d.Timed window moment) :
    Timed window moment { d with order := d'.order } := by
  rcases h with h | ⟨cmd, h⟩
  · exact h ▸ ht
  · exact ht.restaged hm h.times.1 h.times.2

/-- Only the order and its offers count. -/
theorem Timed.congr (h : d.Timed window moment) (ho : d'.order = d.order)
    (hf : d'.offers = d.offers) : d'.Timed window moment := by
  refine ⟨?_, ?_, ?_, ?_, ?_, ?_⟩
  all_goals
    try rw [ho]
    try rw [hf]
  · exact h.created
  · exact h.requested
  · exact h.responded
  · exact h.apart
  · exact h.late
  · exact h.ended

/-- The times stay in order with a step that is taken at the latest of them. -/
theorem Timed.step (ht : d.Timed window moment) (hd : d.Orderly) (hf : d.order.Filled)
    (hm : d.Marked) (he : Enters window moment d d') (hr : Restages moment d d') :
    d'.Timed window moment := by
  have hentered : Timed window moment { d with offers := d'.offers } := he.timed hd hf hm ht
  have hmarked : Marked { d with offers := d'.offers } := he.marked hm
  have hstage : Restages moment { d with offers := d'.offers } d' := hr
  exact (hstage.timed hmarked hentered).congr rfl rfl

/-- A window that the calendar cannot reach runs out for nobody. -/
theorem Timed.of_wait {ms : Nat} (h : d.Timed (.ofWait ms) moment) :
    d.Timed (.ofMillis ms) moment where
  created := h.created
  requested := h.requested
  responded := h.responded
  apart := h.apart
  late o ho hs := by
    obtain ⟨t, hat, hle⟩ := h.late o ho hs
    exact ⟨t, hat, Instant.wait_le_sub hle⟩
  ended := h.ended

end Docket

namespace Case

theorem Dispatched.enters {c c' : Case} {outcome : Outcome} (h : Dispatched c outcome c') :
    Docket.Enters c.floor.settings.offerSpan c.floor.now c.docket c'.docket := by
  cases h with
  | skipped | searching | exhausted => exact .nothing rfl
  | offered hs =>
      obtain ⟨hp, hn, -⟩ := Docket.skipReason?_eq_none.1 hs
      exact .offer (Docket.isPending_iff.1 hp) hn rfl rfl rfl rfl

theorem Resumed.enters {radii : Radii} {c c' : Case} (h : Resumed radii c c') :
    Docket.Enters c.floor.settings.offerSpan c.floor.now c.docket c'.docket := by
  cases h with
  | abandoned | exhausted | widened => exact .nothing rfl
  | offered hp hn => exact .offer (Docket.isPending_iff.1 hp) hn rfl rfl rfl rfl

theorem Move.enters {c c' : Case} (h : Move c c') :
    Docket.Enters c.floor.settings.offerSpan c.floor.now c.docket c'.docket := by
  cases h with
  | dispatched hd => exact hd.enters
  | excluded driver => exact .nothing (Docket.exclude_offers _ _)
  | settled => exact .nothing rfl
  | closed hl ho hs =>
      refine .answer hl (Offer.isOutstanding_iff.1 ho) ?_ ?_ ?_ (Docket.exclude_offers _ _)
      · rcases hs with rfl | ⟨rfl, -⟩ <;> decide
      · intro htimeout
        rcases hs with rfl | ⟨-, hx⟩
        · cases htimeout
        · rw [Offer.isExpired, Bool.and_eq_true, decide_eq_true_eq] at hx
          exact hx.2
      · rintro rfl
        rcases hs with hs | ⟨hs, -⟩ <;> cases hs

theorem Decided.enters {c c' : Case} {cmd : Command} (h : Decided c cmd c') :
    Docket.Enters c.floor.settings.offerSpan c.floor.now c.docket c'.docket := by
  cases h with
  | @taken offer c₁ hp hl ho hc =>
      have hnow := (claim_steady hc).now_eq
      have hs : Offer.Status.accepted ≠ .requested := by decide
      refine .answer hl (Offer.isOutstanding_iff.1 ho) hs (fun h => by cases h) (fun _ => hp) ?_
      show (c₁.docket.answered offer .accepted c₁.floor.now).offers = _
      rw [claim_docket hc, hnow]
      rfl
  | withdrawn => exact .nothing rfl
  | recalled =>
      refine .nothing ?_
      show (releaseDriver _).docket.offers = _
      rw [releaseDriver_docket]
      rfl
  | completed =>
      refine .nothing ?_
      rw [completed_docket]

theorem extends_law : Law Docket.Extends where
  refl _ := fun _ offer hat => ⟨offer, hat, .same⟩
  trans h₁ h₂ := by
    intro place offer hat
    obtain ⟨offer₁, hat₁, hb₁⟩ := h₁ place offer hat
    obtain ⟨offer₂, hat₂, hb₂⟩ := h₂ place offer₁ hat₁
    exact ⟨offer₂, hat₂, hb₁.trans hb₂⟩
  moved _ hm := hm.enters.extends
  decided _ hd := hd.enters.extends
  resumed _ hr := hr.enters.extends

theorem marked_law : Law fun a b => a.Marked → b.Marked where
  refl _ h := h
  trans h₁ h₂ h := h₂ (h₁ h)
  moved _ hm := hm.enters.marked
  decided _ hd := hd.enters.marked
  resumed _ hr := hr.enters.marked

end Case

/-! ## A docket and a clock

What has become of a docket by a moment. It was new at first, and the steps
that followed were each taken at what the clock showed then, which was never
less than what it had shown before. -/

inductive Docket.History (settings : Settings) : Instant → Docket → Prop
  | entered {record : Order} (hr : Desk.Drafted record) :
      History settings record.createdAt (.new record)
  | waited {t t' : Instant} {d : Docket} (h : History settings t d) (hle : t ≤ t') :
      History settings t' d
  | moved {c c' : Case} (hs : c.floor.settings = settings)
      (h : History settings c.floor.now c.docket) (hm : Case.Move c c') :
      History settings c.floor.now c'.docket
  | resumed {c c' : Case} {radii : Radii} (hs : c.floor.settings = settings)
      (h : History settings c.floor.now c.docket) (hr : Case.Resumed radii c c') :
      History settings c.floor.now c'.docket
  | decided {c c' : Case} {cmd : Command} (hs : c.floor.settings = settings)
      (h : History settings c.floor.now c.docket) (hd : Case.Decided c cmd c') :
      History settings c.floor.now c'.docket

namespace Docket.History

variable {settings : Settings} {moment : Instant} {d : Docket}

theorem orderly (h : d.History settings moment) : d.Orderly := by
  induction h with
  | entered hr =>
      obtain ⟨_, _, _, rfl⟩ := hr
      exact .new _ rfl rfl
  | waited _ _ ih => exact ih
  | moved _ _ hm ih => exact hm.orderly ih
  | resumed _ _ hr ih => exact hr.orderly ih
  | decided _ _ hd ih => exact hd.orderly ih

/-- A property that new dockets have and steps keep. -/
theorem holds {P : Docket → Prop} (hR : Case.Law fun a b => P a → P b)
    (hnew : ∀ record, Desk.Drafted record → P (.new record)) (h : d.History settings moment) :
    P d := by
  induction h with
  | entered hr => exact hnew _ hr
  | waited _ _ ih => exact ih
  | moved _ h hm ih => exact hR.moved h.orderly hm ih
  | resumed _ h hr ih => exact hR.resumed h.orderly hr ih
  | decided _ h hd ih => exact hR.decided h.orderly hd ih

theorem filled (h : d.History settings moment) : d.order.Filled :=
  h.holds (P := fun d => d.order.Filled) Case.filled_law fun _ hr => hr.filled

theorem marked (h : d.History settings moment) : d.Marked :=
  h.holds Case.marked_law fun _ _ _ hm => by cases hm

theorem timed (h : d.History settings moment) : d.Timed settings.offerSpan moment := by
  induction h with
  | entered hr =>
      obtain ⟨_, _, _, rfl⟩ := hr
      exact .new rfl
  | waited _ hle ih => exact ih.later hle
  | moved hs h hm ih =>
      subst hs
      exact ih.step h.orderly h.filled h.marked hm.enters (.inl hm.order_eq)
  | resumed hs h hr ih =>
      subst hs
      exact ih.step h.orderly h.filled h.marked hr.enters (.inl hr.order_eq)
  | decided hs h hd ih =>
      subst hs
      exact ih.step h.orderly h.filled h.marked hd.enters (.inr ⟨_, hd.advances⟩)

end Docket.History

theorem Case.Moves.history {c c' : Case} (hms : Moves c c')
    (h : c.docket.History c.floor.settings c.floor.now) :
    c'.docket.History c.floor.settings c.floor.now := by
  induction hms with
  | refl => exact h
  | tail hms hm ih =>
      have hsteady := Moves.steady hms
      rw [← hsteady.now_eq] at ih ⊢
      exact .moved hsteady.settings ih hm

namespace Desk

/-! ## Runs in which the clock is never set back -/

/-- The clock on the wall is never set back in a run. -/
def isForward : List Command → Desk → Bool
  | [], _ => true
  | cmd :: rest, desk => decide (desk.now ≤ (desk.after cmd).now) && isForward rest (desk.after cmd)

/-- Every docket has its history up to now. -/
def Dated (desk : Desk) : Prop :=
  ∀ order docket, desk.docket? order = some docket → docket.History desk.settings desk.now

section Dated

variable {desk desk' : Desk}

theorem Dated.later (h : desk.Dated) (hd : desk'.dockets = desk.dockets)
    (hs : desk'.settings = desk.settings) (hle : desk.now ≤ desk'.now) : desk'.Dated := by
  intro order docket hf
  rw [docket?_congr hd] at hf
  rw [hs]
  exact (h order docket hf).waited hle

theorem Dated.putBack (h : desk.Dated) {c : Case} (hf : desk.floor.Steady c.floor)
    (hc : c.docket.History desk.settings desk.now) : (desk.putBack c).Dated := by
  intro order found hfound
  rw [show (desk.putBack c).settings = desk.settings from hf.settings,
    show (desk.putBack c).now = desk.now from hf.now_eq]
  rcases docket?_putBack_cases hfound with ⟨-, rfl⟩ | ⟨-, hfound⟩
  · exact hc
  · exact h order found hfound

theorem Move.dated (h : Move desk desk') (hd : desk.Dated) : desk'.Dated := by
  cases h with
  | worked hf hm => exact hd.putBack (Case.Moves.steady hm) (Case.Moves.history hm (hd _ _ hf))
  | @entered request hr =>
      have hsteady := enter_steady (desk.draftOrder request) desk
      intro order found hfound
      rw [show (desk.enter _).settings = desk.settings from hsteady.settings,
        show (desk.enter _).now = desk.now from hsteady.now_eq]
      rw [docket?_enter] at hfound
      split at hfound
      · obtain rfl := Option.some.inj hfound
        exact .entered ⟨desk, request, hr, rfl⟩
      · exact hd order found hfound
  | reported | madeAvailable | sweepCounted => exact hd

theorem Moves.dated (h : Moves desk desk') (hd : desk.Dated) : desk'.Dated := by
  induction h with
  | refl => exact hd
  | tail _ hm ih => exact hm.dated ih

theorem Turn.dated {cmd : Command} (h : Turn desk cmd desk') (hle : desk.now ≤ desk'.now)
    (hd : desk.Dated) : desk'.Dated := by
  cases h with
  | passed _ hm => exact Moves.dated hm.moves hd
  | decided hf _ hc => exact hd.putBack hc.steady (.decided rfl (hd _ _ hf) hc)
  | @woken place _ _ _ _ hf hr =>
      have htaken : (desk.takeSearch place).Dated := hd.later rfl rfl (Instant.le_refl _)
      exact htaken.putBack hr.steady (.resumed rfl (hd _ _ hf) hr)
  | lost | claimed | freed => exact hd
  | clockSet => exact hd.later rfl rfl hle

theorem run_dated {desk : Desk} (hs : desk.Sound) (hd : desk.Dated) {cmds : List Command}
    (hf : desk.isForward cmds = true) : (desk.run cmds).Dated := by
  induction cmds generalizing desk with
  | nil => exact hd
  | cons cmd rest ih =>
      rw [isForward, Bool.and_eq_true, decide_eq_true_eq] at hf
      have hturn := after_turn hs cmd
      exact ih (hturn.sound hs) (hturn.dated hf.1 hd) hf.2

end Dated

/-- With every step of a run the offers of an order stay where they are on its
docket, an offer that was out may get its outcome and the time of the answer,
and new ones come after them; and after every run the offers with such a time
are those that are not out any more. If the clock on the wall is never set back
in the run, then the times on every docket are in order: the order was created
before its offers were made, each offer was made before it was answered, and
answered before the next one was made; one that was closed because its time had
run out was out for the whole window; and a trip was over after its driver had
accepted it. This is so for every docket on which steps follow each other, even
if the clock goes on between any two of them. -/
theorem offers_are_kept_in_order (settings : Settings) (start : Instant) (cmds : List Command)
    (hi : ((opening settings start).run cmds).floor.issued ≤ Uuid.capacity) :
    (∀ before cmd rest order docket, cmds = before ++ cmd :: rest →
      ((opening settings start).run before).docket? order = some docket →
      ∃ docket', (((opening settings start).run before).after cmd).docket? order = some docket' ∧
        docket.Extends docket') ∧
    (∀ order docket, ((opening settings start).run cmds).docket? order = some docket →
      docket.Marked) ∧
    ((opening settings start).isForward cmds = true →
      ∀ order docket, ((opening settings start).run cmds).docket? order = some docket →
        docket.History settings ((opening settings start).run cmds).now ∧
        docket.Timed (.ofMillis settings.offerWindow) ((opening settings start).run cmds).now) ∧
    ∀ (moment : Instant) (docket : Docket), docket.History settings moment →
      docket.Timed (.ofMillis settings.offerWindow) moment := by
  have hopen := opening_sound settings start
  refine ⟨?_, fun order docket hd => ?_, fun hf order docket hd => ?_, fun moment docket h =>
    h.timed.of_wait⟩
  · rintro before cmd rest order docket rfl hd
    obtain ⟨hs, hturn, hle⟩ := run_split hopen hi
    rw [run_concat] at hturn hle
    exact hturn.carries Case.extends_law hs hle hd
  · exact run_docket Case.marked_law (fun record _ o hm => by cases hm) hi hd
  · have hdated := run_dated hopen (fun order docket hd => by cases hd) hf
    have hhistory := hdated order docket hd
    rw [run_settings hopen] at hhistory
    exact ⟨hhistory, hhistory.timed.of_wait⟩

/-- Half a minute goes by before the order is cancelled. -/
theorem offers_are_kept_in_order_trial :
    let cmds := trialRun.take 3 ++ .setClock ⟨trialStart, 30000, 0⟩ :: trialRun.drop 3
    ((opening {} trialStart).run cmds).floor.issued ≤ Uuid.capacity ∧
      (opening {} trialStart).isForward cmds = true ∧
      ∃ docket, ((opening {} trialStart).run cmds).docket? trialOrder = some docket ∧
        docket.Marked ∧ docket.Timed (.ofMillis 25000) ((opening {} trialStart).run cmds).now := by
  intro cmds
  have hi : ((opening {} trialStart).run cmds).floor.issued ≤ Uuid.capacity := by
    decide +kernel
  have hf : (opening {} trialStart).isForward cmds = true := by decide +kernel
  have hsome : (((opening {} trialStart).run cmds).docket? trialOrder).isSome = true := by
    decide +kernel
  obtain ⟨docket, hd⟩ := Option.isSome_iff_exists.1 hsome
  obtain ⟨-, hmarked, htimed, -⟩ := offers_are_kept_in_order {} trialStart cmds hi
  exact ⟨hi, hf, docket, hd, hmarked trialOrder docket hd, (htimed hf trialOrder docket hd).2⟩

end Desk

end Hailing
