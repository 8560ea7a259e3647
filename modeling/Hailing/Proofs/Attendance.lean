import Hailing.Proofs.Watching

/-!
# No order is forgotten

An order that waits is seen to in one of three ways: a driver has been asked,
a search is asleep, or its last search came to nothing and the sweep will try
again. Nothing else would notice an order that is in none of the three.

That an order is seen to at all (`Attended`) is not kept by every move: while
an offer is being turned down, nobody is asked and nothing is asleep. It is
the command as a whole that sees to the order again, provided it does not
break down on the way, because every dispatch ends in one of the three ways.
That the three exclude each other is for the flag of the docket to say
(`Docket.Watched`).
-/

namespace Hailing

open Geo (Point)
open Time (Instant)

/-- If the order waits, something is under way for it or was. -/
def Docket.Attended (d : Docket) : Prop :=
  d.isPending = true →
    d.hasOutstanding = true ∨ d.searching = true ∨ d.lastSearchEnded?.isSome = true

namespace Case

theorem attended_of_over {d : Docket} (hp : d.isPending = false) : d.Attended :=
  fun hw => absurd (hp.symm.trans hw) (by decide)

/-- A dispatch ends with an offer, a search asleep, or a search that is over. -/
theorem Dispatched.attended {c c' : Case} {outcome : Outcome}
    (h : Dispatched c outcome c') : c'.docket.Attended := by
  intro hp
  cases h with
  | skipped hs =>
      cases ho : c.docket.hasOutstanding with
      | true => exact .inl rfl
      | false =>
          cases hsearch : c.docket.searching with
          | true => exact .inr (.inl rfl)
          | false =>
              rw [Docket.skipReason?_eq_none.2 ⟨hp, ho, hsearch⟩] at hs
              cases hs
  | offered => exact .inl (by simp [makeOffer, draftOffer, Docket.hasOutstanding,
      Offer.isOutstanding])
  | searching => exact .inr (.inl rfl)
  | exhausted => exact .inr (.inr rfl)

theorem Resumed.attended {radii : Radii} {c c' : Case} (h : Resumed radii c c')
    (ha : c.docket.Attended) : c'.docket.Attended := by
  intro hp
  cases h with
  | abandoned | exhausted => exact .inr (.inr rfl)
  | offered => exact .inl (by simp [makeOffer, draftOffer, stopSearch, onDocket,
      Docket.hasOutstanding, Offer.isOutstanding])
  | widened => exact ha hp

theorem Decided.attended {c c' : Case} {cmd : Command} (h : Decided c cmd c') :
    c'.docket.Attended := by
  cases h with
  | taken | withdrawn => exact attended_of_over rfl
  | recalled =>
      refine attended_of_over ?_
      show (releaseDriver _).docket.isPending = false
      rw [releaseDriver_docket]
      rfl
  | completed =>
      refine attended_of_over ?_
      rw [completed_docket]
      rfl

theorem Decides.attended {α : Type} {cmd : Command} {c : Case} {result : Answer α × Case}
    (h : Decides cmd c result) (ha : c.docket.Attended) : result.2.docket.Attended := by
  rcases h with ⟨_, rfl⟩ | ⟨_, _, rfl, hc⟩
  · exact ha
  · exact hc.attended

theorem dispatch_attended {c : Case} (hb : (Answer.ofExcept c.dispatch.1).isBroken = false) :
    c.dispatch.2.docket.Attended := by
  rcases dispatch_cases c with ⟨_, h⟩ | ⟨_, c', h, hd⟩
  · rw [h] at hb
    cases hb
  · rw [h]
    exact hd.attended

theorem Expired.attended {report report' : SweepReport} {c c' : Case}
    (h : Expired report c (.ok report') c') (ha : c.docket.Attended) :
    c'.docket.Attended := by
  cases h with
  | none => exact ha
  | kept _ _ hp => exact attended_of_over (drop_isPending.trans hp)
  | reassigned _ _ _ hd => exact hd.attended

theorem Retried.attended {report report' : SweepReport} {c c' : Case}
    (h : Retried report c (.ok report') c') (ha : c.docket.Attended) :
    c'.docket.Attended := by
  cases h with
  | none => exact ha
  | redispatched _ _ hd => exact hd.attended

theorem sweep_attended (report : SweepReport) {c : Case} (ho : c.docket.OneOpen)
    (ha : c.docket.Attended) (hb : ∀ breakdown, (c.sweep report).1 ≠ .error breakdown) :
    (c.sweep report).2.docket.Attended := by
  rcases sweep_cases ho report with ⟨_, _, hs, -⟩ | ⟨_, _, he, ⟨_, _, hs, -⟩ | ⟨_, _, hr, hs⟩⟩
  · exact absurd (congrArg Prod.fst hs) (hb _)
  · exact absurd (congrArg Prod.fst hs) (hb _)
  · rw [hs]
    exact hr.attended (he.attended ha)

theorem retry_attended {c : Case} (ha : c.docket.Attended)
    (hb : c.retry.1.isBroken = false) : c.retry.2.docket.Attended := by
  unfold retry at hb ⊢
  split at hb
  · next hp =>
      rw [if_pos hp]
      exact ha
  · next hp =>
      rw [if_neg hp]
      exact dispatch_attended hb

theorem reject_attended {driver : Uuid} {c : Case} (ho : c.docket.OneOpen)
    (ha : c.docket.Attended) (hb : (c.respond driver .reject).1.isBroken = false) :
    (c.respond driver .reject).2.docket.Attended := by
  rcases reject_cases ho driver with ⟨_, hr⟩ | ⟨offer, -, -, -, ⟨-, react, hr⟩ | ⟨hp, _, hr⟩⟩
  · rw [hr]
    exact ha
  · rw [hr, Answer.isBroken_map] at hb
    rw [hr]
    exact dispatch_attended hb
  · rw [hr]
    exact attended_of_over (drop_isPending.trans hp)

end Case

namespace Desk

/-! ## A command sees to the orders -/

def Attended (desk : Desk) : Prop :=
  ∀ order docket, desk.docket? order = some docket → docket.Attended

theorem Attended.putBack {desk : Desk} (h : desk.Attended) {c : Case}
    (hc : c.docket.Attended) : (desk.putBack c).Attended := by
  intro order found hf
  rcases docket?_putBack_cases hf with ⟨-, rfl⟩ | ⟨-, hf⟩
  · exact hc
  · exact h order found hf

theorem handle_attended {α : Type} {order : Uuid} {work : Case → Answer α × Case}
    {desk : Desk} (h : desk.Attended)
    (hw : ∀ docket, desk.docket? order = some docket → docket.Attended →
      (work ⟨docket, desk.floor⟩).1.isBroken = false →
      (work ⟨docket, desk.floor⟩).2.docket.Attended)
    (hb : (desk.handle order work).1.isBroken = false) :
    (desk.handle order work).2.Attended := by
  rcases handle_cases order work desk with ⟨_, heq⟩ | ⟨docket, rfl, hd, heq⟩
  · rw [heq]
    exact h
  · rw [heq] at hb ⊢
    exact h.putBack (hw docket hd (h _ docket hd) hb)

/-- A new order is not seen to before it is dispatched. -/
theorem createOrder_attended {request : Order.NewOrder} {desk : Desk} (h : desk.Attended)
    (hb : (desk.createOrder request).1.isBroken = false) :
    (desk.createOrder request).2.Attended := by
  rcases createOrder_cases request desk with ⟨_, heq⟩ | ⟨_, react, heq⟩
  · rw [heq]
    exact h
  · rw [heq] at hb ⊢
    intro order found hf
    rw [docket?_enter_putBack desk (newCase_id request desk)] at hf
    split at hf
    · obtain rfl := Option.some.inj hf
      rw [Answer.isBroken_map] at hb
      exact Case.dispatch_attended hb
    · exact h order found hf

theorem sweepOrders_attended (visited : List Uuid) (report : SweepReport) {desk : Desk}
    (hs : desk.Sound) (h : desk.Attended)
    (hb : ∀ breakdown, (sweepOrders visited report desk).1 ≠ .error breakdown) :
    (sweepOrders visited report desk).2.Attended := by
  induction visited generalizing report desk with
  | nil => exact h
  | cons order rest ih =>
      rw [sweepOrders] at hb ⊢
      split at hb
      · exact ih report hs h hb
      · next docket hf =>
          obtain rfl := id_of_docket? hf
          have ho := (hs.orderly hf).oneOpen
          have hw := Case.sweep_worked (c := ⟨docket, desk.floor⟩) ho report
          have hswept := Case.sweep_attended report (c := ⟨docket, desk.floor⟩) ho
            (h _ docket hf)
          rcases hr : (Case.mk docket desk.floor).sweep report with ⟨breakdown | report', c⟩
          · rw [hr] at hb
            exact absurd rfl (hb breakdown)
          · rw [hr] at hb hw hswept
            have hstep : Move desk (desk.putBack c) := .worked hf hw.moves
            have hdone := h.putBack (hswept fun _ he => by cases he)
            exact ih report' (hstep.sound hs) hdone hb

/-- Whatever is done, if it does not break down every order that waits is
seen to afterwards. -/
theorem after_attended {desk : Desk} (hs : desk.Sound) (h : desk.Attended) (cmd : Command)
    (hb : (desk.perform cmd).1.isBroken = false) : (desk.after cmd).Attended := by
  cases cmd with
  | create request => exact createOrder_attended h hb
  | respond order driver reply =>
      refine handle_attended h (fun docket hd ha hb => ?_) hb
      have ho := (hs.orderly hd).oneOpen
      cases reply with
      | accept => exact (Case.accept_decides ho driver).attended ha
      | reject => exact Case.reject_attended ho ha hb
  | cancel order reason text =>
      refine handle_attended h (fun docket _ ha _ => ?_) hb
      exact (Case.cancel_decides reason text ⟨docket, desk.floor⟩).attended ha
  | complete order =>
      refine handle_attended h (fun docket _ ha _ => ?_) hb
      exact (Case.complete_decides ⟨docket, desk.floor⟩).attended ha
  | dispatch order =>
      exact handle_attended h (fun docket _ _ hb => Case.dispatch_attended hb) hb
  | retry order =>
      exact handle_attended h (fun docket _ ha hb => Case.retry_attended ha hb) hb
  | reassign order driver =>
      exact handle_attended h (fun docket _ _ hb => Case.dispatch_attended hb) hb
  | report | setAvailability | claimTrip | markFree | setClock => exact h
  | sweep visited =>
      rw [perform] at hb
      rw [after, perform]
      split at hb
      · next hv =>
          rw [if_pos hv]
          have hcount : Move desk _ := .sweepCounted
          exact sweepOrders_attended visited {} (hcount.sound hs) h
            (Answer.isBroken_ofExcept.1 hb)
      · next hv =>
          rw [if_neg hv]
          exact h
  | wake place =>
      rw [after]
      cases hf : desk.floor.sleeping[place]? with
      | none =>
          rw [perform_wake_none hf]
          exact h
      | some search =>
          have htaken : (desk.takeSearch place).Attended := h
          rw [perform_wake hf] at hb ⊢
          refine handle_attended htaken (fun docket _ ha hb => ?_) hb
          rw [freely_eq] at hb ⊢
          rcases Case.resume_cases search.radii ⟨docket, (desk.takeSearch place).floor⟩ with
            ⟨_, hr⟩ | ⟨_, hr, hc⟩
          · rw [hr] at hb
            cases hb
          · rw [hr]
            exact hc.attended ha

/-! ## Whole runs -/

theorem run_attended {desk : Desk} (hs : desk.Sound) (h : desk.Attended) {cmds : List Command}
    (hw : desk.isWhole cmds = true) : (desk.run cmds).Attended := by
  induction cmds generalizing desk with
  | nil => exact h
  | cons cmd rest ih =>
      simp only [isWhole, Bool.and_eq_true, Bool.not_eq_true'] at hw
      exact ih ((after_turn hs cmd).sound hs) (after_attended hs h cmd hw.1) hw.2

/-- In the course of a run the order of a search was cancelled while the search
was asleep, and the search has been asleep ever since. -/
def CancelledAsleep (search : Search) (cmds : List Command) (desk : Desk) : Prop :=
  ∃ before reason text later, cmds = before ++ .cancel search.order reason text :: later ∧
    ((desk.run before).perform (.cancel search.order reason text)).1.isDone = true ∧
    search ∈ (desk.run before).floor.sleeping ∧
    ∀ part, part <+: later →
      search ∈ (desk.run (before ++ .cancel search.order reason text :: part)).floor.sleeping

theorem CancelledAsleep.concat {search : Search} {cmds : List Command} {desk : Desk}
    (h : CancelledAsleep search cmds desk) (cmd : Command)
    (hm : search ∈ (desk.run (cmds ++ [cmd])).floor.sleeping) :
    CancelledAsleep search (cmds ++ [cmd]) desk := by
  obtain ⟨before, reason, text, later, rfl, hdone, hfirst, hsince⟩ := h
  refine ⟨before, reason, text, later ++ [cmd], by simp, hdone, hfirst, fun part hpart => ?_⟩
  rcases List.prefix_concat_iff.1 hpart with rfl | hpart
  · simpa using hm
  · exact hsince part hpart

theorem isWhole_concat {cmds : List Command} {cmd : Command} {desk : Desk}
    (h : desk.isWhole (cmds ++ [cmd]) = true) :
    desk.isWhole cmds = true ∧ ((desk.run cmds).perform cmd).1.isBroken = false := by
  rw [isWhole_append, Bool.and_eq_true] at h
  refine ⟨h.1, ?_⟩
  simpa [isWhole] using h.2

/-- What every whole run keeps. -/
structure Tended (start : Desk) (cmds : List Command) (desk : Desk) : Prop where
  watched : desk.Watched
  attended : desk.Attended
  cancelled : ∀ {order docket}, desk.docket? order = some docket → docket.isPending = false →
    ∀ search ∈ desk.floor.asleep order, CancelledAsleep search cmds start

theorem run_tended {settings : Settings} {start : Instant} {cmds : List Command}
    (hi : ((opening settings start).run cmds).floor.issued ≤ Uuid.capacity)
    (hw : (opening settings start).isWhole cmds = true) :
    Tended (opening settings start) cmds ((opening settings start).run cmds) := by
  revert hw
  refine run_induction (P := fun cmds desk => (opening settings start).isWhole cmds = true →
    Tended (opening settings start) cmds desk) (opening_sound settings start) ?_ ?_ hi
  · intro _
    exact ⟨opening_watched settings start, (fun _ _ hf => by cases hf), fun hf => by cases hf⟩
  · intro cmds cmd hs ht hi ih hw
    obtain ⟨hbefore, hb⟩ := isWhole_concat hw
    have htended := ih hbefore
    refine ⟨ht.watched hi hb htended.watched, ?_, fun {order docket'} hd' hp' search hm => ?_⟩
    · rw [run_concat]
      exact after_attended hs htended.attended cmd hb
    · have hsleeping := (Floor.mem_asleep.1 hm).1
      obtain ⟨hm₀, ⟨docket, hd, hp⟩ | ⟨⟨reason, text, rfl⟩, hdone⟩⟩ :=
        ht.over_asleep htended.watched hd' hp' hm
      · exact (htended.cancelled hd hp search hm₀).concat cmd hsleeping
      · obtain ⟨hfirst, rfl⟩ := Floor.mem_asleep.1 hm₀
        refine ⟨cmds, reason, text, [], rfl, hdone, hfirst, fun part hpart => ?_⟩
        rw [List.prefix_nil.1 hpart]
        exact hsleeping

end Desk

/-! ## The three situations -/

/-- How an order that waits is seen to. -/
inductive Situation where
  | asked
  | searched
  | resting

/-- An order is in a situation, as its docket and the searches asleep have it. -/
def Docket.Stands (f : Floor) (d : Docket) : Situation → Prop
  | .asked =>
    d.offers.countP (·.status = .requested) = 1 ∧ d.searching = false ∧
      (f.asleep d.id).length = 0
  | .searched =>
    d.offers.countP (·.status = .requested) = 0 ∧ d.searching = true ∧
      (f.asleep d.id).length = 1
  | .resting =>
    d.offers.countP (·.status = .requested) = 0 ∧ d.searching = false ∧
      (f.asleep d.id).length = 0 ∧ d.lastSearchEnded?.isSome = true

theorem Docket.existsUnique_stands {f : Floor} {d : Docket} (ho : d.Orderly)
    (hw : d.Watched f) (ha : d.Attended) (hp : d.isPending = true) :
    ∃! situation, d.Stands f situation := by
  obtain ⟨hfree, hlen⟩ := hw.waiting hp
  have hcount := ho.countP_requested
  cases hs : d.searching with
  | true =>
      rw [hfree hs, if_neg (by decide)] at hcount
      rw [hs, if_pos rfl] at hlen
      refine ⟨.searched, ⟨hcount, hs, hlen⟩, fun other h => ?_⟩
      cases other with
      | searched => rfl
      | asked => exact absurd (hs.symm.trans h.2.1) (by decide)
      | resting => exact absurd (hs.symm.trans h.2.1) (by decide)
  | false =>
      rw [hs, if_neg (by decide)] at hlen
      cases hout : d.hasOutstanding with
      | true =>
          rw [hout, if_pos rfl] at hcount
          refine ⟨.asked, ⟨hcount, hs, hlen⟩, fun other h => ?_⟩
          cases other with
          | asked => rfl
          | searched => exact absurd (hs.symm.trans h.2.1) (by decide)
          | resting => exact absurd (hcount.symm.trans h.1) (by decide)
      | false =>
          rw [hout, if_neg (by decide)] at hcount
          have hended : d.lastSearchEnded?.isSome = true := by
            simpa [hout, hs] using ha hp
          refine ⟨.resting, ⟨hcount, hs, hlen, hended⟩, fun other h => ?_⟩
          cases other with
          | resting => rfl
          | asked => exact absurd (hcount.symm.trans h.1) (by decide)
          | searched => exact absurd (hs.symm.trans h.2.1) (by decide)

namespace Desk

/-- A search of an order that does not wait wakes up in vain. -/
theorem wake_offersFor {desk : Desk} {place : Nat} {search : Search}
    (hs : desk.floor.sleeping[place]? = some search) {docket : Docket}
    (hd : desk.docket? search.order = some docket) (hp : docket.isPending = false)
    (order : Uuid) : (desk.after (.wake place)).offersFor order = desk.offersFor order := by
  have hresume : Case.resume search.radii ⟨docket, (desk.takeSearch place).floor⟩ =
      (.ok (), Case.endSearch .abandoned ⟨docket, (desk.takeSearch place).floor⟩) := by
    rw [Case.resume, if_pos (by simp [hp])]
  have htaken : (desk.takeSearch place).docket? search.order = some docket := hd
  rw [after, perform_wake hs, handle, htaken]
  dsimp only
  rw [freely_eq, hresume]
  show ((desk.takeSearch place).putBack _).offersFor order = _
  rw [offersFor, docket?_putBack]
  split
  · next he =>
      have hsame : search.order = order := (id_of_docket? hd).symm.trans he
      rw [offersFor, ← hsame, hd]
      rfl
  · rfl

/-- After every run in which nothing breaks down, an order that waits is in
exactly one of three situations: an offer is out, one search of it is asleep,
or its last search has ended and none is asleep. An order that does not wait is
not searched for, at most one search of it is still asleep, and when this
wakes up no offer is made. And a search is only ever given up when it wakes up
and its order was cancelled while it was asleep. -/
theorem no_order_is_forgotten (settings : Settings) (start : Instant) (cmds : List Command)
    (hi : ((opening settings start).run cmds).floor.issued ≤ Uuid.capacity)
    (hw : (opening settings start).isWhole cmds = true) :
    (∀ order docket, ((opening settings start).run cmds).docket? order = some docket →
      let desk := (opening settings start).run cmds
      (docket.order.status = .pending → ∃! situation, docket.Stands desk.floor situation) ∧
      (docket.order.status ≠ .pending →
        docket.searching = false ∧ (desk.floor.asleep order).length ≤ 1 ∧
        ∀ place search, desk.floor.sleeping[place]? = some search → search.order = order →
          ∀ other, (desk.after (.wake place)).offersFor other = desk.offersFor other)) ∧
    ∀ before cmd rest, cmds = before ++ cmd :: rest →
      ((opening settings start).run (before ++ [cmd])).floor.ledger.abandoned ≠
        ((opening settings start).run before).floor.ledger.abandoned →
      ∃ place search, cmd = .wake place ∧
        ((opening settings start).run before).floor.sleeping[place]? = some search ∧
        CancelledAsleep search before (opening settings start) := by
  refine ⟨fun order docket hd => ?_, ?_⟩
  · dsimp only
    have hs := run_sound (opening_sound settings start) cmds
    have ht := run_tended hi hw
    refine ⟨fun hp => ?_, fun hp => ?_⟩
    · exact Docket.existsUnique_stands (hs.orderly hd) (ht.watched.dockets hd)
        (ht.attended order docket hd) (Docket.isPending_iff.2 hp)
    · have hover : docket.isPending = false := by
        rw [← Bool.not_eq_true, Docket.isPending_iff]
        exact hp
      obtain ⟨hsearch, hlen, -⟩ := (ht.watched.dockets hd).ended hover
      rw [id_of_docket? hd] at hlen
      refine ⟨hsearch, hlen, fun place search hf ho other => ?_⟩
      rw [← ho] at hd
      exact wake_offersFor hf hd hover other
  · rintro before cmd rest rfl hne
    obtain ⟨-, hturn, hle⟩ := run_split (opening_sound settings start) hi
    rw [isWhole_append, Bool.and_eq_true] at hw
    have ht := run_tended (Nat.le_trans hturn.issued_le hle) hw.1
    rcases hturn.abandoned_cases ht.watched with hsame | ⟨place, search, docket, rfl, hf, hd, hp⟩
    · exact absurd hsame hne
    · have hm : search ∈ ((opening settings start).run before).floor.asleep search.order :=
        Floor.mem_asleep.2 ⟨List.mem_of_getElem? hf, rfl⟩
      exact ⟨place, search, rfl, hf, ht.cancelled hd hp search hm⟩

theorem no_order_is_forgotten_trial :
    ((opening {} trialStart).run trialRun).floor.issued ≤ Uuid.capacity ∧
      (opening {} trialStart).isWhole trialRun = true ∧
      ∃ place search, (Command.wake 0) = .wake place ∧
        ((opening {} trialStart).run (trialRun.take 4)).floor.sleeping[place]? = some search ∧
        CancelledAsleep search (trialRun.take 4) (opening {} trialStart) := by
  have hi : ((opening {} trialStart).run trialRun).floor.issued ≤ Uuid.capacity := by
    decide +kernel
  have hw : (opening {} trialStart).isWhole trialRun = true := by decide +kernel
  have hgivenUp :
      ((opening {} trialStart).run (trialRun.take 4 ++ [.wake 0])).floor.ledger.abandoned ≠
      ((opening {} trialStart).run (trialRun.take 4)).floor.ledger.abandoned := by
    decide +kernel
  exact ⟨hi, hw, (no_order_is_forgotten {} trialStart trialRun hi hw).2 (trialRun.take 4) (.wake 0)
    [] rfl hgivenUp⟩

end Desk

end Hailing
