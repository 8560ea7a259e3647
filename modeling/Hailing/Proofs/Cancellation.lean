import Hailing.Proofs.Notices
import Hailing.Proofs.Sweeps
import Hailing.Proofs.Trips

/-!
# A cancellation is final

When an order is cancelled, not everything that is under way for it is called
back. A search may be asleep and an offer may be out; the order stays on the
list of open orders as long as its offer is. All that can still happen is that
this offer is turned down, by its driver or by a sweep, whichever comes first
(`Resolves`). The offer is the last one, and as no offer is made for an order
that does not wait there is never another; so this happens once (`final_law`).

Everything else follows from where an order that is cancelled is met: a search
that wakes up is given up, a dispatch is skipped, what would decide on the
order is refused, and the list of a driver's offers passes it over.
-/

namespace Hailing

open Time (Instant)

/-- The offers are as they were, or the last one, which was out, has been
turned down. -/
def Offer.Closing (offers offers' : List Offer) : Prop :=
  offers' = offers ∨ ∃ dead status moment, offers.getLast? = some dead ∧
    dead.status = .requested ∧ (status = .rejected ∨ status = .timeout) ∧
    offers' = offers.dropLast ++ [dead.closed status moment]

namespace Offer.Closing

variable {as bs cs : List Offer}

theorem refl (as : List Offer) : Closing as as := .inl rfl

/-- When the last offer has been turned down nothing more happens. -/
theorem eq_of_last {last : Offer} (h : Closing as bs) (hl : as.getLast? = some last)
    (hs : last.status ≠ .requested) : bs = as := by
  rcases h with h | ⟨dead, _, _, hd, hr, -, -⟩
  · exact h
  · obtain rfl := Option.some.inj (hl.symm.trans hd)
    exact absurd hr hs

theorem eq_of_ne (h₁ : Closing as bs) (hn : bs ≠ as) (h₂ : Closing bs cs) : cs = bs := by
  obtain ⟨dead, status, moment, -, -, hs, rfl⟩ := h₁.resolve_left hn
  have hdown : (dead.closed status moment).status ≠ .requested := by
    rcases hs with rfl | rfl <;> simp [Offer.closed]
  exact h₂.eq_of_last (by simp) hdown

theorem trans (h₁ : Closing as bs) (h₂ : Closing bs cs) : Closing as cs := by
  by_cases h : bs = as
  · rw [← h]
    exact h₂
  · rw [h₁.eq_of_ne h h₂]
    exact h₁

end Offer.Closing

namespace Case

theorem not_pending_of_cancelled {d : Docket} (h : d.order.status = .cancelled) :
    d.isPending = false := by
  simp [Docket.isPending, Order.isPending, h]

/-- What is left for an order that is cancelled. -/
theorem final_law : Law fun a b => a.order.status = .cancelled → a.searching = false →
    b.order = a.order ∧ b.searching = false ∧ Offer.Closing a.offers b.offers where
  refl _ _ hs := ⟨rfl, hs, .refl _⟩
  trans h₁ h₂ hc hs := by
    obtain ⟨ho, hs₁, hrows⟩ := h₁ hc hs
    obtain ⟨ho', hs₂, hrows'⟩ := h₂ (by rw [ho]; exact hc) hs₁
    exact ⟨ho'.trans ho, hs₂, hrows.trans hrows'⟩
  moved {c c'} _ hm hc hs := by
    have hover := not_pending_of_cancelled hc
    cases hm with
    | dispatched hd =>
        cases hd with
        | skipped => exact ⟨rfl, hs, .refl _⟩
        | offered hw | searching hw | exhausted hw =>
            have hp := (Docket.skipReason?_eq_none.1 hw).1
            exact absurd (hover.symm.trans hp) (by decide)
    | excluded driver =>
        refine ⟨Docket.exclude_order _ _, (Docket.exclude_searching _ _).trans hs, .inl ?_⟩
        exact Docket.exclude_offers _ _
    | @closed offer status hl ho hd =>
        refine ⟨Docket.exclude_order _ _, (Docket.exclude_searching _ _).trans hs, .inr ?_⟩
        exact ⟨offer, status, c.floor.now, hl, Offer.isOutstanding_iff.1 ho,
          hd.imp_right And.left, Docket.exclude_offers _ _⟩
    | settled => exact ⟨rfl, hs, .refl _⟩
  decided _ hd hc := absurd hc hd.not_cancelled
  resumed _ hr hc _ := by
    have hover := not_pending_of_cancelled hc
    cases hr with
    | abandoned => exact ⟨rfl, rfl, .refl _⟩
    | offered hp | exhausted hp | widened hp =>
        exact absurd (hover.symm.trans hp) (by decide)

/-! ## What each piece of work makes of an order that is cancelled -/

theorem Decides.untouched {α : Type} {cmd : Command} {c : Case} {result : Answer α × Case}
    (h : Decides cmd c result) (hc : c.docket.order.status = .cancelled) : result.2 = c := by
  rcases h with ⟨_, rfl⟩ | ⟨_, _, -, hd⟩
  · rfl
  · exact absurd hc hd.not_cancelled

theorem Decides.id_eq {α : Type} {cmd : Command} {c : Case} {result : Answer α × Case}
    (h : Decides cmd c result) : result.2.docket.id = c.docket.id := by
  rcases h with ⟨_, rfl⟩ | ⟨_, _, rfl, hd⟩
  · rfl
  · exact hd.id_eq

theorem dispatch_over {c : Case} (hp : c.docket.isPending = false) : c.dispatch.2 = c := by
  rcases dispatch_cases c with ⟨_, h⟩ | ⟨_, _, h, hd⟩
  · rw [h]
  · rw [h]
    cases hd with
    | skipped => rfl
    | offered hs | searching hs | exhausted hs =>
        exact absurd (hp.symm.trans (Docket.skipReason?_eq_none.1 hs).1) (by decide)

theorem retry_over {c : Case} (hp : c.docket.isPending = false) : c.retry.2 = c := by
  rw [retry, if_pos (by simp [hp])]

theorem resume_over {radii : Radii} {c : Case} (hp : c.docket.isPending = false) :
    (c.resume radii).2.docket.offers = c.docket.offers := by
  rw [resume, if_pos (by simp [hp])]
  rfl

theorem reject_not_refused (offer : Offer) (c : Case) :
    (c.reject offer).1.isRefused = false := by
  unfold reject
  dsimp only
  split
  · rw [Answer.isRefused_map]
    exact Answer.isRefused_ofExcept _
  · rfl

/-- A driver with no offer is refused, and any other turns the last one down. -/
theorem reject_over {c : Case} (ho : c.docket.OneOpen) (hp : c.docket.isPending = false)
    (driver : Uuid) :
    (c.docket.offerTo? driver = none ∧ (c.respond driver .reject).2 = c) ∨
      ∃ offer, c.docket.offerTo? driver = some offer ∧
        (c.respond driver .reject).2 = (c.drop offer .rejected).settle := by
  have hcases := reject_cases ho driver
  cases hf : c.docket.offerTo? driver with
  | none =>
      refine .inl ⟨rfl, ?_⟩
      simp [respond, hf]
  | some offer =>
      refine .inr ⟨offer, rfl, ?_⟩
      have hlast := (ho.offerTo?_eq_last hf).1
      have hnot : (c.respond driver .reject).1.isRefused = false := by
        simpa [respond, hf] using reject_not_refused offer c
      rcases hcases with ⟨_, hr⟩ | ⟨found, hl, -, -, ⟨hw, -⟩ | ⟨-, _, hr⟩⟩
      · rw [hr] at hnot
        cases hnot
      · rw [hp] at hw
        cases hw
      · obtain rfl := Option.some.inj (hlast.symm.trans hl)
        rw [hr]

end Case

namespace Desk

/-! ## The offer that is still out -/

/-- How a command turns an offer down that is still out for an order: its
driver rejects it, or a sweep finds that its time has run out. -/
def turnsDown? (order : Uuid) (dead : Offer) (desk : Desk) : Command → Option Offer.Status
  | .respond other driver .reject =>
    if other = order ∧ driver = dead.driver then some .rejected else none
  | .sweep visited =>
    if visited.isPerm desk.floor.openOrders = true ∧
      dead.isExpired desk.settings.offerSpan desk.now = true then some .timeout else none
  | _ => none

/-- What a command makes of the offers of an order that is cancelled. An offer
that it turns down is left only by a sweep that breaks down on its way. -/
inductive Resolves (order : Uuid) (cmd : Command) (desk : Desk) (offers : List Offer) :
    List Offer → Prop
  | left (h : ∀ dead ∈ offers, dead.status = .requested →
        desk.turnsDown? order dead cmd = none ∨
          (∃ visited, cmd = .sweep visited) ∧ (desk.perform cmd).1.isBroken = true) :
      Resolves order cmd desk offers offers
  | turnedDown {dead : Offer} {status : Offer.Status} (hl : offers.getLast? = some dead)
      (hr : dead.status = .requested) (ht : desk.turnsDown? order dead cmd = some status) :
      Resolves order cmd desk offers (offers.dropLast ++ [dead.closed status desk.now])

theorem offersFor_of_docket? {desk : Desk} {order : Uuid} {docket : Docket}
    (h : desk.docket? order = some docket) : desk.offersFor order = docket.offers := by
  rw [offersFor, h]
  rfl

section Resolution

variable {order : Uuid} {desk : Desk} {docket : Docket}

theorem Resolves.of_eq {cmd : Command} {offers offers' : List Offer} (he : offers' = offers)
    (hn : ∀ dead, desk.turnsDown? order dead cmd = none) :
    Resolves order cmd desk offers offers' := by
  rw [he]
  exact .left fun dead _ _ => .inl (hn dead)

/-- Work on another order does not matter, nor does work that leaves the offers
as they are. -/
theorem handle_offersFor {α : Type} {other : Uuid} {work : Case → Answer α × Case}
    (hd : desk.docket? order = some docket)
    (hid : ∀ d, desk.docket? d.id = some d → (work ⟨d, desk.floor⟩).2.docket.id = d.id)
    (hown : docket.id = other → (work ⟨docket, desk.floor⟩).2.docket.offers = docket.offers) :
    (desk.handle other work).2.offersFor order = docket.offers := by
  rcases handle_cases other work desk with ⟨_, h⟩ | ⟨d, hother, hf, h⟩
  · rw [h]
    exact offersFor_of_docket? hd
  · rw [h, offersFor, docket?_putBack, hid d hf]
    split
    · next he =>
        rw [he] at hf
        obtain rfl := Option.some.inj (hd.symm.trans hf)
        exact hown hother
    · rw [hd]
      rfl

theorem createOrder_offersFor (hs : desk.Sound) (hd : desk.docket? order = some docket)
    (request : Order.NewOrder)
    (hi : (desk.createOrder request).2.floor.issued ≤ Uuid.capacity) :
    (desk.createOrder request).2.offersFor order = docket.offers := by
  rcases createOrder_cases request desk with ⟨_, h⟩ | ⟨_, _, h⟩
  · rw [h]
    exact offersFor_of_docket? hd
  · rw [h] at hi ⊢
    have hlater := (Case.Sought.moves (Case.dispatch_sought (desk.newCase request))).later
    have hle := Nat.le_trans hlater.issued_le hi
    rw [show (desk.newCase request).floor.issued = _ from enter_issued _ _] at hle
    refine offersFor_of_docket? ?_
    rw [docket?_enter_putBack desk (newCase_id request desk), if_neg]
    · exact hd
    · intro he
      have hnone : desk.docket? order = none := he ▸ hs.nextId_unused hle
      rw [hd] at hnone
      cases hnone

theorem reject_resolves (hs : desk.Sound) (hd : desk.docket? order = some docket)
    (hc : docket.order.status = .cancelled) (other driver : Uuid) :
    Resolves order (.respond other driver .reject) desk docket.offers
      ((desk.respond other driver .reject).2.offersFor order) := by
  by_cases he : other = order
  · subst he
    have ho := (hs.orderly hd).oneOpen
    have hid := id_of_docket? hd
    have hafter : (desk.respond other driver .reject).2.docket? other =
        some ((Case.mk docket desk.floor).respond driver .reject).2.docket := by
      have hsame : ((Case.mk docket desk.floor).respond driver .reject).2.docket.id = docket.id :=
        congrArg Order.id (Case.reject_worked ho driver).moves.order_eq
      rw [respond, handle, hd]
      show (desk.putBack _).docket? other = _
      rw [docket?_putBack, if_pos (hsame.trans hid)]
    rw [offersFor_of_docket? hafter]
    rcases Case.reject_over (c := ⟨docket, desk.floor⟩) ho (Case.not_pending_of_cancelled hc)
      driver with ⟨hnone, hr⟩ | ⟨offer, hsome, hr⟩
    · rw [hr]
      refine .left fun dead hm hr => .inl (if_neg fun hdriver => ?_)
      have hout := Offer.isOutstanding_iff.2 hr
      have hlast : docket.offers.getLast? = some dead := by
        refine (Docket.earlier_or_last hm).resolve_left fun hearlier => ?_
        rw [ho dead hearlier] at hout
        cases hout
      have hfound := ho.offerTo?_of_last hlast hout
      rw [← hdriver.2] at hfound
      exact absurd (hnone.symm.trans hfound) (by simp)
    · rw [hr]
      obtain ⟨hl, hout, hdriver⟩ := ho.offerTo?_eq_last hsome
      show Resolves _ _ _ _ (Docket.exclude _ _).offers
      rw [Docket.exclude_offers]
      exact .turnedDown hl (Offer.isOutstanding_iff.1 hout) (if_pos ⟨rfl, hdriver.symm⟩)
  · refine .of_eq (handle_offersFor hd (fun d hf => ?_) fun hown => ?_) fun dead =>
      if_neg fun h => he h.1
    · exact congrArg Order.id (Case.reject_worked (c := ⟨d, desk.floor⟩)
        (hs.orderly hf).oneOpen driver).moves.order_eq
    · exact absurd (hown.symm.trans (id_of_docket? hd)) he

theorem sweep_resolves (hs : desk.Sound) (hx : desk.Indexed)
    (hd : desk.docket? order = some docket) (hc : docket.order.status = .cancelled)
    (visited : List Uuid) :
    Resolves order (.sweep visited) desk docket.offers
      ((desk.after (.sweep visited)).offersFor order) := by
  obtain ⟨found, hf, hcase⟩ := after_sweep hs hd visited
  rw [offersFor_of_docket? hf]
  rcases hcase with ⟨hv, report, floor, hfloor, rfl⟩ | ⟨rfl, hb⟩
  · have hwindow : floor.settings.offerSpan = desk.settings.offerSpan := by
      rw [hfloor.settings]
      rfl
    have hnow : floor.now = desk.now := hfloor.now_eq
    rcases Case.sweep_over (c := ⟨docket, floor⟩) (hs.orderly hd).oneOpen
      (Case.not_pending_of_cancelled hc) report with ⟨hlate, hsame⟩ | ⟨offer, hl, he, hdrop⟩
    · rw [hsame]
      refine .left fun dead hm _ => .inl (if_neg fun h => ?_)
      simp only [hwindow, hnow, Docket.lateDrivers, List.map_eq_nil_iff,
        List.filter_eq_nil_iff] at hlate
      exact hlate dead hm h.2
    · rw [hdrop]
      show Resolves _ _ _ _ (Docket.exclude _ _).offers
      rw [Docket.exclude_offers]
      simp only [hwindow, hnow] at he
      show Resolves _ _ _ _ (_ ++ [offer.closed .timeout floor.now])
      rw [hnow]
      exact .turnedDown hl (Offer.isOutstanding_iff.1 (Offer.isExpired_outstanding he))
        (if_pos ⟨hv, he⟩)
  · refine .left fun dead hm hr => ?_
    by_cases hv : visited.isPerm desk.floor.openOrders = true
    · -- An offer is out, so the order is open and the sweep was to come to it.
      have hopen : found.isSettled = false := Docket.isSettled_eq_false.2
        (.inr (List.any_eq_true.2 ⟨dead, hm, Offer.isOutstanding_iff.2 hr⟩))
      exact .inr ⟨⟨visited, rfl⟩, hb hv ((hx order).2 ⟨found, hd, hopen⟩)⟩
    · exact .inl (if_neg fun h => hv h.1)

/-- What would decide on the order is refused. -/
theorem decides_offersFor {α : Type} {other : Uuid} {work : Case → Answer α × Case}
    {decision : Docket → Command} (hd : desk.docket? order = some docket)
    (hc : docket.order.status = .cancelled)
    (hw : ∀ d, desk.docket? d.id = some d →
      Case.Decides (decision d) ⟨d, desk.floor⟩ (work ⟨d, desk.floor⟩)) :
    (desk.handle other work).2.offersFor order = docket.offers := by
  refine handle_offersFor hd (fun d hf => (hw d hf).id_eq) fun _ => ?_
  rw [(hw docket (by rw [id_of_docket? hd, hd])).untouched hc]

theorem reassign_offersFor_over (hd : desk.docket? order = some docket)
    (hp : docket.isPending = false) (other driver : Uuid) :
    (desk.reassign other driver).2.offersFor order = docket.offers := by
  refine handle_offersFor hd (fun d _ => ?_) fun _ => ?_
  · exact congrArg Order.id (Case.reassign_worked driver ⟨d, desk.floor⟩).moves.order_eq
  · have hexcluded : (docket.exclude driver).isPending = false := by
      rw [Docket.isPending, Docket.exclude_order]
      exact hp
    refine (congrArg (·.docket.offers)
      (Case.dispatch_over (c := ⟨docket.exclude driver, desk.floor⟩) hexcluded)).trans ?_
    exact Docket.exclude_offers _ _

/-- A search that wakes up is given up. -/
theorem wake_offersFor_over (hd : desk.docket? order = some docket)
    (hp : docket.isPending = false) (place : Nat) :
    (desk.after (.wake place)).offersFor order = docket.offers := by
  rw [after]
  cases hf : desk.floor.sleeping[place]? with
  | none =>
      rw [perform_wake_none hf]
      exact offersFor_of_docket? hd
  | some search =>
      have htaken : (desk.takeSearch place).docket? order = some docket := hd
      rw [perform_wake hf]
      refine handle_offersFor htaken (fun d _ => ?_) fun _ => ?_
      · rcases Case.resume_cases search.radii ⟨d, (desk.takeSearch place).floor⟩ with
          ⟨_, h⟩ | ⟨c, h, hr⟩
        · rw [freely_eq, h]
        · rw [freely_eq, h]
          exact congrArg Order.id hr.order_eq
      · exact Case.resume_over (c := ⟨docket, (desk.takeSearch place).floor⟩) hp

theorem after_resolves (hs : desk.Sound) (hx : desk.Indexed)
    (hd : desk.docket? order = some docket) (hc : docket.order.status = .cancelled)
    (cmd : Command) (hi : (desk.after cmd).floor.issued ≤ Uuid.capacity) :
    Resolves order cmd desk docket.offers ((desk.after cmd).offersFor order) := by
  have hover := Case.not_pending_of_cancelled hc
  cases cmd with
  | create request => exact .of_eq (createOrder_offersFor hs hd request hi) fun _ => rfl
  | respond other driver reply =>
      cases reply with
      | accept =>
          exact .of_eq (decides_offersFor hd hc fun d hf =>
            Case.accept_decides (c := ⟨d, desk.floor⟩) (hs.orderly hf).oneOpen driver) fun _ => rfl
      | reject => exact reject_resolves hs hd hc other driver
  | cancel other reason text =>
      exact .of_eq (decides_offersFor hd hc fun d _ =>
        Case.cancel_decides reason text ⟨d, desk.floor⟩) fun _ => rfl
  | complete other =>
      exact .of_eq (decides_offersFor hd hc fun d _ =>
        Case.complete_decides ⟨d, desk.floor⟩) fun _ => rfl
  | dispatch other =>
      refine .of_eq (handle_offersFor hd (fun d _ => ?_) fun _ => ?_) fun _ => rfl
      · exact congrArg Order.id (Case.Sought.moves (Case.dispatch_sought ⟨d, desk.floor⟩)).order_eq
      · exact congrArg (·.docket.offers) (Case.dispatch_over (c := ⟨docket, desk.floor⟩) hover)
  | retry other =>
      refine .of_eq (handle_offersFor hd (fun d _ => ?_) fun _ => ?_) fun _ => rfl
      · exact congrArg Order.id (Case.retry_worked ⟨d, desk.floor⟩).moves.order_eq
      · rw [Case.retry_over (c := ⟨docket, desk.floor⟩) hover]
  | reassign other driver =>
      exact .of_eq (reassign_offersFor_over hd hover other driver) fun _ => rfl
  | report | setAvailability | claimTrip | markFree | setClock =>
      exact .of_eq (offersFor_of_docket? hd) fun _ => rfl
  | sweep visited => exact sweep_resolves hs hx hd hc visited
  | wake place => exact .of_eq (wake_offersFor_over hd hover place) fun _ => rfl

end Resolution

/-! ## Once an order is cancelled -/

section Cancelled

variable {order : Uuid} {desk : Desk}

/-- A cancellation that is done ends the order and its search. -/
theorem cancel_done {reason : Order.Reason} {text : Option String}
    (h : (desk.perform (.cancel order reason text)).1.isDone = true) :
    ∃ docket, (desk.after (.cancel order reason text)).docket? order = some docket ∧
      docket.order.status = .cancelled ∧ docket.searching = false := by
  change (desk.handle order (·.cancel reason text)).1.isDone = true at h
  show ∃ docket, (desk.handle order (·.cancel reason text)).2.docket? order = some docket ∧ _
  rcases handle_cases order (·.cancel reason text) desk with ⟨_, hr⟩ | ⟨d, rfl, hd, hr⟩
  · rw [hr] at h
    cases h
  · rcases Case.cancel_decides reason text ⟨d, desk.floor⟩ with ⟨_, hc⟩ | ⟨_, c, hc, hdec⟩
    · rw [hr, hc] at h
      cases h
    · rw [hr, hc]
      refine ⟨c.docket, by rw [docket?_putBack, if_pos hdec.id_eq], ?_⟩
      cases hdec with
      | withdrawn => exact ⟨rfl, rfl⟩
      | recalled =>
          show (Case.releaseDriver _).docket.order.status = _ ∧
            (Case.releaseDriver _).docket.searching = _
          rw [Case.releaseDriver_docket]
          exact ⟨rfl, rfl⟩

theorem Cancelled.accept_refused (h : desk.Cancelled order) (driver : Uuid) :
    desk.respond order driver .accept = (.refused (.notAcceptable order .cancelled), desk) := by
  obtain ⟨docket, hd, hc⟩ := h
  have hrefused : (Case.mk docket desk.floor).respond driver .accept =
      (.refused (.notAcceptable docket.id docket.order.status), ⟨docket, desk.floor⟩) :=
    if_pos (by simp [Case.not_pending_of_cancelled hc])
  rcases handle_cases order (·.respond driver .accept) desk with ⟨hn, _⟩ | ⟨d, rfl, hf, hr⟩
  · rw [hd] at hn
    cases hn
  · obtain rfl := Option.some.inj (hd.symm.trans hf)
    rw [respond, hr, hrefused, hc, putBack_self hf]

/-- What a list is made into in one go comes from its members. -/
theorem mem_of_mapM {α β : Type} {f : α → Except Breakdown β} {as : List α} {bs : List β}
    (h : as.mapM f = .ok bs) {b : β} (hb : b ∈ bs) : ∃ a ∈ as, f a = .ok b := by
  induction as generalizing bs with
  | nil =>
      cases h
      cases hb
  | cons a rest ih =>
      rw [List.mapM_cons] at h
      cases hf : f a with
      | error => simp [hf, bind, Except.bind] at h
      | ok first =>
          cases hr : rest.mapM f with
          | error => simp [hf, hr, bind, Except.bind] at h
          | ok more =>
              simp only [hf, hr, bind, Except.bind, pure, Except.pure] at h
              cases h
              rcases List.mem_cons.1 hb with rfl | hb
              · exact ⟨a, List.mem_cons_self, hf⟩
              · obtain ⟨a', hm, ha⟩ := ih hr hb
                exact ⟨a', List.mem_cons_of_mem _ hm, ha⟩

/-- What a driver is shown is of an order that waits. -/
theorem mem_views {driver : Uuid} {d : Docket} {found : List Offer.View}
    (h : views driver desk d = .ok found) {view : Offer.View} (hm : view ∈ found) :
    d.isPending = true ∧ view.order = d.id := by
  unfold views at h
  split at h
  · next hp _ =>
      obtain ⟨o, -, ho⟩ := mem_of_mapM h hm
      refine ⟨hp, ?_⟩
      cases hr : remainingSeconds desk.settings.offerSpan desk.now o with
      | error => simp [hr, bind, Except.bind] at ho
      | ok _ =>
          simp only [hr, bind, Except.bind, pure, Except.pure] at ho
          cases ho
          rfl
  · cases h
    cases hm

theorem Cancelled.unlisted (h : desk.Cancelled order) {driver : Uuid}
    {listed : List Offer.View} (hl : desk.offersOf driver = .ok listed) :
    ∀ view ∈ listed, view.order ≠ order := by
  intro view hm he
  cases hf : desk.openDockets.mapM (views driver desk) with
  | error => simp [offersOf, hf, bind, Except.bind] at hl
  | ok found =>
      simp only [offersOf, hf, bind, Except.bind, pure, Except.pure] at hl
      cases hl
      obtain ⟨shown, hshown, hin⟩ := List.mem_flatten.1 (List.mem_mergeSort.1 hm)
      obtain ⟨d, hopen, hd⟩ := mem_of_mapM hf hshown
      obtain ⟨hp, hid⟩ := mem_views hd hin
      obtain ⟨other, -, hother⟩ := List.mem_filterMap.1 hopen
      obtain ⟨docket, hdocket, hc⟩ := h
      have hsame : other = order := ((id_of_docket? hother).symm.trans hid.symm).trans he
      rw [hsame] at hother
      obtain rfl := Option.some.inj (hother.symm.trans hdocket)
      exact absurd (hp.symm.trans (Case.not_pending_of_cancelled hc)) (by decide)

theorem Cancelled.no_trip {accepted : List Uuid} (h : desk.Cancelled order)
    (ha : desk.Agreed accepted) (hr : desk.Routed) (driver : Uuid) :
    ∀ trip ∈ (desk.floor.fleet.driver driver).trips, trip.order ≠ order := by
  intro trip hm he
  obtain ⟨docket, hd, hc⟩ := h
  obtain ⟨found, hf, hconfirmed, -⟩ := (ha.mem_orders hr).1 (List.mem_map.2 ⟨trip, hm, he⟩)
  obtain rfl := Option.some.inj (hd.symm.trans hf)
  rw [hc] at hconfirmed
  cases hconfirmed

/-- Every step of a run deals with the offer that is out as it is to, and one
that turns it down is the last to change anything. -/
theorem run_resolves {docket : Docket} (hs : desk.Sound) (hx : desk.Indexed)
    (hd : desk.docket? order = some docket) (hc : docket.order.status = .cancelled)
    (hn : docket.searching = false) {part rest : List Command} {cmd : Command}
    (hi : (desk.run (part ++ cmd :: rest)).floor.issued ≤ Uuid.capacity) :
    let here := desk.run part
    Resolves order cmd here (here.offersFor order) ((here.after cmd).offersFor order) ∧
      ((here.after cmd).offersFor order ≠ here.offersFor order →
        (desk.run (part ++ cmd :: rest)).offersFor order =
          (here.after cmd).offersFor order) := by
  intro here
  have hs₁ : here.Sound := run_sound hs part
  have hturn := after_turn hs₁ cmd
  have hs₂ := hturn.sound hs₁
  rw [run_append] at hi ⊢
  have hi₂ : (here.after cmd).floor.issued ≤ Uuid.capacity :=
    Nat.le_trans (run_issued_le hs₂ rest) hi
  obtain ⟨d₁, hd₁, hfinal₁⟩ :=
    run_carries Case.final_law hs (Nat.le_trans hturn.issued_le hi₂) hd
  obtain ⟨ho₁, hn₁, -⟩ := hfinal₁ hc hn
  have hc₁ : d₁.order.status = .cancelled := by rw [ho₁, hc]
  obtain ⟨d₂, hd₂, hfinal₂⟩ := hturn.carries Case.final_law hs₁ hi₂ hd₁
  obtain ⟨ho₂, hn₂, hrows₂⟩ := hfinal₂ hc₁ hn₁
  obtain ⟨d₃, hd₃, hfinal₃⟩ := run_carries Case.final_law hs₂ hi hd₂
  obtain ⟨-, -, hrows₃⟩ := hfinal₃ (by rw [ho₂, hc₁]) hn₂
  have hwhole : (here.run (cmd :: rest)).offersFor order = d₃.offers :=
    offersFor_of_docket? hd₃
  rw [hwhole, offersFor_of_docket? hd₂, offersFor_of_docket? hd₁]
  refine ⟨?_, fun hchanged => hrows₂.eq_of_ne hchanged hrows₃⟩
  rw [← offersFor_of_docket? hd₂]
  exact after_resolves hs₁ (run_indexed hs hx part) hd₁ hc₁ cmd hi₂

end Cancelled

/-- What an order is on a desk, after it was cancelled on an earlier one. -/
structure Over (order : Uuid) (cancelled desk : Desk) : Prop where
  record : ∃ docket found, cancelled.docket? order = some docket ∧
    desk.docket? order = some found ∧ docket.order.status = .cancelled ∧
    found.order = docket.order ∧ found.searching = false ∧
    Offer.Closing docket.offers found.offers
  trips : ∀ driver, ∀ trip ∈ (desk.floor.fleet.driver driver).trips, trip.order ≠ order
  silent : Silent order cancelled desk
  unlisted : ∀ driver listed, desk.offersOf driver = .ok listed →
    ∀ view ∈ listed, view.order ≠ order
  refused : ∀ driver, ∃ refusal, refusal.kind = .conflict ∧
    desk.respond order driver .accept = (.refused refusal, desk)

/-- However long a run goes on after an order was cancelled, and whatever was
under way for it: the order stays as it was cancelled, without a search and
without a trip; nothing is sent about it, it is on nobody's list of offers and
every driver who accepts it is refused for a conflict. No offer is added. One
that was out is turned down by what comes first, its driver's rejection or a
sweep after its time, and after that the offers stay as they are. -/
theorem cancellation_is_final (settings : Settings) (start : Instant)
    (before later : List Command) (order : Uuid) (reason : Order.Reason)
    (text : Option String)
    (hi : ((opening settings start).run
      (before ++ .cancel order reason text :: later)).floor.issued ≤ Uuid.capacity)
    (hdirect : ∀ cmd ∈ before ++ later, cmd.isDirect = false)
    (hdone : (((opening settings start).run before).perform
      (.cancel order reason text)).1.isDone = true) :
    let cancelled := ((opening settings start).run before).after (.cancel order reason text)
    Over order cancelled (cancelled.run later) ∧
      ∀ part cmd rest, later = part ++ cmd :: rest →
        let here := cancelled.run part
        Resolves order cmd here (here.offersFor order) ((here.after cmd).offersFor order) ∧
          ((here.after cmd).offersFor order ≠ here.offersFor order →
            (cancelled.run later).offersFor order = (here.after cmd).offersFor order) := by
  intro cancelled
  obtain ⟨docket, hd, hc, hn⟩ := cancel_done hdone
  have hbefore : ((opening settings start).run before).Sound :=
    run_sound (opening_sound settings start) before
  have hturn := after_turn hbefore (.cancel order reason text)
  have hs : cancelled.Sound := hturn.sound hbefore
  have hx : cancelled.Indexed := hturn.indexed
    (run_indexed (opening_sound settings start) (opening_indexed settings start) before)
  have hwhole : (opening settings start).run (before ++ .cancel order reason text :: later) =
      cancelled.run later := run_append _ _ _
  have hdirect' : ∀ cmd ∈ before ++ .cancel order reason text :: later,
      cmd.isDirect = false := by
    intro cmd hm
    rcases List.mem_append.1 hm with hm | hm
    · exact hdirect cmd (List.mem_append_left _ hm)
    · rcases List.mem_cons.1 hm with rfl | hm
      · rfl
      · exact hdirect cmd (List.mem_append_right _ hm)
  have ha := run_agreed hi hdirect'
  have hr := run_routed hi
  rw [hwhole] at hi ha hr
  refine ⟨?_, ?_⟩
  · obtain ⟨found, hf, hfinal⟩ := run_carries Case.final_law hs hi hd
    obtain ⟨ho, hsearch, hrows⟩ := hfinal hc hn
    obtain ⟨hend, hsilent⟩ := run_silent hs hi ⟨docket, hd, hc⟩
    exact {
      record := ⟨docket, found, hd, hf, hc, ho, hsearch, hrows⟩
      trips := hend.no_trip ha hr
      silent := hsilent
      unlisted := fun _ _ hl => hend.unlisted hl
      refused := fun driver => ⟨_, rfl, hend.accept_refused driver⟩ }
  · rintro part cmd rest rfl
    exact run_resolves hs hx hd hc hn hi

theorem cancellation_is_final_trial :
    let before := trialRun.take 3
    let cancel := Command.cancel trialOrder .changeInPlans none
    let later : List Command := [.wake 0, .respond trialOrder (.ofNat 9) .accept]
    ((opening {} trialStart).run (before ++ cancel :: later)).floor.issued ≤ Uuid.capacity ∧
      (∀ cmd ∈ before ++ later, cmd.isDirect = false) ∧
      (((opening {} trialStart).run before).perform cancel).1.isDone = true ∧
      Over trialOrder (((opening {} trialStart).run before).after cancel)
        ((((opening {} trialStart).run before).after cancel).run later) := by
  intro before cancel later
  have hi : ((opening {} trialStart).run (before ++ cancel :: later)).floor.issued ≤
      Uuid.capacity := by decide +kernel
  have hdirect : ∀ cmd ∈ before ++ later, cmd.isDirect = false := by
    simp [before, later, trialRun, Command.isDirect]
  have hdone : (((opening {} trialStart).run before).perform cancel).1.isDone = true := by
    decide +kernel
  exact ⟨hi, hdirect, hdone, (cancellation_is_final {} trialStart before later trialOrder
    .changeInPlans none hi hdirect hdone).1⟩

end Desk

end Hailing
