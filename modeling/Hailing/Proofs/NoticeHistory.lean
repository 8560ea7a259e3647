import Hailing.Proofs.Accounts
import Hailing.Proofs.Notices
import Hailing.Proofs.Refusals
import Hailing.Proofs.Stages

/-!
# The history of an order in its notices

Nobody keeps the notices once they are sent, so a notice that is lost, sent
twice or sent to somebody else shows nowhere on a docket. But a docket says
what should have been sent: each offer on it was told to its driver, the driver
of the order was told to the rider, and so was the end of the trip, or else it
was told to the driver that there is none (`Docket.messages`).

Every step sends what it adds to these messages, no more and no less
(`Case.Reports`), and the messages it adds come last. This is where the stages
of an order count: offers are made only while an order waits, so all of them
come before its driver is found, and the end comes after both. What was sent
about an order is then, after every run, what its docket says
(`Desk.Told`).
-/

namespace Hailing

open Time (Instant)

/-- What a notice says, and to whom. -/
def Notice.message (n : Notice) : Uuid × Event := (n.recipient, n.event)

/-! ## What a docket says -/

namespace Docket

/-- The driver of every offer is told of it, and for how long it stands. -/
def offerMessages (settings : Settings) (d : Docket) : List (Uuid × Event) :=
  d.offers.map fun o =>
    (o.driver, .offerCreated d.id d.order.code o.id (UInt64.ofNat (settings.offerWindow / 1000)))

/-- The rider is told who drives. -/
def driverMessages (d : Docket) : List (Uuid × Event) :=
  d.order.driver?.toList.map fun driver =>
    (d.order.rider, .driverFound d.id d.order.code driver)

/-- The rider is told that the trip is over, or the driver that there is none. -/
def endMessages (d : Docket) : List (Uuid × Event) :=
  match d.order.status, d.order.driver? with
  | .completed, _ => [(d.order.rider, .orderCompleted d.id d.order.code)]
  | .cancelled, some driver => [(driver, .orderCancelled d.id d.order.code)]
  | _, _ => []

/-- All that is told about an order. -/
def messages (settings : Settings) (d : Docket) : List (Uuid × Event) :=
  d.offerMessages settings ++ d.driverMessages ++ d.endMessages

variable {settings : Settings} {d d' : Docket}

/-- Only the order and its offers count. -/
theorem messages_congr (ho : d'.order = d.order) (hf : d'.offers = d.offers) :
    d'.messages settings = d.messages settings := by
  rw [messages, offerMessages, driverMessages, endMessages, id, ho, hf]
  rfl

theorem messages_new (order : Order) (hs : order.status = .pending) (hd : order.driver? = none) :
    (Docket.new order).messages settings = [] := by
  simp [messages, offerMessages, driverMessages, endMessages, new, hs, hd]

/-- As long as an order waits only its offers are told. -/
theorem Orderly.messages_of_waiting (h : d.Orderly) (hp : d.order.status = .pending) :
    d.messages settings = d.offerMessages settings := by
  have hd : d.order.driver? = none := h.driver_eq.trans (h.waits hp)
  simp [messages, driverMessages, endMessages, hp, hd]

/-- An answer to an offer changes nothing about whom it was made to. -/
theorem offerMessages_answered {offer : Offer} (hl : d.offers.getLast? = some offer)
    (status : Offer.Status) (moment : Instant) :
    (d.answered offer status moment).offerMessages settings = d.offerMessages settings := by
  conv_rhs => rw [offerMessages, offers_eq_of_last hl]
  simp [offerMessages, answered, Offer.closed, id]

theorem messages_answered {offer : Offer} (hl : d.offers.getLast? = some offer)
    (status : Offer.Status) (moment : Instant) :
    (d.answered offer status moment).messages settings = d.messages settings := by
  rw [messages, offerMessages_answered hl]
  rfl

/-- All of it is about the order of the docket, under its own code. -/
theorem mem_messages {recipient : Uuid} {event : Event}
    (h : (recipient, event) ∈ d.messages settings) :
    event.order = d.id ∧ event.code = d.order.code := by
  simp only [messages, List.mem_append] at h
  rcases h with (h | h) | h
  · obtain ⟨o, -, he⟩ := List.mem_map.1 h
    obtain ⟨-, rfl⟩ := Prod.mk.inj he
    exact ⟨rfl, rfl⟩
  · obtain ⟨driver, -, he⟩ := List.mem_map.1 h
    obtain ⟨-, rfl⟩ := Prod.mk.inj he
    exact ⟨rfl, rfl⟩
  · unfold endMessages at h
    split at h
    · obtain ⟨-, rfl⟩ := Prod.mk.inj (List.mem_singleton.1 h)
      exact ⟨rfl, rfl⟩
    · obtain ⟨-, rfl⟩ := Prod.mk.inj (List.mem_singleton.1 h)
      exact ⟨rfl, rfl⟩
    · cases h

end Docket

/-! ## What a step sends -/

namespace Case

/-- A step sends what it adds to the messages of its docket. -/
def Reports (c c' : Case) : Prop :=
  ∃ news : List Notice, c'.floor.sent = c.floor.sent ++ news ∧
    c'.docket.messages c.floor.settings =
      c.docket.messages c.floor.settings ++ news.map Notice.message

namespace Reports

variable {c c' c₁ : Case}

theorem silent (hs : c'.floor.sent = c.floor.sent)
    (hm : c'.docket.messages c.floor.settings = c.docket.messages c.floor.settings) :
    Reports c c' :=
  ⟨[], by rw [hs, List.append_nil], by rw [hm, List.map_nil, List.append_nil]⟩

theorem refl (c : Case) : Reports c c := silent rfl rfl

theorem trans (hf : c.floor.Steady c₁.floor) (h₁ : Reports c c₁) (h₂ : Reports c₁ c') :
    Reports c c' := by
  obtain ⟨first, hfirst, hdocket⟩ := h₁
  obtain ⟨more, hmore, hdocket'⟩ := h₂
  rw [hf.settings] at hdocket'
  refine ⟨first ++ more, by rw [hmore, hfirst, List.append_assoc], ?_⟩
  rw [hdocket', hdocket, List.map_append, List.append_assoc]

/-- An offer is made to its driver, and the driver is told. -/
theorem offered {candidate : Candidate} {radius : Float} (ho : c.docket.Orderly)
    (hp : c.docket.order.status = .pending) :
    Reports c (c.makeOffer (c.draftOffer candidate radius)) := by
  refine ⟨_, rfl, ?_⟩
  have hd : c.docket.order.driver? = none := ho.driver_eq.trans (ho.waits hp)
  rw [ho.messages_of_waiting hp]
  simp [makeOffer, draftOffer, Docket.messages, Docket.offerMessages, Docket.driverMessages,
    Docket.endMessages, Docket.id, Notice.message, hp, hd]

end Reports

theorem Dispatched.reports {c c' : Case} {outcome : Outcome} (h : Dispatched c outcome c')
    (ho : c.docket.Orderly) : Reports c c' := by
  cases h with
  | skipped => exact .refl c
  | offered hs =>
      exact .offered ho (Docket.isPending_iff.1 (Docket.skipReason?_eq_none.1 hs).1)
  | searching | exhausted => exact .silent rfl rfl

theorem Resumed.reports {radii : Radii} {c c' : Case} (h : Resumed radii c c')
    (ho : c.docket.Orderly) : Reports c c' := by
  cases h with
  | abandoned | exhausted | widened => exact .silent rfl rfl
  | offered hp => exact Reports.offered ho (Docket.isPending_iff.1 hp)

theorem Move.reports {c c' : Case} (h : Move c c') (ho : c.docket.Orderly) : Reports c c' := by
  cases h with
  | dispatched hd => exact hd.reports ho
  | excluded driver =>
      refine .silent rfl ?_
      exact Docket.messages_congr (Docket.exclude_order _ _) (Docket.exclude_offers _ _)
  | closed hl =>
      refine .silent (Floor.settle_sent _ _) ?_
      refine (Docket.messages_congr (Docket.exclude_order _ _) (Docket.exclude_offers _ _)).trans ?_
      exact Docket.messages_answered hl _ _
  | settled => exact .silent (Floor.settle_sent _ _) rfl

theorem Moves.reports {c c' : Case} (h : Moves c c') (ho : c.docket.Orderly) :
    Reports c c' := by
  induction h with
  | refl => exact .refl c
  | tail hms hm ih => exact ih.trans (Moves.steady hms) (hm.reports (Moves.orderly hms ho))

/-- The rider is told who has taken the order. -/
theorem taken_reports {c : Case} {offer : Offer} (ho : c.docket.Orderly)
    (hp : c.docket.order.status = .pending) (hl : c.docket.offers.getLast? = some offer) :
    Reports c (c.taken offer) := by
  refine ⟨_, Floor.settle_sent _ _, ?_⟩
  rw [ho.messages_of_waiting hp, ← Docket.offerMessages_answered hl .accepted c.floor.now]
  simp [taken, Docket.messages, Docket.offerMessages, Docket.driverMessages,
    Docket.endMessages, Docket.answered, Docket.id, Notice.message]

theorem Decided.reports {c c' : Case} {cmd : Command} (h : Decided c cmd c')
    (ho : c.docket.Orderly) : Reports c c' := by
  cases h with
  | @taken offer c₁ hp hl _ hc =>
      have hd := claim_docket hc
      have hclaim : Reports c c₁ := .silent (by rw [(claim_eq hc).1]) (by rw [hd])
      rw [← hd] at ho hp hl
      exact hclaim.trans (claim_steady hc) (taken_reports ho hp hl)
  | withdrawn hp =>
      refine .silent (Floor.settle_sent _ _) ?_
      have hnone : c.docket.order.driver? = none := ho.driver_eq.trans (ho.waits hp)
      rw [ho.messages_of_waiting hp]
      simp [settle, onFloor, count, withdraw, onDocket, Docket.messages, Docket.offerMessages,
        Docket.driverMessages, Docket.endMessages, Docket.id, hnone]
  | recalled hp =>
      obtain ⟨driver, hd⟩ := ho.exists_driver (.inl hp)
      refine ⟨[⟨driver, .orderCancelled c.docket.id c.docket.order.code, c.floor.now⟩], ?_, ?_⟩
      · refine (Floor.settle_sent _ _).trans ?_
        simp [releaseDriver, withdraw, onDocket, hd, markFree, notify, onFloor, Floor.notify,
          Docket.id, Floor.now]
      · show (releaseDriver _).docket.messages _ = _
        rw [releaseDriver_docket]
        simp [withdraw, onDocket, Docket.messages, Docket.offerMessages, Docket.driverMessages,
          Docket.endMessages, Docket.id, Notice.message, hd, hp]
  | completed hp =>
      obtain ⟨driver, hd⟩ := ho.exists_driver (.inl hp)
      refine ⟨[⟨c.docket.order.rider, .orderCompleted c.docket.id c.docket.order.code,
        c.floor.now⟩], ?_, ?_⟩
      · simp [Case.completed, onDocket, hd, markFree, notify, onFloor, Floor.notify, Docket.id,
          Floor.now]
      · rw [completed_docket]
        simp [Docket.messages, Docket.offerMessages, Docket.driverMessages,
          Docket.endMessages, Docket.id, Notice.message, hd, hp]

/-- Who drives changes only when an order is confirmed. -/
theorem Touched.confirms {fleet : Fleet} {a b : Docket} (h : Touched fleet a b) :
    b.order.driver? = a.order.driver? ∨ b.order.status = .confirmed := by
  cases h with
  | left => exact .inl rfl
  | worked _ hw => exact .inl (congrArg Order.driver? hw.moves.order_eq)
  | resumed _ hr => exact .inl (congrArg Order.driver? hr.order_eq)
  | @decided _ c' _ hd =>
      have hadvance := hd.advances
      generalize c'.docket.order = later at hadvance ⊢
      cases hadvance with
      | confirmed => exact .inr rfl
      | completed | cancelled => exact .inl rfl

end Case

/-! ## What comes to nothing

A command that is refused sends nothing, and neither does one that skips the
search it was to start or breaks down. A sweep is not among these: when it
breaks down it has swept some orders before. -/

/-- The search that a command was to start was skipped. -/
def Command.skips : (cmd : Command) → cmd.Result → Bool
  | .respond _ _ _, reaction => reaction.next?.any (!·.isStart)
  | .dispatch _, outcome => !outcome.isStart
  | .retry _, outcome => !outcome.isStart
  | .reassign _ _, outcome => !outcome.isStart
  | _, _ => false

/-- Nothing came of it, or only what does not count. -/
def Answer.isVain {α : Type} (idle : α → Bool) : Answer α → Bool
  | .done a => idle a
  | _ => true

namespace Case

/-- A search that is skipped or breaks down leaves the case as it was. -/
theorem dispatch_vain {c : Case}
    (h : (Answer.ofExcept c.dispatch.1).isVain (!·.isStart) = true) : c.dispatch.2 = c := by
  rcases dispatch_cases c with ⟨_, hr⟩ | ⟨outcome, c', hr, hd⟩
  · rw [hr]
  · rw [hr] at h ⊢
    cases hd with
    | skipped => rfl
    | offered | searching | exhausted => cases h

theorem reassign_vain (driver : Uuid) {c : Case}
    (h : (Answer.ofExcept (c.reassign driver).1).isVain (!·.isStart) = true) :
    (c.reassign driver).2.floor.sent = c.floor.sent := by
  rw [reassign, dispatch_vain h]
  rfl

theorem retry_vain {c : Case} (h : c.retry.1.isVain (!·.isStart) = true) :
    c.retry.2.floor.sent = c.floor.sent := by
  unfold retry at h ⊢
  split
  · rfl
  · next hp =>
      rw [if_neg hp] at h
      exact congrArg (·.floor.sent) (dispatch_vain h)

theorem reject_vain {offer : Offer} {c : Case}
    (h : (c.reject offer).1.isVain (·.next?.any (!·.isStart)) = true) :
    (c.reject offer).2.floor.sent = c.floor.sent := by
  unfold reject at h ⊢
  dsimp only at h ⊢
  split
  · next hp =>
      rw [if_pos hp] at h
      refine (reassign_vain offer.driver ?_).trans rfl
      generalize reassign offer.driver _ = result at h
      obtain ⟨breakdown | outcome, c'⟩ := result
      · rfl
      · exact h
  · exact Floor.settle_sent _ _

theorem Decides.vain {α : Type} {cmd : Command} {c : Case} {result : Answer α × Case}
    (h : Decides cmd c result) (hn : result.1.isDone = false) : result.2 = c := by
  rcases h with ⟨_, rfl⟩ | ⟨_, _, rfl, -⟩
  · rfl
  · cases hn

theorem respond_vain {c : Case} (ho : c.docket.OneOpen) (driver : Uuid) (reply : Offer.Reply)
    (h : (c.respond driver reply).1.isVain (·.next?.any (!·.isStart)) = true) :
    (c.respond driver reply).2.floor.sent = c.floor.sent := by
  cases reply with
  | accept =>
      have hnext := respond_accept_next driver c
      refine congrArg (·.floor.sent) ((accept_decides ho driver).vain ?_)
      cases hr : (c.respond driver .accept).1 with
      | done reaction =>
          rw [hr] at h hnext
          have hnone : reaction.next? = none := hnext
          simp [Answer.isVain, hnone] at h
      | refused | broken => rfl
  | reject =>
      rw [respond, if_neg (by simp)] at h ⊢
      split
      · rfl
      · next offer hf =>
          rw [hf] at h
          exact reject_vain h

end Case

namespace Desk

/-- What was sent about an order, in the order in which it was sent. -/
def messagesAbout (order : Uuid) (desk : Desk) : List (Uuid × Event) :=
  (desk.floor.sent.filter (·.event.order = order)).map Notice.message

/-- What the docket of an order says, if it is on record. -/
def messagesDue (order : Uuid) (desk : Desk) : List (Uuid × Event) :=
  ((desk.docket? order).map (Docket.messages desk.settings)).getD []

/-- What was sent is what the dockets say. -/
def Told (desk : Desk) : Prop := ∀ order, desk.messagesAbout order = desk.messagesDue order

section Told

variable {desk desk' : Desk}

theorem messagesDue_of_docket? {order : Uuid} {docket : Docket}
    (h : desk.docket? order = some docket) :
    desk.messagesDue order = docket.messages desk.settings := by
  simp [messagesDue, h]

theorem Told.congr (h : desk.Told) (hd : desk'.dockets = desk.dockets)
    (hs : desk'.floor.sent = desk.floor.sent) (hf : desk'.settings = desk.settings) :
    desk'.Told := by
  intro order
  rw [messagesAbout, messagesDue, docket?_congr hd, hs, hf]
  exact h order

/-- The messages of the docket that is put back are those that were sent
before and now, and the other orders hear of nothing. -/
theorem Told.putBack (h : desk.Told) {docket : Docket} {c : Case}
    (hd : desk.docket? docket.id = some docket) (hid : c.docket.id = docket.id)
    (hf : desk.floor.Steady c.floor) (hr : Case.Reports ⟨docket, desk.floor⟩ c) :
    (desk.putBack c).Told := by
  obtain ⟨news, hnews, hadded⟩ := hr
  have hown : ∀ notice ∈ news, notice.event.order = docket.id := by
    intro notice hm
    have hmem : notice.message ∈ c.docket.messages desk.settings := by
      rw [show c.docket.messages desk.settings = _ from hadded]
      exact List.mem_append_right _ (List.mem_map_of_mem hm)
    exact (Docket.mem_messages hmem).1.trans hid
  have hsettings : (desk.putBack c).settings = desk.settings := hf.settings
  intro order
  have hbefore := h order
  rw [messagesAbout] at hbefore
  rw [messagesAbout, show (desk.putBack c).floor.sent = _ from hnews, List.filter_append,
    List.map_append, hbefore]
  by_cases he : docket.id = order
  · subst he
    have hall : news.filter (·.event.order = docket.id) = news :=
      List.filter_eq_self.2 fun notice hm => by simpa using hown notice hm
    have hput : (desk.putBack c).docket? docket.id = some c.docket := by
      rw [docket?_putBack, if_pos hid]
    rw [messagesDue_of_docket? hd, messagesDue_of_docket? hput, hall, hsettings]
    exact hadded.symm
  · have hnone : news.filter (·.event.order = order) = [] :=
      List.filter_eq_nil_iff.2 fun notice hm => by simpa [hown notice hm] using he
    rw [hnone, messagesDue, messagesDue, docket?_putBack_of_ne (hid ▸ he), hsettings]
    simp

theorem Told.enter (h : desk.Told) {request : Order.NewOrder}
    (hn : desk.docket? desk.floor.nextId = none) :
    (desk.enter (desk.draftOrder request)).Told := by
  have hsettings : (desk.enter (desk.draftOrder request)).settings = desk.settings :=
    (enter_steady _ _).settings
  intro order
  rw [messagesAbout, enter_sent]
  refine (h order).trans ?_
  rw [messagesDue, messagesDue, docket?_enter, hsettings]
  split
  · next he =>
      have hnone : desk.docket? order = none := he ▸ hn
      have hnew : (Docket.new (desk.draftOrder request)).messages desk.settings = [] :=
        Docket.messages_new _ rfl rfl
      rw [hnone, Option.map_some, hnew]
      rfl
  · rfl

theorem Move.told (h : Move desk desk') (hs : desk.Sound)
    (hi : desk'.floor.issued ≤ Uuid.capacity) (hr : desk.Told) : desk'.Told := by
  cases h with
  | worked hd hm =>
      exact hr.putBack hd (congrArg Order.id hm.order_eq) (Case.Moves.steady hm)
        (Case.Moves.reports hm (hs.orderly hd))
  | entered _ hn =>
      rw [enter_issued] at hi
      exact hr.enter (hn hi)
  | reported | madeAvailable | sweepCounted => exact hr.congr rfl rfl rfl

theorem Moves.told (h : Moves desk desk') (hs : desk.Sound)
    (hi : desk'.floor.issued ≤ Uuid.capacity) (hr : desk.Told) : desk'.Told := by
  induction h with
  | refl => exact hr
  | tail hms hm ih => exact hm.told (Moves.sound hms hs) hi (ih (Nat.le_trans hm.issued_le hi))

theorem Turn.told {cmd : Command} (h : Turn desk cmd desk') (hs : desk.Sound)
    (hi : desk'.floor.issued ≤ Uuid.capacity) (hr : desk.Told) : desk'.Told := by
  cases h with
  | passed _ hm => exact Moves.told hm.moves hs hi hr
  | decided hd _ hc => exact hr.putBack hd hc.id_eq hc.steady (hc.reports (hs.orderly hd))
  | @woken place _ _ _ _ hd hres =>
      have htaken : (desk.takeSearch place).Told := hr.congr rfl rfl rfl
      rw [← id_of_docket? hd] at hd
      exact htaken.putBack hd (congrArg Order.id hres.order_eq) hres.steady
        (hres.reports (hs.orderly hd))
  | lost | claimed | freed | clockSet => exact hr.congr rfl rfl rfl

theorem run_told {settings : Settings} {start : Instant} {cmds : List Command}
    (hi : ((opening settings start).run cmds).floor.issued ≤ Uuid.capacity) :
    ((opening settings start).run cmds).Told :=
  run_induction (P := fun _ desk => desk.Told) (opening_sound settings start)
    (fun _ => rfl) (fun _ _ hs ht hi hr => ht.told hs hi hr) hi

end Told

theorem handle_vain {α : Type} {idle : α → Bool} {order : Uuid}
    {work : Case → Answer α × Case} {desk : Desk}
    (hw : ∀ docket, docket.id = order → desk.docket? docket.id = some docket →
      (work ⟨docket, desk.floor⟩).1.isVain idle = true →
      (work ⟨docket, desk.floor⟩).2.floor.sent = desk.floor.sent)
    (h : (desk.handle order work).1.isVain idle = true) :
    (desk.handle order work).2.floor.sent = desk.floor.sent := by
  rcases handle_cases order work desk with ⟨_, hh⟩ | ⟨docket, hid, hd, hh⟩
  · rw [hh]
  · rw [hh] at h ⊢
    exact hw docket hid hd h

theorem handle_decides_vain {α : Type} (cmd : Command) {order : Uuid}
    {work : Case → Answer α × Case} {desk : Desk}
    (hw : ∀ docket, docket.id = order → Case.Decides cmd ⟨docket, desk.floor⟩
      (work ⟨docket, desk.floor⟩))
    (h : (desk.handle order work).1.isVain (fun _ => false) = true) :
    (desk.handle order work).2.floor.sent = desk.floor.sent := by
  refine handle_vain (fun docket hid _ hv => ?_) h
  refine congrArg (·.floor.sent) ((hw docket hid).vain ?_)
  cases hr : (work ⟨docket, desk.floor⟩).1 with
  | done => rw [hr] at hv; cases hv
  | refused | broken => rfl

/-- The request is refused, or the search for its order breaks down. -/
theorem createOrder_vain {request : Order.NewOrder} {desk : Desk}
    (h : (desk.createOrder request).1.isVain (fun _ => false) = true) :
    (desk.createOrder request).2.floor.sent = desk.floor.sent := by
  rcases createOrder_cases request desk with ⟨_, heq⟩ | ⟨_, react, heq⟩
  · rw [heq]
  · rw [heq] at h ⊢
    have hsame : (desk.newCase request).dispatch.2 = desk.newCase request := by
      refine Case.dispatch_vain ?_
      cases hd : (desk.newCase request).dispatch.1 with
      | error => rfl
      | ok outcome => rw [hd] at h; cases h
    rw [hsame]
    exact enter_sent _ _

theorem wake_vain {place : Nat} {desk : Desk}
    (h : (desk.perform (.wake place)).1.isVain (fun _ => false) = true) :
    (desk.after (.wake place)).floor.sent = desk.floor.sent := by
  unfold after
  cases hs : desk.floor.sleeping[place]? with
  | none => rw [perform_wake_none hs]
  | some search =>
      rw [perform_wake hs] at h ⊢
      refine (handle_vain (fun docket _ _ hv => ?_) h).trans rfl
      rcases Case.resume_cases search.radii ⟨docket, (desk.takeSearch place).floor⟩ with
        ⟨_, hr⟩ | ⟨c, hr, -⟩
      · rw [freely_eq, hr]
      · rw [freely_eq, hr] at hv
        cases hv

/-- What comes to nothing sends nothing. -/
theorem after_vain {desk : Desk} (hs : desk.Sound) {cmd : Command}
    (hn : ∀ visited, cmd ≠ .sweep visited)
    (h : (desk.perform cmd).1.isVain cmd.skips = true) :
    (desk.after cmd).floor.sent = desk.floor.sent := by
  cases cmd with
  | create request => exact createOrder_vain h
  | respond order driver reply =>
      refine handle_vain (fun docket _ hd hv => ?_) h
      exact Case.respond_vain (c := ⟨docket, desk.floor⟩) (hs.orderly hd).oneOpen driver reply hv
  | cancel order reason text =>
      refine handle_decides_vain (.cancel order reason text) (fun docket hid => ?_) h
      rw [← hid]
      exact Case.cancel_decides reason text ⟨docket, desk.floor⟩
  | complete order =>
      refine handle_decides_vain (.complete order) (fun docket hid => ?_) h
      rw [← hid]
      exact Case.complete_decides ⟨docket, desk.floor⟩
  | dispatch order =>
      exact handle_vain (fun docket _ _ hv => congrArg (·.floor.sent) (Case.dispatch_vain hv)) h
  | retry order => exact handle_vain (fun docket _ _ hv => Case.retry_vain hv) h
  | reassign order driver => exact handle_vain (fun docket _ _ hv => Case.reassign_vain driver hv) h
  | report | setAvailability | claimTrip | markFree | setClock => rfl
  | sweep visited => exact absurd rfl (hn visited)
  | wake place => exact wake_vain h

/-! ## Whole runs -/

/-- An order is confirmed at some point of a run. -/
def EverConfirmed (order : Uuid) (cmds : List Command) (desk : Desk) : Prop :=
  ∃ before docket, before <+: cmds ∧ (desk.run before).docket? order = some docket ∧
    docket.order.status = .confirmed

/-- An order that has a driver was confirmed. -/
theorem run_confirmed {settings : Settings} {start : Instant} {cmds : List Command}
    (hi : ((opening settings start).run cmds).floor.issued ≤ Uuid.capacity) :
    ∀ order docket, ((opening settings start).run cmds).docket? order = some docket →
      docket.order.driver?.isSome = true → (opening settings start).EverConfirmed order cmds := by
  refine run_induction (P := fun cmds desk => ∀ order docket, desk.docket? order = some docket →
    docket.order.driver?.isSome = true → (opening settings start).EverConfirmed order cmds)
    (opening_sound settings start) (fun order docket hd => by cases hd) ?_ hi
  intro cmds cmd _ ht hi ih order docket hd hsome
  obtain ⟨before, horigin, htouched⟩ := ht.touches hi order docket hd
  rcases htouched.confirms with hsame | hconfirmed
  · rw [hsame] at hsome
    cases horigin with
    | old hb =>
        obtain ⟨early, confirmed, hpre, hat, hs⟩ := ih order before hb hsome
        exact ⟨early, confirmed, hpre.trans (List.prefix_append _ _), hat, hs⟩
    | new _ _ hr =>
        obtain ⟨_, _, _, rfl⟩ := hr
        cases hsome
  · exact ⟨cmds ++ [cmd], docket, List.prefix_rfl, hd, hconfirmed⟩

/-- After every run the notices that were sent about an order are, from first
to last, those that its docket says: one for each offer, in their order and to
its driver, then one to the rider about the driver if there is one, and there
is one if and only if the order was confirmed at some point of the run, and
last one to the rider if the order is completed, or one to the driver if it was
cancelled after that. All notices bear the code of their order, and no command
that comes to nothing has sent any. -/
theorem notices_follow_dockets (settings : Settings) (start : Instant) (cmds : List Command)
    (hi : ((opening settings start).run cmds).floor.issued ≤ Uuid.capacity) :
    (∀ order, ((opening settings start).run cmds).messagesAbout order =
      ((opening settings start).run cmds).messagesDue order) ∧
    (∀ order docket, ((opening settings start).run cmds).docket? order = some docket →
      (docket.order.driver?.isSome = true ↔
        (opening settings start).EverConfirmed order cmds)) ∧
    (∀ notice ∈ ((opening settings start).run cmds).floor.sent, ∃ docket,
      ((opening settings start).run cmds).docket? notice.event.order = some docket ∧
        notice.event.code = docket.order.code) ∧
    ∀ before cmd rest, cmds = before ++ cmd :: rest → (∀ visited, cmd ≠ .sweep visited) →
      (((opening settings start).run before).perform cmd).1.isVain cmd.skips = true →
      (((opening settings start).run before).after cmd).floor.sent =
        ((opening settings start).run before).floor.sent := by
  have hopen := opening_sound settings start
  have htold := run_told hi
  refine ⟨htold, fun order docket hd => ⟨run_confirmed hi order docket hd, ?_⟩, ?_, ?_⟩
  · rintro ⟨before, confirmed, ⟨later, rfl⟩, hat, hs⟩
    have hsound := run_sound hopen before
    obtain ⟨driver, hdriver⟩ := (hsound.orderly hat).exists_driver (.inl hs)
    rw [run_append] at hi hd
    obtain ⟨docket', hd', hlasts⟩ := run_carries Case.lasts_law hsound hi hat
    rw [hd] at hd'
    obtain rfl := Option.some.inj hd'
    rw [hlasts.driven driver hdriver]
    rfl
  · intro notice hm
    have hmem : notice.message ∈
        ((opening settings start).run cmds).messagesAbout notice.event.order :=
      List.mem_map_of_mem (List.mem_filter.2 ⟨hm, by simp⟩)
    rw [htold, messagesDue] at hmem
    cases hd : ((opening settings start).run cmds).docket? notice.event.order with
    | none => rw [hd] at hmem; cases hmem
    | some docket =>
        rw [hd] at hmem
        exact ⟨docket, rfl, (Docket.mem_messages hmem).2⟩
  · rintro before cmd rest rfl hn hv
    exact after_vain (run_sound hopen before) hn hv

/-- The driver who never got an offer accepts in vain, and the history of the
order is what its docket says. -/
theorem notices_follow_dockets_trial :
    ((opening {} trialStart).run trialRun).floor.issued ≤ Uuid.capacity ∧
      ((opening {} trialStart).run trialRun).messagesAbout trialOrder =
        ((opening {} trialStart).run trialRun).messagesDue trialOrder ∧
      (((opening {} trialStart).run (trialRun.take 2)).after
          (.respond trialOrder (.ofNat 9) .accept)).floor.sent =
        ((opening {} trialStart).run (trialRun.take 2)).floor.sent := by
  have hi : ((opening {} trialStart).run trialRun).floor.issued ≤ Uuid.capacity := by
    decide +kernel
  have hv : (((opening {} trialStart).run (trialRun.take 2)).perform
      (.respond trialOrder (.ofNat 9) .accept)).1.isVain
        (Command.skips (.respond trialOrder (.ofNat 9) .accept)) = true := by
    decide +kernel
  obtain ⟨htold, -, -, hvain⟩ := notices_follow_dockets {} trialStart trialRun hi
  exact ⟨hi, htold trialOrder, hvain (trialRun.take 2) _ (trialRun.drop 3) rfl
    (fun _ => by simp) hv⟩

end Desk

end Hailing
