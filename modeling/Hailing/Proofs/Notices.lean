import Hailing.Proofs.Runs

/-!
# What is sent, and about which order

Notices are only ever added to those sent, and a step adds none that is about
another order than its own. Nor does it add any once its order is cancelled:
whoever is to hear of the cancellation hears of it while it is being done, and
the steps that are left for a cancelled order, of a search that wakes up, of a
driver who rejects a dead offer or of a sweep, are silent (`Case.Tells`).
So from its cancellation on nothing is sent about an order any more
(`run_silent`).
-/

namespace Hailing

open Time (Instant)

namespace Case

/-- What is sent is about the order of the case, which is not cancelled. -/
def Tells (c c' : Case) : Prop :=
  ∃ news, c'.floor.sent = c.floor.sent ++ news ∧
    ∀ notice ∈ news, notice.event.order = c.docket.id ∧ c.docket.order.status ≠ .cancelled

namespace Tells

variable {c c' c₁ : Case}

theorem silent (h : c'.floor.sent = c.floor.sent) : Tells c c' :=
  ⟨[], by rw [h, List.append_nil], fun _ hm => by cases hm⟩

theorem one {notice : Notice} (h : c'.floor.sent = c.floor.sent ++ [notice])
    (ho : notice.event.order = c.docket.id) (hs : c.docket.order.status ≠ .cancelled) :
    Tells c c' := by
  refine ⟨[notice], h, fun found hm => ?_⟩
  obtain rfl := List.mem_singleton.1 hm
  exact ⟨ho, hs⟩

theorem trans (horder : c₁.docket.order = c.docket.order) (h₁ : Tells c c₁)
    (h₂ : Tells c₁ c') : Tells c c' := by
  obtain ⟨first, hfirst, hown⟩ := h₁
  obtain ⟨more, hmore, hown'⟩ := h₂
  refine ⟨first ++ more, by rw [hmore, hfirst, List.append_assoc], fun notice hm => ?_⟩
  rcases List.mem_append.1 hm with hm | hm
  · exact hown notice hm
  · have h := hown' notice hm
    rw [Docket.id, horder] at h
    exact h

end Tells

theorem Dispatched.tells {c c' : Case} {outcome : Outcome} (h : Dispatched c outcome c') :
    Tells c c' := by
  cases h with
  | skipped | searching | exhausted => exact .silent rfl
  | offered hs =>
      have hp := Docket.isPending_iff.1 (Docket.skipReason?_eq_none.1 hs).1
      exact .one rfl rfl fun hc => by rw [hp] at hc; cases hc

theorem Move.tells {c c' : Case} (h : Move c c') : Tells c c' := by
  cases h with
  | dispatched hd => exact hd.tells
  | excluded => exact .silent rfl
  | closed => exact .silent (Floor.settle_sent _ _)
  | settled => exact .silent (Floor.settle_sent _ _)

theorem Moves.tells {c c' : Case} (h : Moves c c') : Tells c c' := by
  induction h with
  | refl => exact .silent rfl
  | tail hms hm ih => exact ih.trans (Moves.order_eq hms) hm.tells

theorem Resumed.tells {radii : Radii} {c c' : Case} (h : Resumed radii c c') : Tells c c' := by
  cases h with
  | abandoned | exhausted | widened => exact .silent rfl
  | offered hp =>
      exact .one rfl rfl fun hc => by rw [Docket.isPending_iff.1 hp] at hc; cases hc

/-- An order that is cancelled is not decided on any more. -/
theorem Decided.not_cancelled {c c' : Case} {cmd : Command} (h : Decided c cmd c') :
    c.docket.order.status ≠ .cancelled := by
  intro hc
  cases h with
  | taken hp | withdrawn hp | recalled hp | completed hp => rw [hc] at hp; cases hp

theorem Decided.tells {c c' : Case} {cmd : Command} (h : Decided c cmd c') : Tells c c' := by
  have hn := h.not_cancelled
  cases h with
  | @taken offer c₁ _ _ _ hc =>
      have hclaim : c₁.floor.sent = c.floor.sent := by rw [(claim_eq hc).1]
      have hsent : (c₁.taken offer).floor.sent = c₁.floor.sent ++ [⟨c₁.docket.order.rider,
          .driverFound c₁.docket.id c₁.docket.order.code offer.driver, c₁.floor.now⟩] :=
        Floor.settle_sent _ _
      rw [hclaim] at hsent
      exact .one hsent (congrArg Docket.id (claim_docket hc)) hn
  | withdrawn => exact .silent (Floor.settle_sent _ _)
  | recalled =>
      unfold releaseDriver
      split
      · exact .silent (Floor.settle_sent _ _)
      · exact .one (Floor.settle_sent _ _) rfl hn
  | completed =>
      unfold Case.completed
      dsimp only
      split
      · exact .one rfl rfl hn
      · exact .one rfl rfl hn

end Case

namespace Desk

/-- The order is on record and cancelled. -/
def Cancelled (order : Uuid) (desk : Desk) : Prop :=
  ∃ docket, desk.docket? order = some docket ∧ docket.order.status = .cancelled

/-- Nothing that was sent in between is about the order. -/
def Silent (order : Uuid) (desk desk' : Desk) : Prop :=
  ∃ news, desk'.floor.sent = desk.floor.sent ++ news ∧
    ∀ notice ∈ news, notice.event.order ≠ order

section Silence

variable {order : Uuid} {desk desk₁ desk' : Desk}

theorem Silent.of_eq (h : desk'.floor.sent = desk.floor.sent) : Silent order desk desk' :=
  ⟨[], by rw [h, List.append_nil], fun _ hm => by cases hm⟩

theorem Silent.trans (h₁ : Silent order desk desk₁) (h₂ : Silent order desk₁ desk') :
    Silent order desk desk' := by
  obtain ⟨first, hfirst, hother⟩ := h₁
  obtain ⟨more, hmore, hother'⟩ := h₂
  refine ⟨first ++ more, by rw [hmore, hfirst, List.append_assoc], fun notice hm => ?_⟩
  exact (List.mem_append.1 hm).elim (hother notice) (hother' notice)

theorem Cancelled.congr (h : desk.Cancelled order) (hd : desk'.dockets = desk.dockets) :
    desk'.Cancelled order := by
  obtain ⟨docket, hf, hc⟩ := h
  exact ⟨docket, by rw [docket?_congr hd, hf], hc⟩

/-- A step of another order is about the other order, and one of this order is
silent. -/
theorem Cancelled.putBack (h : desk.Cancelled order) {docket : Docket} {c : Case}
    (hd : desk.docket? docket.id = some docket) (hid : c.docket.id = docket.id)
    (hkeep : docket.order.status = .cancelled → c.docket.order.status = .cancelled)
    (ht : Case.Tells ⟨docket, desk.floor⟩ c) :
    (desk.putBack c).Cancelled order ∧ Silent order desk (desk.putBack c) := by
  obtain ⟨found, hf, hc⟩ := h
  obtain ⟨news, hnews, hown⟩ := ht
  refine ⟨?_, news, hnews, fun notice hm he => ?_⟩
  · by_cases he : docket.id = order
    · subst he
      obtain rfl := Option.some.inj (hd.symm.trans hf)
      exact ⟨c.docket, by rw [docket?_putBack, if_pos hid], hkeep hc⟩
    · exact ⟨found, by rw [docket?_putBack_of_ne (hid ▸ he), hf], hc⟩
  · obtain ⟨ho, hn⟩ := hown notice hm
    rw [he] at ho
    dsimp only at ho hn
    rw [ho] at hf
    obtain rfl := Option.some.inj (hd.symm.trans hf)
    exact hn hc

theorem Cancelled.enter (h : desk.Cancelled order) {request : Order.NewOrder}
    (hn : desk.docket? desk.floor.nextId = none) :
    (desk.enter (desk.draftOrder request)).Cancelled order := by
  obtain ⟨docket, hf, hc⟩ := h
  refine ⟨docket, ?_, hc⟩
  rw [docket?_enter]
  split
  · next he =>
      have hnone : desk.docket? order = none := he ▸ hn
      rw [hnone] at hf
      cases hf
  · exact hf

theorem enter_sent (order : Order) (desk : Desk) :
    (desk.enter order).floor.sent = desk.floor.sent := Floor.openOrder_sent _ _

theorem Move.silent (h : Move desk desk') (hi : desk'.floor.issued ≤ Uuid.capacity)
    (hc : desk.Cancelled order) : desk'.Cancelled order ∧ Silent order desk desk' := by
  cases h with
  | worked hd hm =>
      refine hc.putBack hd (congrArg Order.id hm.order_eq) (fun hs => ?_) (Case.Moves.tells hm)
      rw [hm.order_eq]
      exact hs
  | entered _ hn =>
      rw [enter_issued] at hi
      exact ⟨hc.enter (hn hi), .of_eq (enter_sent _ _)⟩
  | reported | madeAvailable | sweepCounted => exact ⟨hc.congr rfl, .of_eq rfl⟩

theorem Moves.silent (h : Moves desk desk') (hi : desk'.floor.issued ≤ Uuid.capacity)
    (hc : desk.Cancelled order) : desk'.Cancelled order ∧ Silent order desk desk' := by
  induction h with
  | refl => exact ⟨hc, .of_eq rfl⟩
  | tail _ hm ih =>
      obtain ⟨hmid, hfirst⟩ := ih (Nat.le_trans hm.issued_le hi)
      obtain ⟨hend, hlast⟩ := hm.silent hi hmid
      exact ⟨hend, hfirst.trans hlast⟩

theorem Turn.silent {cmd : Command} (h : Turn desk cmd desk')
    (hi : desk'.floor.issued ≤ Uuid.capacity) (hc : desk.Cancelled order) :
    desk'.Cancelled order ∧ Silent order desk desk' := by
  cases h with
  | passed _ hm => exact Moves.silent hm.moves hi hc
  | decided hd _ hdec =>
      exact hc.putBack hd hdec.id_eq (fun hs => absurd hs hdec.not_cancelled) hdec.tells
  | @woken place _ _ _ _ hd hr =>
      have htaken : (desk.takeSearch place).Cancelled order := hc.congr rfl
      rw [← id_of_docket? hd] at hd
      refine htaken.putBack hd (congrArg Order.id hr.order_eq) (fun hs => ?_) hr.tells
      rw [hr.order_eq]
      exact hs
  | lost | claimed | freed | clockSet => exact ⟨hc.congr rfl, .of_eq rfl⟩

/-- From its cancellation on nothing is sent about an order. -/
theorem run_silent (hs : desk.Sound) {cmds : List Command}
    (hi : (desk.run cmds).floor.issued ≤ Uuid.capacity) (hc : desk.Cancelled order) :
    (desk.run cmds).Cancelled order ∧ Silent order desk (desk.run cmds) := by
  induction cmds generalizing desk with
  | nil => exact ⟨hc, .of_eq rfl⟩
  | cons cmd rest ih =>
      have hturn := after_turn hs cmd
      have hs₁ := hturn.sound hs
      obtain ⟨hmid, hfirst⟩ := hturn.silent (Nat.le_trans (run_issued_le hs₁ rest) hi) hc
      obtain ⟨hend, hrest⟩ := ih hs₁ hi hmid
      exact ⟨hend, hfirst.trans hrest⟩

end Silence

end Desk

end Hailing
