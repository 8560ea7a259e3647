import Hailing.Proofs.OpenOrders

/-!
# A sweep, order by order

A sweep works on one order after the other, and what it finds at the last one
might depend on all that it did before. For the docket of an order it does not:
no order is open twice, no step touches the docket of another order, and
neither the clock nor the settings change on the way (`Floor.Steady`). So each
order is swept as it was when the sweep began, at the time at which it began.
The only question is whether the sweep gets there, and it does unless it
breaks down before (`sweepOrders_swept`).
-/

namespace Hailing

open Time (Instant)

namespace Case

/-- If the order does not wait, a sweep does nothing or turns the last offer
down. -/
theorem sweep_over {c : Case} (ho : c.docket.OneOpen) (hp : c.docket.isPending = false)
    (report : SweepReport) :
    (c.docket.lateDrivers c.floor.settings.offerSpan c.floor.now = [] ∧
        (c.sweep report).2.docket = c.docket) ∨
      ∃ offer, c.docket.offers.getLast? = some offer ∧
        offer.isExpired c.floor.settings.offerSpan c.floor.now = true ∧
        (c.sweep report).2.docket = (c.drop offer .timeout).docket := by
  rcases sweep_cases ho report with ⟨_, _, -, he⟩ | ⟨_, c₁, he, hrest⟩
  · cases he with
    | broken _ _ hw => rw [hp] at hw; cases hw
  · cases he with
    | none hn =>
        rcases hrest with ⟨_, _, -, hr⟩ | ⟨_, _, hr, hs⟩
        · cases (hr.of_not_pending hp).1
        · rw [hs, (hr.of_not_pending hp).2]
          exact .inl ⟨hn, rfl⟩
    | @kept offer hl hx =>
        have hp₁ : (c.drop offer .timeout).docket.isPending = false := drop_isPending.trans hp
        rcases hrest with ⟨_, _, -, hr⟩ | ⟨_, _, hr, hs⟩
        · cases (hr.of_not_pending hp₁).1
        · rw [hs, (hr.of_not_pending hp₁).2]
          exact .inr ⟨offer, hl, hx, rfl⟩
    | reassigned _ _ hw => rw [hp] at hw; cases hw

end Case

namespace Desk

/-- What a sweep of its order makes of a docket, at the time of the desk. -/
def Sweeps (desk : Desk) (docket found : Docket) : Prop :=
  ∃ report floor, desk.floor.Steady floor ∧
    found = ((Case.mk docket floor).sweep report).2.docket

/-- A sweep comes to the first order, and goes on unless it breaks down there. -/
theorem sweepOrders_cons {desk : Desk} {docket : Docket}
    (hd : desk.docket? docket.id = some docket) (rest : List Uuid) (report : SweepReport) :
    let desk' := desk.putBack ((Case.mk docket desk.floor).sweep report).2
    (∃ breakdown, sweepOrders (docket.id :: rest) report desk = (.error breakdown, desk')) ∨
      ∃ report', sweepOrders (docket.id :: rest) report desk = sweepOrders rest report' desk' := by
  rw [sweepOrders, hd]
  dsimp only
  rcases (Case.mk docket desk.floor).sweep report with ⟨breakdown | report', c⟩
  · exact .inl ⟨breakdown, rfl⟩
  · exact .inr ⟨report', rfl⟩

theorem Sweeps.of_steady {desk desk' : Desk} {docket found : Docket}
    (h : desk'.Sweeps docket found) (hf : desk.floor.Steady desk'.floor) :
    desk.Sweeps docket found := by
  obtain ⟨report, floor, hfloor, hfound⟩ := h
  exact ⟨report, floor, hf.trans hfloor, hfound⟩

theorem sweepOrders_swept {visited : List Uuid} (hv : visited.Nodup) (report : SweepReport)
    {desk : Desk} (hs : desk.Sound) {order : Uuid} {docket : Docket}
    (hd : desk.docket? order = some docket) :
    ∃ found, (sweepOrders visited report desk).2.docket? order = some found ∧
      (desk.Sweeps docket found ∨ found = docket ∧
        (order ∈ visited →
          ∃ breakdown, (sweepOrders visited report desk).1 = .error breakdown)) := by
  induction visited generalizing report desk with
  | nil => exact ⟨docket, hd, .inr ⟨rfl, fun hm => by cases hm⟩⟩
  | cons head rest ih =>
      obtain ⟨hnot, hrest⟩ := List.nodup_cons.1 hv
      cases hh : desk.docket? head with
      | none =>
          rw [sweepOrders, hh]
          obtain ⟨found, hf, hcase⟩ := ih hrest report hs hd
          have hne : order ≠ head := fun he => by rw [← he, hd] at hh; cases hh
          refine ⟨found, hf, hcase.imp_right (And.imp_right fun hb hm => hb ?_)⟩
          exact (List.mem_cons.1 hm).resolve_left hne
      | some other =>
          obtain rfl := id_of_docket? hh
          have hw := Case.sweep_worked (c := ⟨other, desk.floor⟩) (hs.orderly hh).oneOpen report
          have hsound : (desk.putBack ((Case.mk other desk.floor).sweep report).2).Sound :=
            Move.sound (.worked hh hw.moves) hs
          have hid : ((Case.mk other desk.floor).sweep report).2.docket.id = other.id :=
            congrArg Order.id hw.moves.order_eq
          by_cases he : other.id = order
          · -- The order is swept now, and not again.
            subst he
            obtain rfl := Option.some.inj (hh.symm.trans hd)
            have hnow : desk.Sweeps other ((Case.mk other desk.floor).sweep report).2.docket :=
              ⟨report, desk.floor, .refl _, rfl⟩
            have hput : (desk.putBack ((Case.mk other desk.floor).sweep report).2).docket?
                other.id = some ((Case.mk other desk.floor).sweep report).2.docket := by
              rw [docket?_putBack, if_pos hid]
            rcases sweepOrders_cons hh rest report with ⟨_, hr⟩ | ⟨report', hr⟩
            · rw [hr]
              exact ⟨_, hput, .inl hnow⟩
            · have hkept := (sweepOrders_passes hrest report' hsound).2 _ hnot
              rw [hr]
              exact ⟨_, hkept.trans hput, .inl hnow⟩
          · have haside : (desk.putBack ((Case.mk other desk.floor).sweep report).2).docket?
                order = some docket := (docket?_putBack_of_ne (hid ▸ he)).trans hd
            rcases sweepOrders_cons hh rest report with ⟨breakdown, hr⟩ | ⟨report', hr⟩
            · rw [hr]
              exact ⟨docket, haside, .inr ⟨rfl, fun _ => ⟨breakdown, rfl⟩⟩⟩
            · rw [hr]
              obtain ⟨found, hf, hcase⟩ := ih hrest report' hsound haside
              refine ⟨found, hf, hcase.imp (fun hlater => hlater.of_steady hw.moves.steady)
                (And.imp_right fun hb hm => hb ?_)⟩
              exact (List.mem_cons.1 hm).resolve_left (Ne.symm he)

/-- A command to sweep sweeps every open order, unless it breaks down. -/
theorem after_sweep {desk : Desk} (hs : desk.Sound) {order : Uuid} {docket : Docket}
    (hd : desk.docket? order = some docket) (visited : List Uuid) :
    ∃ found, (desk.after (.sweep visited)).docket? order = some found ∧
      (visited.isPerm desk.floor.openOrders = true ∧ desk.Sweeps docket found ∨
        found = docket ∧
          (visited.isPerm desk.floor.openOrders = true → order ∈ desk.floor.openOrders →
            (desk.perform (.sweep visited)).1.isBroken = true)) := by
  rw [after, perform]
  by_cases hv : visited.isPerm desk.floor.openOrders = true
  · rw [if_pos hv]
    have hperm := List.isPerm_iff.1 hv
    have hcount : Move desk _ := .sweepCounted
    obtain ⟨found, hf, hcase⟩ := sweepOrders_swept (hperm.nodup_iff.2 hs.distinct) {}
      (hcount.sound hs) hd
    refine ⟨found, hf, hcase.imp ?_ (And.imp_right fun hb _ hm => ?_)⟩
    · rintro ⟨report, floor, hfloor, hfound⟩
      exact ⟨hv, report, floor, ⟨hfloor.clock, hfloor.settings⟩, hfound⟩
    · obtain ⟨breakdown, hr⟩ := hb (hperm.mem_iff.2 hm)
      show (Answer.ofExcept (sweepAs visited desk).1).isBroken = true
      rw [sweepAs, hr]
      rfl
  · rw [if_neg hv]
    exact ⟨docket, hd, .inr ⟨rfl, fun h => absurd h hv⟩⟩

end Desk

end Hailing
