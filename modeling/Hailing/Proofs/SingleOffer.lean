import Mathlib.Data.List.Nodup
import Hailing.Proofs.Runs

/-!
# One offer at a time, and one driver for good

At most one driver is asked at a time, and at most one ever gets the order.
The first half is read off an orderly docket: all offers but the last are
turned down, so there is no place for a second outstanding or a second
accepted one. The second half needs a look at runs. An order that no longer
waits never waits again and gets no more offers (`closed_law`), accepting it
takes it out of waiting, and only an order that waits can be accepted; so no
order is accepted twice (`accepted_once`).
-/

namespace Hailing

open Time (Instant)

namespace Docket

/-- What the offers of an order may be at each of its stages. -/
structure Exclusive (d : Docket) : Prop where
  requested_le : d.offers.countP (·.status = .requested) ≤ 1
  accepted_le : d.offers.countP (·.status = .accepted) ≤ 1
  pending : d.order.status = .pending →
    d.offers.countP (·.status = .accepted) = 0 ∧ d.order.driver? = none
  driven : d.order.status = .confirmed ∨ d.order.status = .completed →
    d.offers.countP (·.status = .accepted) = 1 ∧
    d.offers.countP (·.status = .requested) = 0 ∧
    ∃ last, d.offers.getLast? = some last ∧ last.status = .accepted ∧
      d.order.driver? = some last.driver
  cancelled : d.order.status = .cancelled →
    (d.order.driver?.isSome = true ↔ ∃ o ∈ d.offers, o.status = .accepted)

theorem takenBy?_eq_some {d : Docket} {driver : Uuid} :
    d.takenBy? = some driver ↔
      ∃ last, d.offers.getLast? = some last ∧ last.status = .accepted ∧
        last.driver = driver := by
  unfold takenBy?
  cases d.offers.getLast? with
  | none => simp
  | some last => by_cases hs : last.status = .accepted <;> simp [hs]

/-- An offer that is out is the last one. -/
theorem OneOpen.last_of_out {d : Docket} (h : d.OneOpen) {offer : Offer}
    (hmem : offer ∈ d.offers) (ho : offer.status = .requested) :
    d.offers.getLast? = some offer := by
  refine (earlier_or_last hmem).resolve_left fun hearlier => ?_
  have hout := Offer.isOutstanding_iff.2 ho
  rw [h offer hearlier] at hout
  cases hout

/-- An accepted offer is the last one. -/
theorem Orderly.takenBy?_isSome {d : Docket} (h : d.Orderly) :
    d.takenBy?.isSome = true ↔ ∃ o ∈ d.offers, o.status = .accepted := by
  constructor
  · intro ht
    obtain ⟨driver, hd⟩ := Option.isSome_iff_exists.1 ht
    obtain ⟨last, hl, hs, -⟩ := takenBy?_eq_some.1 hd
    exact ⟨last, List.mem_of_getLast? hl, hs⟩
  · rintro ⟨o, hmem, hs⟩
    rcases earlier_or_last hmem with hmem | hl
    · exact absurd hs (h.earlier o hmem).not_accepted
    · rw [takenBy?_eq_some.2 ⟨o, hl, hs, rfl⟩]
      rfl

theorem Orderly.exclusive {d : Docket} (h : d.Orderly) : d.Exclusive where
  requested_le := by
    rw [h.countP_status (by decide) (by decide)]
    exact countP_toList_le_one _ _
  accepted_le := by
    rw [h.countP_status (by decide) (by decide)]
    exact countP_toList_le_one _ _
  pending := by
    intro hp
    have hnone := h.waits hp
    refine ⟨List.countP_eq_zero.2 fun o hmem ho => ?_, h.driver_eq.trans hnone⟩
    have hsome := h.takenBy?_isSome.2 ⟨o, hmem, by simpa using ho⟩
    rw [hnone] at hsome
    cases hsome
  driven := by
    intro hc
    obtain ⟨driver, hd⟩ := Option.isSome_iff_exists.1 (h.driven hc)
    obtain ⟨last, hl, hs, rfl⟩ := takenBy?_eq_some.1 hd
    refine ⟨?_, ?_, last, hl, hs, h.driver_eq.trans hd⟩
    · rw [h.countP_status (by decide) (by decide), hl]
      simp [hs]
    · rw [h.countP_status (by decide) (by decide), hl]
      simp [hs]
  cancelled := by
    intro _
    rw [h.driver_eq]
    exact h.takenBy?_isSome

end Docket

namespace Case

/-- An order that no longer waits never waits again and gets no more offers. -/
theorem closed_law : Law fun a b => a.order.status ≠ .pending →
    b.order.status ≠ .pending ∧ b.offers.map (·.id) = a.offers.map (·.id) where
  refl _ hn := ⟨hn, rfl⟩
  trans h₁ h₂ hn := by
    obtain ⟨hb, heq₁⟩ := h₁ hn
    obtain ⟨hc, heq₂⟩ := h₂ hb
    exact ⟨hc, heq₂.trans heq₁⟩
  moved _ hm hn := by
    refine ⟨by rw [hm.order_eq]; exact hn, ?_⟩
    cases hm with
    | dispatched hd =>
        cases hd with
        | skipped | searching | exhausted => rfl
        | offered hs =>
            exact absurd (Docket.isPending_iff.1 (Docket.skipReason?_eq_none.1 hs).1) hn
    | excluded driver => exact congrArg _ (Docket.exclude_offers driver _)
    | closed hl =>
        show (Docket.exclude _ _).offers.map _ = _
        rw [Docket.exclude_offers, Docket.offers_eq_of_last hl]
        simp [Docket.answered, Offer.closed]
    | settled => rfl
  decided _ hd hn := by
    cases hd with
    | taken hp | withdrawn hp => exact absurd hp hn
    | recalled =>
        show (releaseDriver _).docket.order.status ≠ _ ∧ (releaseDriver _).docket.offers.map _ = _
        rw [releaseDriver_docket]
        exact ⟨(fun h => by cases h), rfl⟩
    | completed =>
        rw [completed_docket]
        exact ⟨(fun h => by cases h), rfl⟩
  resumed _ hr hn := by
    refine ⟨by rw [hr.order_eq]; exact hn, ?_⟩
    cases hr with
    | abandoned | exhausted | widened => rfl
    | offered hp => exact absurd (Docket.isPending_iff.1 hp) hn

end Case

namespace Desk

/-- The order that a command accepts on a desk, if it does. -/
def acceptance (cmd : Command) (desk : Desk) : List Uuid :=
  if (desk.perform cmd).1.isDone then cmd.accepted?.toList else []

theorem accepted_concat (cmds : List Command) (cmd : Command) (desk : Desk) :
    desk.accepted (cmds ++ [cmd]) = desk.accepted cmds ++ (desk.run cmds).acceptance cmd := by
  rw [accepted, done_append, List.filterMap_append, accepted, acceptance]
  congr 1
  cases hd : ((desk.run cmds).perform cmd).1.isDone with
  | false => simp [done, hd]
  | true => cases ha : cmd.accepted? <;> simp [done, hd, ha]

theorem acceptance_eq_nil {cmd : Command} {desk : Desk}
    (h : cmd.isDecision = true → (desk.perform cmd).1.isDone = false) :
    desk.acceptance cmd = [] := by
  unfold acceptance
  split
  · next hd =>
      cases cmd with
      | respond order driver reply =>
          cases reply with
          | accept => rw [h rfl] at hd; cases hd
          | reject => rfl
      | _ => rfl
  · rfl

/-- An order is accepted while it waits, and then it does not wait. -/
theorem Turn.acceptance_cases {desk desk' : Desk} {cmd : Command}
    (h : Turn desk cmd desk') :
    desk.acceptance cmd = [] ∨
      ∃ docket docket', desk.docket? docket.id = some docket ∧
        docket.order.status = .pending ∧ desk'.docket? docket.id = some docket' ∧
        docket'.order.status ≠ .pending ∧ desk.acceptance cmd = [docket.id] := by
  cases h with
  | passed hn => exact .inl (acceptance_eq_nil hn)
  | @decided _ docket _ hd hdone hc =>
      rw [acceptance, hdone]
      cases hc with
      | withdrawn | recalled | completed => exact .inl rfl
      | @taken offer c hp hl ho hc =>
          have hid := (Case.Decided.taken hp hl ho hc).id_eq
          refine .inr ⟨docket, (c.taken offer).docket, hd, hp, ?_, (fun h => by cases h), rfl⟩
          rw [docket?_putBack, if_pos hid]
  | woken | lost | claimed | freed | clockSet => exact .inl (acceptance_eq_nil fun h => by cases h)

/-- An order that was accepted does not wait, and it was accepted once. -/
theorem accepted_once {settings : Settings} {start : Instant} {cmds : List Command}
    (hi : ((opening settings start).run cmds).floor.issued ≤ Uuid.capacity) :
    ((opening settings start).accepted cmds).Nodup ∧
      ∀ order ∈ (opening settings start).accepted cmds, ∃ docket,
        ((opening settings start).run cmds).docket? order = some docket ∧
          docket.order.status ≠ .pending := by
  refine run_induction (P := fun cmds desk => ((opening settings start).accepted cmds).Nodup ∧
    ∀ order ∈ (opening settings start).accepted cmds, ∃ docket,
      desk.docket? order = some docket ∧ docket.order.status ≠ .pending)
    (opening_sound settings start) ⟨List.nodup_nil, fun order hmem => by cases hmem⟩ ?_ hi
  intro cmds cmd hs ht hi ⟨hnodup, hclosed⟩
  have hkept : ∀ order ∈ (opening settings start).accepted cmds, ∃ docket,
      ((opening settings start).run (cmds ++ [cmd])).docket? order = some docket ∧
        docket.order.status ≠ .pending := by
    intro order hmem
    obtain ⟨docket, hd, hn⟩ := hclosed order hmem
    obtain ⟨docket', hd', hlaw⟩ := ht.carries Case.closed_law hs hi hd
    exact ⟨docket', hd', (hlaw hn).1⟩
  rw [accepted_concat]
  rcases ht.acceptance_cases with hnil | ⟨docket, docket', hd, hp, hd', hn, hone⟩
  · rw [hnil, List.append_nil]
    exact ⟨hnodup, hkept⟩
  · rw [hone]
    constructor
    · refine List.nodup_append.2 ⟨hnodup, by simp, fun order hmem other hsame he => ?_⟩
      obtain rfl := he.trans (List.mem_singleton.1 hsame)
      obtain ⟨found, hf, hfn⟩ := hclosed _ hmem
      rw [hd] at hf
      obtain rfl := Option.some.inj hf
      exact hfn hp
    · intro order hmem
      rcases List.mem_append.1 hmem with hmem | hmem
      · exact hkept order hmem
      · obtain rfl := List.mem_singleton.1 hmem
        exact ⟨docket', hd', hn⟩

/-- After every run the offers of every order go with its stage: at most one
is outstanding and at most one accepted, and who drives is who accepted the
last one. Moreover, as long as there are new identifiers for new orders, no
step of the run makes an offer for an order that does not wait, and no order
is accepted twice. -/
theorem one_offer_one_driver (settings : Settings) (start : Instant)
    (cmds : List Command) :
    (∀ order docket, ((opening settings start).run cmds).docket? order = some docket →
      docket.Exclusive) ∧
    (((opening settings start).run cmds).floor.issued ≤ Uuid.capacity →
      (∀ before cmd rest order docket docket', cmds = before ++ cmd :: rest →
        ((opening settings start).run before).docket? order = some docket →
        docket.order.status ≠ .pending →
        ((opening settings start).run (before ++ [cmd])).docket? order = some docket' →
        docket'.offers.map (·.id) = docket.offers.map (·.id)) ∧
      ∀ order, ((opening settings start).accepted cmds).count order ≤ 1) := by
  have hopen := opening_sound settings start
  refine ⟨fun order docket hd => ((run_sound hopen cmds).orderly hd).exclusive, fun hi => ?_⟩
  refine ⟨?_, fun order => List.nodup_iff_count_le_one.1 (accepted_once hi).1 order⟩
  rintro before cmd rest order docket docket' rfl hd hn hd'
  obtain ⟨hs, hturn, hle⟩ := run_split hopen hi
  obtain ⟨found, hf, hlaw⟩ := hturn.carries Case.closed_law hs hle hd
  rw [hd'] at hf
  obtain rfl := Option.some.inj hf
  exact (hlaw hn).2

theorem one_offer_one_driver_trial :
    ((opening {} trialStart).run trialRun).floor.issued ≤ Uuid.capacity ∧
      ((opening {} trialStart).accepted trialRun).count trialOrder ≤ 1 := by
  have hi : ((opening {} trialStart).run trialRun).floor.issued ≤ Uuid.capacity := by
    decide +kernel
  exact ⟨hi, ((one_offer_one_driver {} trialStart trialRun).2 hi).2 trialOrder⟩

end Desk

end Hailing
