import Mathlib.Algebra.GroupWithZero.Nat
import Hailing.Proofs.Watching

/-!
# The ledger agrees with the dockets

The counts of the ledger are kept by hand, each where something is done that it
counts. What it says about offers and about orders that wait can be counted
from the dockets as well, and it comes to the same.

For this a step has to change the ledger by as much as it changes its docket
(`Case.Balances`). That is all that has to be seen of the single steps: the
docket that is put back then takes what it added before with it, and adds what
it adds now, and the total of the dockets stays what the ledger says
(`Desk.Balanced`). It does not matter that a command may break down on its
way, as no step does only half of what it does.
-/

namespace Hailing

open Time (Instant)

/-! ## Totals of a register -/

namespace Register

variable {α : Type} {key : α → Uuid}

/-- What the items add up to. -/
def total (f : α → Nat) (r : Register α key) : Nat := (r.items.map f).sum

theorem sum_replaceOrAppend_of_some {f : α → Nat} {a b : α} {items : List α}
    (h : items.find? (fun c => key c = key a) = some b) :
    ((replaceOrAppend key a items).map f).sum + f b = (items.map f).sum + f a := by
  induction items with
  | nil => cases h
  | cons c rest ih =>
      by_cases hc : key c = key a
      · have hcb : c = b := by simpa [List.find?_cons, hc] using h
        rw [replaceOrAppend, if_pos hc, ← hcb]
        simp only [List.map_cons, List.sum_cons]
        omega
      · have hrest : rest.find? (fun c => key c = key a) = some b := by
          simpa [List.find?_cons, hc] using h
        have := ih hrest
        rw [replaceOrAppend, if_neg hc]
        simp only [List.map_cons, List.sum_cons]
        omega

theorem sum_replaceOrAppend_of_none {f : α → Nat} {a : α} {items : List α}
    (h : items.find? (fun c => key c = key a) = none) :
    ((replaceOrAppend key a items).map f).sum = (items.map f).sum + f a := by
  induction items with
  | nil => simp [replaceOrAppend]
  | cons c rest ih =>
      have hc : key c ≠ key a := by
        intro hc
        simp [hc] at h
      have hrest : rest.find? (fun c => key c = key a) = none := by
        simpa [List.find?_cons, hc] using h
      simp [replaceOrAppend, hc, ih hrest, Nat.add_assoc]

/-- An item that is replaced takes what it adds with it. -/
theorem total_put_of_some {f : α → Nat} {r : Register α key} {a b : α}
    (h : r.find? (key a) = some b) : (r.put a).total f + f b = r.total f + f a :=
  sum_replaceOrAppend_of_some h

theorem total_put_of_none {f : α → Nat} {r : Register α key} {a : α}
    (h : r.find? (key a) = none) : (r.put a).total f = r.total f + f a :=
  sum_replaceOrAppend_of_none h

end Register

/-! ## What is counted in two ways -/

/-- What can be counted in two ways. -/
inductive Entry where
  /-- Orders that wait. -/
  | waiting
  /-- Searches that found a driver. -/
  | found
  /-- Offers by how they have fared. All of them were requested at first. -/
  | offers (status : Offer.Status)

def Offer.hasBeen (status : Offer.Status) (o : Offer) : Bool :=
  status = .requested || o.status = status

namespace Ledger

def offers (status : Offer.Status) (l : Ledger) : Nat :=
  match status with
  | .requested => l.requested
  | .accepted => l.accepted
  | .rejected => l.rejected
  | .timeout => l.timeouts

def entry (e : Entry) (l : Ledger) : Int :=
  match e with
  | .waiting => l.pending
  | .found => l.offered
  | .offers status => l.offers status

theorem offers_countOffer (status counted : Offer.Status) (l : Ledger) :
    (l.countOffer counted).offers status =
      l.offers status + if status = counted then 1 else 0 := by
  cases counted <;> cases status <;> rfl

end Ledger

namespace Docket

/-- What a docket adds to an entry. -/
def entry (e : Entry) (d : Docket) : Nat :=
  match e with
  | .waiting => if d.isPending then 1 else 0
  | .found => d.offers.length
  | .offers status => d.offers.countP (·.hasBeen status)

theorem entry_congr {d d' : Docket} (hp : d'.isPending = d.isPending)
    (ho : d'.offers = d.offers) (e : Entry) : d'.entry e = d.entry e := by
  cases e with
  | waiting => rw [entry, hp, entry]
  | found | offers => rw [entry, ho, entry]

/-- An offer that is answered counts for its outcome in addition. -/
theorem countP_hasBeen_answered {d : Docket} {offer : Offer} {outcome : Offer.Status}
    (hl : d.offers.getLast? = some offer) (ho : offer.isOutstanding = true)
    (hs : outcome ≠ .requested) (moment : Instant) (status : Offer.Status) :
    (d.answered offer outcome moment).offers.countP (·.hasBeen status) =
      d.offers.countP (·.hasBeen status) + if status = outcome then 1 else 0 := by
  have hcount : d.offers.countP (·.hasBeen status) =
      d.offers.dropLast.countP (·.hasBeen status) + if offer.hasBeen status then 1 else 0 := by
    conv_lhs => rw [offers_eq_of_last hl, List.countP_append, List.countP_singleton]
  rw [hcount, answered, List.countP_append, List.countP_singleton, Nat.add_assoc]
  congr 1
  rw [Offer.isOutstanding_iff] at ho
  cases status <;> cases outcome <;> simp_all [Offer.hasBeen, Offer.closed]

theorem length_answered {d : Docket} {offer : Offer} (hl : d.offers.getLast? = some offer)
    (outcome : Offer.Status) (moment : Instant) :
    (d.answered offer outcome moment).offers.length = d.offers.length := by
  conv_rhs => rw [offers_eq_of_last hl]
  simp [answered]

end Docket

namespace Case

/-- The ledger changes by as much as the docket. -/
def Balances (c c' : Case) : Prop :=
  ∀ e, c'.floor.ledger.entry e + c.docket.entry e = c.floor.ledger.entry e + c'.docket.entry e

namespace Balances

variable {c c' c₁ : Case}

theorem of_eq (hl : ∀ e, c'.floor.ledger.entry e = c.floor.ledger.entry e)
    (hp : c'.docket.isPending = c.docket.isPending)
    (ho : c'.docket.offers = c.docket.offers) : Balances c c' := by
  intro e
  rw [hl, Docket.entry_congr hp ho]

theorem refl (c : Case) : Balances c c := of_eq (fun _ => rfl) rfl rfl

theorem trans (h₁ : Balances c c₁) (h₂ : Balances c₁ c') : Balances c c' := by
  intro e
  have := h₁ e
  have := h₂ e
  omega

/-- Only the ledger and the docket count. -/
theorem congr (h : Balances c c₁) (hl : c'.floor.ledger = c₁.floor.ledger)
    (hd : c'.docket = c₁.docket) : Balances c c' := by
  intro e
  rw [hl, hd]
  exact h e

theorem settle (h : Balances c c₁) : Balances c c₁.settle :=
  h.congr (Floor.settle_ledger _ _) rfl

theorem endSearch {how : SearchEnd} (hn : how ≠ .offered) : Balances c (c.endSearch how) := by
  refine of_eq (fun e => ?_) rfl rfl
  cases how with
  | offered => exact absurd rfl hn
  | abandoned | exhausted => cases e <;> rfl

theorem makeOffer {offer : Offer} (hs : offer.status = .requested) :
    Balances c (c.makeOffer offer) := by
  intro e
  cases e with
  | waiting => rfl
  | found => simp [Case.makeOffer, Docket.entry, Ledger.entry, Floor.count, Ledger.countSearch,
      Floor.notify, Floor.issue]; omega
  | offers status =>
      have hnew : offer.hasBeen status = decide (status = .requested) := by
        cases status <;> simp [Offer.hasBeen, hs]
      have hrows : (c.makeOffer offer).docket.offers.countP (·.hasBeen status) =
          c.docket.offers.countP (·.hasBeen status) + if status = .requested then 1 else 0 := by
        show (c.docket.offers ++ [offer]).countP _ = _
        rw [List.countP_append, List.countP_singleton, hnew]
        simp
      have hledger : (c.makeOffer offer).floor.ledger.offers status =
          c.floor.ledger.offers status + if status = .requested then 1 else 0 := by
        cases status <;> rfl
      simp only [Docket.entry, Ledger.entry, hrows, hledger]
      omega

/-- The last offer is answered, and the ledger counts it by its outcome. -/
theorem answered {offer : Offer} {outcome : Offer.Status}
    (hl : c.docket.offers.getLast? = some offer) (ho : offer.isOutstanding = true)
    (hs : outcome ≠ .requested) (moment : Instant) :
    Balances c ⟨c.docket.answered offer outcome moment, c.floor.count (·.countOffer outcome)⟩ := by
  intro e
  cases e with
  | waiting => cases outcome <;> rfl
  | found =>
      have hlen := Docket.length_answered hl outcome moment
      simp only [Docket.entry, hlen]
      cases outcome <;> rfl
  | offers status =>
      have hrows := Docket.countP_hasBeen_answered hl ho hs moment status
      have hledger := Ledger.offers_countOffer status outcome c.floor.ledger
      simp only [Docket.entry, Ledger.entry, hrows, Floor.count, hledger]
      omega

end Balances

theorem draftOffer_balances (candidate : Candidate) (radius : Float) (c : Case) :
    Balances c (c.makeOffer (c.draftOffer candidate radius)) := .makeOffer rfl

theorem Dispatched.balances {c c' : Case} {outcome : Outcome} (h : Dispatched c outcome c') :
    Balances c c' := by
  cases h with
  | skipped => exact .refl c
  | offered => exact draftOffer_balances _ _ c
  | searching => exact .of_eq (fun _ => rfl) rfl rfl
  | exhausted => exact .endSearch (by decide)

theorem Resumed.balances {radii : Radii} {c c' : Case} (h : Resumed radii c c') :
    Balances c c' := by
  cases h with
  | abandoned | exhausted => exact .endSearch (by decide)
  | @offered candidate =>
      refine (draftOffer_balances candidate radii.first c).trans ?_
      exact .of_eq (fun _ => rfl) rfl rfl
  | widened => exact .of_eq (fun _ => rfl) rfl rfl

theorem drop_balances {c : Case} {offer : Offer} {status : Offer.Status}
    (hl : c.docket.offers.getLast? = some offer) (ho : offer.isOutstanding = true)
    (hs : status ≠ .requested) : Balances c (c.drop offer status) := by
  refine (Balances.answered hl ho hs c.floor.now).trans (.of_eq (fun _ => rfl) ?_ ?_)
  · exact congrArg Order.isPending (Docket.exclude_order _ _)
  · exact Docket.exclude_offers _ _

theorem Move.balances {c c' : Case} (h : Move c c') : Balances c c' := by
  cases h with
  | dispatched hd => exact hd.balances
  | excluded driver =>
      exact .of_eq (fun _ => rfl) (congrArg Order.isPending (Docket.exclude_order _ _))
        (Docket.exclude_offers _ _)
  | closed hl ho hs =>
      refine (drop_balances hl ho ?_).settle
      rcases hs with rfl | ⟨rfl, -⟩ <;> decide
  | settled => exact (Balances.refl c).settle

theorem Moves.balances {c c' : Case} (h : Moves c c') : Balances c c' := by
  induction h with
  | refl => exact .refl c
  | tail _ hm ih => exact ih.trans hm.balances

/-- An order that waits no longer is counted out. -/
theorem withdraw_balances {c : Case} {cancellation : Order.Cancellation}
    (hp : c.docket.order.status = .pending) :
    Balances c ((c.withdraw cancellation).count fun l => { l with pending := l.pending - 1 }) := by
  intro e
  cases e with
  | waiting => simp [Docket.entry, Ledger.entry, withdraw, count, onDocket, onFloor,
      Floor.count, Docket.isPending, Order.isPending, hp]
  | found => rfl
  | offers => rfl

theorem taken_balances {c : Case} {offer : Offer} (hp : c.docket.order.status = .pending)
    (hl : c.docket.offers.getLast? = some offer) (ho : offer.isOutstanding = true) :
    Balances c (c.taken offer) := by
  have hs : Offer.Status.accepted ≠ .requested := by decide
  refine (Balances.answered hl ho hs c.floor.now).trans fun e => ?_
  rw [show (c.taken offer).floor.ledger = _ from Floor.settle_ledger _ _]
  cases e with
  | waiting => simp [Docket.entry, Docket.answered, taken, Ledger.entry, Floor.count,
      Floor.notify, Ledger.countOffer, Docket.isPending, Order.isPending, hp]
  | found => rfl
  | offers => rfl

theorem Decided.balances {c c' : Case} {cmd : Command} (h : Decided c cmd c') :
    Balances c c' := by
  cases h with
  | @taken offer c₁ hp hl ho hc =>
      have hd := claim_docket hc
      have hclaim : Balances c c₁ := (Balances.refl c).congr (by rw [(claim_eq hc).1]) hd
      rw [← hd] at hp hl
      exact hclaim.trans (taken_balances hp hl ho)
  | withdrawn hp => exact (withdraw_balances hp).settle
  | recalled hp =>
      refine Balances.settle (Balances.congr (.of_eq ?_ ?_ ?_) (releaseDriver_ledger _)
        (releaseDriver_docket _))
      · exact fun _ => rfl
      · simp [withdraw, onDocket, Docket.isPending, Order.isPending, hp]
      · rfl
  | completed hp =>
      refine .of_eq (fun e => by rw [completed_ledger]) ?_ ?_
      · rw [completed_docket]
        simp [Docket.isPending, Order.isPending, hp]
      · rw [completed_docket]

end Case

namespace Desk

/-- The ledger says what the dockets add up to. -/
def Balanced (desk : Desk) : Prop :=
  ∀ e, desk.floor.ledger.entry e = desk.dockets.total (Docket.entry e)

theorem Balanced.congr {desk desk' : Desk} (h : desk.Balanced)
    (hd : desk'.dockets = desk.dockets)
    (hl : ∀ e, desk'.floor.ledger.entry e = desk.floor.ledger.entry e) : desk'.Balanced := by
  intro e
  rw [hd, hl]
  exact h e

theorem Balanced.putBack {desk : Desk} (h : desk.Balanced) {docket : Docket} {c : Case}
    (hd : desk.docket? docket.id = some docket) (hid : c.docket.id = docket.id)
    (hb : Case.Balances ⟨docket, desk.floor⟩ c) : (desk.putBack c).Balanced := by
  intro e
  have htotal := Register.total_put_of_some (f := Docket.entry e) (hid ▸ hd)
  have := h e
  have := hb e
  show c.floor.ledger.entry e = (desk.dockets.put c.docket).total (Docket.entry e)
  dsimp only at this
  omega

theorem enter_ledger (order : Order) (desk : Desk) :
    (desk.enter order).floor.ledger =
      { desk.floor.ledger with pending := desk.floor.ledger.pending + 1 } := by
  unfold enter Floor.count
  rw [Floor.openOrder_ledger]
  rfl

theorem Balanced.enter {desk : Desk} (h : desk.Balanced) {request : Order.NewOrder}
    (hn : desk.docket? desk.floor.nextId = none) :
    (desk.enter (desk.draftOrder request)).Balanced := by
  intro e
  have htotal := Register.total_put_of_none (f := Docket.entry e)
    (a := .new (desk.draftOrder request)) hn
  have hold := h e
  rw [enter_ledger]
  show _ = ((desk.dockets.put _).total (Docket.entry e) : Int)
  rw [htotal]
  -- The new docket waits and has no offers.
  cases e with
  | waiting =>
      show desk.floor.ledger.entry .waiting + 1 = ((_ + 1 : Nat) : Int)
      rw [hold, Int.natCast_add]
      rfl
  | found => exact hold
  | offers status => cases status <;> exact hold

theorem Move.balanced {desk desk' : Desk} (h : Move desk desk')
    (hi : desk'.floor.issued ≤ Uuid.capacity) (hb : desk.Balanced) : desk'.Balanced := by
  cases h with
  | worked hd hm => exact hb.putBack hd (congrArg Order.id hm.order_eq) (Case.Moves.balances hm)
  | entered _ hn =>
      rw [enter_issued] at hi
      exact hb.enter (hn hi)
  | reported | madeAvailable | sweepCounted => exact hb.congr rfl fun e => by cases e <;> rfl

theorem Moves.balanced {desk desk' : Desk} (h : Moves desk desk')
    (hi : desk'.floor.issued ≤ Uuid.capacity) (hb : desk.Balanced) : desk'.Balanced := by
  induction h with
  | refl => exact hb
  | tail _ hm ih => exact hm.balanced hi (ih (Nat.le_trans hm.issued_le hi))

theorem Turn.balanced {desk desk' : Desk} {cmd : Command} (h : Turn desk cmd desk')
    (hi : desk'.floor.issued ≤ Uuid.capacity) (hb : desk.Balanced) : desk'.Balanced := by
  cases h with
  | passed _ hm => exact Moves.balanced hm.moves hi hb
  | decided hd _ hc => exact hb.putBack hd hc.id_eq hc.balances
  | @woken place _ _ _ _ hd hr =>
      have htaken : (desk.takeSearch place).Balanced := hb.congr rfl fun _ => rfl
      rw [← id_of_docket? hd] at hd
      exact htaken.putBack hd (congrArg Order.id hr.order_eq) hr.balances
  | lost | claimed | freed | clockSet => exact hb.congr rfl fun _ => rfl

theorem run_balanced {settings : Settings} {start : Instant} {cmds : List Command}
    (hi : ((opening settings start).run cmds).floor.issued ≤ Uuid.capacity) :
    ((opening settings start).run cmds).Balanced := by
  refine run_induction (P := fun _ desk => desk.Balanced) (opening_sound settings start) ?_ ?_ hi
  · intro e
    cases e with
    | waiting | found => rfl
    | offers status => cases status <;> rfl
  · intro cmds cmd _ ht hi ih
    exact ht.balanced hi ih

/-! ## The entries of the ledger -/

/-- All offers on record. -/
def allOffers (desk : Desk) : List Offer := desk.dockets.items.flatMap (·.offers)

theorem total_waiting (dockets : List Docket) :
    (dockets.map (Docket.entry .waiting)).sum = dockets.countP (·.isPending) := by
  induction dockets with
  | nil => rfl
  | cons d rest ih => rw [List.map_cons, List.sum_cons, ih, List.countP_cons, Docket.entry,
      Nat.add_comm]

theorem Balanced.pending_eq {desk : Desk} (h : desk.Balanced) :
    desk.floor.ledger.pending = desk.dockets.items.countP (·.isPending) :=
  (h .waiting).trans (congrArg Nat.cast (total_waiting desk.dockets.items))

theorem Balanced.found_eq {desk : Desk} (h : desk.Balanced) :
    desk.floor.ledger.offered = desk.allOffers.length := by
  rw [allOffers, List.length_flatMap]
  exact Int.ofNat_inj.1 (h .found)

theorem Balanced.offers_eq {desk : Desk} (h : desk.Balanced) (status : Offer.Status) :
    desk.floor.ledger.offers status = desk.allOffers.countP (·.hasBeen status) := by
  rw [allOffers, List.countP_flatMap]
  exact Int.ofNat_inj.1 (h (.offers status))

/-- Every offer has one outcome, or is out. -/
theorem length_eq_countP_status (offers : List Offer) :
    offers.length = offers.countP (·.status = .accepted) + offers.countP (·.status = .rejected) +
      offers.countP (·.status = .timeout) + offers.countP (·.status = .requested) := by
  induction offers with
  | nil => rfl
  | cons o rest ih => cases hs : o.status <;> simp [hs, ih] <;> omega

end Desk

end Hailing
