import Hailing.Proofs.Moves

/-!
# What a command can do to a desk

A command is a turn of the desk, and there are few kinds of turns. Most
commands chain moves that leave every order as it is (`Desk.Move`). A command
that decides on the stage of an order works on one case, if it is done at all.
A search that wakes up is taken out of those asleep and goes on, or it is lost
because its order is unknown or its work breaks down. Trips can be queued and
dropped past the orders, and the clock can be set, which no other command
does. `after_turn` says that nothing else happens.

A turn is seen in two grains. The moves show the whole desk between any two
steps of a command, and every invariant that relates dockets to the floor is
carried over them. `Follows` shows each docket at the beginning and at the end
of the command. It is what can be said of a command as a whole: an order is
worked on at most once in it, even by a sweep, as no order is open twice.

All of this needs a sound desk: the dockets are orderly, every order on record
has an identifier that was drawn, and no order is open twice. The second
makes the order that is created next a new one, as long as no more
identifiers are drawn than there are.
-/

namespace Hailing

open Geo (Point)
open Time (Instant)

/-- What a command can do to the docket of an order. -/
inductive Case.Touched (fleet : Fleet) : Docket → Docket → Prop
  | left (docket : Docket) : Touched fleet docket docket
  | worked {c c' : Case} (hf : c.floor.fleet = fleet) (h : Worked c c') :
      Touched fleet c.docket c'.docket
  | decided {c c' : Case} {cmd : Command} (h : Decided c cmd c') :
      Touched fleet c.docket c'.docket
  | resumed {c c' : Case} {radii : Radii} (hf : c.floor.fleet = fleet)
      (h : Resumed radii c c') : Touched fleet c.docket c'.docket

namespace Desk

structure Sound (desk : Desk) : Prop where
  orderly : ∀ {order docket}, desk.docket? order = some docket → docket.Orderly
  drawn : ∀ {order docket}, desk.docket? order = some docket →
    ∃ n < desk.floor.issued, order = Uuid.issue n
  distinct : desk.floor.openOrders.Nodup

/-- The desk with a case put back. -/
def putBack (c : Case) (desk : Desk) : Desk := ⟨desk.dockets.put c.docket, c.floor⟩

/-- What leaves all orders on record as they are, and the clock too. -/
inductive Move (desk : Desk) : Desk → Prop
  | worked {docket : Docket} {c : Case} (hd : desk.docket? docket.id = some docket)
      (hm : Case.Moves ⟨docket, desk.floor⟩ c) : Move desk (desk.putBack c)
  | entered {request : Order.NewOrder} (hr : request.check = .ok ())
      (hn : desk.floor.issued < Uuid.capacity →
        desk.docket? desk.floor.nextId = none) :
      Move desk (desk.enter (desk.draftOrder request))
  | reported (driver : Uuid) (point : Point) (stamp : Instant) :
      Move desk (desk.reportPosition driver point stamp).2
  | madeAvailable (driver : Uuid) (online : Bool) (maxPickup : Option Float) :
      Move desk (desk.setAvailability driver online maxPickup).2
  | sweepCounted :
      Move desk { desk with floor := desk.floor.count fun l => { l with sweeps := l.sweeps + 1 } }

abbrev Moves : Desk → Desk → Prop := Relation.ReflTransGen Move

/-! ## Dockets before and after

An order that is not on record before may be on record after. Its docket was
empty when it was entered. -/

/-- An order as a request leads to it. -/
def Drafted (record : Order) : Prop :=
  ∃ (desk : Desk) (request : Order.NewOrder),
    request.check = .ok () ∧ record = desk.draftOrder request

/-- A docket and what it was before: on record, or not yet entered. -/
inductive Origin (desk : Desk) (order : Uuid) : Docket → Prop
  | old {docket : Docket} (hd : desk.docket? order = some docket) :
      Origin desk order docket
  | new {record : Order} (hd : desk.docket? order = none) (hid : record.id = order)
      (hr : Drafted record) : Origin desk order (.new record)

/-- Each docket on a later desk comes from an earlier one by a relation. -/
def Follows (R : Docket → Docket → Prop) (desk desk' : Desk) : Prop :=
  ∀ order found, desk'.docket? order = some found →
    ∃ before, desk.Origin order before ∧ R before found

/-- Moves that touch each order at most once. -/
structure Pass (desk desk' : Desk) : Prop where
  moves : Moves desk desk'
  touches : desk'.floor.issued ≤ Uuid.capacity →
    Follows (Case.Touched desk.floor.fleet) desk desk'

/-- What a command does to a desk. A decision that is done is told apart from
all that leaves the orders alone, and setting the clock from all that leaves
the clock alone. -/
inductive Turn (desk : Desk) : Command → Desk → Prop
  | passed {cmd : Command} {desk' : Desk}
      (hn : cmd.isDecision = true → (desk.perform cmd).1.isDone = false)
      (hm : Pass desk desk') : Turn desk cmd desk'
  | decided {cmd : Command} {docket : Docket} {c : Case}
      (hd : desk.docket? docket.id = some docket)
      (hdone : (desk.perform cmd).1.isDone = true)
      (hc : Case.Decided ⟨docket, desk.floor⟩ cmd c) : Turn desk cmd (desk.putBack c)
  | woken {place : Nat} {search : Search} {docket : Docket} {c : Case}
      (hs : desk.floor.sleeping[place]? = some search)
      (hd : desk.docket? search.order = some docket)
      (hr : Case.Resumed search.radii ⟨docket, (desk.takeSearch place).floor⟩ c) :
      Turn desk (.wake place) (desk.putBack c)
  | lost {place : Nat} {search : Search}
      (hs : desk.floor.sleeping[place]? = some search)
      (hl : desk.docket? search.order = none ∨
        (desk.perform (.wake place)).1.isBroken = true) :
      Turn desk (.wake place) (desk.takeSearch place)
  | claimed (driver : Uuid) (pickup : Point) (trip : Driver.Trip) :
      Turn desk (.claimTrip driver pickup trip) (desk.claimTrip driver pickup trip).2
  | freed (driver order : Uuid) :
      Turn desk (.markFree driver order) (desk.markFree driver order)
  | clockSet (clock : Clock) :
      Turn desk (.setClock clock) { desk with floor := { desk.floor with clock := clock } }

/-! ## Records on a desk -/

theorem id_of_docket? {desk : Desk} {order : Uuid} {docket : Docket}
    (h : desk.docket? order = some docket) : docket.id = order :=
  Register.key_of_find? h

theorem docket?_putBack (c : Case) (desk : Desk) (order : Uuid) :
    (desk.putBack c).docket? order =
      if c.docket.id = order then some c.docket else desk.docket? order :=
  Register.find?_put _ _ _

theorem docket?_putBack_of_ne {c : Case} {desk : Desk} {order : Uuid}
    (h : c.docket.id ≠ order) : (desk.putBack c).docket? order = desk.docket? order :=
  Register.find?_put_of_ne h

theorem docket?_putBack_isSome {c : Case} {desk : Desk} {order : Uuid}
    (h : (desk.docket? order).isSome = true) :
    ((desk.putBack c).docket? order).isSome = true :=
  Register.find?_put_isSome h

/-- What is found is the docket that was put back, or it was there before. -/
theorem docket?_putBack_cases {c : Case} {desk : Desk} {order : Uuid} {docket : Docket}
    (h : (desk.putBack c).docket? order = some docket) :
    (c.docket.id = order ∧ docket = c.docket) ∨
      (c.docket.id ≠ order ∧ desk.docket? order = some docket) := by
  rw [docket?_putBack] at h
  split at h
  · next he => exact .inl ⟨he, (Option.some.inj h).symm⟩
  · next he => exact .inr ⟨he, h⟩

theorem docket?_congr {desk desk' : Desk} (h : desk'.dockets = desk.dockets)
    (order : Uuid) : desk'.docket? order = desk.docket? order := by
  rw [docket?, h, docket?]

/-- The offers made for an order, if it is on record. -/
def offersFor (order : Uuid) (desk : Desk) : List Offer :=
  ((desk.docket? order).map (·.offers)).getD []

/-- The drivers excluded from an order, if it is on record. -/
def excludedFrom (order : Uuid) (desk : Desk) : List Uuid :=
  ((desk.docket? order).map (·.excluded)).getD []

theorem putBack_self {desk : Desk} {docket : Docket}
    (h : desk.docket? docket.id = some docket) : desk.putBack ⟨docket, desk.floor⟩ = desk := by
  rw [putBack, show desk.dockets.put docket = desk.dockets from Register.put_of_find? h]

theorem docket?_enter (order : Order) (desk : Desk) (id : Uuid) :
    (desk.enter order).docket? id =
      if order.id = id then some (.new order) else desk.docket? id :=
  Register.find?_put _ _ _

/-- An order is entered, and then its case is worked on. -/
theorem docket?_enter_putBack {order : Order} {c : Case} (desk : Desk)
    (hid : c.docket.id = order.id) (id : Uuid) :
    ((desk.enter order).putBack c).docket? id =
      if order.id = id then some c.docket else desk.docket? id := by
  rw [docket?_putBack, docket?_enter, hid]
  split <;> rfl

theorem enter_issued (order : Order) (desk : Desk) :
    (desk.enter order).floor.issued = desk.floor.issued + 1 :=
  Floor.openOrder_issued _ _

theorem enter_fleet (order : Order) (desk : Desk) :
    (desk.enter order).floor.fleet = desk.floor.fleet :=
  Floor.openOrder_fleet _ _

theorem enter_steady (order : Order) (desk : Desk) :
    desk.floor.Steady (desk.enter order).floor := by
  unfold enter
  dsimp only
  rw [Floor.openOrder_eq]
  exact ⟨rfl, rfl⟩

theorem takeSearch_later (place : Nat) (desk : Desk) :
    desk.floor.Later (desk.takeSearch place).floor := .of_eq rfl rfl rfl

theorem Move.issued_le {desk desk' : Desk} (h : Move desk desk') :
    desk.floor.issued ≤ desk'.floor.issued := by
  cases h with
  | worked _ hm => exact hm.later.issued_le
  | entered =>
      rw [enter_issued]
      exact Nat.le_succ _
  | reported | madeAvailable | sweepCounted => exact Nat.le_refl _

theorem Moves.issued_le {desk desk' : Desk} (h : Moves desk desk') :
    desk.floor.issued ≤ desk'.floor.issued := by
  induction h with
  | refl => exact Nat.le_refl _
  | tail _ hm ih => exact Nat.le_trans ih hm.issued_le

theorem Turn.issued_le {desk desk' : Desk} {cmd : Command} (h : Turn desk cmd desk') :
    desk.floor.issued ≤ desk'.floor.issued := by
  cases h with
  | passed _ hm => exact Moves.issued_le hm.moves
  | decided _ _ hc => exact hc.later.issued_le
  | woken _ _ hr => exact hr.later.issued_le
  | lost | claimed | freed | clockSet => exact Nat.le_refl _

theorem Move.steady {desk desk' : Desk} (h : Move desk desk') :
    desk.floor.Steady desk'.floor := by
  cases h with
  | worked _ hm => exact Case.Moves.steady hm
  | entered => exact enter_steady _ _
  | reported | madeAvailable | sweepCounted => exact ⟨rfl, rfl⟩

theorem Moves.steady {desk desk' : Desk} (h : Moves desk desk') :
    desk.floor.Steady desk'.floor := by
  induction h with
  | refl => exact .refl _
  | tail _ hm ih => exact ih.trans hm.steady

/-- The settings stay as they are. -/
theorem Turn.settings_eq {desk desk' : Desk} {cmd : Command} (h : Turn desk cmd desk') :
    desk'.settings = desk.settings := by
  cases h with
  | passed _ hm => exact (Moves.steady hm.moves).settings
  | decided _ _ hc => exact hc.steady.settings
  | woken _ _ hr => exact hr.steady.settings
  | lost | claimed | freed | clockSet => rfl

namespace Origin

variable {desk : Desk} {order : Uuid} {docket : Docket}

theorem congr {desk' : Desk} (h : desk'.Origin order docket)
    (he : desk'.docket? order = desk.docket? order) : desk.Origin order docket := by
  cases h with
  | old hd => exact .old (he ▸ hd)
  | new hd hid hr => exact .new (he ▸ hd) hid hr

theorem orderly (h : desk.Origin order docket) (hs : desk.Sound) : docket.Orderly := by
  cases h with
  | old hd => exact hs.orderly hd
  | new _ _ hr =>
      obtain ⟨_, _, _, rfl⟩ := hr
      exact .new _ rfl rfl

theorem offersFor_eq (h : desk.Origin order docket) :
    desk.offersFor order = docket.offers ∧ desk.excludedFrom order = docket.excluded := by
  cases h with
  | old hd => simp [offersFor, excludedFrom, hd]
  | new hd => simp [offersFor, excludedFrom, hd, Docket.new]

end Origin

namespace Follows

variable {R : Docket → Docket → Prop} {desk desk' : Desk}

theorem of_eq (hR : ∀ docket, R docket docket) (h : desk'.dockets = desk.dockets) :
    Follows R desk desk' := by
  intro order found hf
  rw [docket?_congr h] at hf
  exact ⟨found, .old hf, hR found⟩

theorem putBack {docket : Docket} {c : Case} (hR : ∀ docket, R docket docket)
    (hd : desk.docket? docket.id = some docket) (hid : c.docket.id = docket.id)
    (hstep : R docket c.docket) : Follows R desk (desk.putBack c) := by
  intro order found hf
  rcases docket?_putBack_cases hf with ⟨rfl, rfl⟩ | ⟨-, hf⟩
  · exact ⟨docket, .old (by rw [hid, hd]), hstep⟩
  · exact ⟨found, .old hf, hR found⟩

/-- What follows does not touch the docket that was put back. -/
theorem after_putBack {docket : Docket} {c : Case}
    (hd : desk.docket? docket.id = some docket) (hid : c.docket.id = docket.id)
    (hstep : R docket c.docket) (h : Follows R (desk.putBack c) desk')
    (haside : desk'.docket? docket.id = (desk.putBack c).docket? docket.id) :
    Follows R desk desk' := by
  intro order found hf
  by_cases he : c.docket.id = order
  · rw [← he, hid, haside, docket?_putBack, if_pos hid] at hf
    obtain rfl := Option.some.inj hf
    exact ⟨docket, .old (by rw [← he, hid, hd]), hstep⟩
  · obtain ⟨before, ho, hr⟩ := h order found hf
    exact ⟨before, ho.congr (docket?_putBack_of_ne he), hr⟩

theorem imp {S : Docket → Docket → Prop} (h : Follows R desk desk')
    (himp : ∀ {order a b}, desk.Origin order a → R a b → S a b) : Follows S desk desk' := by
  intro order found hf
  obtain ⟨before, ho, hr⟩ := h order found hf
  exact ⟨before, ho, himp ho hr⟩

end Follows

namespace Pass

theorem refl (desk : Desk) : Pass desk desk := ⟨.refl, fun _ => .of_eq .left rfl⟩

/-- A move that leaves the dockets alone. -/
theorem aside {desk desk' : Desk} (hm : Move desk desk') (hd : desk'.dockets = desk.dockets) :
    Pass desk desk' :=
  ⟨.single hm, fun _ => .of_eq .left hd⟩

theorem worked {desk : Desk} {docket : Docket} {c : Case}
    (hd : desk.docket? docket.id = some docket)
    (hw : Case.Worked ⟨docket, desk.floor⟩ c) : Pass desk (desk.putBack c) := by
  refine ⟨.single (.worked hd hw.moves), fun _ => ?_⟩
  exact .putBack .left hd (congrArg Order.id hw.moves.order_eq) (.worked rfl hw)

end Pass

/-! ## Soundness is kept -/

theorem Sound.congr {desk desk' : Desk} (h : desk.Sound)
    (hd : desk'.dockets = desk.dockets)
    (ho : desk'.floor.openOrders = desk.floor.openOrders)
    (hi : desk.floor.issued ≤ desk'.floor.issued) : desk'.Sound := by
  refine ⟨fun {order docket} hf => ?_, fun {order docket} hf => ?_, ho ▸ h.distinct⟩
  · rw [docket?_congr hd] at hf
    exact h.orderly hf
  · rw [docket?_congr hd] at hf
    obtain ⟨n, hn, hid⟩ := h.drawn hf
    exact ⟨n, Nat.lt_of_lt_of_le hn hi, hid⟩

theorem Sound.putBack {desk : Desk} (h : desk.Sound) {docket : Docket} {c : Case}
    (hd : desk.docket? docket.id = some docket) (hid : c.docket.id = docket.id)
    (ho : c.docket.Orderly) (hl : desk.floor.Later c.floor) : (desk.putBack c).Sound := by
  refine ⟨fun {order found} hf => ?_, fun {order found} hf => ?_,
    h.distinct.sublist hl.openOrders⟩
  · rcases docket?_putBack_cases hf with ⟨-, rfl⟩ | ⟨-, hf⟩
    · exact ho
    · exact h.orderly hf
  · rcases docket?_putBack_cases hf with ⟨rfl, rfl⟩ | ⟨-, hf⟩
    · obtain ⟨n, hn, hdrawn⟩ := h.drawn hd
      exact ⟨n, Nat.lt_of_lt_of_le hn hl.issued_le, by rw [hid, hdrawn]⟩
    · obtain ⟨n, hn, hdrawn⟩ := h.drawn hf
      exact ⟨n, Nat.lt_of_lt_of_le hn hl.issued_le, hdrawn⟩

theorem Sound.enter {desk : Desk} (h : desk.Sound) (request : Order.NewOrder) :
    (desk.enter (desk.draftOrder request)).Sound := by
  refine ⟨fun {order found} hf => ?_, fun {order found} hf => ?_,
    Floor.openOrder_nodup h.distinct⟩
  all_goals
    rw [docket?_enter] at hf
    split at hf
  · obtain rfl := Option.some.inj hf
    exact Docket.Orderly.new _ rfl rfl
  · exact h.orderly hf
  · next he =>
      refine ⟨desk.floor.issued, ?_, he.symm⟩
      rw [enter_issued]
      exact Nat.lt_succ_self _
  · obtain ⟨n, hn, hdrawn⟩ := h.drawn hf
    refine ⟨n, ?_, hdrawn⟩
    rw [enter_issued]
    exact Nat.lt_succ_of_lt hn

theorem Move.sound {desk desk' : Desk} (h : Move desk desk') (hs : desk.Sound) :
    desk'.Sound := by
  cases h with
  | worked hd hm =>
      exact hs.putBack hd (congrArg Order.id hm.order_eq) (hm.orderly (hs.orderly hd)) hm.later
  | entered => exact hs.enter _
  | reported | madeAvailable | sweepCounted =>
      exact hs.congr rfl rfl (Nat.le_refl _)

theorem Moves.sound {desk desk' : Desk} (h : Moves desk desk') (hs : desk.Sound) :
    desk'.Sound := by
  induction h with
  | refl => exact hs
  | tail _ hm ih => exact hm.sound ih

theorem Turn.sound {desk desk' : Desk} {cmd : Command} (h : Turn desk cmd desk')
    (hs : desk.Sound) : desk'.Sound := by
  cases h with
  | passed _ hm => exact Moves.sound hm.moves hs
  | decided hd _ hc => exact hs.putBack hd hc.id_eq (hc.orderly (hs.orderly hd)) hc.later
  | woken _ hd hr =>
      have hid := id_of_docket? hd
      rw [← hid] at hd
      exact hs.putBack hd (congrArg Order.id hr.order_eq)
        (hr.orderly (hs.orderly hd)) ((takeSearch_later _ desk).trans hr.later)
  | lost | claimed | freed | clockSet => exact hs.congr rfl rfl (Nat.le_refl _)

/-- The next order is a new one, as long as there are identifiers left. -/
theorem Sound.nextId_unused {desk : Desk} (h : desk.Sound)
    (hi : desk.floor.issued < Uuid.capacity) :
    desk.docket? desk.floor.nextId = none := by
  cases hf : desk.docket? desk.floor.nextId with
  | none => rfl
  | some docket =>
      obtain ⟨n, hn, hid⟩ := h.drawn hf
      have := Uuid.issue_injective hi (Nat.lt_trans hn hi) hid
      omega

/-! ## Every command is a turn -/

theorem handle_cases {α : Type} (order : Uuid) (work : Case → Answer α × Case)
    (desk : Desk) :
    (desk.docket? order = none ∧
        desk.handle order work = (.refused (.unknownOrder order), desk)) ∨
      ∃ docket, docket.id = order ∧ desk.docket? docket.id = some docket ∧
        desk.handle order work = ((work ⟨docket, desk.floor⟩).1,
          desk.putBack (work ⟨docket, desk.floor⟩).2) := by
  unfold handle
  split
  · next h => exact .inl ⟨h, rfl⟩
  · next docket h =>
      obtain rfl := id_of_docket? h
      exact .inr ⟨docket, rfl, h, rfl⟩

theorem handle_passes {α : Type} (order : Uuid) (work : Case → Answer α × Case)
    (desk : Desk)
    (hw : ∀ docket, desk.docket? order = some docket →
      Case.Worked ⟨docket, desk.floor⟩ (work ⟨docket, desk.floor⟩).2) :
    Pass desk (desk.handle order work).2 := by
  rcases handle_cases order work desk with ⟨_, h⟩ | ⟨docket, rfl, hd, h⟩
  · rw [h]
    exact .refl desk
  · rw [h]
    exact .worked hd (hw docket hd)

theorem handle_decides {α : Type} {cmd : Command} {order : Uuid}
    {work : Case → Answer α × Case} {desk : Desk}
    (hp : (desk.perform cmd).1.isDone = (desk.handle order work).1.isDone)
    (hw : ∀ docket, docket.id = order → desk.docket? docket.id = some docket →
      Case.Decides cmd ⟨docket, desk.floor⟩ (work ⟨docket, desk.floor⟩)) :
    Turn desk cmd (desk.handle order work).2 := by
  rcases handle_cases order work desk with ⟨_, h⟩ | ⟨docket, rfl, hd, h⟩
  · rw [h] at hp ⊢
    exact .passed (fun _ => hp) (.refl desk)
  · rcases hw docket rfl hd with ⟨refusal, hr⟩ | ⟨a, c, hr, hc⟩
    · rw [h, hr] at hp ⊢
      rw [putBack_self hd]
      exact .passed (fun _ => hp) (.refl desk)
    · rw [h, hr] at hp ⊢
      exact .decided hd hp hc

/-- An order is swept once, and the others are left as they are. -/
theorem sweepOrders_passes {visited : List Uuid} (hv : visited.Nodup)
    (report : SweepReport) {desk : Desk} (h : desk.Sound) :
    Pass desk (sweepOrders visited report desk).2 ∧
      ∀ order, order ∉ visited →
        (sweepOrders visited report desk).2.docket? order = desk.docket? order := by
  induction visited generalizing report desk with
  | nil => exact ⟨.refl desk, fun _ _ => rfl⟩
  | cons order rest ih =>
      obtain ⟨hnot, hrest⟩ := List.nodup_cons.1 hv
      rw [sweepOrders]
      split
      · obtain ⟨hp, haside⟩ := ih hrest report h
        exact ⟨hp, fun other ho => haside other (List.not_mem_of_not_mem_cons ho)⟩
      · next docket hf =>
          obtain rfl := id_of_docket? hf
          have hw := Case.sweep_worked (c := ⟨docket, desk.floor⟩) (h.orderly hf).oneOpen report
          rcases hr : (Case.mk docket desk.floor).sweep report with ⟨_ | report', c⟩
          all_goals
            rw [hr] at hw
            have hid : c.docket.id = docket.id := congrArg Order.id hw.moves.order_eq
            have hone : ∀ other, other ∉ docket.id :: rest →
                (desk.putBack c).docket? other = desk.docket? other := fun other ho =>
              docket?_putBack_of_ne fun he => ho (by rw [← he, hid]; exact List.mem_cons_self)
          · exact ⟨.worked hf hw, hone⟩
          · have hstep : Move desk (desk.putBack c) := .worked hf hw.moves
            have hfleet : (desk.putBack c).floor.fleet = desk.floor.fleet := hw.moves.fleet_eq
            obtain ⟨hp, haside⟩ := ih hrest report' (hstep.sound h)
            refine ⟨⟨.head hstep hp.moves, fun hi => ?_⟩, fun other ho => ?_⟩
            · have htouches := hp.touches hi
              rw [hfleet] at htouches
              exact htouches.after_putBack hf hid (.worked rfl hw) (haside _ hnot)
            · exact (haside other (List.not_mem_of_not_mem_cons ho)).trans (hone other ho)

theorem sweepAs_passes {visited : List Uuid} {desk : Desk} (h : desk.Sound)
    (hv : visited.Perm desk.floor.openOrders) : Pass desk (desk.sweepAs visited).2 := by
  have hcount : Move desk _ := .sweepCounted
  obtain ⟨hp, -⟩ := sweepOrders_passes (hv.nodup_iff.2 h.distinct) {} (hcount.sound h)
  refine ⟨.head hcount hp.moves, fun hi order found hf => ?_⟩
  obtain ⟨before, ho, ht⟩ := hp.touches hi order found hf
  exact ⟨before, ho.congr rfl, ht⟩

/-- The case of an order that has just been entered. -/
def newCase (request : Order.NewOrder) (desk : Desk) : Case :=
  ⟨.new (desk.draftOrder request), (desk.enter (desk.draftOrder request)).floor⟩

/-- An order that is in order is entered and dispatched. -/
theorem createOrder_eq {request : Order.NewOrder} (hr : request.check = .ok ()) (desk : Desk) :
    desk.createOrder request =
      ((Answer.ofExcept (desk.newCase request).dispatch.1).map fun outcome =>
          ⟨(desk.newCase request).dispatch.2.docket.order, outcome⟩,
        (desk.enter (desk.draftOrder request)).putBack (desk.newCase request).dispatch.2) := by
  have hfound : (desk.enter (desk.draftOrder request)).docket?
      (desk.draftOrder request).id = some (.new (desk.draftOrder request)) := by
    rw [docket?_enter, if_pos rfl]
  rw [createOrder, hr]
  dsimp only
  rw [handle, hfound]
  rfl

/-- A request is refused, or its order is entered and dispatched. -/
theorem createOrder_cases (request : Order.NewOrder) (desk : Desk) :
    (∃ refusal, desk.createOrder request = (.refused refusal, desk)) ∨
      request.check = .ok () ∧ ∃ react : Outcome → Created,
        desk.createOrder request =
          ((Answer.ofExcept (desk.newCase request).dispatch.1).map react,
            (desk.enter (desk.draftOrder request)).putBack (desk.newCase request).dispatch.2) := by
  cases hr : request.check with
  | error refusal => exact .inl ⟨refusal, by rw [createOrder, hr]⟩
  | ok => exact .inr ⟨rfl, _, createOrder_eq hr desk⟩

theorem newCase_order (request : Order.NewOrder) (desk : Desk) :
    (desk.newCase request).dispatch.2.docket.order = desk.draftOrder request :=
  (Case.Sought.moves (Case.dispatch_sought (desk.newCase request))).order_eq

theorem newCase_id (request : Order.NewOrder) (desk : Desk) :
    (desk.newCase request).dispatch.2.docket.id = (desk.draftOrder request).id :=
  congrArg Order.id (newCase_order request desk)

/-- What is answered is the order that was drafted, and what its dispatch said. -/
theorem createOrder_done {request : Order.NewOrder} {desk : Desk} {created : Created}
    (h : (desk.createOrder request).1 = .done created) :
    created.order = desk.draftOrder request ∧
      (desk.newCase request).dispatch.1 = .ok created.dispatch ∧
      (desk.createOrder request).2 =
        (desk.enter (desk.draftOrder request)).putBack (desk.newCase request).dispatch.2 := by
  rcases createOrder_cases request desk with ⟨_, hc⟩ | ⟨hr, -⟩
  · rw [hc] at h
    cases h
  · rw [createOrder_eq hr desk] at h ⊢
    cases hd : (desk.newCase request).dispatch.1 with
    | error breakdown =>
        rw [hd] at h
        cases h
    | ok outcome =>
        rw [hd] at h
        obtain rfl := Answer.done.inj h
        exact ⟨newCase_order request desk, rfl, rfl⟩

theorem createOrder_passes (request : Order.NewOrder) {desk : Desk} (h : desk.Sound) :
    Pass desk (desk.createOrder request).2 := by
  rcases createOrder_cases request desk with ⟨_, heq⟩ | ⟨hr, _, heq⟩
  · rw [heq]
    exact .refl desk
  · rw [heq]
    have hw := Case.Worked.sought (Case.dispatch_sought (desk.newCase request))
    have hid := newCase_id request desk
    have hfound : (desk.enter (desk.draftOrder request)).docket? (desk.newCase request).docket.id =
        some (desk.newCase request).docket := by
      rw [docket?_enter]
      exact if_pos rfl
    have hmove := Move.worked hfound hw.moves
    refine ⟨.head (.entered hr h.nextId_unused) (.single hmove), fun hi order found hf => ?_⟩
    have hle := Nat.le_trans hmove.issued_le hi
    rw [enter_issued] at hle
    rw [docket?_enter_putBack desk hid] at hf
    split at hf
    · next he =>
        obtain rfl := Option.some.inj hf
        refine ⟨_, .new (he ▸ h.nextId_unused hle) he ⟨desk, request, hr, rfl⟩, ?_⟩
        exact .worked (enter_fleet _ _) hw
    · exact ⟨found, .old hf, .left found⟩

theorem freely_eq {α : Type} (work : Case → Except Breakdown α × Case) (c : Case) :
    freely work c = (.ofExcept (work c).1, (work c).2) := rfl

theorem perform_wake {desk : Desk} {place : Nat} {search : Search}
    (h : desk.floor.sleeping[place]? = some search) :
    desk.perform (.wake place) = (desk.takeSearch place).handle search.order
      (freely (·.resume search.radii)) := by
  rw [perform, h]

theorem perform_wake_none {desk : Desk} {place : Nat}
    (h : desk.floor.sleeping[place]? = none) :
    desk.perform (.wake place) = (.done (), desk) := by
  rw [perform, h]

/-- On a sound desk every command is a turn. -/
theorem after_turn {desk : Desk} (h : desk.Sound) (cmd : Command) :
    Turn desk cmd (desk.after cmd) := by
  cases cmd with
  | create request => exact .passed (fun hc => by cases hc) (createOrder_passes request h)
  | respond order driver reply =>
      cases reply with
      | accept =>
          refine handle_decides rfl fun docket hid hd => ?_
          rw [← hid]
          exact Case.accept_decides (c := ⟨docket, desk.floor⟩) (h.orderly hd).oneOpen driver
      | reject =>
          refine .passed (fun hc => by cases hc) (handle_passes _ _ _ fun docket hd => ?_)
          exact Case.reject_worked (h.orderly hd).oneOpen driver
  | cancel order reason text =>
      refine handle_decides rfl fun docket hid _ => ?_
      rw [← hid]
      exact Case.cancel_decides reason text ⟨docket, desk.floor⟩
  | complete order =>
      refine handle_decides rfl fun docket hid _ => ?_
      rw [← hid]
      exact Case.complete_decides ⟨docket, desk.floor⟩
  | dispatch order =>
      exact .passed (fun hc => by cases hc)
        (handle_passes _ _ _ fun docket _ => .sought (Case.dispatch_sought _))
  | retry order =>
      exact .passed (fun hc => by cases hc)
        (handle_passes _ _ _ fun docket _ => Case.retry_worked _)
  | reassign order driver =>
      exact .passed (fun hc => by cases hc)
        (handle_passes _ _ _ fun docket _ => Case.reassign_worked driver _)
  | report driver point stamp =>
      exact .passed (fun hc => by cases hc) (.aside (.reported driver point stamp) rfl)
  | setAvailability driver online maxPickup =>
      exact .passed (fun hc => by cases hc)
        (.aside (.madeAvailable driver online maxPickup) rfl)
  | claimTrip driver pickup trip => exact .claimed driver pickup trip
  | markFree driver order => exact .freed driver order
  | setClock clock => exact .clockSet clock
  | sweep visited =>
      refine .passed (fun hc => by cases hc) ?_
      rw [after, perform]
      split
      · next hv => exact sweepAs_passes h (List.isPerm_iff.1 hv)
      · exact .refl desk
  | wake place =>
      unfold after
      cases hs : desk.floor.sleeping[place]? with
      | none =>
          rw [perform_wake_none hs]
          exact .passed (fun hc => by cases hc) (.refl desk)
      | some search =>
          have hgo := perform_wake hs
          rcases handle_cases search.order (freely (·.resume search.radii))
            (desk.takeSearch place) with ⟨hn, hh⟩ | ⟨docket, hid, hd, hh⟩
          · rw [hgo, hh]
            exact .lost hs (.inl hn)
          · rw [freely_eq] at hh
            rcases Case.resume_cases search.radii ⟨docket, (desk.takeSearch place).floor⟩ with
              ⟨_, hr⟩ | ⟨c, hr, hc⟩
            · rw [hr] at hh
              have hbroken : (desk.perform (.wake place)).1.isBroken = true := by
                rw [hgo, hh]
                rfl
              rw [hgo, hh, putBack_self hd]
              exact .lost hs (.inr hbroken)
            · rw [hr] at hh
              rw [hgo, hh]
              rw [hid] at hd
              exact .woken hs hd hc

end Desk

end Hailing
