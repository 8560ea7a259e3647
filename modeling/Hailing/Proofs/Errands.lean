import Hailing.Proofs.Decisions
import Hailing.Proofs.Exchange
import Hailing.Proofs.Exclusion

/-!
# Errands for different orders

Two errands for different orders come in at the same time, and it makes no
difference which one is done first (`errands_change_places`). An errand is a
search or a decision. Searches look at the whole fleet and change nothing of it;
decisions see and change one driver. So there are two ways for errands to be
apart (`Errand.Apart`): no driver's trips are changed by either of them, or both
are decisions and they do not change the trips of the same driver. A search and
an acceptance are not apart: whether the search finds the driver depends on
which one is first.

An errand is done by a command, and a command looks its order up; a search that
wakes up is looked up by its place among all that are asleep. Its place among
those of its own order is the same on both desks, so this is how an errand names
it.
-/

namespace Hailing

open Time (Instant)

/-- The floor with one of an order's searches woken up. -/
def Floor.awaken (order : Uuid) (n : Nat) (f : Floor) : Floor :=
  { f with sleeping := Search.without order n f.sleeping }

theorem Floor.awaken_eq_leave (order : Uuid) (n : Nat) (f : Floor) :
    f.awaken order n = f.leave order { wakes? := some n } := by
  simp [awaken, leave]

namespace Case

/-! ## Searches -/

/-- Wakes up the `n`-th search of the order, if it is asleep. -/
def wake (n : Nat) (c : Case) : Answer Unit × Case :=
  match (c.floor.asleep c.docket.id)[n]? with
  | none => (.done (), c)
  | some search => Desk.freely (·.resume search.radii) (c.onFloor (·.awaken c.docket.id n))

theorem wake_leaves (n : Nat) (c : Case) :
    ∃ t, Leaves (fun f g => f.Alike g ∧ g.asleep c.docket.id = f.asleep c.docket.id)
        (fun _ a => a) (wake n) c t ∧ t.changed? = none := by
  have hself : c.floor.Alike c.floor ∧ c.floor.asleep c.docket.id = c.floor.asleep c.docket.id :=
    ⟨.refl _, rfl⟩
  cases ha : (c.floor.asleep c.docket.id)[n]? with
  | none =>
      refine ⟨{}, .still (a := .done ()) hself rfl fun hg => ?_, rfl⟩
      simp only [wake, onto_floor, onto_docket, Docket.renamed_id, hg.2, ha]
  | some search =>
      let awake := c.onFloor (·.awaken c.docket.id n)
      obtain ⟨t, ht⟩ := resume_traced search.radii awake
      refine ⟨({ wakes? := some n } : Trace).andThen t, .of_onto hself rfl ht.id_eq
        (a := .ofExcept (awake.resume search.radii).1) fun {π g} hg hd => ?_, rfl⟩
      have hlook : awake.floor.Alike (g.awaken c.docket.id n) :=
        ⟨hg.1.settings, hg.1.clock, hg.1.fleet⟩
      have hdraws : t.Draws π awake.floor.issued (g.awaken c.docket.id n).issued :=
        fun i hi => hd i (by simpa [Trace.andThen] using hi)
      have hwake : (c.onto π g).wake n =
          Desk.freely (·.resume search.radii) (awake.onto π (g.awaken c.docket.id n)) := by
        simp only [wake, onto_floor, onto_docket, Docket.renamed_id, hg.2, ha]
        rfl
      rw [hwake, Desk.freely_eq, ht.elsewhere hlook hdraws, Floor.awaken_eq_leave,
        Trace.renamed_andThen]
      refine congrArg (Prod.mk _) (congrArg (Case.mk _) ?_)
      exact Floor.leave_leave (ht.plain.renamed π) _ _

theorem wake_issued_le (n : Nat) (c : Case) :
    (c.wake n).2.floor.issued ≤ c.floor.issued + 1 := by
  unfold wake
  split
  · exact Nat.le_succ _
  · next search _ => exact resume_issued_le search.radii (c.onFloor (·.awaken c.docket.id n))

/-- A search changes nobody. -/
theorem Leaves.concerns {α : Type} {sees : Floor → Floor → Prop} {act : Renaming → α → α}
    {work : Case → α × Case} {c : Case} {t : Trace} (h : Leaves sees act work c t)
    (hs : sees c.floor c.floor) (ht : t.changed? = none)
    (hi : (work c).2.floor.issued ≤ c.floor.issued + 1) (driver? : Option Uuid) :
    t.Concerns c.floor.fleet driver? := by
  rw [h.floor_eq hs] at hi
  exact ⟨Nat.le_of_add_le_add_left hi, fun hd => by rw [ht] at hd; cases hd⟩

end Case

/-! ## Errands -/

/-- What can be done to an order that is on record. -/
inductive Errand where
  -- Searches.
  | dispatch
  | retry
  | reassign (driver : Uuid)
  | reject (driver : Uuid)
  /-- The `n`-th search of the order wakes up, if it is asleep. -/
  | wake (n : Nat)
  -- Decisions.
  | accept (driver : Uuid)
  | cancel (reason : Order.Reason) (text : Option String)
  | complete

namespace Errand

abbrev Result : Errand → Type
  | .dispatch => Outcome
  | .retry => Outcome
  | .reassign _ => Outcome
  | .reject _ => Reaction
  | .wake _ => Unit
  | .accept _ => Reaction
  | .cancel _ _ => Order
  | .complete => Order

/-- The answer under other names of offers. -/
def rename (π : Renaming) : (e : Errand) → Answer e.Result → Answer e.Result
  | .dispatch => .map (Outcome.renamed π)
  | .retry => .map (Outcome.renamed π)
  | .reassign _ => .map (Outcome.renamed π)
  | .reject _ => .map (Reaction.renamed π)
  | .wake _ => fun a => a
  | .accept _ => .map (Reaction.renamed π)
  | .cancel _ _ => fun a => a
  | .complete => fun a => a

def isDecision : Errand → Bool
  | .accept _ => true
  | .cancel _ _ => true
  | .complete => true
  | _ => false

/-- The driver whose trips change, if any do. -/
def driver? (d : Docket) : Errand → Option Uuid
  | .accept driver => some driver
  | .cancel _ _ => d.onTrip?
  | .complete => d.onTrip?
  | _ => none

/-- How an errand works on the case of its order. -/
def work : (e : Errand) → Case → Answer e.Result × Case
  | .dispatch => Desk.freely Case.dispatch
  | .retry => Case.retry
  | .reassign driver => Desk.freely (·.reassign driver)
  | .reject driver => (·.respond driver .reject)
  | .wake n => (·.wake n)
  | .accept driver => (·.respond driver .accept)
  | .cancel reason text => (·.cancel reason text)
  | .complete => Case.complete

/-- What comes of an errand for an order that is not on record. -/
def missing (order : Uuid) : (e : Errand) → Answer e.Result
  | .dispatch => .refused (.unknownOrder order)
  | .retry => .refused (.unknownOrder order)
  | .reassign _ => .refused (.unknownOrder order)
  | .reject _ => .refused (.unknownOrder order)
  | .wake _ => .done ()
  | .accept _ => .refused (.unknownOrder order)
  | .cancel _ _ => .refused (.unknownOrder order)
  | .complete => .refused (.unknownOrder order)

@[simp] theorem rename_one (e : Errand) (a : Answer e.Result) : e.rename 1 a = a := by
  cases e <;> cases a <;> simp [rename, Answer.map]

@[simp] theorem rename_mul (e : Errand) (π ρ : Renaming) (a : Answer e.Result) :
    e.rename ρ (e.rename π a) = e.rename (ρ * π) a := by
  cases e <;> cases a <;> simp [rename, Answer.map]

/-- Neither of two errands changes the trips of a driver, or both are decisions
and do not change the trips of the same driver. -/
def Apart (e₁ e₂ : Errand) (driver₁? driver₂? : Option Uuid) : Prop :=
  driver₁? = none ∧ driver₂? = none ∨
    e₁.isDecision = true ∧ e₂.isDecision = true ∧
      ∀ driver, driver₁? = some driver → driver₂? ≠ some driver

theorem Apart.symm {e₁ e₂ : Errand} {driver₁? driver₂? : Option Uuid}
    (h : e₁.Apart e₂ driver₁? driver₂?) : e₂.Apart e₁ driver₂? driver₁? := by
  rcases h with ⟨h₁, h₂⟩ | ⟨h₁, h₂, hne⟩
  · exact .inl ⟨h₂, h₁⟩
  · exact .inr ⟨h₂, h₁, fun driver hd hd' => hne driver hd' hd⟩

/-- What an errand sees of the floor. A search looks at the whole fleet, and a
decision at the driver whom it concerns. -/
structure Sees (e : Errand) (d : Docket) (f g : Floor) : Prop where
  settings : g.settings = f.settings
  clock : g.clock = f.clock
  fleet : e.isDecision = false → g.fleet = f.fleet
  driver : ∀ {driver}, e.driver? d = some driver → g.fleet.find? driver = f.fleet.find? driver
  asleep : g.asleep d.id = f.asleep d.id

theorem Sees.refl (e : Errand) (d : Docket) (f : Floor) : e.Sees d f f :=
  ⟨rfl, rfl, fun _ => rfl, fun _ => rfl, rfl⟩

theorem Sees.alike {e : Errand} {d : Docket} {f g : Floor} (h : e.Sees d f g)
    (he : e.isDecision = false) : f.Alike g := ⟨h.settings, h.clock, h.fleet he⟩

theorem Sees.alikeFor {e : Errand} {d : Docket} {f g : Floor} (h : e.Sees d f g) :
    f.AlikeFor (e.driver? d) g := ⟨h.settings, h.clock, h.driver⟩

/-- What another errand leaves is not seen. -/
theorem Apart.sees {e₁ e₂ : Errand} {d₁ d₂ : Docket} (hne : d₁.id ≠ d₂.id) {f : Floor}
    {t : Trace} (h : e₁.Apart e₂ (e₁.driver? d₁) (e₂.driver? d₂))
    (hc : t.Concerns f.fleet (e₂.driver? d₂)) : e₁.Sees d₁ f (f.leave d₂.id t) := by
  have hfleet : t.changed? = none → (f.leave d₂.id t).fleet = f.fleet := fun ht => by
    rw [Floor.leave, ht]
    rfl
  refine ⟨rfl, rfl, fun he => hfleet ?_, fun {driver} hd => ?_, Floor.asleep_leave_of_ne hne t f⟩
  · rcases h with ⟨-, hnone⟩ | ⟨hdecision, -⟩
    · refine Option.eq_none_iff_forall_ne_some.2 fun d hd => ?_
      have hsome := (hc.entry hd).1
      rw [hnone] at hsome
      cases hsome
    · rw [he] at hdecision
      cases hdecision
  · rcases h with ⟨hnone, -⟩ | ⟨-, -, hother⟩
    · rw [hnone] at hd
      cases hd
    · cases ht : t.changed? with
      | none => rw [hfleet ht]
      | some d =>
          have hdiff : d.id ≠ driver := fun he => hother driver hd (he ▸ (hc.entry ht).1)
          rw [Floor.leave, ht]
          exact Register.find?_put_of_ne hdiff

theorem Apart.apart {e₁ e₂ : Errand} {driver₁? driver₂? : Option Uuid}
    (h : e₁.Apart e₂ driver₁? driver₂?) {fleet : Fleet} {t u : Trace}
    (ht : t.Concerns fleet driver₁?) (hu : u.Concerns fleet driver₂?) : t.Apart fleet u where
  left hd := (ht.entry hd).2
  right hd := (hu.entry hd).2
  ne := by
    intro d e hd he hsame
    have hd' := (ht.entry hd).1
    have he' := (hu.entry he).1
    rcases h with ⟨hnone, -⟩ | ⟨-, -, hne⟩
    · rw [hnone] at hd'
      cases hd'
    · exact hne d.id hd' (hsame ▸ he')

theorem leaves_of_traced {e : Errand} (he : e.isDecision = false) {c : Case} {t : Trace}
    (ht : Case.Traced e.rename e.work c t)
    (hi : (e.work c).2.floor.issued ≤ c.floor.issued + 1) :
    Case.Leaves (e.Sees c.docket) e.rename e.work c t ∧
      t.Concerns c.floor.fleet (e.driver? c.docket) :=
  ⟨ht.toLeaves.mono fun hs => hs.alike he,
    ht.toLeaves.concerns (.refl c.floor) ht.plain.entry hi _⟩

/-- Every errand leaves a trace, which concerns nobody but its driver. -/
theorem work_leaves (e : Errand) {c : Case} (ho : c.docket.OneOpen)
    (hk : ∀ offer ∈ c.docket.offers, (c.floor.fleet.find? offer.driver).isSome = true) :
    ∃ t, Case.Leaves (e.Sees c.docket) e.rename e.work c t ∧
      t.Concerns c.floor.fleet (e.driver? c.docket) := by
  cases e with
  | dispatch =>
      obtain ⟨t, ht⟩ := Case.dispatch_traced c
      have hfree := ht.map (fun π => Answer.map (Outcome.renamed π)) Answer.ofExcept
        fun π r => by cases r <;> rfl
      exact ⟨t, leaves_of_traced (e := .dispatch) rfl hfree (Case.dispatch_issued_le c)⟩
  | retry =>
      obtain ⟨t, ht⟩ := Case.retry_traced c
      exact ⟨t, leaves_of_traced (e := .retry) rfl ht (Case.retry_issued_le c)⟩
  | reassign driver =>
      obtain ⟨t, ht⟩ := Case.reassign_traced driver c
      have hfree := ht.map (fun π => Answer.map (Outcome.renamed π)) Answer.ofExcept
        fun π r => by cases r <;> rfl
      exact ⟨t, leaves_of_traced (e := .reassign driver) rfl hfree
        (Case.dispatch_issued_le (c.onDocket (·.exclude driver)))⟩
  | reject driver =>
      obtain ⟨t, ht⟩ := Case.reject_traced driver c
      exact ⟨t, leaves_of_traced (e := .reject driver) rfl ht (Case.reject_issued_le ho driver)⟩
  | wake n =>
      obtain ⟨t, ht, hentry⟩ := Case.wake_leaves n c
      exact ⟨t, ht.mono fun hs => ⟨hs.alike rfl, hs.asleep⟩,
        ht.concerns ⟨.refl c.floor, rfl⟩ hentry (Case.wake_issued_le n c) _⟩
  | accept driver =>
      obtain ⟨t, ht, hc⟩ := Case.accept_leaves driver hk
      exact ⟨t, ht.mono fun hs => hs.alikeFor, hc⟩
  | cancel reason text =>
      obtain ⟨t, ht, hc⟩ := Case.cancel_leaves reason text c
      exact ⟨t, ht.mono fun hs => hs.alikeFor, hc⟩
  | complete =>
      obtain ⟨t, ht, hc⟩ := Case.complete_leaves c
      exact ⟨t, ht.mono fun hs => hs.alikeFor, hc⟩

end Errand

namespace Desk

/-- Does an errand for an order. -/
def errand (order : Uuid) : (e : Errand) → Desk → Answer e.Result × Desk
  | .dispatch, desk => desk.perform (.dispatch order)
  | .retry, desk => desk.perform (.retry order)
  | .reassign driver, desk => desk.perform (.reassign order driver)
  | .reject driver, desk => desk.perform (.respond order driver .reject)
  | .wake n, desk => desk.perform (.wake (Search.place order n desk.floor.sleeping))
  | .accept driver, desk => desk.perform (.respond order driver .accept)
  | .cancel reason text, desk => desk.perform (.cancel order reason text)
  | .complete, desk => desk.perform (.complete order)

theorem errand_after (order : Uuid) (e : Errand) (desk : Desk) :
    ∃ cmd, (desk.errand order e).2 = desk.after cmd := by
  cases e <;> exact ⟨_, rfl⟩

/-- An errand works on the case of its order. -/
theorem errand_eq {desk : Desk} (hk : desk.SearchesKnown) (order : Uuid) (e : Errand) :
    desk.errand order e = desk.workOn order (e.missing order) e.work := by
  cases e with
  | dispatch => exact handle_eq_workOn order (freely Case.dispatch) desk
  | retry => exact handle_eq_workOn order Case.retry desk
  | reassign driver => exact handle_eq_workOn order (freely (·.reassign driver)) desk
  | reject driver => exact handle_eq_workOn order (·.respond driver .reject) desk
  | accept driver => exact handle_eq_workOn order (·.respond driver .accept) desk
  | cancel reason text => exact handle_eq_workOn order (·.cancel reason text) desk
  | complete => exact handle_eq_workOn order Case.complete desk
  | wake n =>
      have hget : desk.floor.sleeping[Search.place order n desk.floor.sleeping]? =
          (desk.floor.asleep order)[n]? := Search.getElem?_place order n _
      show desk.perform (.wake _) = desk.workOn order (.done ()) (·.wake n)
      cases hd : desk.docket? order with
      | none =>
          -- No search is asleep for an order that is not on record.
          rw [hk order hd] at hget
          rw [workOn_none hd]
          exact perform_wake_none hget
      | some docket =>
          obtain rfl := id_of_docket? hd
          rw [workOn_some hd]
          cases ha : (desk.floor.asleep docket.id)[n]? with
          | none =>
              have hwake : (Case.mk docket desk.floor).wake n =
                  (.done (), ⟨docket, desk.floor⟩) := by
                simp only [Case.wake, ha]
              rw [hwake, putBack_self hd]
              exact perform_wake_none (hget.trans ha)
          | some search =>
              have hsearch : search.order = docket.id :=
                (Floor.mem_asleep.1 (List.mem_of_getElem? ha)).2
              have hwake : (Case.mk docket desk.floor).wake n =
                  freely (·.resume search.radii) ⟨docket, desk.floor.awaken docket.id n⟩ := by
                simp only [Case.wake, ha]
                rfl
              have htaken : ∀ place, (desk.takeSearch place).docket? docket.id = some docket :=
                fun _ => hd
              refine (perform_wake (hget.trans ha)).trans ?_
              rw [hsearch, handle_eq_workOn, workOn_some (htaken _), hwake]
              rfl

/-- The driver whose trips an errand changes, if it changes any. -/
def driverFor (order : Uuid) (e : Errand) (desk : Desk) : Option Uuid :=
  (desk.docket? order).bind fun docket => e.driver? docket

/-- Errands for different orders may change places. -/
theorem Drawn.errands_exchange {desk : Desk} (h : desk.Drawn) (hk : desk.SearchesKnown)
    (hasked : ∀ order, ∀ offer ∈ desk.offersFor order,
      (desk.floor.fleet.find? offer.driver).isSome = true)
    {order₁ order₂ : Uuid} (hne : order₁ ≠ order₂) {e₁ e₂ : Errand}
    (hapart : e₁.Apart e₂ (desk.driverFor order₁ e₁) (desk.driverFor order₂ e₂))
    (hi : desk.floor.issued + 2 ≤ Uuid.capacity) :
    Exchange e₁.rename e₂.rename (errand order₁ e₁) (errand order₂ e₂) desk := by
  have hleaves : ∀ {order docket} (e : Errand), desk.docket? order = some docket →
      ∃ t, Case.Leaves (e.Sees docket) e.rename e.work ⟨docket, desk.floor⟩ t ∧
        t.Concerns desk.floor.fleet (e.driver? docket) := by
    intro order docket e hd
    refine e.work_leaves (c := ⟨docket, desk.floor⟩) (h.sound.orderly hd).oneOpen fun offer hm => ?_
    refine hasked order offer ?_
    rw [offersFor, hd]
    exact hm
  have hknown : ∀ order (e : Errand), (desk.errand order e).2.SearchesKnown := by
    intro order e
    obtain ⟨cmd, hcmd⟩ := errand_after order e desk
    rw [hcmd]
    exact (after_turn h.sound cmd).searchesKnown hk
  have hid : ∀ order (e : Errand) docket, desk.docket? order = some docket →
      (e.work ⟨docket, desk.floor⟩).2.docket.id = docket.id := by
    intro order e docket hd
    obtain ⟨t, ht, -⟩ := hleaves e hd
    exact ht.id_eq
  refine Exchange.congr ?_ (errand_eq hk order₁ e₁) (errand_eq hk order₂ e₂)
    (errand_eq (hknown order₁ e₁) order₂ e₂) (errand_eq (hknown order₂ e₂) order₁ e₁)
  refine exchange_of_known hne e₁.rename_one e₂.rename_one (hid order₁ e₁) (hid order₂ e₂) ?_
  rintro docket₁ docket₂ rfl rfl hd₁ hd₂
  obtain ⟨t₁, hl₁, hc₁⟩ := hleaves e₁ hd₁
  obtain ⟨t₂, hl₂, hc₂⟩ := hleaves e₂ hd₂
  rw [driverFor, driverFor, hd₁, hd₂] at hapart
  have hroom : desk.floor.issued + t₁.drawn + t₂.drawn ≤ Uuid.capacity := by
    have := hc₁.drawn
    have := hc₂.drawn
    omega
  exact h.exchange hne hd₁ hd₂ hl₁ hl₂ (.refl _ _ _) (.refl _ _ _) (hapart.sees hne hc₂)
    (hapart.symm.sees hne.symm hc₁) (hapart.apart hc₁ hc₂) (fun π b => by simp) hroom

/-- After every run errands for different orders may change places, unless one
changes the trips of a driver and the other one is a search, or both change the
trips of the same driver. Both answer the same, and the dockets, the open orders,
the fleet, the ledger, the searches asleep and the notices sent are the same in
the end, up to the identifiers of the two offers that may have been made.
A search changes the trips of nobody, and neither does the cancellation of an
order that has not been confirmed. -/
theorem errands_change_places (settings : Settings) (start : Instant) (cmds : List Command)
    {order₁ order₂ : Uuid} (hne : order₁ ≠ order₂) (e₁ e₂ : Errand)
    (hroom : ((opening settings start).run cmds).floor.issued + 2 ≤ Uuid.capacity)
    (hapart : e₁.Apart e₂ (((opening settings start).run cmds).driverFor order₁ e₁)
      (((opening settings start).run cmds).driverFor order₂ e₂)) :
    Exchange e₁.rename e₂.rename (errand order₁ e₁) (errand order₂ e₂)
      ((opening settings start).run cmds) := by
  have hi := Nat.le_trans (Nat.le_add_right _ 2) hroom
  have hk := run_searchesKnown (opening_sound settings start)
    (opening_searchesKnown settings start) cmds
  exact (run_drawn hi).errands_exchange hk (asked_known hi) hne hapart hroom

/-- One of two orders is cancelled while the search of the other one wakes up. -/
theorem errands_change_places_trial :
    let cmds := [.create trialRequest, .create trialRequest]
    let wake := Errand.wake 0
    let cancel := Errand.cancel .changeInPlans none
    trialOrder ≠ .issue 1 ∧
      ((opening {} trialStart).run cmds).floor.issued + 2 ≤ Uuid.capacity ∧
      Exchange (Errand.rename · wake) (Errand.rename · cancel) (errand trialOrder wake)
        (errand (.issue 1) cancel) ((opening {} trialStart).run cmds) := by
  intro cmds wake cancel
  have hne : trialOrder ≠ .issue 1 := by decide +kernel
  have hroom : ((opening {} trialStart).run cmds).floor.issued + 2 ≤ Uuid.capacity := by
    decide +kernel
  have hnobody : ((opening {} trialStart).run cmds).driverFor (.issue 1) cancel = none := by
    decide +kernel
  have hwake : ((opening {} trialStart).run cmds).driverFor trialOrder wake = none := by
    decide +kernel
  exact ⟨hne, hroom, errands_change_places {} trialStart cmds hne wake cancel hroom
    (.inl ⟨hwake, hnobody⟩)⟩

end Desk

end Hailing
