import Hailing.Proofs.Runs

/-!
# The stages of an order

An order waits, is confirmed, and is completed or cancelled. Three commands
move it on, and each of them looks first at the stage it moves the order from
(`Order.Advance`). Nothing else that a desk does writes into an order: a search
that wakes up late and a sweep over orders that are closed work on the docket
around it.

What is said of whole runs follows from this one step (`Order.Lasts`). What the
request said stays, an order that is completed or cancelled stays as it is, and
who drives is settled once: a driver is put down only for an order that waits,
and such an order has none yet, as its docket is orderly.
-/

namespace Hailing

open Time (Instant)

namespace Order

/-- A text goes with the reason `other` and with no other reason. -/
structure Cancellation.Worded (c : Cancellation) : Prop where
  text_iff : c.otherReason.isSome = true ↔ c.reason = .other
  inner : ∀ text, c.otherReason = some text → Text.IsInner text

/-- What is filled in belongs to the stage of the order. -/
structure Filled (o : Order) : Prop where
  completed : o.completedAt?.isSome = true ↔ o.status = .completed
  cancelled : o.cancellation?.isSome = true ↔ o.status = .cancelled
  worded : ∀ c, o.cancellation? = some c → c.Worded

/-- What a command makes of an order when it moves it on to its next stage. -/
inductive Advance (o : Order) (moment : Instant) : Command → Order → Prop
  | confirmed {driver : Uuid} (hs : o.status = .pending) :
      Advance o moment (.respond o.id driver .accept)
        { o with status := .confirmed, driver? := some driver }
  | completed (hs : o.status = .confirmed) :
      Advance o moment (.complete o.id)
        { o with status := .completed, completedAt? := some moment }
  | cancelled {reason : Reason} {text : Option String} {cancellation : Cancellation}
      (hs : o.status = .pending ∨ o.status = .confirmed)
      (hm : Cancellation.make reason text moment = .ok cancellation) :
      Advance o moment (.cancel o.id reason text)
        { o with status := .cancelled, cancellation? := some cancellation }

/-- What an order is at a later time. -/
structure Lasts (o o' : Order) : Prop where
  id : o'.id = o.id
  code : o'.code = o.code
  rider : o'.rider = o.rider
  kind : o'.kind = o.kind
  legs : o'.legs = o.legs
  createdAt : o'.createdAt = o.createdAt
  waited : o'.status = .pending → o.status = .pending
  final : o.status = .completed ∨ o.status = .cancelled → o' = o
  driven : ∀ driver, o.driver? = some driver → o'.driver? = some driver

/-! ## One step -/

theorem Cancellation.make_worded {reason : Reason} {text : Option String} {moment : Instant}
    {c : Cancellation} (h : make reason text moment = .ok c) : c.Worded := by
  unfold make at h
  split at h
  · cases h
  · next typed he =>
      cases h
      refine ⟨⟨fun _ => rfl, fun _ => rfl⟩, fun text ht => ?_⟩
      obtain rfl := Option.some.inj ht
      obtain ⟨hm, hne⟩ := Option.filter_eq_some_iff.1 he
      obtain ⟨raw, -, rfl⟩ := Option.map_eq_some_iff.1 hm
      exact Text.trim_isInner (by simpa using hne)
  · next hnone hsome =>
      cases h
      refine ⟨⟨fun hs => (by cases hs), fun hr => ?_⟩, fun text ht => by cases ht⟩
      cases he : entered? text with
      | none => exact (hnone hr he).elim
      | some typed => exact (hsome typed hr he).elim

namespace Advance

variable {o o' : Order} {moment : Instant} {cmd : Command}

theorem filled (h : o.Advance moment cmd o') (hf : o.Filled) : o'.Filled := by
  have hc := hf.completed
  have hx := hf.cancelled
  cases h with
  | confirmed hs => exact ⟨by simpa [hs] using hc, by simpa [hs] using hx, hf.worded⟩
  | completed hs => exact ⟨by simp, by simpa [hs] using hx, hf.worded⟩
  | cancelled hs hm =>
      refine ⟨?_, by simp, fun c he => ?_⟩
      · rcases hs with hs | hs <;> simpa [hs] using hc
      · obtain rfl := Option.some.inj he
        exact Cancellation.make_worded hm

theorem lasts (h : o.Advance moment cmd o') (hn : o.status = .pending → o.driver? = none) :
    o.Lasts o' := by
  cases h with
  | confirmed hs =>
      refine ⟨rfl, rfl, rfl, rfl, rfl, rfl, fun _ => hs, fun hf => ?_, fun driver hd => ?_⟩
      · rcases hf with hf | hf <;> rw [hs] at hf <;> cases hf
      · rw [hn hs] at hd
        cases hd
  | completed hs =>
      refine ⟨rfl, rfl, rfl, rfl, rfl, rfl, fun hp => (by cases hp), fun hf => ?_, fun _ hd => hd⟩
      rcases hf with hf | hf <;> rw [hs] at hf <;> cases hf
  | cancelled hs hm =>
      refine ⟨rfl, rfl, rfl, rfl, rfl, rfl, fun hp => (by cases hp), fun hf => ?_, fun _ hd => hd⟩
      rcases hs with hs | hs <;> rcases hf with hf | hf <;> rw [hs] at hf <;> cases hf

end Advance

namespace Lasts

variable {a b c : Order}

theorem refl (o : Order) : o.Lasts o :=
  ⟨rfl, rfl, rfl, rfl, rfl, rfl, fun h => h, fun _ => rfl, fun _ h => h⟩

theorem trans (h₁ : a.Lasts b) (h₂ : b.Lasts c) : a.Lasts c where
  id := h₂.id.trans h₁.id
  code := h₂.code.trans h₁.code
  rider := h₂.rider.trans h₁.rider
  kind := h₂.kind.trans h₁.kind
  legs := h₂.legs.trans h₁.legs
  createdAt := h₂.createdAt.trans h₁.createdAt
  waited hp := h₁.waited (h₂.waited hp)
  final hf := by
    obtain rfl := h₁.final hf
    exact h₂.final hf
  driven driver hd := h₂.driven driver (h₁.driven driver hd)

end Lasts

end Order

namespace Case

theorem Decided.advances {c c' : Case} {cmd : Command} (h : Decided c cmd c') :
    c.docket.order.Advance c.floor.now cmd c'.docket.order := by
  cases h with
  | taken hp _ _ hc =>
      have hd := claim_docket hc
      show Order.Advance _ _ _ { Docket.order _ with status := _, driver? := _ }
      rw [hd]
      exact .confirmed hp
  | withdrawn hp hm => exact .cancelled (.inl hp) hm
  | recalled hp hm =>
      show Order.Advance _ _ _ (releaseDriver _).docket.order
      rw [releaseDriver_docket]
      exact .cancelled (.inr hp) hm
  | completed hp =>
      rw [completed_docket]
      exact .completed hp

theorem filled_law : Law fun a b => a.order.Filled → b.order.Filled where
  refl _ h := h
  trans h₁ h₂ h := h₂ (h₁ h)
  moved _ hm h := hm.order_eq ▸ h
  decided _ hd h := hd.advances.filled h
  resumed _ hr h := hr.order_eq ▸ h

theorem lasts_law : Law fun a b => a.order.Lasts b.order where
  refl _ := .refl _
  trans h₁ h₂ := h₁.trans h₂
  moved _ hm := hm.order_eq ▸ .refl _
  decided ho hd := hd.advances.lasts fun hp => ho.driver_eq.trans (ho.waits hp)
  resumed _ hr := hr.order_eq ▸ .refl _

end Case

namespace Desk

/-- Nothing is filled in for an order that was just drafted. -/
theorem Drafted.filled {record : Order} (h : Drafted record) : record.Filled := by
  obtain ⟨_, _, _, rfl⟩ := h
  exact ⟨by simp [draftOrder], by simp [draftOrder], fun c hc => by cases hc⟩

/-! ## One command -/

section Kept

variable {desk desk' : Desk} {order : Uuid} {docket : Docket}

theorem Move.order_kept (h : Move desk desk') (hi : desk'.floor.issued ≤ Uuid.capacity)
    (hd : desk.docket? order = some docket) :
    ∃ docket', desk'.docket? order = some docket' ∧ docket'.order = docket.order := by
  cases h with
  | @worked other c hother hm =>
      have hid : c.docket.id = other.id := congrArg Order.id hm.order_eq
      rw [docket?_putBack]
      split
      · next he =>
          rw [← he, hid, hother] at hd
          obtain rfl := Option.some.inj hd
          exact ⟨c.docket, rfl, hm.order_eq⟩
      · exact ⟨docket, hd, rfl⟩
  | entered _ hn =>
      rw [enter_issued] at hi
      rw [docket?_enter]
      split
      · next he =>
          have hnone : desk.docket? order = none := he ▸ hn hi
          rw [hd] at hnone
          cases hnone
      · exact ⟨docket, hd, rfl⟩
  | reported | madeAvailable | sweepCounted => exact ⟨docket, hd, rfl⟩

theorem Moves.order_kept (h : Moves desk desk') (hi : desk'.floor.issued ≤ Uuid.capacity)
    (hd : desk.docket? order = some docket) :
    ∃ docket', desk'.docket? order = some docket' ∧ docket'.order = docket.order := by
  induction h with
  | refl => exact ⟨docket, hd, rfl⟩
  | tail _ hm ih =>
      obtain ⟨docket₁, hd₁, ho₁⟩ := ih (Nat.le_trans hm.issued_le hi)
      obtain ⟨docket₂, hd₂, ho₂⟩ := hm.order_kept hi hd₁
      exact ⟨docket₂, hd₂, ho₂.trans ho₁⟩

/-- A command leaves an order as it was, or it is done and moves it on. -/
theorem Turn.advances {cmd : Command} (h : Turn desk cmd desk')
    (hi : desk'.floor.issued ≤ Uuid.capacity) (hd : desk.docket? order = some docket) :
    ∃ docket', desk'.docket? order = some docket' ∧
      (docket'.order = docket.order ∨ (desk.perform cmd).1.isDone = true ∧
        docket.order.Advance desk.now cmd docket'.order) := by
  cases h with
  | passed _ hm =>
      obtain ⟨docket', hd', ho⟩ := Moves.order_kept hm.moves hi hd
      exact ⟨docket', hd', .inl ho⟩
  | @decided _ other c hother hdone hc =>
      rw [docket?_putBack]
      split
      · next he =>
          rw [← he, hc.id_eq, hother] at hd
          obtain rfl := Option.some.inj hd
          exact ⟨c.docket, rfl, .inr ⟨hdone, hc.advances⟩⟩
      · exact ⟨docket, hd, .inl rfl⟩
  | @woken place search other c _ hother hr =>
      have hid : c.docket.id = search.order :=
        (congrArg Order.id hr.order_eq).trans (id_of_docket? hother)
      rw [docket?_putBack]
      split
      · next he =>
          rw [← he, hid, hother] at hd
          obtain rfl := Option.some.inj hd
          exact ⟨c.docket, rfl, .inl hr.order_eq⟩
      · exact ⟨docket, hd, .inl rfl⟩
  | lost | claimed | freed | clockSet => exact ⟨docket, hd, .inl rfl⟩

end Kept

/-- After every run what is filled in for an order belongs to its stage, and
if it was cancelled for another reason than those on the list this reason was
given, without blanks around it. With every step of the run an order stays as
it is, unless the step is a command that is done and moves it on: a driver
accepts it while it waits, it is completed while it is confirmed, or it is
cancelled at one of these two stages. And from any point of the run to its end
an order keeps what was asked for, its driver once it has one, and everything
once it is completed or cancelled. -/
theorem order_lifecycle (settings : Settings) (start : Instant) (cmds : List Command)
    (hi : ((opening settings start).run cmds).floor.issued ≤ Uuid.capacity) :
    (∀ order docket, ((opening settings start).run cmds).docket? order = some docket →
      docket.order.Filled) ∧
    (∀ before cmd rest order docket, cmds = before ++ cmd :: rest →
      let desk := (opening settings start).run before
      desk.docket? order = some docket →
      ∃ docket', (desk.after cmd).docket? order = some docket' ∧
        (docket'.order = docket.order ∨ (desk.perform cmd).1.isDone = true ∧
          docket.order.Advance desk.now cmd docket'.order)) ∧
    ∀ before later order docket, cmds = before ++ later →
      ((opening settings start).run before).docket? order = some docket →
      ∃ docket', ((opening settings start).run cmds).docket? order = some docket' ∧
        docket.order.Lasts docket'.order := by
  have hopen := opening_sound settings start
  refine ⟨fun order docket hd => ?_, ?_, ?_⟩
  · exact run_docket (P := fun d => d.order.Filled) Case.filled_law (fun _ hr => hr.filled) hi hd
  · rintro before cmd rest order docket rfl desk hd
    obtain ⟨-, hturn, hle⟩ := run_split hopen hi
    rw [run_concat] at hturn hle
    exact hturn.advances hle hd
  · rintro before later order docket rfl hd
    rw [run_append] at hi ⊢
    exact run_carries Case.lasts_law (run_sound hopen before) hi hd

/-- The order as it was entered, and as it was cancelled later. -/
theorem order_lifecycle_trial :
    ((opening {} trialStart).run trialRun).floor.issued ≤ Uuid.capacity ∧
      ∃ docket docket',
        ((opening {} trialStart).run (trialRun.take 1)).docket? trialOrder = some docket ∧
        ((opening {} trialStart).run trialRun).docket? trialOrder = some docket' ∧
        docket.order.Lasts docket'.order ∧ docket'.order.Filled := by
  have hi : ((opening {} trialStart).run trialRun).floor.issued ≤ Uuid.capacity := by
    decide +kernel
  have hsome :
      (((opening {} trialStart).run (trialRun.take 1)).docket? trialOrder).isSome = true := by
    decide +kernel
  obtain ⟨docket, hd⟩ := Option.isSome_iff_exists.1 hsome
  obtain ⟨hfilled, -, hlasts⟩ := order_lifecycle {} trialStart trialRun hi
  obtain ⟨docket', hd', hl⟩ := hlasts (trialRun.take 1) (trialRun.drop 1) trialOrder docket
    (List.take_append_drop 1 trialRun).symm hd
  exact ⟨hi, docket, docket', hd, hd', hl, hfilled trialOrder docket' hd'⟩

end Desk

end Hailing
