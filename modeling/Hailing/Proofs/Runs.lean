import Mathlib.Data.List.Induction
import Hailing.Proofs.Turns

/-!
# Runs

A run is turn after turn, on a desk that is sound at first and stays so. What
every turn keeps is kept by a run (`run_induction`), and a relation between
dockets that every step of a case respects holds between what a docket was
before a run and what it is after it (`Case.Law`, `run_follows`).
-/

namespace Hailing

open Geo (Point)
open Time (Instant)

namespace Desk

theorem opening_sound (settings : Settings) (start : Instant) :
    (opening settings start).Sound where
  orderly := by intro order docket hf; cases hf
  drawn := by intro order docket hf; cases hf
  distinct := List.nodup_nil

theorem run_sound {desk : Desk} (h : desk.Sound) (cmds : List Command) :
    (desk.run cmds).Sound := by
  induction cmds generalizing desk with
  | nil => exact h
  | cons cmd rest ih => exact ih ((after_turn h cmd).sound h)

theorem run_issued_le {desk : Desk} (h : desk.Sound) (cmds : List Command) :
    desk.floor.issued ≤ (desk.run cmds).floor.issued := by
  induction cmds generalizing desk with
  | nil => exact Nat.le_refl _
  | cons cmd rest ih =>
      have hturn := after_turn h cmd
      exact Nat.le_trans hturn.issued_le (ih (hturn.sound h))

/-- What every turn keeps is kept by a run. -/
theorem run_kept {P : Desk → Prop}
    (hP : ∀ {desk desk' : Desk} {cmd : Command}, Turn desk cmd desk' → P desk → P desk')
    {desk : Desk} (hs : desk.Sound) (h : P desk) (cmds : List Command) :
    P (desk.run cmds) := by
  induction cmds generalizing desk with
  | nil => exact h
  | cons cmd rest ih =>
      have hturn := after_turn hs cmd
      exact ih (hturn.sound hs) (hP hturn h)

theorem run_settings {desk : Desk} (h : desk.Sound) (cmds : List Command) :
    (desk.run cmds).settings = desk.settings :=
  run_kept (P := fun found => found.settings = desk.settings)
    (fun ht hs => ht.settings_eq.trans hs) h rfl cmds

/-- What holds at first and is kept by every turn holds after every run that
does not run out of identifiers. -/
theorem run_induction {P : List Command → Desk → Prop} {desk : Desk} (h : desk.Sound)
    (h0 : P [] desk)
    (hstep : ∀ cmds cmd, (desk.run cmds).Sound →
      Turn (desk.run cmds) cmd (desk.run (cmds ++ [cmd])) →
      (desk.run (cmds ++ [cmd])).floor.issued ≤ Uuid.capacity →
      P cmds (desk.run cmds) → P (cmds ++ [cmd]) (desk.run (cmds ++ [cmd])))
    {cmds : List Command} (hi : (desk.run cmds).floor.issued ≤ Uuid.capacity) :
    P cmds (desk.run cmds) := by
  induction cmds using List.reverseRecOn with
  | nil => exact h0
  | append_singleton cmds cmd ih =>
      have hs := run_sound h cmds
      have hturn : Turn (desk.run cmds) cmd (desk.run (cmds ++ [cmd])) := by
        rw [run_concat]
        exact after_turn hs cmd
      exact hstep cmds cmd hs hturn hi (ih (Nat.le_trans hturn.issued_le hi))

/-- Any step of a run is a turn of a sound desk. -/
theorem run_split {desk : Desk} (h : desk.Sound) {before rest : List Command}
    {cmd : Command}
    (hi : (desk.run (before ++ cmd :: rest)).floor.issued ≤ Uuid.capacity) :
    (desk.run before).Sound ∧ Turn (desk.run before) cmd (desk.run (before ++ [cmd])) ∧
      (desk.run (before ++ [cmd])).floor.issued ≤ Uuid.capacity := by
  have hs := run_sound h before
  have hs' := run_sound h (before ++ [cmd])
  have hsplit : before ++ cmd :: rest = (before ++ [cmd]) ++ rest := by simp
  rw [hsplit, run_append] at hi
  refine ⟨hs, ?_, Nat.le_trans (run_issued_le hs' rest) hi⟩
  rw [run_concat]
  exact after_turn hs cmd

end Desk

/-! ## Laws -/

/-- What every step of a case respects. -/
structure Case.Law (R : Docket → Docket → Prop) : Prop where
  refl : ∀ docket, R docket docket
  trans : ∀ {a b c}, R a b → R b c → R a c
  moved : ∀ {c c' : Case}, c.docket.Orderly → Move c c' → R c.docket c'.docket
  decided : ∀ {c c' : Case} {cmd : Command}, c.docket.Orderly → Decided c cmd c' →
    R c.docket c'.docket
  resumed : ∀ {c c' : Case} {radii : Radii}, c.docket.Orderly → Resumed radii c c' →
    R c.docket c'.docket

namespace Case.Law

variable {R : Docket → Docket → Prop}

theorem moves (hR : Law R) {c c' : Case} (ho : c.docket.Orderly) (h : Moves c c') :
    R c.docket c'.docket := by
  induction h with
  | refl => exact hR.refl _
  | tail hms hm ih => exact hR.trans ih (hR.moved (Moves.orderly hms ho) hm)

theorem touched (hR : Law R) {fleet : Fleet} {a b : Docket} (ho : a.Orderly)
    (h : Touched fleet a b) : R a b := by
  cases h with
  | left => exact hR.refl _
  | worked _ hw => exact hR.moves ho hw.moves
  | decided hd => exact hR.decided ho hd
  | resumed _ hr => exact hR.resumed ho hr

end Case.Law

namespace Desk

/-! ## Nothing is taken off the record -/

theorem Move.keeps {desk desk' : Desk} (h : Move desk desk') {order : Uuid}
    (hd : (desk.docket? order).isSome = true) : (desk'.docket? order).isSome = true := by
  cases h with
  | worked => exact docket?_putBack_isSome hd
  | entered =>
      rw [docket?_enter]
      split
      · rfl
      · exact hd
  | reported | madeAvailable | sweepCounted => exact hd

theorem Moves.keeps {desk desk' : Desk} (h : Moves desk desk') {order : Uuid}
    (hd : (desk.docket? order).isSome = true) : (desk'.docket? order).isSome = true := by
  induction h with
  | refl => exact hd
  | tail _ hm ih => exact hm.keeps ih

theorem Turn.keeps {desk desk' : Desk} {cmd : Command} (h : Turn desk cmd desk')
    {order : Uuid} (hd : (desk.docket? order).isSome = true) :
    (desk'.docket? order).isSome = true := by
  cases h with
  | passed _ hm => exact Moves.keeps hm.moves hd
  | decided | woken => exact docket?_putBack_isSome hd
  | lost | claimed | freed | clockSet => exact hd

theorem run_keeps {desk : Desk} (h : desk.Sound) (cmds : List Command) {order : Uuid}
    (hd : (desk.docket? order).isSome = true) :
    ((desk.run cmds).docket? order).isSome = true :=
  run_kept (P := fun desk => (desk.docket? order).isSome = true) (fun ht => ht.keeps) h hd cmds

/-! ## From a step of a case to a run of the desk -/

/-- The dockets before and after a command, which touches each at most once. -/
theorem Turn.touches {desk desk' : Desk} {cmd : Command} (h : Turn desk cmd desk')
    (hi : desk'.floor.issued ≤ Uuid.capacity) :
    Follows (Case.Touched desk.floor.fleet) desk desk' := by
  cases h with
  | passed _ hm => exact hm.touches hi
  | decided hd _ hc => exact .putBack .left hd hc.id_eq (.decided hc)
  | woken _ hd hr =>
      have hid := id_of_docket? hd
      rw [← hid] at hd
      exact .putBack .left hd (congrArg Order.id hr.order_eq) (.resumed rfl hr)
  | lost | claimed | freed | clockSet => exact .of_eq .left rfl

section Laws

variable {R : Docket → Docket → Prop}

theorem Follows.trans (hR : Case.Law R) {desk desk₁ desk₂ : Desk}
    (hkeep : ∀ {order}, (desk.docket? order).isSome = true →
      (desk₁.docket? order).isSome = true)
    (h₁ : Follows R desk desk₁) (h₂ : Follows R desk₁ desk₂) : Follows R desk desk₂ := by
  intro order found hf
  obtain ⟨before, ho, hr⟩ := h₂ order found hf
  cases ho with
  | old hd =>
      obtain ⟨first, ho, hfirst⟩ := h₁ order before hd
      exact ⟨first, ho, hR.trans hfirst hr⟩
  | new hd hid hn =>
      cases hnone : desk.docket? order with
      | none => exact ⟨_, .new hnone hid hn, hr⟩
      | some docket =>
          have hsome : (desk₁.docket? order).isSome = true := hkeep (by rw [hnone]; rfl)
          rw [hd] at hsome
          cases hsome

theorem Turn.follows (hR : Case.Law R) {desk desk' : Desk} {cmd : Command}
    (hs : desk.Sound) (h : Turn desk cmd desk')
    (hi : desk'.floor.issued ≤ Uuid.capacity) : Follows R desk desk' :=
  (h.touches hi).imp fun ho ht => hR.touched (ho.orderly hs) ht

/-- A law of steps is a law of runs. -/
theorem run_follows (hR : Case.Law R) {desk : Desk} (hs : desk.Sound)
    {cmds : List Command} (hi : (desk.run cmds).floor.issued ≤ Uuid.capacity) :
    Follows R desk (desk.run cmds) := by
  induction cmds generalizing desk with
  | nil => exact .of_eq hR.refl rfl
  | cons cmd rest ih =>
      have hturn := after_turn hs cmd
      have hs₁ := hturn.sound hs
      have hfirst := hturn.follows hR hs (Nat.le_trans (run_issued_le hs₁ rest) hi)
      exact .trans hR hturn.keeps hfirst (ih hs₁ hi)

/-- What is on record stays on record and obeys the law. -/
theorem Follows.of_old {desk desk' : Desk} (h : Follows R desk desk') {order : Uuid}
    (hkeep : (desk.docket? order).isSome = true → (desk'.docket? order).isSome = true)
    {docket : Docket} (hd : desk.docket? order = some docket) :
    ∃ docket', desk'.docket? order = some docket' ∧ R docket docket' := by
  obtain ⟨docket', hd'⟩ := Option.isSome_iff_exists.1 (hkeep (by rw [hd]; rfl))
  obtain ⟨before, ho, hr⟩ := h order docket' hd'
  cases ho with
  | old hb =>
      rw [hd] at hb
      obtain rfl := Option.some.inj hb
      exact ⟨docket', hd', hr⟩
  | new hb => rw [hd] at hb; cases hb

theorem Turn.carries (hR : Case.Law R) {desk desk' : Desk} {cmd : Command}
    (hs : desk.Sound) (h : Turn desk cmd desk')
    (hi : desk'.floor.issued ≤ Uuid.capacity) {order : Uuid} {docket : Docket}
    (hd : desk.docket? order = some docket) :
    ∃ docket', desk'.docket? order = some docket' ∧ R docket docket' :=
  (h.follows hR hs hi).of_old h.keeps hd

theorem run_carries (hR : Case.Law R) {desk : Desk} (hs : desk.Sound)
    {cmds : List Command} (hi : (desk.run cmds).floor.issued ≤ Uuid.capacity)
    {order : Uuid} {docket : Docket} (hd : desk.docket? order = some docket) :
    ∃ docket', (desk.run cmds).docket? order = some docket' ∧ R docket docket' :=
  (run_follows hR hs hi).of_old (run_keeps hs cmds) hd

/-- A property of dockets that new ones have and steps keep, after any run. -/
theorem run_docket {P : Docket → Prop} (hR : Case.Law fun a b => P a → P b)
    (hnew : ∀ record, Drafted record → P (.new record))
    {settings : Settings} {start : Instant} {cmds : List Command}
    (hi : ((opening settings start).run cmds).floor.issued ≤ Uuid.capacity)
    {order : Uuid} {docket : Docket}
    (hf : ((opening settings start).run cmds).docket? order = some docket) : P docket := by
  obtain ⟨before, ho, hr⟩ := run_follows hR (opening_sound settings start) hi order docket hf
  cases ho with
  | old hd => cases hd
  | new _ _ hn => exact hr (hnew _ hn)

end Laws

end Desk

/-! ## Time goes by in runs

Whatever comes due is a command at a set clock, so a desk in time goes through
nothing but runs. -/

namespace Timeline

variable {t : Timeline}

/-- A search wakes up as by the command. -/
theorem wake_desk {search : Search} {place : Nat}
    (hat : t.desk.floor.sleeping[place]? = some search) :
    (t.wake search (t.desk.floor.sleeping.eraseIdx place)).desk =
      (t.deskAt search.wakeAt).after (.wake place) := by
  have hasleep : (t.deskAt search.wakeAt).floor.sleeping[place]? = some search := hat
  rw [Desk.after, Desk.perform_wake hasleep]
  rfl

/-- A sweeper sweeps as by the command. -/
theorem tick_desk (sweeper : Sweeper) (others : List Sweeper) (t : Timeline) :
    (t.tick sweeper others).desk =
      (t.deskAt sweeper.due).after (.sweep (t.deskAt sweeper.due).floor.openOrders) := by
  have hperm : (t.deskAt sweeper.due).floor.openOrders.isPerm
      (t.deskAt sweeper.due).floor.openOrders = true := List.isPerm_iff.2 (.refl _)
  rw [Desk.after, Desk.perform, if_pos hperm, ← Desk.sweep_eq, tick]
  split
  · next heq => rw [heq]
  · next heq => rw [heq]

theorem wake_run {search : Search} {others : List Search}
    (h : Agenda.earliest? Search.wakeAt t.desk.floor.sleeping = some (search, others)) :
    ∃ cmds, (t.wake search others).desk = t.desk.run cmds := by
  obtain ⟨place, hat, rfl⟩ := Agenda.earliest?_eraseIdx h
  exact ⟨[.setClock (t.deskAt search.wakeAt).floor.clock, .wake place], wake_desk hat⟩

theorem tick_run (sweeper : Sweeper) (others : List Sweeper) (t : Timeline) :
    ∃ cmds, (t.tick sweeper others).desk = t.desk.run cmds :=
  ⟨[.setClock (t.deskAt sweeper.due).floor.clock, .sweep (t.deskAt sweeper.due).floor.openOrders],
    tick_desk sweeper others t⟩

theorem runUntil_run (target : Nat) (t : Timeline) :
    ∃ cmds, (t.runUntil target).desk = t.desk.run cmds := by
  fun_induction runUntil target t with
  | case1 t => exact ⟨[.setClock (t.deskAt target).floor.clock], rfl⟩
  | case2 t search others h ih =>
      obtain ⟨first, hfirst⟩ := wake_run (earliest?_of_due?_waking h)
      obtain ⟨rest, hrest⟩ := ih
      exact ⟨first ++ rest, by rw [Desk.run_append, ← hfirst, hrest]⟩
  | case3 t sweeper others h ih =>
      obtain ⟨first, hfirst⟩ := tick_run sweeper others t
      obtain ⟨rest, hrest⟩ := ih
      exact ⟨first ++ rest, by rw [Desk.run_append, ← hfirst, hrest]⟩

end Timeline

namespace Desk

/-! ## A trial run

No driver is around. The order is searched for in vain, and it is cancelled
while the search is asleep; the search wakes up and finds that out. -/

def trialStart : Instant := ⟨19783, 36000, 0, by decide, by decide, by decide, by decide⟩

def trialRequest : Order.NewOrder :=
  { rider := .ofNat 7
    kind := .forMe
    legs := [
      { pickup := ⟨41.3, 69.24⟩, dropoff := ⟨41.31, 69.25⟩, category := none, price := none },
      { pickup := ⟨41.31, 69.25⟩, dropoff := ⟨41.35, 69.3⟩, category := none, price := none }] }

def trialOrder : Uuid := .issue 0

def trialRun : List Command :=
  [ .create trialRequest,
    .reassign trialOrder (.ofNat 9),
    .respond trialOrder (.ofNat 9) .accept,
    .cancel trialOrder .changeInPlans none,
    .wake 0 ]

end Desk

end Hailing
