import Hailing.Proofs.Courses

/-!
# Searches in time

In a run a search may wake up at any moment, but in time it does not. What is due first
is done first, at the time at which it is due, so no search and no sweeper is ever left
behind (`Timeline.Timely`). Whatever a desk lives through is then a run that is punctual
(`Timeline.Lived.reached`), and when time has gone on to some moment all that was due
by then is done (`Timeline.runUntil_punctual`).

With this the course of a search is complete: it begins with the first radius, goes on
with the others one by one after a rest each, and ends with the first that finds anybody
(`Desk.search_tries_every_radius`).
-/

namespace Hailing

open Time (Instant)

/-! ## What comes first -/

namespace Agenda

variable {α : Type} {due : α → Nat} {entries others : List α} {a : α}

theorem earliest?_eq_none : earliest? due entries = none ↔ entries = [] := by
  cases entries with
  | nil => simp [earliest?]
  | cons b rest =>
      rw [earliest?]
      split
      · simp
      · split <;> simp

/-- What comes first is due no later than anything else. -/
theorem le_of_earliest? (h : earliest? due entries = some (a, others)) {b : α}
    (hb : b ∈ entries) : due a ≤ due b := by
  induction entries generalizing a others with
  | nil => cases hb
  | cons head rest ih =>
      rw [earliest?] at h
      split at h
      · next hnone =>
        obtain ⟨rfl, rfl⟩ : head = a ∧ rest = others := by simpa using h
        rw [earliest?_eq_none.1 hnone] at hb
        rw [List.mem_singleton.1 hb]
      · next first others' hfirst =>
        split at h
        · next hlt =>
          obtain ⟨rfl, rfl⟩ : first = a ∧ head :: others' = others := by simpa using h
          rcases List.mem_cons.1 hb with rfl | hb
          · exact Nat.le_of_lt hlt
          · exact ih hfirst hb
        · next hge =>
          obtain ⟨rfl, rfl⟩ : head = a ∧ rest = others := by simpa using h
          rcases List.mem_cons.1 hb with rfl | hb
          · exact Nat.le_refl _
          · exact Nat.le_trans (Nat.not_lt.1 hge) (ih hfirst hb)

theorem mem_of_earliest? (h : earliest? due entries = some (a, others)) :
    a ∈ entries ∧ others ⊆ entries := by
  obtain ⟨place, hat, rfl⟩ := earliest?_eraseIdx h
  exact ⟨List.mem_of_getElem? hat, List.eraseIdx_subset⟩

end Agenda

/-! ## No search is overdue -/

def Command.setsClock : Command → Bool
  | .setClock _ => true
  | _ => false

/-- Neither the waking of a search nor the setting of the clock is asked for. -/
def Command.isAsked : Command → Bool
  | .wake _ => false
  | .setClock _ => false
  | _ => true

/-- No search should have woken up before. -/
def Floor.Timely (f : Floor) : Prop := ∀ s ∈ f.sleeping, f.clock.ticks ≤ s.wakeAt

namespace Floor.Timely

variable {f f' : Floor}

theorem fewer (h : f.Timely) (hc : f'.clock = f.clock) (hs : f'.sleeping ⊆ f.sleeping) :
    f'.Timely := by
  intro s hm
  rw [hc]
  exact h s (hs hm)

theorem congr (h : f.Timely) (hc : f'.clock = f.clock) (hs : f'.sleeping = f.sleeping) :
    f'.Timely :=
  h.fewer hc fun _ hm => hs ▸ hm

theorem sleep (h : f.Timely) (order : Uuid) (radii : Radii) : (f.sleep order radii).Timely := by
  intro s hm
  rcases List.mem_append.1 hm with hm | hm
  · exact h s hm
  · rw [List.mem_singleton.1 hm]
    exact Nat.le_add_right _ _

end Floor.Timely

namespace Case

variable {c c' : Case}

theorem Move.timely (h : Move c c') (hc : c.floor.Timely) : c'.floor.Timely := by
  cases h with
  | dispatched hd =>
      cases hd with
      | skipped | offered | exhausted => exact hc
      | searching => exact hc.sleep _ _
  | excluded => exact hc
  | closed | settled =>
      exact hc.congr (Floor.Steady.settle _ _).clock (Floor.settle_sleeping _ _)

theorem Moves.timely (h : Moves c c') (hc : c.floor.Timely) : c'.floor.Timely := by
  induction h with
  | refl => exact hc
  | tail _ hm ih => exact hm.timely ih

theorem Resumed.timely {radii : Radii} (h : Resumed radii c c') (hc : c.floor.Timely) :
    c'.floor.Timely := by
  cases h with
  | abandoned | offered | exhausted => exact hc
  | widened => exact hc.sleep _ _

end Case

namespace Desk

variable {desk desk' : Desk}

theorem Move.timely (h : Move desk desk') (hd : desk.floor.Timely) : desk'.floor.Timely := by
  cases h with
  | worked _ hm => exact hm.timely hd
  | entered =>
      exact hd.congr (enter_steady _ _).clock (Floor.openOrder_sleeping _ _)
  | reported | madeAvailable | sweepCounted => exact hd

theorem Moves.timely (h : Moves desk desk') (hd : desk.floor.Timely) : desk'.floor.Timely := by
  induction h with
  | refl => exact hd
  | tail _ hm ih => exact hm.timely ih

/-- Only setting the clock can make a search overdue. -/
theorem Turn.timely {cmd : Command} (h : Turn desk cmd desk')
    (hn : cmd.setsClock = false) (hd : desk.floor.Timely) : desk'.floor.Timely := by
  cases h with
  | passed _ hm => exact Moves.timely hm.moves hd
  | decided _ _ hc => exact hd.congr hc.steady.clock hc.sleeping_eq
  | woken _ _ hr => exact hr.timely (hd.fewer rfl List.eraseIdx_subset)
  | lost => exact hd.fewer rfl List.eraseIdx_subset
  | claimed | freed => exact hd
  | clockSet clock => cases hn

theorem Turn.clock_eq {cmd : Command} (h : Turn desk cmd desk')
    (hn : cmd.setsClock = false) : desk'.floor.clock = desk.floor.clock := by
  cases h with
  | passed _ hm => exact (Moves.steady hm.moves).clock
  | decided _ _ hc => exact hc.steady.clock
  | woken _ _ hr => exact hr.steady.clock
  | lost | claimed | freed => rfl
  | clockSet clock => cases hn

/-! ## Punctual runs -/

theorem isPunctual_append (as bs : List Command) (desk : Desk) :
    desk.isPunctual (as ++ bs) = (desk.isPunctual as && (desk.run as).isPunctual bs) := by
  induction as generalizing desk with
  | nil => rfl
  | cons cmd rest ih => simp only [List.cons_append, isPunctual, run, ih, Bool.and_assoc]

/-- A punctual run leads from one desk to the other. -/
def Reaches (desk desk' : Desk) : Prop :=
  ∃ cmds, desk.run cmds = desk' ∧ desk.isPunctual cmds = true

theorem Reaches.trans {desk₁ desk₂ : Desk} (h₁ : desk.Reaches desk₁) (h₂ : desk₁.Reaches desk₂) :
    desk.Reaches desk₂ := by
  obtain ⟨first, rfl, hfirst⟩ := h₁
  obtain ⟨rest, rfl, hrest⟩ := h₂
  refine ⟨first ++ rest, run_append first rest desk, ?_⟩
  rw [isPunctual_append, hfirst, hrest]
  rfl

theorem Reaches.sound (h : desk.Reaches desk') (hs : desk.Sound) : desk'.Sound := by
  obtain ⟨cmds, rfl, -⟩ := h
  exact run_sound hs cmds

end Desk

theorem Clock.of_kept? {c later : Clock} (h : c.kept? = some later) : c = later := by
  unfold kept? at h
  split at h
  · exact Option.some.inj h
  · cases h

namespace Timeline

/-! ## What is due -/

variable {t : Timeline} {target : Nat}

/-- Neither a search nor a sweeper is overdue. -/
structure Timely (t : Timeline) : Prop where
  searches : t.desk.floor.Timely
  sweepers : ∀ s ∈ t.sweepers, t.desk.floor.clock.ticks ≤ s.due

/-- The sweeper that is due first, if it is due by then. -/
theorem sweep_cases (t : Timeline) (target : Nat) :
    let sweep? := (Agenda.earliest? Sweeper.due t.sweepers).bind fun (s, others) =>
      if s.due ≤ target then some (s, others) else none
    (sweep? = none ∧ ∀ s ∈ t.sweepers, target < s.due) ∨
      ∃ sweeper rest, sweep? = some (sweeper, rest) ∧
        Agenda.earliest? Sweeper.due t.sweepers = some (sweeper, rest) ∧ sweeper.due ≤ target := by
  cases he : Agenda.earliest? Sweeper.due t.sweepers with
  | none =>
      refine .inl ⟨rfl, fun s hm => ?_⟩
      rw [Agenda.earliest?_eq_none.1 he] at hm
      cases hm
  | some first =>
      obtain ⟨sweeper, rest⟩ := first
      dsimp only [Option.bind_some]
      split
      · next hd => exact .inr ⟨sweeper, rest, rfl, rfl, hd⟩
      · next hd =>
        refine .inl ⟨rfl, fun s hm => ?_⟩
        exact Nat.lt_of_lt_of_le (Nat.not_le.1 hd) (Agenda.le_of_earliest? he hm)

/-- Nothing else is due before. -/
def Foremost (target : Nat) (t : Timeline) : Option Due → Prop
  | none => (∀ s ∈ t.desk.floor.sleeping, target < s.wakeAt) ∧ ∀ s ∈ t.sweepers, target < s.due
  | some (.waking search _) => search.wakeAt ≤ target ∧
      (∀ s ∈ t.desk.floor.sleeping, search.wakeAt ≤ s.wakeAt) ∧
      ∀ s ∈ t.sweepers, search.wakeAt ≤ s.due
  | some (.sweep sweeper _) => sweeper.due ≤ target ∧
      (∀ s ∈ t.desk.floor.sleeping, sweeper.due ≤ s.wakeAt) ∧
      ∀ s ∈ t.sweepers, sweeper.due ≤ s.due

theorem due?_foremost (target : Nat) (t : Timeline) : t.Foremost target (t.due? target) := by
  unfold due?
  dsimp only
  rcases sweep_cases t target with ⟨hsweep, hlate⟩ | ⟨sweeper, rest, hsweep, he, hd⟩
  · rw [hsweep]
    cases hsearch : Agenda.earliest? Search.wakeAt t.desk.floor.sleeping with
    | none => exact ⟨by simp [Agenda.earliest?_eq_none.1 hsearch], hlate⟩
    | some first =>
        obtain ⟨search, others⟩ := first
        dsimp only
        split
        · next hdue =>
          refine ⟨hdue, fun _ hm => Agenda.le_of_earliest? hsearch hm, fun s hm => ?_⟩
          exact Nat.le_of_lt (Nat.lt_of_le_of_lt hdue (hlate s hm))
        · next hdue =>
          refine ⟨fun s hm => ?_, hlate⟩
          exact Nat.lt_of_lt_of_le (Nat.not_le.1 hdue) (Agenda.le_of_earliest? hsearch hm)
  · rw [hsweep]
    have hfirst := fun s hm => Agenda.le_of_earliest? (b := s) he hm
    cases hsearch : Agenda.earliest? Search.wakeAt t.desk.floor.sleeping with
    | none => exact ⟨hd, by simp [Agenda.earliest?_eq_none.1 hsearch], hfirst⟩
    | some first =>
        obtain ⟨search, others⟩ := first
        dsimp only
        split
        · next hle =>
          refine ⟨Nat.le_trans hle hd, fun _ hm => Agenda.le_of_earliest? hsearch hm, ?_⟩
          exact fun s hm => Nat.le_trans hle (hfirst s hm)
        · next hlt =>
          refine ⟨hd, fun s hm => ?_, hfirst⟩
          exact Nat.le_trans (Nat.le_of_lt (Nat.not_le.1 hlt)) (Agenda.le_of_earliest? hsearch hm)

/-! ## Time goes on -/

theorem deskAt_ticks {tick : Nat} (h : t.desk.floor.clock.ticks ≤ tick) :
    (t.deskAt tick).floor.clock.ticks = tick :=
  Nat.add_sub_cancel' h

theorem deskAt_sound (hs : t.desk.Sound) (tick : Nat) : (t.deskAt tick).Sound :=
  hs.congr rfl rfl (Nat.le_refl _)

theorem deskAt_timely {tick : Nat} (h : t.desk.floor.clock.ticks ≤ tick)
    (hs : ∀ s ∈ t.desk.floor.sleeping, tick ≤ s.wakeAt) : (t.deskAt tick).floor.Timely := by
  intro s hm
  rw [deskAt_ticks h]
  exact hs s hm

/-- A search that is due first wakes up at its time. -/
theorem wake_punctual {search : Search} {others : List Search} (hs : t.desk.Sound)
    (ht : t.Timely) (hd : t.due? target = some (.waking search others)) :
    t.desk.Reaches (t.wake search others).desk ∧ (t.wake search others).Timely ∧
      (t.wake search others).desk.floor.clock.ticks ≤ target := by
  have hforemost := due?_foremost target t
  rw [hd] at hforemost
  obtain ⟨hdue, hfirst, hsweepers⟩ := hforemost
  obtain ⟨place, hat, rfl⟩ := Agenda.earliest?_eraseIdx (earliest?_of_due?_waking hd)
  have hle := ht.searches search (List.mem_of_getElem? hat)
  have hasleep : (t.deskAt search.wakeAt).floor.sleeping[place]? = some search := hat
  have hwake := wake_desk hat
  have hturn := Desk.after_turn (deskAt_sound hs search.wakeAt) (.wake place)
  have hticks : ((t.deskAt search.wakeAt).after (.wake place)).floor.clock.ticks =
      search.wakeAt := by
    rw [hturn.clock_eq rfl, deskAt_ticks hle]
  refine ⟨⟨[.setClock (t.deskAt search.wakeAt).floor.clock, .wake place], hwake.symm, ?_⟩,
    ⟨?_, ?_⟩, ?_⟩
  · exact (Desk.isPunctual_wake hasleep).2 ⟨(deskAt_ticks hle).symm, rfl⟩
  · rw [hwake]
    exact hturn.timely rfl (deskAt_timely hle hfirst)
  · rw [hwake, hticks]
    exact hsweepers
  · rw [hwake, hticks]
    exact hdue

/-- A sweeper that is due first ticks at its time. -/
theorem tick_punctual {sweeper : Sweeper} {others : List Sweeper} (hs : t.desk.Sound)
    (ht : t.Timely) (hd : t.due? target = some (.sweep sweeper others)) :
    t.desk.Reaches (t.tick sweeper others).desk ∧ (t.tick sweeper others).Timely ∧
      (t.tick sweeper others).desk.floor.clock.ticks ≤ target := by
  have hforemost := due?_foremost target t
  rw [hd] at hforemost
  obtain ⟨hdue, hsearches, hfirst⟩ := hforemost
  obtain ⟨hmem, hothers⟩ := Agenda.mem_of_earliest? (earliest?_of_due?_sweep hd).1
  have hle := ht.sweepers sweeper hmem
  have hsweep := tick_desk sweeper others t
  have hturn := Desk.after_turn (deskAt_sound hs sweeper.due)
    (.sweep (t.deskAt sweeper.due).floor.openOrders)
  have hticks := congrArg Clock.ticks (hturn.clock_eq rfl)
  rw [← hsweep, deskAt_ticks hle] at hticks
  refine ⟨⟨[.setClock (t.deskAt sweeper.due).floor.clock,
    .sweep (t.deskAt sweeper.due).floor.openOrders], hsweep.symm, rfl⟩, ⟨?_, fun s hm => ?_⟩,
    hticks ▸ hdue⟩
  · rw [hsweep]
    exact hturn.timely rfl (deskAt_timely hle hsearches)
  · rw [hticks]
    have hwas : s ∈ others ++ [sweeper.next] ∨ s ∈ others := by
      unfold tick at hm
      split at hm
      · exact .inl hm
      · exact .inr hm
    simp only [List.mem_append, List.mem_singleton] at hwas
    rcases hwas with (hm | rfl) | hm
    · exact hfirst s (hothers hm)
    · exact Nat.le_add_right _ _
    · exact hfirst s (hothers hm)

/-- When time has gone on to some moment, all that was due by then was done at its time. -/
theorem runUntil_punctual (hs : t.desk.Sound) (ht : t.Timely)
    (hle : t.desk.floor.clock.ticks ≤ target) :
    t.desk.Reaches (t.runUntil target).desk ∧ (t.runUntil target).Timely ∧
      ∀ s ∈ (t.runUntil target).desk.floor.sleeping, target < s.wakeAt := by
  fun_induction runUntil target t with
  | case1 t hd =>
      have hforemost := due?_foremost target t
      rw [hd] at hforemost
      obtain ⟨hsearches, hsweepers⟩ := hforemost
      refine ⟨⟨[.setClock (t.deskAt target).floor.clock], rfl, rfl⟩, ⟨?_, fun s hm => ?_⟩,
        hsearches⟩
      · exact deskAt_timely hle fun s hm => Nat.le_of_lt (hsearches s hm)
      · rw [deskAt_ticks hle]
        exact Nat.le_of_lt (hsweepers s hm)
  | case2 t search others hd ih =>
      obtain ⟨hfirst, ht', hle'⟩ := wake_punctual hs ht hd
      obtain ⟨hrest, hafter⟩ := ih (hfirst.sound hs) ht' hle'
      exact ⟨hfirst.trans hrest, hafter⟩
  | case3 t sweeper others hd ih =>
      obtain ⟨hfirst, ht', hle'⟩ := tick_punctual hs ht hd
      obtain ⟨hrest, hafter⟩ := ih (hfirst.sound hs) ht' hle'
      exact ⟨hfirst.trans hrest, hafter⟩

/-! ## What a desk lives through -/

/-- What a desk can have come to in time: it is asked for something, the clock on the
wall is set, sweepers are started, and time goes on. -/
inductive Lived (settings : Settings) (start : Instant) : Timeline → Prop
  | opened : Lived settings start (.opening settings start)
  | asked {t : Timeline} (cmd : Command) (h : Lived settings start t)
      (hc : cmd.isAsked = true) : Lived settings start { t with desk := t.desk.after cmd }
  | settled {t : Timeline} (h : Lived settings start t) : Lived settings start t.settle
  | advanced {t t' : Timeline} {ms : Nat} (h : Lived settings start t)
      (ha : t.advance? ms = some t') : Lived settings start t'
  | skewed {t t' : Timeline} {ms : Int} (h : Lived settings start t)
      (hs : t.skew? ms = some t') : Lived settings start t'
  | sweeping {t : Timeline} (h : Lived settings start t) : Lived settings start t.startSweeper

/-- In time no search wakes up before its time or after it. -/
theorem Lived.reached {settings : Settings} {start : Instant} (h : Lived settings start t) :
    (Desk.opening settings start).Reaches t.desk ∧ t.Timely := by
  have hopen := Desk.opening_sound settings start
  induction h with
  | opened => exact ⟨⟨[], rfl, rfl⟩, nofun, nofun⟩
  | @asked t cmd _ hc ih =>
      obtain ⟨hreaches, ht⟩ := ih
      have hturn := Desk.after_turn (hreaches.sound hopen) cmd
      have hclock : cmd.setsClock = false := by
        cases cmd with
        | setClock => cases hc
        | _ => rfl
      have hstep : t.desk.Reaches (t.desk.after cmd) := by
        refine ⟨[cmd], rfl, ?_⟩
        cases cmd with
        | wake => cases hc
        | _ => rfl
      refine ⟨hreaches.trans hstep, hturn.timely hclock ht.searches, fun s hm => ?_⟩
      rw [hturn.clock_eq hclock]
      exact ht.sweepers s hm
  | settled _ ih =>
      obtain ⟨hreaches, ht⟩ := ih
      obtain ⟨hrest, ht', -⟩ := runUntil_punctual (hreaches.sound hopen) ht (Nat.le_refl _)
      exact ⟨hreaches.trans hrest, ht'⟩
  | advanced _ ha ih =>
      obtain ⟨hreaches, ht⟩ := ih
      obtain ⟨later, hlater, rfl⟩ := Option.map_eq_some_iff.1 ha
      obtain rfl := Clock.of_kept? hlater
      obtain ⟨hrest, ht', -⟩ :=
        runUntil_punctual (hreaches.sound hopen) ht (Nat.le_add_right _ _)
      exact ⟨hreaches.trans hrest, ht'⟩
  | skewed _ hs ih =>
      obtain ⟨hreaches, ht⟩ := ih
      obtain ⟨clock, hclock, rfl⟩ := Option.map_eq_some_iff.1 hs
      obtain rfl := Clock.of_kept? hclock
      exact ⟨hreaches.trans ⟨[.setClock _], rfl, rfl⟩, ht.searches, ht.sweepers⟩
  | sweeping _ ih =>
      obtain ⟨hreaches, ht⟩ := ih
      unfold startSweeper
      split
      · refine ⟨hreaches, ht.searches, fun s hm => ?_⟩
        rcases List.mem_append.1 hm with hm | hm
        · exact ht.sweepers s hm
        · rw [List.mem_singleton.1 hm]
      · exact ⟨hreaches, ht⟩

end Timeline

namespace Desk

/-! ## Every radius in its turn -/

/-- A search tries every radius at most once and in order, and ends with the first one
at which there is anybody. Whichever command an order is dispatched in, it tries the
first radius then; and whatever is done after that, the search goes on as said
(`RunsItsCourse`). No other search of the order begins meanwhile. So each offer was made
at one of the radii and to a driver who was in range. In time a search wakes up when it is
due, neither before nor after. -/
theorem search_tries_every_radius (settings : Settings) (start : Instant) {cmds : List Command}
    (hi : ((opening settings start).run cmds).floor.issued ≤ Uuid.capacity) :
    (∀ before cmd later order outcome, cmds = before ++ cmd :: later →
      (order, outcome) ∈ ((opening settings start).run before).dispatchesOf cmd →
      outcome.isStart = true →
      ∃ radii, ((opening settings start).run before).Begins order radii
          ((opening settings start).run (before ++ [cmd])) ∧
        ((opening settings start).run (before ++ [cmd])).RunsItsCourse order radii later) ∧
    (∀ order docket, ((opening settings start).run cmds).docket? order = some docket →
      (((opening settings start).run cmds).floor.asleep order ≠ [] →
        docket.skipReason? ≠ none) ∧
      ∀ offer ∈ docket.offers, offer.InRange settings) ∧
    ∀ t, Timeline.Lived settings start t →
      (opening settings start).Reaches t.desk ∧ t.desk.floor.Timely := by
  have hopen := opening_sound settings start
  refine ⟨fun before cmd later order outcome hcmds hm hstart => ?_, fun order docket hd => ?_,
    fun t ht => ⟨ht.reached.1, ht.reached.2.searches⟩⟩
  · subst hcmds
    obtain ⟨hs, hturn, hi'⟩ := run_split hopen hi
    have hk := run_searchesKnown hopen (opening_searchesKnown settings start) before
    have hp : ((opening settings start).run before).Obeys Docket.Pursued :=
      run_obeys Case.pursued_rule (Nat.le_trans hturn.issued_le hi')
    have hi₁ := hi'
    rw [run_concat] at hi₁
    obtain ⟨radii, hbegins⟩ := dispatchesOf_begins hs hk hp hi₁ hm hstart
    rw [← run_concat] at hbegins
    refine ⟨radii, hbegins, hbegins.runsItsCourse (hturn.sound hs) (hturn.searchesKnown hk)
      (run_obeys Case.pursued_rule hi') ?_⟩
    rwa [← run_append, List.append_assoc]
  · have hid := id_of_docket? hd
    refine ⟨fun ha => ?_, fun offer hm => ?_⟩
    · rw [← hid] at ha
      exact (run_obeys Case.pursued_rule hi _ _ hd).skipped ha
    · have hin := (run_obeys Case.inRange_rule hi _ _ hd).offers offer hm
      have hsame : ((opening settings start).run cmds).floor.settings = settings :=
        run_settings hopen cmds
      rwa [hsame] at hin

/-- An order that nobody is around for, and its search. -/
def lonelyRun : List Command :=
  [ .create trialRequest,
    .setClock ⟨trialStart, 10000, 0⟩, .wake 0,
    .setClock ⟨trialStart, 20000, 0⟩, .wake 0,
    .setClock ⟨trialStart, 30000, 0⟩, .wake 0 ]

/-- It wakes up for the third time after half a minute, with the fourth radius. -/
theorem search_tries_every_radius_trial :
    let desk := (opening {} trialStart).run [.create trialRequest]
    ((opening {} trialStart).run lonelyRun).floor.issued ≤ Uuid.capacity ∧
      (desk.course trialOrder lonelyRun.tail).length = 3 ∧
      ∃ radii w, Settings.radii {} = some radii ∧
        (desk.course trialOrder lonelyRun.tail)[2]? = some w ∧
        w.search.radii.toList = radii.toList.drop 3 ∧ w.found.floor.clock.ticks = 30000 := by
  intro desk
  have hi : ((opening {} trialStart).run lonelyRun).floor.issued ≤ Uuid.capacity := by
    decide +kernel
  have hlog : ((opening {} trialStart).dispatchesOf (.create trialRequest)).any
      (fun entry => entry.1 = trialOrder && entry.2.isStart) = true := by decide +kernel
  have hlength : (desk.course trialOrder lonelyRun.tail).length = 3 := by decide +kernel
  have hpunctual : desk.isPunctual lonelyRun.tail = true := by decide +kernel
  have hticks : desk.floor.clock.ticks = 0 := by decide +kernel
  have hsettings : desk.settings = {} := run_settings (opening_sound {} trialStart) _
  obtain ⟨⟨order, outcome⟩, hm, hentry⟩ := List.any_eq_true.1 hlog
  obtain ⟨horder, hstart⟩ := Bool.and_eq_true_iff.1 hentry
  obtain rfl : order = trialOrder := of_decide_eq_true horder
  obtain ⟨hbegins, -⟩ := search_tries_every_radius {} trialStart hi
  obtain ⟨radii, ⟨hradii, -⟩, hcourse⟩ :=
    hbegins [] _ lonelyRun.tail trialOrder outcome rfl hm hstart
  have hlast : 2 < (desk.course trialOrder lonelyRun.tail).length := by
    rw [hlength]
    decide
  have hthird := List.getElem?_eq_getElem hlast
  obtain ⟨hin, -, -, htime⟩ := hcourse 2 _ hthird
  refine ⟨hi, hlength, radii, _, hradii, hthird, hin.radii, ?_⟩
  rw [htime hpunctual]
  show desk.floor.clock.ticks + (2 + 1) * desk.settings.radiusWait = 30000
  rw [hticks, hsettings]
  rfl

end Desk

end Hailing
