import Hailing.Proofs.Runs
import Hailing.Settings.Environment

/-!
# How far back a search looks

A search goes by the positions that are fresh, so it looks back from now by as
long as the settings say. The calendar does not go back forever, and where it
ends a search breaks down (`Fleet.candidates_ok_iff`). That a waiting time is
cut down to the longest span does not help, as that span is much longer than
the calendar. Nor do the settings forbid it: any number of seconds will do, and
then every search breaks down in our time, also that of an order which has been
entered and counted already (`long_freshness_breaks_searches`).

As long as the calendar goes back far enough, and the radii of a search come to
an end, nothing else can break down (`perform_whole`). That the moment stays
the same throughout a command is all that has to be known about the steps in
between.
-/

namespace Hailing

open Geo (Point)
open Time (Instant Span)

/-- Searches on this floor do not break down: they have their radii, and the
calendar goes back as far as they look. -/
structure Floor.CanSearch (f : Floor) : Prop where
  radii : f.settings.radii.isSome = true
  reaches : f.settings.freshSpan.nanos ≤ f.now.age

theorem Floor.CanSearch.of_steady {f f' : Floor} (h : f.CanSearch) (hs : f.Steady f') :
    f'.CanSearch :=
  ⟨hs.settings ▸ h.radii, by rw [hs.settings, hs.now_eq]; exact h.reaches⟩

theorem Time.Span.ofWait_nonneg (ms : Nat) : 0 ≤ (Span.ofWait ms).nanos := by
  show 0 ≤ min (ms : Int) Span.limitMillis * 1000000
  unfold Span.limitMillis
  omega

theorem Settings.freshSpan_nonneg (s : Settings) : 0 ≤ s.freshSpan.nanos := Span.ofWait_nonneg _

namespace Fleet

theorem cutoff_ok_iff {settings : Settings} {now : Instant} :
    (∃ since, cutoff settings now = .ok since) ↔ settings.freshSpan.nanos ≤ now.age := by
  rw [← Instant.add?_neg_isSome settings.freshSpan_nonneg]
  unfold cutoff
  cases now.add? settings.freshSpan.neg <;> simp

/-- Drivers are found exactly if the calendar goes back as far as is looked. -/
theorem candidates_ok_iff {settings : Settings} {fleet : Fleet} {pickup : Point} {radius : Float}
    {excluded : List Uuid} {now : Instant} :
    (∃ ranked, candidates settings fleet pickup radius excluded now = .ok ranked) ↔
      settings.freshSpan.nanos ≤ now.age := by
  rw [← cutoff_ok_iff]
  unfold candidates
  cases cutoff settings now with
  | ok since => exact ⟨fun _ => ⟨since, rfl⟩, fun _ => ⟨_, rfl⟩⟩
  | error breakdown => exact ⟨fun ⟨_, h⟩ => (by cases h), fun ⟨_, h⟩ => (by cases h)⟩

end Fleet

/-! ## The work on a case -/

namespace Case

variable {c : Case}

theorem best?_ok (h : c.floor.CanSearch) (radius : Float) :
    ∃ found, c.best? radius = .ok found := by
  unfold best?
  split
  · exact ⟨_, rfl⟩
  · next pickup _ =>
      obtain ⟨ranked, hr⟩ : ∃ ranked, Fleet.candidates c.floor.settings c.floor.fleet pickup
          radius c.docket.excluded c.floor.now = .ok ranked :=
        Fleet.candidates_ok_iff.2 h.reaches
      exact ⟨ranked.head?, by rw [hr]; rfl⟩

theorem dispatch_ok (h : c.floor.CanSearch) :
    ∃ outcome, c.dispatch.1 = .ok outcome ∧ c.floor.Steady c.dispatch.2.floor := by
  rcases dispatch_cases c with ⟨breakdown, hr⟩ | ⟨outcome, c', hr, hd⟩
  · obtain ⟨radii, hradii⟩ := Option.isSome_iff_exists.1 h.radii
    obtain ⟨found, hfound⟩ := best?_ok h radii.first
    unfold dispatch at hr
    split at hr
    · cases hr
    · rw [hradii] at hr
      obtain ⟨first, wider⟩ := radii
      dsimp only at hr hfound
      rw [hfound] at hr
      cases found <;> cases wider <;> cases hr
  · rw [hr]
    exact ⟨outcome, rfl, hd.steady⟩

theorem resume_ok (h : c.floor.CanSearch) (radii : Radii) : ∃ a, (c.resume radii).1 = .ok a := by
  rcases resume_cases radii c with ⟨breakdown, hr⟩ | ⟨c', hr, -⟩
  · obtain ⟨found, hfound⟩ := best?_ok h radii.first
    unfold resume at hr
    split at hr
    · cases hr
    · obtain ⟨first, wider⟩ := radii
      dsimp only at hr hfound
      rw [hfound] at hr
      cases found <;> cases wider <;> cases hr
  · rw [hr]
    exact ⟨(), rfl⟩

theorem reassign_ok (h : c.floor.CanSearch) (driver : Uuid) :
    ∃ outcome, (c.reassign driver).1 = .ok outcome ∧
      c.floor.Steady (c.reassign driver).2.floor :=
  dispatch_ok (c := c.onDocket (·.exclude driver)) h

theorem retry_whole (h : c.floor.CanSearch) : c.retry.1.isBroken = false := by
  unfold retry
  split
  · rfl
  · obtain ⟨outcome, hr, -⟩ := dispatch_ok h
    show (Answer.ofExcept c.dispatch.1).isBroken = false
    rw [hr]
    rfl

theorem Decides.whole {α : Type} {cmd : Command} {result : Answer α × Case}
    (h : Decides cmd c result) : result.1.isBroken = false := by
  rcases h with ⟨_, rfl⟩ | ⟨_, _, rfl, -⟩ <;> rfl

theorem respond_whole (h : c.floor.CanSearch) (ho : c.docket.OneOpen) (driver : Uuid)
    (reply : Offer.Reply) : (c.respond driver reply).1.isBroken = false := by
  cases reply with
  | accept => exact (accept_decides ho driver).whole
  | reject =>
      rcases reject_cases ho driver with
        ⟨_, hr⟩ | ⟨offer, -, -, -, ⟨-, react, hr⟩ | ⟨-, _, hr⟩⟩
      · rw [hr]
        rfl
      · have hfloor : (c.drop offer .rejected).floor.CanSearch := ⟨h.radii, h.reaches⟩
        obtain ⟨outcome, hd, -⟩ := dispatch_ok hfloor
        rw [hr, Answer.isBroken_map, hd]
        rfl
      · rw [hr]
        rfl

theorem dropLate_ok (late : List Uuid) (report : SweepReport) (h : c.floor.CanSearch) :
    ∃ report', (dropLate late report c).1 = .ok report' ∧
      c.floor.Steady (dropLate late report c).2.floor := by
  induction late generalizing report c with
  | nil => exact ⟨report, rfl, .refl _⟩
  | cons driver rest ih =>
      have hcounted : c.floor.Steady
          (c.count fun l => { l with timeouts := l.timeouts + 1 }).floor := ⟨rfl, rfl⟩
      rw [dropLate]
      dsimp only
      generalize (c.count fun l => { l with timeouts := l.timeouts + 1 }) = c₁ at hcounted ⊢
      have hfloor := h.of_steady hcounted
      split
      · obtain ⟨report', hr, hs⟩ := ih { report with timeouts := report.timeouts + 1 }
          (c := c₁.onDocket (·.exclude driver)) hfloor
        exact ⟨report', hr, hcounted.trans hs⟩
      · obtain ⟨outcome, hr, hs⟩ := reassign_ok hfloor driver
        generalize c₁.reassign driver = result at hr hs ⊢
        obtain ⟨answer, c₂⟩ := result
        dsimp only at hr hs
        subst hr
        obtain ⟨report', hr', hs'⟩ := ih _ (hfloor.of_steady hs)
        exact ⟨report', hr', (hcounted.trans hs).trans hs'⟩

theorem retryIdle_ok (report : SweepReport) (h : c.floor.CanSearch) :
    ∃ report', (c.retryIdle report).1 = .ok report' := by
  unfold retryIdle
  split
  · obtain ⟨outcome, hr, -⟩ := dispatch_ok h
    generalize c.dispatch = result at hr ⊢
    obtain ⟨answer, c'⟩ := result
    dsimp only at hr
    subst hr
    exact ⟨_, rfl⟩
  · exact ⟨report, rfl⟩

theorem sweep_ok (report : SweepReport) (h : c.floor.CanSearch) :
    ∃ report', (c.sweep report).1 = .ok report' := by
  have hlate := dropLate_ok (c := c.onDocket (·.expire c.floor.settings.offerSpan c.floor.now))
    (c.docket.lateDrivers c.floor.settings.offerSpan c.floor.now) report h
  unfold sweep
  dsimp only
  generalize dropLate _ report _ = result at hlate ⊢
  obtain ⟨answer, c₁⟩ := result
  obtain ⟨report₁, hr, hs⟩ := hlate
  dsimp only at hr hs
  subst hr
  obtain ⟨report₂, hr₂⟩ := retryIdle_ok report₁ (h.of_steady hs)
  dsimp only
  generalize c₁.retryIdle report₁ = result at hr₂ ⊢
  obtain ⟨answer, c₂⟩ := result
  dsimp only at hr₂
  subst hr₂
  exact ⟨report₂, rfl⟩

end Case

namespace Desk

/-! ## Commands -/

section Whole

variable {desk : Desk}

theorem handle_whole {α : Type} {order : Uuid} {work : Case → Answer α × Case}
    (hw : ∀ docket, desk.docket? docket.id = some docket →
      (work ⟨docket, desk.floor⟩).1.isBroken = false) :
    (desk.handle order work).1.isBroken = false := by
  rcases handle_cases order work desk with ⟨-, hh⟩ | ⟨docket, -, hd, hh⟩
  · rw [hh]
    rfl
  · rw [hh]
    exact hw docket hd

theorem freely_whole {α : Type} {work : Case → Except Breakdown α × Case} {c : Case}
    (h : ∃ a, (work c).1 = .ok a) : (freely work c).1.isBroken = false := by
  obtain ⟨a, ha⟩ := h
  rw [freely_eq, ha]
  rfl

theorem createOrder_whole (h : desk.floor.CanSearch) (request : Order.NewOrder) :
    (desk.createOrder request).1.isBroken = false := by
  rcases createOrder_cases request desk with ⟨_, heq⟩ | ⟨-, react, heq⟩
  · rw [heq]
    rfl
  · have hfloor : (desk.newCase request).floor.CanSearch := h.of_steady (enter_steady _ _)
    obtain ⟨outcome, hr, -⟩ := Case.dispatch_ok hfloor
    rw [heq, Answer.isBroken_map, hr]
    rfl

theorem sweepOrders_ok (hs : desk.Sound) (h : desk.floor.CanSearch) (visited : List Uuid)
    (report : SweepReport) : ∃ report', (sweepOrders visited report desk).1 = .ok report' := by
  induction visited generalizing report desk with
  | nil => exact ⟨report, rfl⟩
  | cons order rest ih =>
      rw [sweepOrders]
      split
      · exact ih hs h report
      · next docket hd =>
          obtain rfl := id_of_docket? hd
          obtain ⟨report', hr⟩ := Case.sweep_ok (c := ⟨docket, desk.floor⟩) report h
          have hmoves := (Case.sweep_worked (c := ⟨docket, desk.floor⟩)
            (hs.orderly hd).oneOpen report).moves
          have hsound := Move.sound (.worked hd hmoves) hs
          have hfloor := h.of_steady (Case.Moves.steady hmoves)
          generalize (Case.mk docket desk.floor).sweep report = result at hr hsound hfloor ⊢
          obtain ⟨answer, c⟩ := result
          dsimp only at hr
          subst hr
          exact ih hsound hfloor report'

/-- A sweep ends wherever searches come to an end. -/
theorem sweepAs_ok (hs : desk.Sound) (h : desk.floor.CanSearch) (visited : List Uuid) :
    ∃ report, (desk.sweepAs visited).1 = .ok report := by
  have hcount : Move desk _ := .sweepCounted
  exact sweepOrders_ok (hcount.sound hs) (h.of_steady hcount.steady) visited {}

/-- A report looks ahead by the tolerance, which is less than a day. -/
theorem report_whole (hl : desk.now.day < Time.lastDay) (driver : Uuid) (point : Point)
    (stamp : Instant) : (desk.reportPosition driver point stamp).1.isBroken = false := by
  have hahead : (desk.now.add? Fleet.tolerance).isSome = true :=
    Instant.add?_isSome_of_day_lt hl (by decide) (by decide)
  show (desk.floor.fleet.report driver point stamp desk.now).1.isBroken = false
  unfold Fleet.report
  split
  · rfl
  · split
    · next hnone => rw [hnone] at hahead; cases hahead
    · dsimp only
      split
      · rfl
      · split <;> rfl

theorem setAvailability_whole (driver : Uuid) (online : Bool) (maxPickup : Option Float) :
    (desk.setAvailability driver online maxPickup).1.isBroken = false := by
  show (desk.floor.fleet.setAvailability driver online maxPickup).1.isBroken = false
  unfold Fleet.setAvailability
  split <;> rfl

/-- Where searches do not break down no command does, except on the last day. -/
theorem perform_whole (hs : desk.Sound) (h : desk.floor.CanSearch)
    (hl : desk.now.day < Time.lastDay) (cmd : Command) :
    (desk.perform cmd).1.isBroken = false := by
  cases cmd with
  | create request => exact createOrder_whole h request
  | respond order driver reply =>
      exact handle_whole fun docket hd => Case.respond_whole (c := ⟨docket, desk.floor⟩) h
        (hs.orderly hd).oneOpen driver reply
  | cancel order reason text =>
      exact handle_whole fun docket _ =>
        (Case.cancel_decides reason text ⟨docket, desk.floor⟩).whole
  | complete order =>
      exact handle_whole fun docket _ => (Case.complete_decides ⟨docket, desk.floor⟩).whole
  | dispatch order =>
      refine handle_whole fun docket _ => freely_whole ?_
      obtain ⟨outcome, hr, -⟩ := Case.dispatch_ok (c := ⟨docket, desk.floor⟩) h
      exact ⟨outcome, hr⟩
  | retry order => exact handle_whole fun docket _ => Case.retry_whole h
  | reassign order driver =>
      refine handle_whole fun docket _ => freely_whole ?_
      obtain ⟨outcome, hr, -⟩ := Case.reassign_ok (c := ⟨docket, desk.floor⟩) h driver
      exact ⟨outcome, hr⟩
  | report driver point stamp => exact report_whole hl driver point stamp
  | setAvailability driver online maxPickup => exact setAvailability_whole driver online maxPickup
  | claimTrip | markFree | setClock => rfl
  | sweep visited =>
      rw [perform]
      split
      · obtain ⟨report, hr⟩ := sweepAs_ok hs h visited
        show (Answer.ofExcept (desk.sweepAs visited).1).isBroken = false
        rw [hr]
        rfl
      · rfl
  | wake place =>
      cases hat : desk.floor.sleeping[place]? with
      | none =>
          rw [perform_wake_none hat]
          rfl
      | some search =>
          have hfloor : (desk.takeSearch place).floor.CanSearch := ⟨h.radii, h.reaches⟩
          rw [perform_wake hat]
          exact handle_whole fun docket _ => freely_whole
            (Case.resume_ok (c := ⟨docket, (desk.takeSearch place).floor⟩) hfloor search.radii)

end Whole

/-- After every run drivers are found exactly if the calendar goes back from
now as far as positions are fresh. If it does, and the radii of a search come
to an end, then no command breaks down before the last day of the calendar. It
does from 1970 on, unless positions are fresh for longer than the calendar
lasts before 1970. -/
theorem searches_end_within_calendar (settings : Settings) (start : Instant)
    (cmds : List Command) :
    let desk := (opening settings start).run cmds
    (∀ excluded pickup radius,
      (∃ ranked, desk.candidates excluded pickup radius = .ok ranked) ↔
        settings.freshSpan.nanos ≤ desk.now.age) ∧
    (settings.radii.isSome = true → settings.freshSpan.nanos ≤ desk.now.age →
      desk.now.day < Time.lastDay →
      ∀ cmd : Command, (desk.perform cmd).1.isBroken = false) ∧
    ((settings.freshness : Int) ≤ -Time.firstDay * 86400000 → 0 ≤ desk.now.day →
      settings.freshSpan.nanos ≤ desk.now.age) := by
  intro desk
  have hopen := opening_sound settings start
  have hsettings : desk.settings = settings := run_settings hopen cmds
  refine ⟨fun excluded pickup radius => ?_, fun hradii hreaches hlast => ?_,
    fun hlong hday => ?_⟩
  · rw [← hsettings]
    exact Fleet.candidates_ok_iff
  · rw [← hsettings] at hradii hreaches
    exact perform_whole (run_sound hopen cmds) ⟨hradii, hreaches⟩ hlast
  · show min (settings.freshness : Int) Span.limitMillis * 1000000 ≤ _
    unfold Instant.age Time.nanosPerSecond
    omega

/-- Positions are usually fresh for two minutes. -/
theorem searches_end_within_calendar_trial :
    let desk := (opening {} trialStart).run trialRun
    (Settings.radii {}).isSome = true ∧ (Settings.freshSpan {}).nanos ≤ desk.now.age ∧
      (desk.perform (.create trialRequest)).1.isBroken = false := by
  intro desk
  have hradii : (Settings.radii {}).isSome = true := by decide +kernel
  have hday : 0 ≤ desk.now.day := by decide +kernel
  have hlast : desk.now.day < Time.lastDay := by decide +kernel
  obtain ⟨-, hwhole, hlong⟩ := searches_end_within_calendar {} trialStart trialRun
  have hreaches := hlong (by decide) hday
  exact ⟨hradii, hreaches, hwhole hradii hreaches hlast _⟩

theorem exists_ok_of_isSome {ε α : Type} {result : Except ε α}
    (h : result.toOption.isSome = true) : ∃ a, result = .ok a := by
  cases result with
  | ok a => exact ⟨a, rfl⟩
  | error => cases h

/-- An environment in which positions are fresh for 285000 years. -/
def longFreshness : Environment :=
  fun name => if name = "LOCATION_FRESHNESS_SECS" then some "9000000000000" else none

/-- These settings are accepted, and their radii come to an end; but nobody is
ever found, and an order that is created breaks down after it was entered and
counted. -/
theorem long_freshness_breaks_searches : ∃ settings, longFreshness.settings = .ok settings ∧
    settings.radii.isSome = true ∧
    (∀ excluded pickup radius, ¬ ∃ ranked,
      (opening settings trialStart).candidates excluded pickup radius = .ok ranked) ∧
    ((opening settings trialStart).perform (.create trialRequest)).1.isBroken = true ∧
    ((opening settings trialStart).after (.create trialRequest)).floor.ledger.pending = 1 := by
  have hok : longFreshness.settings.toOption.isSome = true := by decide +kernel
  obtain ⟨settings, hs⟩ := exists_ok_of_isSome hok
  have hradii : longFreshness.settings.toOption.map (·.radii.isSome) = some true := by
    decide +kernel
  have hreaches : longFreshness.settings.toOption.map (fun s =>
      decide (s.freshSpan.nanos ≤ (opening s trialStart).now.age)) = some false := by
    decide +kernel
  have hbroken : longFreshness.settings.toOption.map (fun s =>
      ((opening s trialStart).perform (.create trialRequest)).1.isBroken) = some true := by
    decide +kernel
  have hcounted : longFreshness.settings.toOption.map (fun s =>
      ((opening s trialStart).after (.create trialRequest)).floor.ledger.pending) = some 1 := by
    decide +kernel
  rw [hs] at hradii hreaches hbroken hcounted
  refine ⟨settings, hs, Option.some.inj hradii, fun excluded pickup radius hfound => ?_,
    Option.some.inj hbroken, Option.some.inj hcounted⟩
  exact of_decide_eq_false (Option.some.inj hreaches) (Fleet.candidates_ok_iff.1 hfound)

end Desk

end Hailing
