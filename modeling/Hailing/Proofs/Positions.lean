import Mathlib.Data.List.Nodup
import Mathlib.Data.List.Perm.Basic
import Hailing.Proofs.Sweeps

/-!
# The newest report counts

Reports of positions may arrive late, twice, or after newer ones, and while
orders come and go. What is known of a driver does not depend on any of this: it
is what the newest report said that was taken, and of several from the same
instant the one that arrived first. Which reports are taken does depend on when
they arrive, as one from too far ahead of the clock is refused; so a run is
looked at through the reports that were taken in it (`heard`).

A position is moved by a report of its driver and by nothing else. Everything
but a report leaves the fleet alone or enters drivers with the position they
had (`after_position?_of_other`), so a run folds its reports into what was
known before (`run_position?`). Two reports from different instants can be
folded in in either order, which is all that it takes for a permutation.
-/

namespace Hailing

open Geo (Point)
open Time (Instant)

namespace Driver.Position

/-- What is known when a report has come in. -/
def latest? (known? : Option Position) (told : Position) : Option Position :=
  match known? with
  | none => some told
  | some known => if known.updatedAt < told.updatedAt then some told else some known

/-- The report is the newest one, and the first one from its instant. -/
def Newest (reports : List Position) (p : Position) : Prop :=
  ∃ place : Nat, reports[place]? = some p ∧
    ∀ (other : Nat) (q : Position), reports[other]? = some q →
      q.updatedAt ≤ p.updatedAt ∧ (q.updatedAt = p.updatedAt → place ≤ other)

theorem latest?_of_lt {known told : Position} (h : known.updatedAt < told.updatedAt) :
    latest? (some known) told = some told := if_pos h

theorem latest?_of_le {known told : Position} (h : told.updatedAt ≤ known.updatedAt) :
    latest? (some known) told = some known := if_neg (Instant.not_lt.2 h)

theorem concat_cases {reports : List Position} {told q : Position} {other : Nat}
    (h : (reports ++ [told])[other]? = some q) :
    (other < reports.length ∧ reports[other]? = some q) ∨ (reports.length ≤ other ∧ q = told) := by
  rcases Nat.lt_or_ge other reports.length with ho | ho
  · rw [List.getElem?_append_left ho] at h
    exact .inl ⟨ho, h⟩
  · rw [List.getElem?_append_right ho] at h
    exact .inr ⟨ho, List.mem_singleton.1 (List.mem_of_getElem? h)⟩

/-- A report that is not newer comes too late. -/
theorem Newest.concat_old {reports : List Position} {p told : Position}
    (h : Newest reports p) (hle : told.updatedAt ≤ p.updatedAt) :
    Newest (reports ++ [told]) p := by
  obtain ⟨place, hp, hmax⟩ := h
  have hlt : place < reports.length := (List.getElem?_eq_some_iff.1 hp).1
  refine ⟨place, by rw [List.getElem?_append_left hlt, hp], fun other q hq => ?_⟩
  rcases concat_cases hq with ⟨-, hq⟩ | ⟨ho, rfl⟩
  · exact hmax other q hq
  · exact ⟨hle, fun _ => by omega⟩

/-- A report that is newer than all before is the newest. -/
theorem Newest.concat_new {reports : List Position} {told : Position}
    (h : ∀ q ∈ reports, q.updatedAt < told.updatedAt) : Newest (reports ++ [told]) told := by
  refine ⟨reports.length, by simp, fun other q hq => ?_⟩
  rcases concat_cases hq with ⟨-, hq⟩ | ⟨ho, rfl⟩
  · have hlt := h q (List.mem_of_getElem? hq)
    exact ⟨Instant.le_of_lt hlt, fun he => absurd (he ▸ hlt) (Instant.lt_irrefl _)⟩
  · exact ⟨Instant.le_refl _, fun _ => ho⟩

/-- Folding in the reports one after the other finds the newest one. -/
theorem newest_foldl (reports : List Position) :
    (reports = [] ∧ reports.foldl latest? none = none) ∨
      ∃ p, reports.foldl latest? none = some p ∧ Newest reports p := by
  induction reports using List.reverseRecOn with
  | nil => exact .inl ⟨rfl, rfl⟩
  | append_singleton reports told ih =>
      right
      rw [List.foldl_concat]
      rcases ih with ⟨rfl, hnone⟩ | ⟨p, hp, hnewest⟩
      · rw [hnone]
        exact ⟨told, rfl, .concat_new fun q hq => by cases hq⟩
      · rw [hp]
        rcases Instant.lt_or_le p.updatedAt told.updatedAt with hlt | hle
        · obtain ⟨_, -, hmax⟩ := hnewest
          refine ⟨told, latest?_of_lt hlt, .concat_new fun q hq => ?_⟩
          obtain ⟨other, hother⟩ := List.getElem?_of_mem hq
          exact Instant.lt_of_le_of_lt (hmax other q hother).1 hlt
        · exact ⟨p, latest?_of_le hle, hnewest.concat_old hle⟩

/-- Of two reports from different instants either may come first. -/
theorem latest?_comm {p q : Position} (h : p.updatedAt ≠ q.updatedAt)
    (known? : Option Position) :
    latest? (latest? known? p) q = latest? (latest? known? q) p := by
  have hpair : latest? (some p) q = latest? (some q) p := by
    rcases Instant.lt_or_le p.updatedAt q.updatedAt with hlt | hle
    · rw [latest?_of_lt hlt, latest?_of_le (Instant.le_of_lt hlt)]
    · rcases Instant.lt_or_le q.updatedAt p.updatedAt with hlt' | hle'
      · rw [latest?_of_le hle, latest?_of_lt hlt']
      · exact absurd (Instant.le_antisymm hle' hle) h
  cases known? with
  | none => exact hpair
  | some known =>
      rcases Instant.lt_or_le known.updatedAt p.updatedAt with hp | hp <;>
        rcases Instant.lt_or_le known.updatedAt q.updatedAt with hq | hq
      · rw [latest?_of_lt hp, latest?_of_lt hq, hpair]
      · rw [latest?_of_le hq, latest?_of_lt hp]
        exact latest?_of_le (Instant.le_of_lt (Instant.lt_of_le_of_lt hq hp))
      · rw [latest?_of_le hp, latest?_of_lt hq]
        exact (latest?_of_le (Instant.le_of_lt (Instant.lt_of_le_of_lt hp hq))).symm
      · rw [latest?_of_le hp, latest?_of_le hq, latest?_of_le hp]

theorem foldl_latest?_perm {reports reports' : List Position} (h : reports.Perm reports')
    (hn : (reports.map (·.updatedAt)).Nodup) (known? : Option Position) :
    reports.foldl latest? known? = reports'.foldl latest? known? := by
  refine h.foldl_eq' (fun p hp q hq known? => ?_) known?
  by_cases he : p.updatedAt = q.updatedAt
  · rw [List.inj_on_of_nodup_map hn hp hq he]
  · exact latest?_comm he known?

end Driver.Position

open Driver.Position (latest? Newest latest?_of_lt latest?_of_le)

/-! ## What moves a driver -/

/-- What the command reports about a driver. -/
def Command.told? (driver : Uuid) : Command → Option Driver.Position
  | .report other point stamp => if other = driver then some ⟨point, stamp⟩ else none
  | _ => none

/-- A decision is about trips and not about positions. -/
theorem Case.Decided.position?_eq {c c' : Case} {cmd : Command} (h : Decided c cmd c')
    (driver : Uuid) : c'.floor.fleet.position? driver = c.floor.fleet.position? driver := by
  cases h with
  | @taken offer c₁ _ _ _ hc =>
      have hclaim : c₁.floor.fleet.position? driver = c.floor.fleet.position? driver := by
        rcases claim_cases offer.driver c with h | ⟨_, _, h⟩
        · obtain ⟨-, rfl⟩ := Prod.mk.inj (h.symm.trans hc)
          rfl
        · obtain ⟨-, rfl⟩ := Prod.mk.inj (h.symm.trans hc)
          exact Fleet.claimTrip_position?
      rw [← hclaim]
      exact congrArg (Fleet.position? · driver) (Floor.settle_fleet _ _)
  | withdrawn => exact congrArg (Fleet.position? · driver) (Floor.settle_fleet _ _)
  | recalled =>
      refine (congrArg (Fleet.position? · driver) (Floor.settle_fleet _ _)).trans ?_
      unfold releaseDriver
      split
      · rfl
      · exact Fleet.markFree_position?
  | completed =>
      unfold Case.completed
      dsimp only
      split
      · rfl
      · exact Fleet.markFree_position?

namespace Desk

def position? (driver : Uuid) (desk : Desk) : Option Driver.Position :=
  desk.floor.fleet.position? driver

/-- The reports about a driver that were taken in a run, as they arrived. -/
def heard (driver : Uuid) (cmds : List Command) (desk : Desk) : List Driver.Position :=
  (desk.done cmds).filterMap (Command.told? driver)

section Steps

variable {desk : Desk} {driver : Uuid}

theorem handle_position? {α : Type} {order : Uuid} {work : Case → Answer α × Case}
    (hw : ∀ docket, desk.docket? docket.id = some docket →
      (work ⟨docket, desk.floor⟩).2.floor.fleet.position? driver = desk.position? driver) :
    (desk.handle order work).2.position? driver = desk.position? driver := by
  rcases handle_cases order work desk with ⟨-, hh⟩ | ⟨docket, -, hd, hh⟩
  · rw [hh]
  · rw [hh]
    exact hw docket hd

theorem decides_position? {α : Type} {cmd : Command} {c : Case} {result : Answer α × Case}
    (h : Case.Decides cmd c result) :
    result.2.floor.fleet.position? driver = c.floor.fleet.position? driver := by
  rcases h with ⟨_, rfl⟩ | ⟨_, _, rfl, hd⟩
  · rfl
  · exact hd.position?_eq driver

theorem worked_position? {c c' : Case} (h : Case.Worked c c') :
    c'.floor.fleet.position? driver = c.floor.fleet.position? driver :=
  congrArg (Fleet.position? · driver) h.moves.fleet_eq

theorem createOrder_position? (request : Order.NewOrder) :
    (desk.createOrder request).2.position? driver = desk.position? driver := by
  rcases createOrder_cases request desk with ⟨_, heq⟩ | ⟨-, _, heq⟩
  · rw [heq]
  · rw [heq]
    have hfleet := (Case.Sought.moves (Case.dispatch_sought (desk.newCase request))).fleet_eq
    exact congrArg (Fleet.position? · driver) (hfleet.trans (enter_fleet _ _))

theorem sweepOrders_position? (hs : desk.Sound) (visited : List Uuid) (report : SweepReport) :
    (sweepOrders visited report desk).2.position? driver = desk.position? driver := by
  induction visited generalizing report desk with
  | nil => rfl
  | cons order rest ih =>
      cases hd : desk.docket? order with
      | none =>
          rw [sweepOrders, hd]
          exact ih hs report
      | some docket =>
          obtain rfl := id_of_docket? hd
          have hw := Case.sweep_worked (c := ⟨docket, desk.floor⟩) (hs.orderly hd).oneOpen report
          have hsame : (desk.putBack ((Case.mk docket desk.floor).sweep report).2).position?
              driver = desk.position? driver := worked_position? hw
          rcases sweepOrders_cons hd rest report with ⟨_, hr⟩ | ⟨report', hr⟩
          · rw [hr, hsame]
          · rw [hr, ih (Move.sound (.worked hd hw.moves) hs) report', hsame]

/-- Nothing but a report moves a driver. -/
theorem after_position?_of_other (hs : desk.Sound) {cmd : Command}
    (hn : ∀ other point stamp, cmd ≠ .report other point stamp) :
    (desk.after cmd).position? driver = desk.position? driver := by
  cases cmd with
  | create request => exact createOrder_position? request
  | respond order driver reply =>
      refine handle_position? fun docket hd => ?_
      have ho := (hs.orderly hd).oneOpen
      cases reply with
      | accept => exact decides_position? (Case.accept_decides ho driver)
      | reject => exact worked_position? (Case.reject_worked ho driver)
  | cancel order reason text =>
      exact handle_position? fun docket _ =>
        decides_position? (Case.cancel_decides reason text ⟨docket, desk.floor⟩)
  | complete order =>
      exact handle_position? fun docket _ =>
        decides_position? (Case.complete_decides ⟨docket, desk.floor⟩)
  | dispatch order =>
      exact handle_position? fun docket _ => worked_position? (.sought (Case.dispatch_sought _))
  | retry order => exact handle_position? fun docket _ => worked_position? (Case.retry_worked _)
  | reassign order driver =>
      exact handle_position? fun docket _ => worked_position? (Case.reassign_worked driver _)
  | report other point stamp => exact absurd rfl (hn other point stamp)
  | setAvailability => exact Fleet.setAvailability_position?
  | claimTrip => exact Fleet.claimTrip_position?
  | markFree => exact Fleet.markFree_position?
  | setClock => rfl
  | sweep visited =>
      rw [after, perform]
      split
      · have hcount : Move desk _ := .sweepCounted
        exact sweepOrders_position? (hcount.sound hs) visited {}
      · rfl
  | wake place =>
      rw [after]
      cases hat : desk.floor.sleeping[place]? with
      | none => rw [perform_wake_none hat]
      | some search =>
          rw [perform_wake hat]
          refine handle_position? fun docket _ => ?_
          rw [freely_eq]
          rcases Case.resume_cases search.radii ⟨docket, (desk.takeSearch place).floor⟩ with
            ⟨_, hr⟩ | ⟨_, hr, hc⟩
          · rw [hr]
            rfl
          · rw [hr]
            exact congrArg (Fleet.position? · driver) hc.fleet_eq

theorem heard_single (cmd : Command) :
    desk.heard driver [cmd] =
      if (desk.perform cmd).1.isDone then (cmd.told? driver).toList else [] := by
  unfold heard done
  split
  · cases h : cmd.told? driver <;> simp [done, h]
  · rfl

theorem heard_cons (cmd : Command) (rest : List Command) :
    desk.heard driver (cmd :: rest) =
      desk.heard driver [cmd] ++ (desk.after cmd).heard driver rest := by
  rw [heard, show cmd :: rest = [cmd] ++ rest from rfl, done_append, List.filterMap_append]
  rfl

theorem report_position? {other : Uuid} {point : Point} {stamp : Instant} :
    (desk.after (.report other point stamp)).position? driver =
      (desk.heard driver [.report other point stamp]).foldl latest? (desk.position? driver) := by
  have hdone : ∀ {r : Fleet.Reception} {d : Driver},
      (desk.floor.fleet.report other point stamp desk.now).1 = .done (r, d) →
        desk.heard driver [.report other point stamp] =
          if other = driver then [⟨point, stamp⟩] else [] := by
    intro r d hr
    have hisDone : (desk.perform (.report other point stamp)).1.isDone = true := by
      show (desk.floor.fleet.report other point stamp desk.now).1.isDone = true
      rw [hr]
      rfl
    rw [heard_single, if_pos hisDone, Command.told?]
    split <;> rfl
  show (desk.floor.fleet.report other point stamp desk.now).2.position? driver =
    List.foldl latest? (desk.floor.fleet.position? driver) _
  rcases Fleet.report_cases other point stamp desk.now desk.floor.fleet with
    ⟨hfleet, hnot⟩ | ⟨hfleet, ⟨d, hr⟩, position, hp, hle⟩ | ⟨⟨d, hr⟩, hlt, hfleet⟩
  · have hfailed : (desk.perform (.report other point stamp)).1.isDone = false := by
      show (desk.floor.fleet.report other point stamp desk.now).1.isDone = false
      cases ha : (desk.floor.fleet.report other point stamp desk.now).1 with
      | done answer => exact absurd ha (hnot answer)
      | refused | broken => rfl
    rw [hfleet, heard_single, hfailed]
    rfl
  · rw [hfleet, hdone hr]
    split
    · next he =>
      subst he
      have hold : (Driver.Position.mk point stamp).updatedAt ≤ position.updatedAt := hle
      rw [hp, List.foldl_cons, List.foldl_nil, latest?_of_le hold]
    · rfl
  · rw [hfleet, hdone hr]
    split
    · next he =>
      subst he
      rw [List.foldl_cons, List.foldl_nil]
      cases hp : desk.floor.fleet.position? other with
      | none => rfl
      | some position =>
          have hnew : position.updatedAt < (Driver.Position.mk point stamp).updatedAt :=
            hlt position hp
          rw [latest?_of_lt hnew]
    · rfl

/-- A command folds in what it reports, if it is done. -/
theorem after_position? (hs : desk.Sound) (cmd : Command) :
    (desk.after cmd).position? driver =
      (desk.heard driver [cmd]).foldl latest? (desk.position? driver) := by
  by_cases hr : ∃ other point stamp, cmd = .report other point stamp
  · obtain ⟨other, point, stamp, rfl⟩ := hr
    exact report_position?
  · have hn : ∀ other point stamp, cmd ≠ .report other point stamp :=
      fun other point stamp he => hr ⟨other, point, stamp, he⟩
    have hnothing : cmd.told? driver = none := by
      unfold Command.told?
      split
      · next other point stamp => exact absurd rfl (hn other point stamp)
      · rfl
    rw [after_position?_of_other hs hn, heard_single, hnothing]
    split <;> rfl

theorem run_position? (hs : desk.Sound) (cmds : List Command) :
    (desk.run cmds).position? driver =
      (desk.heard driver cmds).foldl latest? (desk.position? driver) := by
  induction cmds generalizing desk with
  | nil => rfl
  | cons cmd rest ih =>
      have hstep : (desk.after cmd).position? driver = _ := after_position? hs cmd
      rw [heard_cons, List.foldl_append, ← hstep]
      exact ih ((after_turn hs cmd).sound hs)

/-- A report that is applied is newer than what was known. -/
theorem position?_of_applied {point : Point} {stamp : Instant} {d : Driver}
    (h : (desk.perform (.report driver point stamp)).1 = .done (.applied, d)) :
    (desk.after (.report driver point stamp)).position? driver = some ⟨point, stamp⟩ ∧
      ∀ p, desk.position? driver = some p → p.updatedAt < stamp := by
  rcases Fleet.report_cases driver point stamp desk.now desk.floor.fleet with
    ⟨-, hnot⟩ | ⟨-, ⟨_, hr⟩, -⟩ | ⟨-, hlt, hfleet⟩
  · exact absurd h (hnot _)
  · cases hr.symm.trans h
  · exact ⟨(hfleet driver).trans (if_pos rfl), hlt⟩

/-- What moves a driver is a report about them that is applied. -/
theorem applied_of_position?_ne (hs : desk.Sound) {cmd : Command}
    (h : (desk.after cmd).position? driver ≠ desk.position? driver) :
    ∃ point stamp d, cmd = .report driver point stamp ∧
      (desk.perform (.report driver point stamp)).1 = .done (.applied, d) := by
  cases cmd with
  | report other point stamp =>
      rcases Fleet.report_cases other point stamp desk.now desk.floor.fleet with
        ⟨hsame, -⟩ | ⟨hsame, -⟩ | ⟨⟨d, hr⟩, -, hfleet⟩
      · exact absurd (congrArg (Fleet.position? · driver) hsame) h
      · exact absurd (congrArg (Fleet.position? · driver) hsame) h
      · by_cases he : other = driver
        · subst he
          exact ⟨point, stamp, d, rfl, hr⟩
        · exact absurd ((hfleet driver).trans (if_neg he)) h
  | _ => exact absurd (after_position?_of_other hs (by rintro _ _ _ ⟨⟩)) h

end Steps

/-! ## Runs -/

/-- The newest report counts, however the reports arrive. -/
theorem newest_report_counts (settings : Settings) (start : Instant) (driver : Uuid) :
    let opened := opening settings start
    (∀ cmds,
      ((opened.run cmds).position? driver = none ↔ opened.heard driver cmds = []) ∧
      ∀ p, (opened.run cmds).position? driver = some p →
        Newest (opened.heard driver cmds) p) ∧
    (∀ before point stamp d,
      ((opened.run before).perform (.report driver point stamp)).1 = .done (.applied, d) →
        ((opened.run before).after (.report driver point stamp)).position? driver =
            some ⟨point, stamp⟩ ∧
          ∀ p, (opened.run before).position? driver = some p → p.updatedAt < stamp) ∧
    (∀ before cmd,
      ((opened.run before).after cmd).position? driver ≠ (opened.run before).position? driver →
        ∃ point stamp d, cmd = .report driver point stamp ∧
          ((opened.run before).perform (.report driver point stamp)).1 =
            .done (.applied, d)) ∧
    ∀ before cmds cmds',
      ((opened.run before).heard driver cmds).Perm ((opened.run before).heard driver cmds') →
      (((opened.run before).heard driver cmds).map (·.updatedAt)).Nodup →
        ((opened.run before).run cmds).position? driver =
          ((opened.run before).run cmds').position? driver := by
  intro opened
  have hs : opened.Sound := opening_sound settings start
  refine ⟨fun cmds => ?_, fun before point stamp d h => position?_of_applied h,
    fun before cmd h => applied_of_position?_ne (run_sound hs before) h,
    fun before cmds cmds' hperm hn => ?_⟩
  · have hfold : (opened.run cmds).position? driver =
        (opened.heard driver cmds).foldl latest? none := run_position? hs cmds
    rw [hfold]
    rcases Driver.Position.newest_foldl (opened.heard driver cmds) with
      ⟨hnil, hnone⟩ | ⟨p, hp, hnewest⟩
    · rw [hnone]
      exact ⟨iff_of_true rfl hnil, fun p hp => by cases hp⟩
    · rw [hp]
      refine ⟨iff_of_false (fun h => by cases h) fun hnil => ?_, fun q hq => ?_⟩
      · rw [hnil] at hp
        cases hp
      · cases hq
        exact hnewest
  · have hb := run_sound hs before
    rw [run_position? hb, run_position? hb, Driver.Position.foldl_latest?_perm hperm hn]

/-- A report in time is taken wherever the driver may have been, unless it is from
off the globe. -/
theorem heard_timely {desk : Desk} {driver : Uuid} {point : Point} {stamp latest : Instant}
    (ht : desk.now.add? Fleet.tolerance = some latest) (hle : stamp ≤ latest) :
    desk.heard driver [.report driver point stamp] =
      if point.check.isOk then [⟨point, stamp⟩] else [] := by
  have hdone : (desk.perform (.report driver point stamp)).1.isDone = point.check.isOk := by
    show (desk.floor.fleet.report driver point stamp desk.now).1.isDone = _
    unfold Fleet.report
    cases point.check with
    | error => rfl
    | ok =>
        dsimp only
        rw [ht]
        dsimp only
        rw [if_neg (Instant.not_lt.2 hle)]
        split <;> rfl
  rw [heard_single, hdone, Command.told?, if_pos rfl]
  rfl

def trialLater : Instant :=
  { trialStart with second := 36005, second_lt := by decide, nano_lt := by decide }

def trialTolerated : Instant :=
  { trialStart with second := 36030, second_lt := by decide, nano_lt := by decide }

/-- Two reports and going online, either way round. -/
theorem newest_report_counts_trial :
    let driver := Uuid.ofNat 9
    let first := Command.report driver ⟨41.3, 69.24⟩ trialStart
    let second := Command.report driver ⟨41.31, 69.25⟩ trialLater
    let online := Command.setAvailability driver true none
    ((opening {} trialStart).run [first, second]).position? driver =
      ((opening {} trialStart).run [second, online, first]).position? driver := by
  intro driver first second online
  have hnow : (opening {} trialStart).now = trialStart := by decide +kernel
  have hlatest : ∀ desk : Desk, desk.now = trialStart →
      desk.now.add? Fleet.tolerance = some trialTolerated := by
    intro desk hnow
    rw [hnow]
    decide +kernel
  have hfirst : ∀ desk : Desk, desk.now = trialStart → desk.heard driver [first] =
      if (Point.mk 41.3 69.24).check.isOk then [⟨⟨41.3, 69.24⟩, trialStart⟩] else [] :=
    fun desk hnow => heard_timely (hlatest desk hnow) (by decide +kernel)
  have hsecond : ∀ desk : Desk, desk.now = trialStart → desk.heard driver [second] =
      if (Point.mk 41.31 69.25).check.isOk then [⟨⟨41.31, 69.25⟩, trialLater⟩] else [] :=
    fun desk hnow => heard_timely (hlatest desk hnow) (by decide +kernel)
  have honline : ∀ desk : Desk, desk.heard driver [online] = [] := fun desk => by
    rw [heard_single]
    split <;> rfl
  have hleft : (opening {} trialStart).heard driver [first, second] =
      (opening {} trialStart).heard driver [first] ++
        ((opening {} trialStart).after first).heard driver [second] := heard_cons _ _
  have hright : (opening {} trialStart).heard driver [second, online, first] =
      (opening {} trialStart).heard driver [second] ++
        (((opening {} trialStart).after second).heard driver [online] ++
          (((opening {} trialStart).after second).after online).heard driver [first]) := by
    rw [heard_cons, heard_cons online]
  rw [hfirst _ hnow, hsecond ((opening {} trialStart).after first) hnow] at hleft
  rw [hsecond _ hnow, honline, hfirst (((opening {} trialStart).after second).after online) hnow]
    at hright
  refine (newest_report_counts {} trialStart driver).2.2.2 [] [first, second]
    [second, online, first] ?_ ?_
  · show ((opening {} trialStart).heard driver [first, second]).Perm
      ((opening {} trialStart).heard driver [second, online, first])
    rw [hleft, hright]
    exact List.perm_append_comm
  · show (((opening {} trialStart).heard driver [first, second]).map (·.updatedAt)).Nodup
    rw [hleft]
    split <;> split <;> decide +kernel

end Desk

end Hailing
