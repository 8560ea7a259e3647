import Hailing.Proofs.Attendance
import Hailing.Proofs.Balance

/-!
# The ledger is faithful

Some of what the ledger counts has left no trace in the dockets: how often a
search ended, and how. Here the other side of the account is the run. Each
dispatch that is not skipped starts a search, and a search that was started
has ended, is asleep, or was lost because going on with it broke down. So the
searches that have ended and those asleep grow with every dispatch that is not
skipped and with nothing else (`Floor.Books`).

Most dispatches show in the answer to a command, but a sweep makes dispatches
that its report does not tell apart. They are brought to light by a sweep that
notes down what each of its dispatches led to. It is the same sweep otherwise
(`sweepOrdersNoting_snd`). Offers that timed out are accounted for in the same
way, between the ledger and the reports of the sweeps.
-/

namespace Hailing

open Time (Instant)

/-- The dispatch was not skipped. -/
def Outcome.isStart : Outcome → Bool
  | .skipped _ => false
  | _ => true

def Answer.done? {α : Type} : Answer α → Option α
  | .done a => some a
  | _ => none

/-- The searches that have ended. -/
def Ledger.ended (l : Ledger) : Nat := l.abandoned + l.exhausted + l.offered

/-- The searches that have ended and those that are asleep. -/
def Floor.searches (f : Floor) : Nat := f.ledger.ended + f.sleeping.length

/-! ## Sweeps that note their dispatches -/

namespace Case

def dropLateNoting : List Uuid → SweepReport → Case →
    List Outcome × Except Breakdown SweepReport × Case
  | [], report, c => ([], .ok report, c)
  | driver :: rest, report, c =>
    let report := { report with timeouts := report.timeouts + 1 }
    let c := c.count fun l => { l with timeouts := l.timeouts + 1 }
    if !c.docket.isPending then dropLateNoting rest report (c.onDocket (·.exclude driver))
    else
      match c.reassign driver with
      | (.error breakdown, c) => ([], .error breakdown, c)
      | (.ok outcome, c) =>
        let found := if outcome.isOffered then 1 else 0
        let report := { report with reassigned := report.reassigned + found }
        let (noted, result) := dropLateNoting rest report c
        (outcome :: noted, result)

def retryIdleNoting (report : SweepReport) (c : Case) :
    List Outcome × Except Breakdown SweepReport × Case :=
  if c.docket.isIdle && c.docket.isRested c.floor.settings.retrySpan c.floor.now then
    match c.dispatch with
    | (.error breakdown, c) => ([], .error breakdown, c)
    | (.ok outcome, c) => ([outcome], .ok { report with retried := report.retried + 1 }, c)
  else ([], .ok report, c)

def sweepNoting (report : SweepReport) (c : Case) :
    List Outcome × Except Breakdown SweepReport × Case :=
  let window := c.floor.settings.offerSpan
  let late := c.docket.lateDrivers window c.floor.now
  match dropLateNoting late report (c.onDocket (·.expire window c.floor.now)) with
  | (noted, .error breakdown, c) => (noted, .error breakdown, c)
  | (noted, .ok report, c) =>
    match c.retryIdleNoting report with
    | (retried, .error breakdown, c) => (noted ++ retried, .error breakdown, c)
    | (retried, .ok report, c) => (noted ++ retried, .ok report, c.settle)

theorem dropLateNoting_snd (late : List Uuid) (report : SweepReport) (c : Case) :
    (dropLateNoting late report c).2 = dropLate late report c := by
  induction late generalizing report c with
  | nil => rfl
  | cons driver rest ih =>
      rw [dropLateNoting, dropLate]
      dsimp only
      split
      · exact ih _ _
      · rcases (c.count fun l => { l with timeouts := l.timeouts + 1 }).reassign driver with
          ⟨_ | outcome, c₁⟩
        · rfl
        · exact ih _ _

theorem retryIdleNoting_snd (report : SweepReport) (c : Case) :
    (c.retryIdleNoting report).2 = c.retryIdle report := by
  unfold retryIdleNoting retryIdle
  split
  · rcases c.dispatch with ⟨_ | outcome, c₁⟩
    · rfl
    · rfl
  · rfl

theorem sweepNoting_snd (report : SweepReport) (c : Case) :
    (c.sweepNoting report).2 = c.sweep report := by
  unfold sweepNoting sweep
  dsimp only
  rw [← dropLateNoting_snd]
  rcases dropLateNoting _ report _ with ⟨noted, _ | report₁, c₁⟩
  · rfl
  · dsimp only
    rw [← retryIdleNoting_snd]
    rcases c₁.retryIdleNoting report₁ with ⟨retried, _ | report₂, c₂⟩
    · rfl
    · rfl

end Case

namespace Desk

def sweepOrdersNoting : List Uuid → SweepReport → Desk →
    List Outcome × Except Breakdown SweepReport × Desk
  | [], report, desk => ([], .ok report, desk)
  | order :: rest, report, desk =>
    match desk.docket? order with
    | none => sweepOrdersNoting rest report desk
    | some docket =>
      match (Case.mk docket desk.floor).sweepNoting report with
      | (noted, .error breakdown, c) => (noted, .error breakdown, desk.putBack c)
      | (noted, .ok report, c) =>
        let (more, result) := sweepOrdersNoting rest report (desk.putBack c)
        (noted ++ more, result)

theorem sweepOrdersNoting_snd (visited : List Uuid) (report : SweepReport) (desk : Desk) :
    (sweepOrdersNoting visited report desk).2 = sweepOrders visited report desk := by
  induction visited generalizing report desk with
  | nil => rfl
  | cons order rest ih =>
      rw [sweepOrdersNoting, sweepOrders]
      cases desk.docket? order with
      | none => exact ih _ _
      | some docket =>
          dsimp only
          rw [← Case.sweepNoting_snd]
          rcases (Case.mk docket desk.floor).sweepNoting report with ⟨noted, _ | report₁, c⟩
          · rfl
          · exact ih _ _

def sweepAsNoting (visited : List Uuid) (desk : Desk) :
    List Outcome × Except Breakdown SweepReport × Desk :=
  sweepOrdersNoting visited {}
    { desk with floor := desk.floor.count fun l => { l with sweeps := l.sweeps + 1 } }

theorem sweepAsNoting_snd (visited : List Uuid) (desk : Desk) :
    (sweepAsNoting visited desk).2 = desk.sweepAs visited := sweepOrdersNoting_snd _ _ _

/-! ## What a run has done -/

/-- The outcomes of the dispatches that a command makes. -/
def outcomesOf : Command → Desk → List Outcome
  | .create request, desk => ((desk.createOrder request).1.done?.map (·.dispatch)).toList
  | .respond order driver reply, desk =>
    ((desk.respond order driver reply).1.done?.bind (·.next?)).toList
  | .dispatch order, desk => (desk.dispatch order).1.done?.toList
  | .retry order, desk => (desk.retry order).1.done?.toList
  | .reassign order driver, desk => (desk.reassign order driver).1.done?.toList
  | .sweep visited, desk =>
    if visited.isPerm desk.floor.openOrders then (desk.sweepAsNoting visited).1 else []
  | _, _ => []

/-- The report of a command that sweeps. -/
def reportOf : Command → Desk → Option SweepReport
  | .sweep visited, desk => (desk.perform (.sweep visited)).1.done?
  | _, _ => none

/-- Whether a search is lost with a command: it woke up, and going on with it
broke down. -/
def loses : Command → Desk → Bool
  | .wake place, desk => (desk.perform (.wake place)).1.isBroken
  | _, _ => false

/-- The outcomes of all dispatches that were made in a run. -/
def outcomes : List Command → Desk → List Outcome
  | [], _ => []
  | cmd :: rest, desk => desk.outcomesOf cmd ++ outcomes rest (desk.after cmd)

/-- The reports of the sweeps in a run. -/
def reports : List Command → Desk → List SweepReport
  | [], _ => []
  | cmd :: rest, desk => (desk.reportOf cmd).toList ++ reports rest (desk.after cmd)

/-- How many searches were lost in a run. -/
def lost : List Command → Desk → Nat
  | [], _ => 0
  | cmd :: rest, desk => (desk.loses cmd).toNat + lost rest (desk.after cmd)

end Desk

/-! ## Searches on the floor -/

theorem Ledger.ended_countSearch (how : SearchEnd) (l : Ledger) :
    (l.countSearch how).ended = l.ended + 1 := by
  cases how <;> (simp only [countSearch, ended]; omega)

/-- Between two floors there were dispatches with these outcomes, and so many
offers timed out. -/
structure Floor.Books (noted : List Outcome) (late : Nat) (f f' : Floor) : Prop where
  searches : f'.searches = f.searches + noted.countP (·.isStart)
  timeouts : f'.ledger.timeouts = f.ledger.timeouts + late

namespace Floor.Books

variable {noted more : List Outcome} {late later : Nat} {f g h : Floor}

theorem of_eq (hs : g.searches = f.searches) (ht : g.ledger.timeouts = f.ledger.timeouts) :
    Books [] 0 f g := ⟨hs, ht⟩

theorem refl (f : Floor) : Books [] 0 f f := of_eq rfl rfl

theorem trans (h₁ : Books noted late f g) (h₂ : Books more later g h) :
    Books (noted ++ more) (late + later) f h := by
  constructor
  · rw [h₂.searches, h₁.searches, List.countP_append, Nat.add_assoc]
  · rw [h₂.timeouts, h₁.timeouts, Nat.add_assoc]

/-- Only the ledger and the searches asleep count. -/
theorem congr (h₁ : Books noted late f g) (hl : h.ledger = g.ledger)
    (hs : h.sleeping = g.sleeping) : Books noted late f h := by
  refine ⟨?_, by rw [hl, h₁.timeouts]⟩
  rw [Floor.searches, hl, hs]
  exact h₁.searches

theorem of_same (hl : g.ledger = f.ledger) (hs : g.sleeping = f.sleeping) : Books [] 0 f g :=
  (refl f).congr hl hs

end Floor.Books

open Floor (Books)

namespace Case

theorem endSearch_searches (how : SearchEnd) (c : Case) :
    (c.endSearch how).floor.searches = c.floor.searches + 1 := by
  show (c.floor.ledger.countSearch how).ended + c.floor.sleeping.length = _
  rw [Ledger.ended_countSearch, Nat.add_right_comm]
  rfl

theorem makeOffer_searches (offer : Offer) (c : Case) :
    (c.makeOffer offer).floor.searches = c.floor.searches + 1 := by
  show (Ledger.countSearch .offered _).ended + c.floor.sleeping.length = _
  rw [Ledger.ended_countSearch, Nat.add_right_comm]
  rfl

theorem sleep_searches (radii : Radii) (c : Case) :
    (c.onFloor (·.sleep c.docket.id radii)).floor.searches = c.floor.searches + 1 := by
  show c.floor.ledger.ended + (c.floor.sleeping ++ [_]).length = _
  rw [List.length_append]
  rfl

theorem Dispatched.books {c c' : Case} {outcome : Outcome} (h : Dispatched c outcome c') :
    Books [outcome] 0 c.floor c'.floor := by
  cases h with
  | skipped => exact ⟨rfl, rfl⟩
  | offered => exact ⟨makeOffer_searches _ _, rfl⟩
  | searching => exact ⟨sleep_searches _ _, rfl⟩
  | exhausted => exact ⟨endSearch_searches _ _, rfl⟩

/-- A search that goes on ends or is asleep again. -/
theorem Resumed.searches_eq {radii : Radii} {c c' : Case} (h : Resumed radii c c') :
    c'.floor.searches = c.floor.searches + 1 := by
  cases h with
  | abandoned | exhausted => exact endSearch_searches _ _
  | offered => exact makeOffer_searches _ _
  | widened => exact sleep_searches _ _

theorem Resumed.timeouts_eq {radii : Radii} {c c' : Case} (h : Resumed radii c c') :
    c'.floor.ledger.timeouts = c.floor.ledger.timeouts := by
  cases h <;> rfl

/-- A decision starts no search. -/
theorem Decided.books {c c' : Case} {cmd : Command} (h : Decided c cmd c') :
    Books [] 0 c.floor c'.floor := by
  have hs := h.sleeping_eq
  cases h with
  | @taken offer c₁ _ _ _ hc =>
      have hl : (c₁.taken offer).floor.ledger = { c.floor.ledger with
          accepted := c.floor.ledger.accepted + 1, pending := c.floor.ledger.pending - 1 } := by
        refine (Floor.settle_ledger _ _).trans ?_
        rw [(claim_eq hc).1]
        rfl
      exact .of_eq (by rw [Floor.searches, hl, hs]; rfl) (by rw [hl])
  | withdrawn =>
      refine .of_eq ?_ ?_
      · rw [Floor.searches, hs]
        refine (congrArg (Ledger.ended · + _) (Floor.settle_ledger _ _)).trans ?_
        rfl
      · refine (congrArg Ledger.timeouts (Floor.settle_ledger _ _)).trans ?_
        rfl
  | recalled =>
      refine .of_same ?_ hs
      exact (Floor.settle_ledger _ _).trans (releaseDriver_ledger _)
  | completed => exact .of_same (completed_ledger c) hs

/-! ## What the answers tell of the searches -/

theorem dispatch_books (c : Case) :
    Books (Answer.ofExcept c.dispatch.1).done?.toList 0 c.floor c.dispatch.2.floor := by
  rcases dispatch_cases c with ⟨_, h⟩ | ⟨outcome, c', h, hd⟩
  · rw [h]
    exact .refl _
  · rw [h]
    exact hd.books

theorem retry_books (c : Case) : Books c.retry.1.done?.toList 0 c.floor c.retry.2.floor := by
  unfold retry
  split
  · exact .refl _
  · exact dispatch_books c

theorem reject_books (offer : Offer) (c : Case) :
    Books ((c.reject offer).1.done?.bind (·.next?)).toList 0 c.floor (c.reject offer).2.floor := by
  have hcount : Books [] 0 c.floor
      (c.floor.count fun l => { l with rejected := l.rejected + 1 }) := .of_eq rfl rfl
  unfold reject
  dsimp only
  split
  · have h := hcount.trans (dispatch_books (((c.resolve offer .rejected).2.count fun l =>
      { l with rejected := l.rejected + 1 }).onDocket (·.exclude offer.driver)))
    rw [reassign]
    generalize dispatch _ = result at h ⊢
    obtain ⟨breakdown | outcome, c'⟩ := result
    · exact h
    · exact h
  · exact hcount.congr (Floor.settle_ledger _ _) (Floor.settle_sleeping _ _)

theorem accept_next {c : Case} {offer : Offer} {reaction : Reaction}
    (h : (c.accept offer).1.done? = some reaction) : reaction.next? = none := by
  unfold accept at h
  split at h
  · cases h
  · obtain rfl := Option.some.inj h
    rfl

/-- An acceptance starts no search. -/
theorem respond_accept_next (driver : Uuid) (c : Case) :
    (c.respond driver .accept).1.done?.bind (·.next?) = none := by
  unfold respond
  split
  · rfl
  · split
    · rfl
    · next offer _ =>
        dsimp only
        cases h : (c.accept offer).1.done? with
        | none => rfl
        | some reaction => exact accept_next h

theorem Decides.books {α : Type} {cmd : Command} {c : Case} {result : Answer α × Case}
    (h : Decides cmd c result) : Books [] 0 c.floor result.2.floor := by
  rcases h with ⟨_, rfl⟩ | ⟨_, _, rfl, hc⟩
  · exact .refl _
  · exact hc.books

theorem respond_books {c : Case} (ho : c.docket.OneOpen) (driver : Uuid)
    (reply : Offer.Reply) :
    Books ((c.respond driver reply).1.done?.bind (·.next?)).toList 0 c.floor
      (c.respond driver reply).2.floor := by
  cases reply with
  | accept =>
      rw [respond_accept_next]
      exact (accept_decides ho driver).books
  | reject =>
      rw [respond, if_neg (by simp)]
      split
      · exact .refl _
      · next offer _ => exact reject_books offer c

/-! ## What a sweep notes -/

/-- The noted outcomes account for the searches, and the report for the offers
that timed out. -/
def Noted (report : SweepReport) (f : Floor) (noted : List Outcome)
    (result : Except Breakdown SweepReport) (f' : Floor) : Prop :=
  ∃ late, Books noted late f f' ∧
    ∀ report', result = .ok report' → report'.timeouts = report.timeouts + late

namespace Noted

variable {report report₁ : SweepReport} {noted more : List Outcome} {late : Nat}
  {result : Except Breakdown SweepReport} {f g h : Floor}

theorem done (report : SweepReport) (f : Floor) : Noted report f [] (.ok report) f :=
  ⟨0, .refl f, fun _ he => by cases he; rfl⟩

theorem broken {breakdown : Breakdown} (hb : Books noted late f g) :
    Noted report f noted (.error breakdown) g := ⟨late, hb, fun _ he => by cases he⟩

/-- What was noted before goes in front. -/
theorem after (hb : Books noted late f g) (hr : report₁.timeouts = report.timeouts + late)
    (hn : Noted report₁ g more result h) : Noted report f (noted ++ more) result h := by
  obtain ⟨later, hbooks, hreport⟩ := hn
  refine ⟨late + later, hb.trans hbooks, fun report' he => ?_⟩
  rw [hreport report' he, hr, Nat.add_assoc]

theorem trans (h₁ : Noted report f noted (.ok report₁) g)
    (h₂ : Noted report₁ g more result h) : Noted report f (noted ++ more) result h := by
  obtain ⟨late, hbooks, hreport⟩ := h₁
  exact h₂.after hbooks (hreport report₁ rfl)

end Noted

theorem dropLateNoting_noted (late : List Uuid) (report : SweepReport) (c : Case) :
    Noted report c.floor (dropLateNoting late report c).1 (dropLateNoting late report c).2.1
      (dropLateNoting late report c).2.2.floor := by
  induction late generalizing report c with
  | nil => exact .done report c.floor
  | cons driver rest ih =>
      have hcount : Books [] 1 c.floor
          (c.floor.count fun l => { l with timeouts := l.timeouts + 1 }) := ⟨rfl, rfl⟩
      rw [dropLateNoting]
      dsimp only
      split
      · exact .after hcount rfl (ih _ _)
      · split
        · next c' h =>
            have hd := dispatch_books (onDocket (·.exclude driver)
              (c.count fun l => { l with timeouts := l.timeouts + 1 }))
            rw [show dispatch _ = _ from h] at hd
            exact .broken (hcount.trans hd)
        · next outcome c' h =>
            have hd := dispatch_books (onDocket (·.exclude driver)
              (c.count fun l => { l with timeouts := l.timeouts + 1 }))
            rw [show dispatch _ = _ from h] at hd
            exact .after (hcount.trans hd) rfl (ih _ _)

theorem retryIdleNoting_noted (report : SweepReport) (c : Case) :
    Noted report c.floor (c.retryIdleNoting report).1 (c.retryIdleNoting report).2.1
      (c.retryIdleNoting report).2.2.floor := by
  have hd := dispatch_books c
  unfold retryIdleNoting
  split
  · split
    · next h =>
        rw [h] at hd
        exact .broken hd
    · next h =>
        rw [h] at hd
        exact ⟨0, hd, fun _ he => by cases he; rfl⟩
  · exact .done report c.floor

theorem sweepNoting_noted (report : SweepReport) (c : Case) :
    Noted report c.floor (c.sweepNoting report).1 (c.sweepNoting report).2.1
      (c.sweepNoting report).2.2.floor := by
  have hlate := dropLateNoting_noted (c.docket.lateDrivers c.floor.settings.offerSpan c.floor.now)
    report (c.onDocket (·.expire c.floor.settings.offerSpan c.floor.now))
  unfold sweepNoting
  dsimp only
  generalize dropLateNoting _ report _ = first at hlate ⊢
  obtain ⟨noted, breakdown | report₁, c₁⟩ := first
  · exact hlate
  · dsimp only
    have hretry := retryIdleNoting_noted report₁ c₁
    generalize c₁.retryIdleNoting report₁ = second at hretry ⊢
    obtain ⟨retried, breakdown | report₂, c₂⟩ := second
    · exact hlate.trans hretry
    · obtain ⟨late, hbooks, hreport⟩ := hlate.trans hretry
      exact ⟨late, hbooks.congr (Floor.settle_ledger _ _) (Floor.settle_sleeping _ _), hreport⟩

end Case

namespace Desk

theorem sweepOrdersNoting_noted (visited : List Uuid) (report : SweepReport) (desk : Desk) :
    Case.Noted report desk.floor (sweepOrdersNoting visited report desk).1
      (sweepOrdersNoting visited report desk).2.1
      (sweepOrdersNoting visited report desk).2.2.floor := by
  induction visited generalizing report desk with
  | nil => exact .done report desk.floor
  | cons order rest ih =>
      rw [sweepOrdersNoting]
      cases desk.docket? order with
      | none => exact ih _ _
      | some docket =>
          have hone := Case.sweepNoting_noted report ⟨docket, desk.floor⟩
          dsimp only
          generalize (Case.mk docket desk.floor).sweepNoting report = first at hone ⊢
          obtain ⟨noted, breakdown | report₁, c⟩ := first
          · exact hone
          · exact hone.trans (ih report₁ (desk.putBack c))

/-! ## Every search is accounted for -/

theorem handle_books {α : Type} {order : Uuid} {work : Case → Answer α × Case} {desk : Desk}
    (note : Answer α → List Outcome) (hn : ∀ refusal, note (.refused refusal) = [])
    (hw : ∀ docket, desk.docket? docket.id = some docket →
      Books (note (work ⟨docket, desk.floor⟩).1) 0 desk.floor
        (work ⟨docket, desk.floor⟩).2.floor) :
    Books (note (desk.handle order work).1) 0 desk.floor (desk.handle order work).2.floor := by
  rcases handle_cases order work desk with ⟨_, h⟩ | ⟨docket, _, hd, h⟩
  · rw [h, hn]
    exact .refl _
  · rw [h]
    exact hw docket hd

theorem createOrder_books (request : Order.NewOrder) (desk : Desk) :
    Books ((desk.createOrder request).1.done?.map (·.dispatch)).toList 0 desk.floor
      (desk.createOrder request).2.floor := by
  unfold createOrder
  split
  · exact .refl _
  · have henter : Books [] 0 desk.floor (desk.enter (desk.draftOrder request)).floor := by
      refine .of_eq ?_ ?_
      · rw [Floor.searches, enter_ledger]
        exact congrArg (_ + List.length ·) (Floor.openOrder_sleeping _ _)
      · rw [enter_ledger]
    refine henter.trans (handle_books
      (fun a : Answer Created => (a.done?.map (·.dispatch)).toList)
      (fun _ => rfl) fun docket _ => ?_)
    have hd := Case.dispatch_books ⟨docket, (desk.enter (desk.draftOrder request)).floor⟩
    dsimp only
    generalize Case.dispatch _ = result at hd ⊢
    obtain ⟨breakdown | outcome, c⟩ := result
    · exact hd
    · exact hd

/-- What a command adds to the account. -/
structure Booked (cmd : Command) (desk : Desk) : Prop where
  searches : (desk.after cmd).floor.searches + (desk.loses cmd).toNat =
    desk.floor.searches + (desk.outcomesOf cmd).countP (·.isStart)
  timeouts : (desk.perform cmd).1.isBroken = false →
    (desk.after cmd).floor.ledger.timeouts =
      desk.floor.ledger.timeouts + ((desk.reportOf cmd).toList.map (·.timeouts)).sum

/-- Most commands neither lose a search nor report timeouts. -/
theorem Booked.of_books {cmd : Command} {desk : Desk} (hl : desk.loses cmd = false)
    (hr : desk.reportOf cmd = none)
    (hb : Books (desk.outcomesOf cmd) 0 desk.floor (desk.after cmd).floor) : Booked cmd desk := by
  refine ⟨?_, fun _ => ?_⟩
  · rw [hl]
    exact hb.searches
  · rw [hr]
    exact hb.timeouts

theorem sweep_booked (visited : List Uuid) (desk : Desk) : Booked (.sweep visited) desk := by
  by_cases hv : visited.isPerm desk.floor.openOrders = true
  · have hperform : desk.perform (.sweep visited) =
        (.ofExcept (desk.sweepAs visited).1, (desk.sweepAs visited).2) := by
      rw [perform, if_pos hv]
    obtain ⟨late, hbooks, hreport⟩ := sweepOrdersNoting_noted visited {}
      { desk with floor := desk.floor.count fun l => { l with sweeps := l.sweeps + 1 } }
    have hsame := sweepAsNoting_snd visited desk
    rw [sweepAsNoting] at hsame
    rw [hsame] at hbooks hreport
    refine ⟨?_, fun hb => ?_⟩
    · rw [after, outcomesOf, if_pos hv, hperform]
      exact hbooks.searches
    · rw [after, reportOf]
      rw [hperform] at hb ⊢
      rw [hbooks.timeouts]
      cases hr : (desk.sweepAs visited).1 with
      | error breakdown =>
          rw [hr] at hb
          cases hb
      | ok report =>
          have hlate : report.timeouts = 0 + late := hreport report hr
          show _ = desk.floor.ledger.timeouts + [report.timeouts].sum
          rw [hlate]
          simp [Floor.count]
  · have hperform : desk.perform (.sweep visited) = (.done {}, desk) := by
      rw [perform, if_neg hv]
    refine ⟨?_, fun _ => ?_⟩
    · rw [after, outcomesOf, if_neg hv, hperform]
      rfl
    · rw [after, reportOf, hperform]
      rfl

theorem takeSearch_searches {desk : Desk} {place : Nat} {search : Search}
    (hs : desk.floor.sleeping[place]? = some search) :
    (desk.takeSearch place).floor.searches + 1 = desk.floor.searches := by
  obtain ⟨before, behind, hb, ha⟩ := sleeping_split hs
  rw [Floor.searches, Floor.searches, hb, ha]
  simp only [List.length_append, List.length_cons]
  rfl

theorem wake_booked {desk : Desk} (hk : desk.SearchesKnown) (place : Nat) :
    Booked (.wake place) desk := by
  cases hs : desk.floor.sleeping[place]? with
  | none =>
      have hperform := perform_wake_none hs
      refine ⟨?_, fun _ => ?_⟩
      · rw [after, loses, hperform]
        rfl
      · rw [after, hperform]
        rfl
  | some search =>
      have htaken := takeSearch_searches hs
      obtain ⟨docket, hd⟩ := hk.docket_of_sleeping hs
      have hperform := perform_wake hs
      have hd' : (desk.takeSearch place).docket? search.order = some docket := hd
      rw [handle, hd'] at hperform
      dsimp only at hperform
      rw [freely_eq] at hperform
      rcases Case.resume_cases search.radii ⟨docket, (desk.takeSearch place).floor⟩ with
        ⟨_, hr⟩ | ⟨c, hr, hc⟩
      · rw [hr] at hperform
        refine ⟨?_, fun hb => ?_⟩
        · rw [after, loses, hperform]
          exact htaken
        · rw [hperform] at hb
          cases hb
      · rw [hr] at hperform
        refine ⟨?_, fun _ => ?_⟩
        · rw [after, loses, hperform]
          exact hc.searches_eq.trans htaken
        · rw [after, hperform]
          exact hc.timeouts_eq

theorem after_booked {desk : Desk} (hs : desk.Sound) (hk : desk.SearchesKnown)
    (cmd : Command) : Booked cmd desk := by
  cases cmd with
  | create request => exact .of_books rfl rfl (createOrder_books request desk)
  | respond order driver reply =>
      refine .of_books rfl rfl (handle_books
        (fun a : Answer Reaction => (a.done?.bind (·.next?)).toList) (fun _ => rfl)
        fun docket hd => ?_)
      exact Case.respond_books (hs.orderly hd).oneOpen driver reply
  | cancel order reason text =>
      refine .of_books rfl rfl (handle_books (fun _ => []) (fun _ => rfl) fun docket _ => ?_)
      exact (Case.cancel_decides reason text ⟨docket, desk.floor⟩).books
  | complete order =>
      refine .of_books rfl rfl (handle_books (fun _ => []) (fun _ => rfl) fun docket _ => ?_)
      exact (Case.complete_decides ⟨docket, desk.floor⟩).books
  | dispatch order =>
      exact .of_books rfl rfl (handle_books (fun a => a.done?.toList) (fun _ => rfl)
        fun docket _ => Case.dispatch_books ⟨docket, desk.floor⟩)
  | retry order =>
      exact .of_books rfl rfl (handle_books (fun a => a.done?.toList) (fun _ => rfl)
        fun docket _ => Case.retry_books ⟨docket, desk.floor⟩)
  | reassign order driver =>
      exact .of_books rfl rfl (handle_books (fun a => a.done?.toList) (fun _ => rfl)
        fun docket _ => Case.dispatch_books ⟨docket.exclude driver, desk.floor⟩)
  | report | setAvailability | claimTrip | markFree | setClock =>
      exact .of_books rfl rfl (.of_same rfl rfl)
  | sweep visited => exact sweep_booked visited desk
  | wake place => exact wake_booked hk place

theorem run_searches {desk : Desk} (hs : desk.Sound) (hk : desk.SearchesKnown)
    (cmds : List Command) :
    (desk.run cmds).floor.searches + desk.lost cmds =
      desk.floor.searches + (desk.outcomes cmds).countP (·.isStart) := by
  induction cmds generalizing desk with
  | nil => rfl
  | cons cmd rest ih =>
      have hturn := after_turn hs cmd
      have hfirst := (after_booked hs hk cmd).searches
      have hrest := ih (hturn.sound hs) (hturn.searchesKnown hk)
      rw [run, lost, outcomes, List.countP_append]
      omega

theorem run_timeouts {desk : Desk} (hs : desk.Sound) (hk : desk.SearchesKnown)
    {cmds : List Command} (hw : desk.isWhole cmds = true) :
    (desk.run cmds).floor.ledger.timeouts =
      desk.floor.ledger.timeouts + ((desk.reports cmds).map (·.timeouts)).sum := by
  induction cmds generalizing desk with
  | nil => rfl
  | cons cmd rest ih =>
      rw [isWhole, Bool.and_eq_true, Bool.not_eq_true'] at hw
      have hturn := after_turn hs cmd
      have hfirst := (after_booked hs hk cmd).timeouts hw.1
      have hrest := ih (hturn.sound hs) (hturn.searchesKnown hk) hw.2
      rw [run, reports, List.map_append, List.sum_append, hrest, hfirst, Nat.add_assoc]

theorem lost_of_isWhole {cmds : List Command} {desk : Desk} (hw : desk.isWhole cmds = true) :
    desk.lost cmds = 0 := by
  induction cmds generalizing desk with
  | nil => rfl
  | cons cmd rest ih =>
      rw [isWhole, Bool.and_eq_true, Bool.not_eq_true'] at hw
      have hkept : desk.loses cmd = false := by
        cases cmd with
        | wake place => exact hw.1
        | _ => rfl
      rw [lost, hkept, ih hw.2]
      rfl

/-- After every run the ledger says how many orders wait, how many offers were
made, each found by one search, and how many of them were accepted, rejected
or timed out; the others are out. The searches that have ended, those asleep
and those lost are the ones that were started. And if nothing breaks down no
search is lost, and the offers that timed out are those that the sweeps have
reported. -/
theorem ledger_is_faithful (settings : Settings) (start : Instant) (cmds : List Command)
    (hi : ((opening settings start).run cmds).floor.issued ≤ Uuid.capacity) :
    let desk := (opening settings start).run cmds
    let ledger := desk.floor.ledger
    let started := ((opening settings start).outcomes cmds).countP (·.isStart)
    ledger.pending = desk.dockets.items.countP (·.isPending) ∧
    (ledger.requested = desk.allOffers.length ∧ ledger.offered = desk.allOffers.length) ∧
    (ledger.accepted = desk.allOffers.countP (·.status = .accepted) ∧
      ledger.rejected = desk.allOffers.countP (·.status = .rejected) ∧
      ledger.timeouts = desk.allOffers.countP (·.status = .timeout)) ∧
    ledger.requested = ledger.accepted + ledger.rejected + ledger.timeouts +
      desk.allOffers.countP (·.status = .requested) ∧
    ledger.abandoned + ledger.exhausted + ledger.offered + desk.floor.sleeping.length +
      (opening settings start).lost cmds = started ∧
    ((opening settings start).isWhole cmds = true →
      ledger.abandoned + ledger.exhausted + ledger.offered + desk.floor.sleeping.length =
        started ∧
      ledger.timeouts = (((opening settings start).reports cmds).map (·.timeouts)).sum) := by
  intro desk ledger started
  have hs := opening_sound settings start
  have hk := opening_searchesKnown settings start
  have hb : desk.Balanced := run_balanced hi
  have hrequested : ledger.requested = desk.allOffers.length := by
    refine (hb.offers_eq .requested).trans ?_
    simp [Offer.hasBeen]
  have haccepted : ledger.accepted = desk.allOffers.countP (·.status = .accepted) :=
    hb.offers_eq .accepted
  have hrejected : ledger.rejected = desk.allOffers.countP (·.status = .rejected) :=
    hb.offers_eq .rejected
  have htimeouts : ledger.timeouts = desk.allOffers.countP (·.status = .timeout) :=
    hb.offers_eq .timeout
  have hsearches : desk.floor.searches + (opening settings start).lost cmds = 0 + started :=
    run_searches hs hk cmds
  rw [Nat.zero_add] at hsearches
  refine ⟨hb.pending_eq, ⟨hrequested, hb.found_eq⟩, ⟨haccepted, hrejected, htimeouts⟩, ?_,
    hsearches, fun hw => ?_⟩
  · rw [hrequested, haccepted, hrejected, htimeouts]
    exact length_eq_countP_status desk.allOffers
  · rw [lost_of_isWhole hw] at hsearches
    exact ⟨hsearches, (run_timeouts hs hk hw).trans (Nat.zero_add _)⟩

/-- The order that waited was cancelled, and its search given up. -/
theorem ledger_is_faithful_trial :
    ((opening {} trialStart).run trialRun).floor.issued ≤ Uuid.capacity ∧
      (opening {} trialStart).isWhole trialRun = true ∧
      ((opening {} trialStart).run trialRun).floor.ledger.abandoned = 1 ∧
      ((opening {} trialStart).outcomes trialRun).countP (·.isStart) = 1 ∧
      let desk := (opening {} trialStart).run trialRun
      desk.floor.ledger.pending = desk.dockets.items.countP (·.isPending) ∧
      desk.floor.ledger.abandoned + desk.floor.ledger.exhausted + desk.floor.ledger.offered +
          desk.floor.sleeping.length =
        ((opening {} trialStart).outcomes trialRun).countP (·.isStart) ∧
      desk.floor.ledger.timeouts =
        (((opening {} trialStart).reports trialRun).map (·.timeouts)).sum := by
  have hi : ((opening {} trialStart).run trialRun).floor.issued ≤ Uuid.capacity := by
    decide +kernel
  have hw : (opening {} trialStart).isWhole trialRun = true := by decide +kernel
  obtain ⟨hpending, -, -, -, -, hwhole⟩ := ledger_is_faithful {} trialStart trialRun hi
  exact ⟨hi, hw, by decide +kernel, by decide +kernel, hpending, hwhole hw⟩

end Desk

end Hailing
