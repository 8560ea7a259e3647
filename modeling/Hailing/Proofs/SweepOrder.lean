import Hailing.Proofs.Exchange
import Hailing.Proofs.Freshness

/-!
# The open orders may be swept in any order

Sweeps of two orders may change places, like any searches (`Drawn.exchange`).
Every permutation is made of such steps (`Drawn.sweepOrders_perm`), and after
each of them the rest of the sweep goes on from a desk that is the same up to a
renaming (`SameUpTo.sweepOrders`).

There are two things to see to. A sweep carries a report along; each order adds
its own part to it, whatever it was before (`Case.sweep_add`). And a sweep ends
where it breaks down. It might break down at one order or at another one; but
why it does is to be seen on the floor and not on the order (`Case.sweep_fault`),
and the floor is the same in this regard for all of them.
-/

namespace Hailing

open Time (Instant Span)

namespace SweepReport

/-- Reports are added up. -/
instance : Add SweepReport where
  add a b :=
    { timeouts := a.timeouts + b.timeouts
      reassigned := a.reassigned + b.reassigned
      retried := a.retried + b.retried }

theorem add_def (a b : SweepReport) :
    a + b =
      { timeouts := a.timeouts + b.timeouts
        reassigned := a.reassigned + b.reassigned
        retried := a.retried + b.retried } := rfl

@[simp] theorem add_nothing (a : SweepReport) : a + {} = a := by
  simp [add_def]

@[simp] theorem nothing_add (a : SweepReport) : {} + a = a := by
  simp [add_def]

protected theorem add_assoc (a b c : SweepReport) : a + b + c = a + (b + c) := by
  simp [add_def, Nat.add_assoc]

protected theorem add_right_comm (a b c : SweepReport) : a + b + c = a + c + b := by
  simp [add_def, Nat.add_right_comm]

theorem map_add (a b : SweepReport) (r : Except Breakdown SweepReport) :
    (r.map (b + ·)).map (a + ·) = r.map (a + b + ·) := by
  cases r with
  | error => rfl
  | ok c => exact congrArg Except.ok (SweepReport.add_assoc a b c).symm

end SweepReport

/-- Why a search breaks down on this floor, if it does. -/
def Floor.fault (f : Floor) : Breakdown :=
  if f.settings.radii = none then .endlessWidening else .cutoffOutOfRange

theorem Floor.Steady.fault_eq {f g : Floor} (h : f.Steady g) : g.fault = f.fault := by
  rw [fault, h.settings, fault]

namespace Case

variable {c c' : Case} {breakdown : Breakdown}

/-! ## Reports of a sweep -/

theorem dropLate_add (late : List Uuid) (report : SweepReport) (c : Case) :
    dropLate late report c =
      ((dropLate late {} c).1.map (report + ·), (dropLate late {} c).2) := by
  induction late generalizing report c with
  | nil => exact congrArg (fun r => (Except.ok r, c)) (SweepReport.add_nothing report).symm
  | cons driver rest ih =>
      rw [dropLate, dropLate]
      dsimp only
      split
      · rw [ih { report with timeouts := report.timeouts + 1 }, ih { timeouts := 0 + 1 },
          SweepReport.map_add]
        rfl
      · rcases reassign driver _ with ⟨breakdown | outcome, c'⟩
        · rfl
        · dsimp only
          rw [ih, ih { timeouts := 0 + 1, reassigned := 0 + _ }, SweepReport.map_add]
          simp [SweepReport.add_def]

theorem retryIdle_add (report : SweepReport) (c : Case) :
    c.retryIdle report = ((c.retryIdle {}).1.map (report + ·), (c.retryIdle {}).2) := by
  unfold retryIdle
  split
  · rcases dispatch c with ⟨_ | _, c'⟩ <;> rfl
  · exact congrArg (fun r => (Except.ok r, c)) (SweepReport.add_nothing report).symm

/-- A sweep adds to the report that it is given. -/
theorem sweep_add (report : SweepReport) (c : Case) :
    c.sweep report = ((c.sweep {}).1.map (report + ·), (c.sweep {}).2) := by
  rw [sweep_eq, sweep_eq, dropLate_add]
  rcases dropLate _ {} _ with ⟨_ | first, c₁⟩
  · rfl
  · dsimp only [Except.map, following]
    rw [retryIdle_add, retryIdle_add first]
    rcases c₁.retryIdle {} with ⟨_ | second, c₂⟩
    · rfl
    · exact congrArg (fun r => (Except.ok r, c₂.settle)) (SweepReport.add_assoc report first second)

/-! ## Breakdowns of a sweep -/

theorem dispatch_fault (h : c.dispatch = (.error breakdown, c')) : breakdown = c.floor.fault := by
  obtain ⟨-, ⟨hr, rfl⟩ | ⟨radii, hr, hb⟩⟩ := breaks_of_dispatch h
  · rw [Floor.fault, if_pos hr]
  · have hsome : c.floor.settings.radii ≠ none := by simp [hr]
    rw [Floor.fault, if_neg hsome]
    unfold best? Fleet.candidates Fleet.cutoff at hb
    split at hb
    · cases hb
    · split at hb
      · cases hb
      · cases hb
        rfl

theorem dropLate_fault {late : List Uuid} {report : SweepReport}
    (h : dropLate late report c = (.error breakdown, c')) : breakdown = c.floor.fault := by
  induction late generalizing report c with
  | nil => cases h
  | cons driver rest ih =>
      rw [dropLate] at h
      dsimp only at h
      split at h
      · exact (ih h).trans rfl
      · split at h
        · next hr =>
          cases h
          exact (dispatch_fault hr).trans rfl
        · next c₂ hr =>
          have hsteady := Moves.steady (reassign_worked driver
            (c.count fun l => { l with timeouts := l.timeouts + 1 })).moves
          rw [hr] at hsteady
          exact (ih h).trans hsteady.fault_eq

theorem retryIdle_fault {report : SweepReport}
    (h : c.retryIdle report = (.error breakdown, c')) : breakdown = c.floor.fault := by
  unfold retryIdle at h
  split at h
  · split at h
    · next hr =>
      cases h
      exact dispatch_fault hr
    · cases h
  · cases h

/-- Why a sweep breaks down depends on the floor, and not on the order. -/
theorem sweep_fault {report : SweepReport} (h : c.sweep report = (.error breakdown, c')) :
    breakdown = c.floor.fault := by
  unfold sweep at h
  dsimp only at h
  split at h
  · next hr =>
    cases h
    exact (dropLate_fault hr).trans rfl
  · next report₁ c₁ hr =>
    obtain ⟨t, ht⟩ := dropLate_traced
      (c.docket.lateDrivers c.floor.settings.offerSpan c.floor.now) report
      (c.onDocket (·.expire c.floor.settings.offerSpan c.floor.now))
    have hfloor := ht.floor_eq (.refl _)
    split at h
    · next hretry =>
      cases h
      rw [hr] at hfloor
      have hsame := congrArg Floor.fault hfloor
      exact (retryIdle_fault hretry).trans hsame
    · cases h

end Case

namespace Desk

/-! ## Order by order -/

/-- Sweeps one order. -/
def sweepOrder (order : Uuid) (desk : Desk) : Except Breakdown SweepReport × Desk :=
  desk.workOn order (.ok {}) (·.sweep {})

section Cons

variable {order : Uuid} {desk : Desk}

/-- A sweep ends where it breaks down. -/
theorem sweepOrders_of_error {breakdown : Breakdown}
    (h : (desk.sweepOrder order).1 = .error breakdown) (rest : List Uuid) (report : SweepReport) :
    sweepOrders (order :: rest) report desk = (.error breakdown, (desk.sweepOrder order).2) := by
  rw [sweepOrders]
  rw [sweepOrder] at h ⊢
  cases hd : desk.docket? order with
  | none =>
      rw [workOn_none hd] at h
      cases h
  | some docket =>
      rw [workOn_some hd] at h ⊢
      dsimp only at h ⊢
      rw [Case.sweep_add, h]
      rfl

/-- It goes on with the next order, and adds to the report. -/
theorem sweepOrders_of_ok {found : SweepReport} (h : (desk.sweepOrder order).1 = .ok found)
    (rest : List Uuid) (report : SweepReport) :
    sweepOrders (order :: rest) report desk =
      sweepOrders rest (report + found) (desk.sweepOrder order).2 := by
  rw [sweepOrders]
  rw [sweepOrder] at h ⊢
  cases hd : desk.docket? order with
  | none =>
      rw [workOn_none hd] at h ⊢
      cases h
      rw [SweepReport.add_nothing]
  | some docket =>
      rw [workOn_some hd] at h ⊢
      dsimp only at h ⊢
      rw [Case.sweep_add, h]
      rfl

end Cons

theorem sweepOrder_traced (c : Case) :
    ∃ t, Case.Traced (fun _ r => r) (·.sweep {}) c t := by
  obtain ⟨t, ht⟩ := Case.sweep_traced {} c
  have hact : (fun _ => Except.map id : Renaming → Except Breakdown SweepReport → _) =
      fun _ r => r := by
    funext π r
    cases r <;> rfl
  exact ⟨t, hact ▸ ht⟩

section Sweeps

variable {desk : Desk} {order other : Uuid}

/-- A sweep of an order is a move, which draws one identifier at most. -/
theorem sweepOrder_moves (h : desk.Sound) (order : Uuid) :
    Moves desk (desk.sweepOrder order).2 ∧
      (desk.sweepOrder order).2.floor.issued ≤ desk.floor.issued + 1 := by
  cases hd : desk.docket? order with
  | none =>
      rw [sweepOrder, workOn_none hd]
      exact ⟨.refl, Nat.le_succ _⟩
  | some docket =>
      obtain rfl := id_of_docket? hd
      have ho := (h.orderly hd).oneOpen
      rw [sweepOrder, workOn_some hd]
      exact ⟨.single (.worked hd (Case.sweep_worked (c := ⟨docket, desk.floor⟩) ho {}).moves),
        Case.sweep_issued_le (c := ⟨docket, desk.floor⟩) ho {}⟩

theorem sweepOrder_fault {breakdown : Breakdown}
    (h : (desk.sweepOrder order).1 = .error breakdown) : breakdown = desk.floor.fault := by
  cases hd : desk.docket? order with
  | none =>
      rw [sweepOrder, workOn_none hd] at h
      cases h
  | some docket =>
      rw [sweepOrder, workOn_some hd] at h
      rcases hr : (Case.mk docket desk.floor).sweep {} with ⟨answer, c⟩
      rw [hr] at h
      obtain rfl : answer = .error breakdown := h
      exact (Case.sweep_fault hr).trans rfl

/-- Sweeps of two orders may change places. -/
theorem Drawn.sweepOrder_exchange (h : desk.Drawn) (hne : order ≠ other)
    (hi : desk.floor.issued + 2 ≤ Uuid.capacity) :
    Exchange (fun _ r => r) (fun _ r => r) (sweepOrder order) (sweepOrder other) desk := by
  have hid : ∀ order docket, desk.docket? order = some docket →
      ((Case.mk docket desk.floor).sweep {}).2.docket.id = docket.id := by
    intro order docket _
    obtain ⟨t, ht⟩ := sweepOrder_traced ⟨docket, desk.floor⟩
    exact ht.id_eq
  refine exchange_of_known hne (fun _ => rfl) (fun _ => rfl) (hid order) (hid other) ?_
  rintro docket docket' rfl rfl hd hd'
  obtain ⟨t, ht⟩ := sweepOrder_traced ⟨docket, desk.floor⟩
  obtain ⟨u, hu⟩ := sweepOrder_traced ⟨docket', desk.floor⟩
  have hdrawn : desk.floor.issued + t.drawn ≤ desk.floor.issued + 1 := by
    have hle := (sweepOrder_moves h.sound docket.id).2
    rwa [sweepOrder, workOn_leaves ht.toLeaves (.refl _) hd] at hle
  have hdrawn' : desk.floor.issued + u.drawn ≤ desk.floor.issued + 1 := by
    have hle := (sweepOrder_moves h.sound docket'.id).2
    rwa [sweepOrder, workOn_leaves hu.toLeaves (.refl _) hd'] at hle
  exact h.exchange hne hd hd' ht.toLeaves hu.toLeaves (.refl _) (.refl _)
    (Floor.leave_alike hu.plain _) (Floor.leave_alike ht.plain _)
    (.of_none ht.plain.entry hu.plain.entry) (fun _ _ => rfl) (by omega)

theorem sweepOrders_issued_le (h : desk.Sound) (visited : List Uuid) (report : SweepReport) :
    desk.floor.issued ≤ (sweepOrders visited report desk).2.floor.issued := by
  induction visited generalizing desk report with
  | nil => exact Nat.le_refl _
  | cons order rest ih =>
      obtain ⟨hmoves, -⟩ := sweepOrder_moves h order
      cases hr : (desk.sweepOrder order).1 with
      | error =>
          rw [sweepOrders_of_error hr]
          exact Moves.issued_le hmoves
      | ok found =>
          rw [sweepOrders_of_ok hr]
          exact Nat.le_trans (Moves.issued_le hmoves) (ih (Moves.sound hmoves h) _)

/-- The same sweep on desks that are the same. -/
theorem SameUpTo.sweepOrders {π : Renaming} {a b : Desk} (h : a.SameUpTo π b) (hs : a.Sound)
    {first : Nat} (hπ : Uuid.Renames π first a.floor.issued) (visited : List Uuid)
    (hi : a.floor.issued + visited.length ≤ Uuid.capacity) (report : SweepReport) :
    (Desk.sweepOrders visited report b).1 = (Desk.sweepOrders visited report a).1 ∧
      (Desk.sweepOrders visited report a).2.SameUpTo π (Desk.sweepOrders visited report b).2 := by
  induction visited generalizing a b report with
  | nil => exact ⟨rfl, h⟩
  | cons order rest ih =>
      obtain ⟨hmoves, hone⟩ := sweepOrder_moves hs order
      rw [List.length_cons] at hi
      have hcap : (a.sweepOrder order).2.floor.issued ≤ Uuid.capacity := by omega
      have hboth : (b.sweepOrder order).1 = (a.sweepOrder order).1 ∧
          (a.sweepOrder order).2.SameUpTo π (b.sweepOrder order).2 :=
        h.workOn (fun docket => sweepOrder_traced _) rfl hπ hcap
      obtain ⟨hanswer, hsame⟩ := hboth
      cases hr : (a.sweepOrder order).1 with
      | error =>
          rw [sweepOrders_of_error hr, sweepOrders_of_error (hanswer.trans hr)]
          exact ⟨rfl, hsame⟩
      | ok found =>
          rw [sweepOrders_of_ok hr, sweepOrders_of_ok (hanswer.trans hr)]
          exact ih hsame (Moves.sound hmoves hs)
            (hπ.mono (Nat.le_refl _) (Moves.issued_le hmoves)) (by omega) (report + found)

/-- Two sweeps answer the same, and unless they break down the desk is the same
in the end, up to the names of the offers that were made. -/
def SweptAlike (desk : Desk) (one other : Except Breakdown SweepReport × Desk) : Prop :=
  one.1 = other.1 ∧ ∀ report, one.1 = .ok report →
    ∃ π, Uuid.Renames π desk.floor.issued one.2.floor.issued ∧ one.2.SameUpTo π other.2

theorem SweptAlike.refl (desk : Desk) (swept : Except Breakdown SweepReport × Desk) :
    desk.SweptAlike swept swept :=
  ⟨rfl, fun _ _ => ⟨1, .one _ _, .refl _⟩⟩

theorem SweptAlike.of_error {breakdown : Breakdown} {a b : Desk} :
    desk.SweptAlike (.error breakdown, a) (.error breakdown, b) :=
  ⟨rfl, fun _ h => by cases h⟩

theorem SweptAlike.trans {one two three : Except Breakdown SweepReport × Desk}
    (h₁ : desk.SweptAlike one two) (h₂ : desk.SweptAlike two three) :
    desk.SweptAlike one three := by
  refine ⟨h₁.1.trans h₂.1, fun report hr => ?_⟩
  obtain ⟨π, hπ, hone⟩ := h₁.2 report hr
  obtain ⟨ρ, hρ, htwo⟩ := h₂.2 report (h₁.1.symm.trans hr)
  rw [hone.issued] at hρ
  exact ⟨ρ * π, hπ.mul hρ, hone.trans htwo⟩

theorem SweptAlike.of_later {desk' : Desk} {one two : Except Breakdown SweepReport × Desk}
    (h : desk'.SweptAlike one two) (hle : desk.floor.issued ≤ desk'.floor.issued) :
    desk.SweptAlike one two := by
  refine ⟨h.1, fun report hr => ?_⟩
  obtain ⟨π, hπ, hone⟩ := h.2 report hr
  exact ⟨π, hπ.mono hle (Nat.le_refl _), hone⟩

/-- The first two orders change places. -/
theorem Drawn.sweepOrders_swap (h : desk.Drawn) (hne : order ≠ other) (rest : List Uuid)
    (hi : desk.floor.issued + (rest.length + 2) ≤ Uuid.capacity) (report : SweepReport) :
    desk.SweptAlike (sweepOrders (order :: other :: rest) report desk)
      (sweepOrders (other :: order :: rest) report desk) := by
  obtain ⟨π, hπ, hfirst, hsecond, hsame⟩ := h.sweepOrder_exchange hne (by omega)
  dsimp only at hπ hfirst hsecond hsame
  cases hr : (desk.sweepOrder order).1 with
  | error breakdown =>
      rw [sweepOrders_of_error hr]
      rw [hr] at hfirst
      cases hr' : (desk.sweepOrder other).1 with
      | error breakdown' =>
          -- Both break down, for the same reason.
          rw [sweepOrders_of_error hr', sweepOrder_fault hr, sweepOrder_fault hr']
          exact .of_error
      | ok found' =>
          -- The other order is swept before this one breaks down, or not at all.
          rw [sweepOrders_of_ok hr', sweepOrders_of_error hfirst]
          exact .of_error
  | ok found =>
      rw [sweepOrders_of_ok hr]
      rw [hr] at hfirst
      cases hr' : (desk.sweepOrder other).1 with
      | error breakdown' =>
          rw [sweepOrders_of_error hr', sweepOrders_of_error (hsecond.symm.trans hr')]
          exact .of_error
      | ok found' =>
          obtain ⟨hmoves₁, hone₁⟩ := sweepOrder_moves h.sound order
          have hs₁ := Moves.sound hmoves₁ h.sound
          obtain ⟨hmoves₂, hone₂⟩ := sweepOrder_moves hs₁ other
          rw [sweepOrders_of_ok hr', sweepOrders_of_ok (hsecond.symm.trans hr'),
            sweepOrders_of_ok hfirst, SweepReport.add_right_comm report found' found]
          have hs₂ := Moves.sound hmoves₂ hs₁
          -- From here on it is the same sweep on two desks that are the same.
          obtain ⟨hanswer, hend⟩ := hsame.sweepOrders hs₂ hπ rest (by omega)
            (report + found + found')
          exact ⟨hanswer.symm, fun _ _ =>
            ⟨π, hπ.mono (Nat.le_refl _) (sweepOrders_issued_le hs₂ rest _), hend⟩⟩

/-- The orders may be visited in any order. -/
theorem Drawn.sweepOrders_perm {visited visited' : List Uuid} (hp : visited.Perm visited')
    (hn : visited.Nodup) (h : desk.Drawn)
    (hi : desk.floor.issued + visited.length ≤ Uuid.capacity) (report : SweepReport) :
    desk.SweptAlike (sweepOrders visited report desk) (sweepOrders visited' report desk) := by
  induction hp generalizing desk report with
  | nil => exact .refl _ _
  | @cons order rest rest' hp ih =>
      obtain ⟨hmoves, hone⟩ := sweepOrder_moves h.sound order
      rw [List.length_cons] at hi
      cases hr : (desk.sweepOrder order).1 with
      | error =>
          rw [sweepOrders_of_error hr, sweepOrders_of_error hr]
          exact .of_error
      | ok found =>
          rw [sweepOrders_of_ok hr, sweepOrders_of_ok hr]
          refine (ih (List.nodup_cons.1 hn).2 (Moves.drawn hmoves (by omega) h) (by omega)
            (report + found)).of_later (Moves.issued_le hmoves)
  | swap order other rest =>
      obtain ⟨hnot, -⟩ := List.nodup_cons.1 hn
      have hne : other ≠ order := by
        rintro rfl
        exact hnot List.mem_cons_self
      exact h.sweepOrders_swap hne rest hi report
  | trans hp _ ih₁ ih₂ =>
      exact (ih₁ hn h hi report).trans
        (ih₂ (hp.nodup_iff.1 hn) h (hp.length_eq ▸ hi) report)

end Sweeps

/-- After every run the open orders may be visited in any order. Both sweeps give
the same report, and the dockets, the open orders, the fleet, the ledger, the
searches asleep and the notices sent are the same in the end, up to the
identifiers of the offers that were made. A sweep gives a report wherever
searches come to an end. Elsewhere it may break down; then it does in any order,
and with the same failure. -/
theorem sweep_in_any_order (settings : Settings) (start : Instant) (cmds : List Command)
    {visited visited' : List Uuid}
    (hv : visited.Perm ((opening settings start).run cmds).floor.openOrders)
    (hv' : visited'.Perm ((opening settings start).run cmds).floor.openOrders)
    (hroom : ((opening settings start).run cmds).floor.issued + visited.length ≤ Uuid.capacity) :
    let desk := (opening settings start).run cmds
    desk.SweptAlike (desk.sweepAs visited) (desk.sweepAs visited') ∧
      (desk.floor.CanSearch → ∃ report, (desk.sweepAs visited).1 = .ok report) := by
  intro desk
  have hi : desk.floor.issued ≤ Uuid.capacity := Nat.le_trans (Nat.le_add_right _ _) hroom
  have hdrawn : desk.Drawn := run_drawn hi
  have hcount : Move desk
      { desk with floor := desk.floor.count fun l => { l with sweeps := l.sweeps + 1 } } :=
    .sweepCounted
  have hcounted := hcount.drawn hi hdrawn
  refine ⟨?_, fun hs => sweepAs_ok hdrawn.sound hs visited⟩
  have hnodup : visited.Nodup := hv.nodup_iff.2 hdrawn.sound.distinct
  have halike := hcounted.sweepOrders_perm (hv.trans hv'.symm) hnodup hroom {}
  exact halike.of_later (Nat.le_refl _)

/-- Two orders are searched for once more, as their searches ended half a minute ago. -/
theorem sweep_in_any_order_trial :
    let cmds := [.create trialRequest, .create trialRequest] ++ List.replicate 6 (.wake 0) ++
      [.setClock ⟨trialStart, 30000, 0⟩]
    let desk := (opening {} trialStart).run cmds
    desk.floor.sleeping.length = 0 ∧ desk.floor.openOrders = [.issue 0, .issue 1] ∧
      ∃ report, (desk.sweepAs [.issue 0, .issue 1]).1 = .ok report ∧
        (desk.sweepAs [.issue 1, .issue 0]).1 = .ok report ∧ report.retried = 2 := by
  intro cmds desk
  have hnone : desk.floor.sleeping.length = 0 := by decide +kernel
  have hopen : desk.floor.openOrders = [.issue 0, .issue 1] := by decide +kernel
  have hv : [.issue 0, .issue 1].Perm desk.floor.openOrders := .of_eq hopen.symm
  have hv' : [.issue 1, .issue 0].Perm desk.floor.openOrders :=
    (List.Perm.swap _ _ _).trans hv
  have hroom : desk.floor.issued + 2 ≤ Uuid.capacity := by decide +kernel
  obtain ⟨⟨hsame, -⟩, hok⟩ := sweep_in_any_order {} trialStart cmds hv hv' hroom
  obtain ⟨report, hr⟩ := hok ⟨by decide +kernel, by decide +kernel⟩
  have hboth : (desk.sweepAs [.issue 0, .issue 1]).1.toOption.map (·.retried) = some 2 := by
    decide +kernel
  rw [hr] at hboth
  exact ⟨hnone, hopen, report, hr, hsame.symm.trans hr, Option.some.inj hboth⟩

end Desk

end Hailing
