import Hailing.Proofs.Attendance
import Hailing.Proofs.SweptCases
import Hailing.Proofs.Sweeps

/-!
# A sweep is exact

Each open order is swept once, and what is done to the others in the meantime does
not concern it (`Desk.Aside`): not its docket, not its place among the open orders,
not its searches and notices, and not the fleet, the clock or the settings, which
are all that a search sees. So a sweep can be taken apart at any of its orders
(`sweepOrders_split`), and what it makes of this one is what a sweep makes of one
case (`Case.Swept`). The report is the sum over the dockets as they were before
(`sweepOrders_report`).

Only open orders are swept, but nothing is missed: a docket that is settled has no
offer out and needs no search. So after a sweep no docket at all has anything left
to do at this time, and a sweep that comes right after it changes nothing.
-/

namespace Hailing

open Time (Instant Span)

namespace Desk

/-- The notices about an order, in the order in which they were sent. -/
def noticesAbout (order : Uuid) (desk : Desk) : List Notice :=
  desk.floor.sent.filter (·.event.order = order)

/-- The desk with a sweep counted. -/
def countSweep (desk : Desk) : Desk :=
  { desk with floor := desk.floor.count fun l => { l with sweeps := l.sweeps + 1 } }

/-! ## Beside an order -/

/-- Nothing that concerns the order has changed. -/
structure Aside (order : Uuid) (desk desk' : Desk) : Prop where
  docket : desk'.docket? order = desk.docket? order
  listed : order ∈ desk'.floor.openOrders ↔ order ∈ desk.floor.openOrders
  asleep : desk'.floor.asleep order = desk.floor.asleep order
  told : desk'.noticesAbout order = desk.noticesAbout order
  alike : desk.floor.Alike desk'.floor
  issued_le : desk.floor.issued ≤ desk'.floor.issued

namespace Aside

variable {order : Uuid} {desk desk₁ desk' : Desk}

theorem refl (order : Uuid) (desk : Desk) : desk.Aside order desk :=
  ⟨rfl, .rfl, rfl, rfl, .refl _, Nat.le_refl _⟩

theorem trans (h₁ : desk.Aside order desk₁) (h₂ : desk₁.Aside order desk') :
    desk.Aside order desk' where
  docket := h₂.docket.trans h₁.docket
  listed := h₂.listed.trans h₁.listed
  asleep := h₂.asleep.trans h₁.asleep
  told := h₂.told.trans h₁.told
  alike := h₁.alike.trans h₂.alike
  issued_le := Nat.le_trans h₁.issued_le h₂.issued_le

theorem countSweep (order : Uuid) (desk : Desk) : desk.Aside order desk.countSweep :=
  ⟨rfl, .rfl, rfl, rfl, ⟨rfl, rfl, rfl⟩, Nat.le_refl _⟩

/-- The work on another order. -/
theorem putBack {docket : Docket} {c : Case} (hm : Case.Moves ⟨docket, desk.floor⟩ c)
    (hne : order ≠ docket.id) : desk.Aside order (desk.putBack c) where
  docket := by
    have hid : c.docket.id = docket.id := congrArg Order.id (Case.Moves.order_eq hm)
    exact docket?_putBack_of_ne fun he => hne (he.symm.trans hid)
  listed := hm.files.aside order hne
  asleep := hm.asleep_eq (.inr hne)
  told := by
    obtain ⟨news, hnews, hown⟩ := hm.tells
    have hother : news.filter (·.event.order = order) = [] := by
      refine List.filter_eq_nil_iff.2 fun notice hmem he => hne ?_
      rw [← (hown notice hmem).1]
      exact (of_decide_eq_true he).symm
    show (desk.putBack c).floor.sent.filter _ = _
    rw [show (desk.putBack c).floor.sent = desk.floor.sent ++ news from hnews,
      List.filter_append, hother, List.append_nil, noticesAbout]
  alike := ⟨(Case.Moves.steady hm).settings, (Case.Moves.steady hm).clock, Case.Moves.fleet_eq hm⟩
  issued_le := (Case.Moves.later hm).issued_le

end Aside

/-! ## Order by order -/

section Orders

variable {desk : Desk} {order : Uuid} {docket : Docket} {visited rest : List Uuid}
  {report report' : SweepReport}

/-- What a sweep notes, and of which order. -/
def sweepOrdersLog : List Uuid → SweepReport → Desk → List (Uuid × Outcome)
  | [], _, _ => []
  | order :: rest, report, desk =>
    match desk.docket? order with
    | none => sweepOrdersLog rest report desk
    | some docket =>
      match (Case.mk docket desk.floor).sweepNoting report with
      | (noted, .error _, _) => noted.map fun outcome => (order, outcome)
      | (noted, .ok report, c) =>
        (noted.map fun outcome => (order, outcome)) ++ sweepOrdersLog rest report (desk.putBack c)

def sweepLog (visited : List Uuid) (desk : Desk) : List (Uuid × Outcome) :=
  sweepOrdersLog visited {} desk.countSweep

/-- The log is what is noted, with the orders. -/
theorem sweepOrdersLog_outcomes (visited : List Uuid) (report : SweepReport) (desk : Desk) :
    (sweepOrdersLog visited report desk).map (·.2) = (sweepOrdersNoting visited report desk).1 := by
  induction visited generalizing report desk with
  | nil => rfl
  | cons order rest ih =>
      rw [sweepOrdersLog, sweepOrdersNoting]
      cases desk.docket? order with
      | none => exact ih _ _
      | some docket =>
          dsimp only
          rcases (Case.mk docket desk.floor).sweepNoting report with ⟨noted, _ | report₁, c⟩
          · simp
          · simp [ih]

theorem sweepLog_outcomes (visited : List Uuid) (desk : Desk) :
    (desk.sweepLog visited).map (·.2) = (desk.sweepAsNoting visited).1 :=
  sweepOrdersLog_outcomes _ _ _

/-- An order that is not on record is passed over. -/
theorem sweepOrders_of_none (hd : desk.docket? order = none) (rest : List Uuid)
    (report : SweepReport) :
    sweepOrders (order :: rest) report desk = sweepOrders rest report desk ∧
      sweepOrdersLog (order :: rest) report desk = sweepOrdersLog rest report desk := by
  rw [sweepOrders, sweepOrdersLog, hd]
  exact ⟨rfl, rfl⟩

/-- What a sweep that ends makes of its first order, and how it goes on. -/
theorem sweepOrders_of_some (hs : desk.Sound) (hr : 0 < desk.settings.retryAfter)
    (hd : desk.docket? order = some docket)
    (h : (sweepOrders (order :: rest) report desk).1 = .ok report') :
    ∃ found noted c, Case.Swept ⟨docket, desk.floor⟩ found noted c ∧
      sweepOrders (order :: rest) report desk =
        sweepOrders rest (report + found) (desk.putBack c) ∧
      sweepOrdersLog (order :: rest) report desk =
        (noted.map fun outcome => (order, outcome)) ++
          sweepOrdersLog rest (report + found) (desk.putBack c) := by
  have hnoting := Case.sweepNoting_snd report ⟨docket, desk.floor⟩
  rw [sweepOrders, hd] at h ⊢
  rw [sweepOrdersLog, hd]
  dsimp only at h ⊢
  rcases hswept : (Case.mk docket desk.floor).sweepNoting report with ⟨noted, _ | report₁, c⟩
  · rw [hswept] at hnoting
    rw [← hnoting] at h
    cases h
  · obtain ⟨found, rfl, hc⟩ := Case.sweepNoting_swept (hs.orderly hd).oneOpen hr hswept
    rw [hswept] at hnoting
    dsimp only at hnoting ⊢
    rw [← hnoting]
    exact ⟨found, noted, c, hc, rfl, rfl⟩

/-- A sweep of other orders. -/
theorem sweepOrders_aside (hs : desk.Sound) (hm : order ∉ visited) (report : SweepReport) :
    desk.Aside order (sweepOrders visited report desk).2 := by
  induction visited generalizing report desk with
  | nil => exact .refl _ _
  | cons head rest ih =>
      obtain ⟨hne, hrest⟩ := not_or.1 (mt List.mem_cons.2 hm)
      cases hd : desk.docket? head with
      | none =>
          rw [(sweepOrders_of_none hd rest report).1]
          exact ih hs hrest report
      | some docket =>
          obtain rfl := id_of_docket? hd
          have hmoves := (Case.sweep_worked (c := ⟨docket, desk.floor⟩) (hs.orderly hd).oneOpen
            report).moves
          have hfirst := Aside.putBack hmoves hne
          rcases sweepOrders_cons hd rest report with ⟨_, hr⟩ | ⟨report₁, hr⟩
          · rw [hr]
            exact hfirst
          · rw [hr]
            exact hfirst.trans (ih (Move.sound (.worked hd hmoves) hs) hrest report₁)

/-- A sweep that ends can be taken apart at any of its orders. -/
theorem sweepOrders_split (hv : visited.Nodup) (hs : desk.Sound)
    (hr : 0 < desk.settings.retryAfter) (hm : order ∈ visited)
    (hd : desk.docket? order = some docket)
    (h : (sweepOrders visited report desk).1 = .ok report') :
    ∃ desk₁ found noted c, desk.Aside order desk₁ ∧ desk₁.Sound ∧
      Case.Swept ⟨docket, desk₁.floor⟩ found noted c ∧
      (desk₁.putBack c).Aside order (sweepOrders visited report desk).2 := by
  induction visited generalizing report desk with
  | nil => cases hm
  | cons head rest ih =>
      obtain ⟨hnot, hrest⟩ := List.nodup_cons.1 hv
      by_cases he : order = head
      · subst he
        obtain ⟨found, noted, c, hc, hgo, -⟩ := sweepOrders_of_some hs hr hd h
        rw [← id_of_docket? hd] at hd
        have hsound := Move.sound (.worked hd hc.moves) hs
        refine ⟨desk, found, noted, c, .refl _ _, hs, hc, ?_⟩
        rw [hgo]
        exact sweepOrders_aside hsound hnot _
      · have hm' := (List.mem_cons.1 hm).resolve_left he
        cases hhead : desk.docket? head with
        | none =>
            have hgo := (sweepOrders_of_none hhead rest report).1
            rw [hgo] at h ⊢
            exact ih hrest hs hr hm' hd h
        | some other =>
            obtain ⟨found, noted, c, hc, hgo, -⟩ := sweepOrders_of_some hs hr hhead h
            obtain rfl := id_of_docket? hhead
            have haside := Aside.putBack hc.moves he
            rw [hgo] at h ⊢
            obtain ⟨desk₁, found₁, noted₁, c₁, hfirst, hrest'⟩ := ih hrest
              (Move.sound (.worked hhead hc.moves) hs)
              (by rw [settings, haside.alike.settings]; exact hr) hm' (haside.docket.trans hd) h
            exact ⟨desk₁, found₁, noted₁, c₁, haside.trans hfirst, hrest'⟩

/-- The orders of a log are those that were visited. -/
theorem mem_of_mem_sweepOrdersLog {entry : Uuid × Outcome}
    (h : entry ∈ sweepOrdersLog visited report desk) : entry.1 ∈ visited := by
  induction visited generalizing report desk with
  | nil => cases h
  | cons head rest ih =>
      rw [sweepOrdersLog] at h
      split at h
      · exact List.mem_cons_of_mem _ (ih h)
      · split at h
        · obtain ⟨_, -, rfl⟩ := List.mem_map.1 h
          exact List.mem_cons_self
        · rcases List.mem_append.1 h with h | h
          · obtain ⟨_, -, rfl⟩ := List.mem_map.1 h
            exact List.mem_cons_self
          · exact List.mem_cons_of_mem _ (ih h)

/-- No order is dispatched more than once. -/
theorem sweepOrdersLog_once (hv : visited.Nodup) (hs : desk.Sound)
    (hr : 0 < desk.settings.retryAfter) (order : Uuid)
    (h : (sweepOrders visited report desk).1 = .ok report') :
    ((sweepOrdersLog visited report desk).filter (·.1 = order)).length ≤ 1 := by
  induction visited generalizing report desk with
  | nil => exact Nat.zero_le _
  | cons head rest ih =>
      obtain ⟨hnot, hrest⟩ := List.nodup_cons.1 hv
      cases hd : desk.docket? head with
      | none =>
          obtain ⟨hgo, hlog⟩ := sweepOrders_of_none hd rest report
          rw [hgo] at h
          rw [hlog]
          exact ih hrest hs hr h
      | some docket =>
          obtain ⟨found, noted, c, hc, hgo, hlog⟩ := sweepOrders_of_some hs hr hd h
          obtain rfl := id_of_docket? hd
          rw [hgo] at h
          rw [hlog, List.filter_append, List.length_append]
          by_cases he : docket.id = order
          · have hnone : (sweepOrdersLog rest (report + found) (desk.putBack c)).filter
                (·.1 = order) = [] := by
              refine List.filter_eq_nil_iff.2 fun entry hm hentry => hnot ?_
              rw [he, ← of_decide_eq_true hentry]
              exact mem_of_mem_sweepOrdersLog hm
            rw [hnone]
            refine Nat.le_trans (List.length_filter_le _ _) ?_
            rw [List.length_map]
            exact hc.length_le
          · have hfirst : (noted.map fun outcome => (docket.id, outcome)).filter
                (·.1 = order) = [] := by
              refine List.filter_eq_nil_iff.2 fun entry hm hentry => he ?_
              obtain ⟨_, -, rfl⟩ := List.mem_map.1 hm
              exact of_decide_eq_true hentry
            rw [hfirst, List.length_nil, Nat.zero_add]
            have hsettings : (desk.putBack c).settings = desk.settings :=
              (Case.Moves.steady hc.moves).settings
            exact ih hrest (Move.sound (.worked hd hc.moves) hs) (hsettings ▸ hr) h

/-! ## The report -/

/-- The offers of an order that came behind those of the docket. -/
def newOffers (desk : Desk) (d : Docket) : List Offer :=
  (desk.offersFor d.id).drop d.offers.length

/-- The report of a sweep is the sum over the dockets that it comes to. -/
theorem sweepOrders_report (hv : visited.Nodup) (hs : desk.Sound)
    (hr : 0 < desk.settings.retryAfter)
    (h : (sweepOrders visited report desk).1 = .ok report') :
    report' = report + .ofDockets desk.settings desk.now
      (sweepOrders visited report desk).2.newOffers (visited.filterMap desk.docket?) := by
  induction visited generalizing report desk with
  | nil =>
      rw [← Except.ok.inj h]
      exact (SweepReport.add_nothing report).symm
  | cons head rest ih =>
      obtain ⟨hnot, hrest⟩ := List.nodup_cons.1 hv
      cases hd : desk.docket? head with
      | none =>
          have hgo := (sweepOrders_of_none hd rest report).1
          rw [hgo] at h ⊢
          rw [List.filterMap_cons_none hd]
          exact ih hrest hs hr h
      | some docket =>
          obtain ⟨found, noted, c, hc, hgo, -⟩ := sweepOrders_of_some hs hr hd h
          obtain rfl := id_of_docket? hd
          have hsound := Move.sound (.worked hd hc.moves) hs
          have hsteady := Case.Moves.steady hc.moves
          have hid : c.docket.id = docket.id := congrArg Order.id (Case.Moves.order_eq hc.moves)
          rw [hgo] at h ⊢
          have hwhen : (desk.putBack c).now = desk.now := hsteady.now_eq
          have hhow : (desk.putBack c).settings = desk.settings := hsteady.settings
          have hmore := ih hrest hsound (hhow ▸ hr) h
          have hothers : rest.filterMap (desk.putBack c).docket? = rest.filterMap desk.docket? := by
            refine List.filterMap_congr fun order hm => docket?_putBack_of_ne fun he => hnot ?_
            rw [← hid, he]
            exact hm
          -- What comes after it does not touch the docket any more.
          have hlast : (sweepOrders rest (report + found) (desk.putBack c)).2.newOffers docket =
              c.docket.offers.drop docket.offers.length := by
            have hkept := (sweepOrders_aside hsound hnot (report + found)).docket
            rw [docket?_putBack, if_pos hid] at hkept
            rw [newOffers, offersFor, hkept]
            rfl
          have hown := hc.report_eq (hs.orderly hd).oneOpen
          have hsame : SweepReport.ofDockets desk.settings desk.now
              (sweepOrders rest (report + found) (desk.putBack c)).2.newOffers [docket] =
                found := by
            refine Eq.trans ?_ hown.symm
            rw [SweepReport.ofDockets_singleton, SweepReport.ofDockets_singleton, hlast]
            rfl
          rw [hothers, hwhen, hhow] at hmore
          rw [List.filterMap_cons_some hd, SweepReport.ofDockets_cons, hsame, hmore,
            SweepReport.add_assoc]

/-! ## When there is nothing to do -/

theorem settle_of_not_settled {c : Case} (h : c.docket.isSettled = false) : c.settle = c := by
  simp [Case.settle, Case.onFloor, Floor.settle, h]

/-- A sweep that finds nothing to do leaves the desk as it is. -/
theorem sweepOrders_of_quiet
    (h : ∀ order ∈ visited, ∀ docket, desk.docket? order = some docket →
      docket.Quiet desk.settings desk.now ∧ docket.isSettled = false) :
    sweepOrders visited report desk = (.ok report, desk) := by
  induction visited with
  | nil => rfl
  | cons head rest ih =>
      obtain ⟨hhead, hrest⟩ := List.forall_mem_cons.1 h
      rw [sweepOrders]
      split
      · exact ih hrest
      · next docket hd =>
        obtain ⟨hquiet, hopen⟩ := hhead docket hd
        rw [Case.sweep_of_quiet (c := ⟨docket, desk.floor⟩) hquiet,
          settle_of_not_settled (c := ⟨docket, desk.floor⟩) hopen]
        rw [← id_of_docket? hd] at hd
        have hsame : desk.putBack ⟨docket, desk.floor⟩ = desk := putBack_self hd
        exact (congrArg (sweepOrders rest report) hsame).trans (ih hrest)

/-! ## What becomes of the dockets -/

/-- What a sweep that ends makes of any docket, whether its order is open or not. -/
theorem sweepOrders_docket (hs : desk.Sound) (hx : desk.Indexed)
    (hw : 0 < desk.settings.offerWindow) (hr : 0 < desk.settings.retryAfter)
    (hv : visited.Perm desk.floor.openOrders)
    (h : (sweepOrders visited report desk).1 = .ok report')
    (hd : desk.docket? order = some docket) :
    ∃ found, (sweepOrders visited report desk).2.docket? order = some found ∧
      (∃ new, found.offers = (docket.expire desk.settings.offerSpan desk.now).offers ++ new) ∧
      found.Quiet desk.settings desk.now := by
  by_cases hm : order ∈ visited
  · obtain ⟨desk₁, _, _, c, haside, -, hc, hrest⟩ :=
      sweepOrders_split (hv.nodup_iff.2 hs.distinct) hs hr hm hd h
    have hhow : desk₁.floor.settings = desk.settings := haside.alike.settings
    have hwhen : desk₁.floor.now = desk.now := haside.alike.now_eq
    have ho := (hs.orderly hd).oneOpen
    obtain ⟨new, hnew, -⟩ := hc.offers_eq ho
    have hquiet := hc.quiet ho (hhow ▸ hw) (hhow ▸ hr)
    have hid : c.docket.id = order :=
      (congrArg Order.id (Case.Moves.order_eq hc.moves)).trans (id_of_docket? hd)
    refine ⟨c.docket, ?_, ⟨new, ?_⟩, ?_⟩
    · rw [hrest.docket, docket?_putBack, if_pos hid]
    · rw [← hhow, ← hwhen]
      exact hnew
    · rw [← hhow, ← hwhen]
      exact hquiet
  · have hsettled : docket.isSettled = true := by
      rw [← Bool.not_eq_false]
      exact fun hopen => hm (hv.mem_iff.2 ((hx order).2 ⟨docket, hd, hopen⟩))
    have hlate : docket.late desk.settings.offerSpan desk.now = [] :=
      Docket.late_of_settled hsettled
    refine ⟨docket, (sweepOrders_aside hs hm report).docket.trans hd, ⟨[], ?_⟩,
      hlate, Docket.not_due_of_settled hsettled⟩
    rw [Docket.expire_of_late_eq_nil hlate, List.append_nil]

/-- The dockets of all orders have the part in the report that those visited have. -/
theorem ofDockets_items (hs : desk.Sound) (hx : desk.Indexed)
    (hv : visited.Perm desk.floor.openOrders) (settings : Settings) (now : Instant)
    (added : Docket → List Offer) :
    SweepReport.ofDockets settings now added (visited.filterMap desk.docket?) =
      .ofDockets settings now added desk.dockets.items := by
  have hperm : (visited.filterMap desk.docket?).Perm
      (desk.dockets.items.filter fun d => !d.isSettled) :=
    (hv.filterMap desk.docket?).trans (openDockets_perm hs hx)
  rw [SweepReport.ofDockets_perm hperm, SweepReport.ofDockets_filter]

end Orders

/-! ## A sweep of all open orders -/

section All

variable {desk swept : Desk} {visited : List Uuid} {report : SweepReport} {order : Uuid}

/-- A sweep that ends, behind the counting of it. -/
theorem sweepAs_eq (h : desk.sweepAs visited = (.ok report, swept)) :
    (sweepOrders visited {} desk.countSweep).1 = .ok report ∧
      (sweepOrders visited {} desk.countSweep).2 = swept :=
  ⟨congrArg Prod.fst h, congrArg Prod.snd h⟩

theorem sweepAs_moves (hs : desk.Sound) (hv : visited.Perm desk.floor.openOrders)
    (h : desk.sweepAs visited = (.ok report, swept)) : Moves desk swept := by
  have hcount : Move desk desk.countSweep := .sweepCounted
  have hmoves := (sweepOrders_passes (hv.nodup_iff.2 hs.distinct) {} (hcount.sound hs)).1.moves
  rw [(sweepAs_eq h).2] at hmoves
  exact .head hcount hmoves

/-- No order comes on record. -/
theorem sweepAs_docket_none (hs : desk.Sound) (hx : desk.Indexed)
    (hv : visited.Perm desk.floor.openOrders) (h : desk.sweepAs visited = (.ok report, swept))
    (hd : desk.docket? order = none) : swept.docket? order = none := by
  have hm : order ∉ visited := by
    intro hm
    obtain ⟨docket, hsome, -⟩ := (hx order).1 (hv.mem_iff.1 hm)
    rw [hd] at hsome
    cases hsome
  have hs₀ : desk.countSweep.Sound := Move.sound .sweepCounted hs
  rw [← (sweepAs_eq h).2]
  exact (sweepOrders_aside hs₀ hm {}).docket.trans hd

theorem sweepAs_docket (hs : desk.Sound) (hx : desk.Indexed)
    (hw : 0 < desk.settings.offerWindow) (hr : 0 < desk.settings.retryAfter)
    (hv : visited.Perm desk.floor.openOrders) (h : desk.sweepAs visited = (.ok report, swept))
    {docket : Docket} (hd : desk.docket? order = some docket) :
    ∃ found, swept.docket? order = some found ∧
      (∃ new, found.offers = (docket.expire desk.settings.offerSpan desk.now).offers ++ new) ∧
      found.Quiet desk.settings desk.now := by
  have hcount : Move desk desk.countSweep := .sweepCounted
  obtain ⟨hok, hend⟩ := sweepAs_eq h
  rw [← hend]
  exact sweepOrders_docket (hcount.sound hs) (hcount.indexed hx) hw hr hv hok hd

/-- Nothing is left to do for any order on record. -/
theorem sweepAs_quiet (hs : desk.Sound) (hx : desk.Indexed)
    (hw : 0 < desk.settings.offerWindow) (hr : 0 < desk.settings.retryAfter)
    (hv : visited.Perm desk.floor.openOrders) (h : desk.sweepAs visited = (.ok report, swept)) :
    ∀ d ∈ swept.dockets.items, d.Quiet desk.settings desk.now := by
  intro d hm
  have hd := Register.mem_items.1 hm
  cases hbefore : desk.docket? d.id with
  | none => cases (sweepAs_docket_none hs hx hv h hbefore).symm.trans hd
  | some docket =>
      obtain ⟨found, hf, -, hq⟩ := sweepAs_docket hs hx hw hr hv h hbefore
      rwa [← Option.some.inj (hf.symm.trans hd)]

/-- The report is the sum over all dockets. -/
theorem sweepAs_report (hs : desk.Sound) (hx : desk.Indexed) (hr : 0 < desk.settings.retryAfter)
    (hv : visited.Perm desk.floor.openOrders) (h : desk.sweepAs visited = (.ok report, swept)) :
    report = .ofDockets desk.settings desk.now swept.newOffers desk.dockets.items := by
  have hcount : Move desk desk.countSweep := .sweepCounted
  obtain ⟨hok, hend⟩ := sweepAs_eq h
  have hsum := sweepOrders_report (hv.nodup_iff.2 hs.distinct) (hcount.sound hs) hr hok
  rwa [ofDockets_items (hcount.sound hs) (hcount.indexed hx) hv, hend,
    SweepReport.nothing_add] at hsum

/-- Where nothing is left to do a sweep does nothing but count itself. -/
theorem sweepAs_of_quiet (hx : desk.Indexed) (hv : visited.Perm desk.floor.openOrders)
    (hq : ∀ d ∈ desk.dockets.items, d.Quiet desk.settings desk.now) :
    desk.sweepAs visited = (.ok {}, desk.countSweep) := by
  refine sweepOrders_of_quiet fun order hm docket hd => ?_
  obtain ⟨found, hf, hopen⟩ := (hx order).1 (hv.mem_iff.1 hm)
  obtain rfl := Option.some.inj (hf.symm.trans hd)
  rw [← id_of_docket? hf] at hf
  exact ⟨hq found (Register.mem_items.2 hf), hopen⟩

end All

/-- After every run, if there is a time to answer and searches rest before they are
tried again, a sweep gives a report wherever searches come to an end, and whenever it
gives one it is exact. The offers that had run out are closed, at this time, and no
other offer on record is changed. The report has their number, how many of them were
followed by a new offer, and how many orders waited without an offer and without a
search for long enough; if nothing ever broke down, each of these had a search that
had ended. No order is dispatched more than once. Afterwards no offer has run out
and no search is due, and another sweep at this time finds nothing and changes
nothing but the count of sweeps. -/
theorem sweep_is_exact (settings : Settings) (start : Instant) (cmds : List Command)
    (hwindow : 0 < settings.offerWindow) (hrest : 0 < settings.retryAfter)
    {visited : List Uuid}
    (hv : visited.Perm ((opening settings start).run cmds).floor.openOrders) :
    let desk := (opening settings start).run cmds
    let isLate := fun o : Offer =>
      o.status = .requested && settings.offerSpan ≤ desk.now - o.requestedAt
    let isDue := fun d : Docket =>
      d.order.status = .pending && d.offers.all (·.status ≠ .requested) && !d.searching &&
        d.lastSearchEnded?.all fun ended => settings.retrySpan ≤ desk.now - ended
    (desk.floor.CanSearch → ∃ report, (desk.sweepAs visited).1 = .ok report) ∧
    ((opening settings start).isWhole cmds = true →
      ∀ d ∈ desk.dockets.items, d.isIdle = true → d.lastSearchEnded?.isSome = true) ∧
    ∀ report swept, desk.sweepAs visited = (.ok report, swept) →
      (∀ order, desk.docket? order = none → swept.docket? order = none) ∧
      (∀ d ∈ desk.dockets.items, (swept.offersFor d.id).take d.offers.length =
        d.offers.map fun o => if isLate o then o.closed .timeout desk.now else o) ∧
      report.timeouts = desk.allOffers.countP isLate ∧
      report.reassigned = (desk.dockets.items.flatMap fun d =>
        d.offers.filter fun o => isLate o && (swept.newOffers d).any (·.isOutstanding)).length ∧
      report.retried = desk.dockets.items.countP isDue ∧
      (∀ order, ((desk.sweepLog visited).filter (·.1 = order)).length ≤ 1) ∧
      (swept.now = desk.now ∧ ∀ d ∈ swept.dockets.items,
        (∀ o ∈ d.offers, isLate o = false) ∧ isDue d = false) ∧
      ∀ visited', visited'.Perm swept.floor.openOrders →
        swept.sweepAs visited' = (.ok {}, swept.countSweep) := by
  intro desk isLate isDue
  have hlate : isLate = (·.isExpired settings.offerSpan desk.now) := rfl
  have hdue : isDue = (·.isDue settings.retrySpan desk.now) :=
    funext fun d => (d.isDue_eq settings.retrySpan desk.now).symm
  have hopen := opening_sound settings start
  have hs : desk.Sound := run_sound hopen cmds
  have hx : desk.Indexed := run_indexed hopen (opening_indexed settings start) cmds
  have hhow : desk.settings = settings := run_settings hopen cmds
  have hcount : Move desk desk.countSweep := .sweepCounted
  refine ⟨fun hc => sweepAs_ok hs hc visited,
    fun hwhole d hd hidle => ?_, fun report swept hswept => ?_⟩
  · have hattended : desk.Attended :=
      run_attended hopen (fun _ _ hf => by cases hf) hwhole
    simp only [Docket.isIdle, Bool.and_eq_true, Bool.not_eq_true'] at hidle
    obtain ⟨⟨hp, hout⟩, hsearch⟩ := hidle
    simpa [hout, hsearch] using hattended _ d (Register.mem_items.1 hd) hp
  · have hw₀ : 0 < desk.settings.offerWindow := hhow ▸ hwindow
    have hr₀ : 0 < desk.settings.retryAfter := hhow ▸ hrest
    have hmoves := sweepAs_moves hs hv hswept
    have hsteady := Moves.steady hmoves
    have hreport := sweepAs_report hs hx hr₀ hv hswept
    have hquiet := sweepAs_quiet hs hx hw₀ hr₀ hv hswept
    rw [hhow] at hreport hquiet
    rw [hlate, hdue]
    refine ⟨fun order => sweepAs_docket_none hs hx hv hswept, fun d hd => ?_, ?_, ?_, ?_,
      fun order => ?_, ⟨hsteady.now_eq, fun d hd => ?_⟩, fun visited' hv' => ?_⟩
    · obtain ⟨found, hf, ⟨new, hnew⟩, -⟩ :=
        sweepAs_docket hs hx hw₀ hr₀ hv hswept (Register.mem_items.1 hd)
      rw [hhow] at hnew
      have hlength : (d.expire settings.offerSpan desk.now).offers.length = d.offers.length := by
        rw [Docket.expire_offers, List.length_map]
      have hoffers : swept.offersFor d.id = found.offers := by
        rw [offersFor, show swept.docket? d.id = some found from hf]
        rfl
      rw [hoffers, hnew, List.take_left' hlength, Docket.expire_offers]
    · rw [hreport, SweepReport.ofDockets_timeouts]
      rfl
    · rw [hreport, SweepReport.ofDockets_reassigned]
    · rw [hreport]
      rfl
    · exact sweepOrdersLog_once (hv.nodup_iff.2 hs.distinct) (hcount.sound hs) hr₀ order
        (sweepAs_eq hswept).1
    · exact ⟨Docket.late_eq_nil.1 (hquiet d hd).late, (hquiet d hd).due⟩
    · refine sweepAs_of_quiet (Moves.indexed hmoves hx) hv' fun d hd => ?_
      rw [show swept.settings = settings from hsteady.settings.trans hhow,
        show swept.now = desk.now from hsteady.now_eq]
      exact hquiet d hd

/-- An order that nobody was found for is searched for once more after half a minute,
and not twice. -/
theorem sweep_is_exact_trial :
    let cmds := .create trialRequest :: List.replicate 3 (.wake 0) ++
      [.setClock ⟨trialStart, 30000, 0⟩]
    let desk := (opening {} trialStart).run cmds
    ∃ report swept, desk.sweepAs [trialOrder] = (.ok report, swept) ∧
      report.timeouts = 0 ∧ report.retried = 1 ∧
      ((desk.sweepLog [trialOrder]).filter (·.1 = trialOrder)).length ≤ 1 ∧
      swept.sweepAs swept.floor.openOrders = (.ok {}, swept.countSweep) := by
  intro cmds desk
  have hopen : desk.floor.openOrders = [trialOrder] := by decide +kernel
  have hv : [trialOrder].Perm desk.floor.openOrders := .of_eq hopen.symm
  obtain ⟨hok, -, hexact⟩ := sweep_is_exact {} trialStart cmds (by decide) (by decide) hv
  obtain ⟨report, hr⟩ := hok ⟨by decide +kernel, by decide +kernel⟩
  obtain ⟨-, -, htimeouts, -, hretried, honce, -, hagain⟩ :=
    hexact report (desk.sweepAs [trialOrder]).2 (Prod.ext hr rfl)
  refine ⟨report, _, Prod.ext hr rfl, htimeouts.trans ?_, hretried.trans ?_, honce trialOrder,
    hagain _ (.refl _)⟩
  · decide +kernel
  · decide +kernel

end Desk

end Hailing
