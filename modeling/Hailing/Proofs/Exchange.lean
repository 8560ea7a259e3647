import Hailing.Proofs.Drawn
import Hailing.Proofs.Traces

/-!
# Work on different orders changes places

A trace on the floor belongs to an order, and so does the docket that the work
is done on. When two pieces of work on different orders change places, each of
them leaves what it would have left, as long as neither sees what the other one
did. Two things are told apart by the order of the work. The searches and the
notices come in another order. And an offer gets another identifier, as they are
drawn in turns; the exchange of two blocks of identifiers is a renaming, and
nothing that was there before has a name out of these blocks (`Desk.Drawn`).

What comes after that is the same again, up to the same renaming
(`SameUpTo.workOn`).
-/

namespace Hailing

open Time (Instant)

namespace Floor

/-! ## Two traces -/

variable {order other : Uuid}

/-- What an order's search has put to sleep is no search of another order. -/
theorem slept_order_ne (hne : order ≠ other) (slept : List (Radii × Nat)) :
    ∀ s ∈ slept.map fun (radii, wakeAt) => (⟨other, radii, wakeAt⟩ : Search),
      s.order ≠ order := by
  intro s hm
  obtain ⟨_, -, rfl⟩ := List.mem_map.1 hm
  exact hne.symm

theorem leave_sleeping_perm (hne : order ≠ other) (t u : Trace) (f : Floor) :
    ((f.leave order t).leave other u).sleeping.Perm
      ((f.leave other u).leave order t).sleeping := by
  have hswap : ∀ (sleeping slept slept' : List Search),
      (sleeping ++ slept ++ slept').Perm (sleeping ++ slept' ++ slept) := by
    intro sleeping slept slept'
    rw [List.append_assoc, List.append_assoc]
    exact .append_left _ List.perm_append_comm
  simp only [leave]
  cases t.wakes? <;> cases u.wakes? <;>
    simp only [Option.elim_none, Option.elim_some, Search.without_comm hne.symm,
      Search.without_append (slept_order_ne hne _),
      Search.without_append (slept_order_ne hne.symm _)] <;>
    exact hswap _ _ _

/-- The searches of an order are where they were when another order is worked on. -/
theorem asleep_leave_of_ne (hne : order ≠ other) (t : Trace) (f : Floor) :
    (f.leave other t).asleep order = f.asleep order := by
  have hslept : (t.slept.map fun (radii, wakeAt) =>
      (⟨other, radii, wakeAt⟩ : Search)).filter (·.order = order) = [] :=
    List.filter_eq_nil_iff.2 fun s hm => by simpa using slept_order_ne hne _ s hm
  rw [asleep, leave, List.filter_append, hslept, List.append_nil, asleep]
  cases t.wakes? with
  | none => rfl
  | some n => exact Search.filter_without_of_ne hne n f.sleeping

theorem leave_openOrders_comm (t u : Trace) (f : Floor) :
    ((f.leave other u).leave order t).openOrders =
      ((f.leave order t).leave other u).openOrders := by
  simp only [leave]
  cases t.closes <;> cases u.closes <;>
    simp only [Bool.false_eq_true, if_false, if_true, List.filter_filter, Bool.and_comm]

end Floor

/-- The entries of drivers that two traces change are those of different drivers
on record. -/
structure Trace.Apart (fleet : Fleet) (t u : Trace) : Prop where
  left : ∀ {d}, t.changed? = some d → (fleet.find? d.id).isSome = true
  right : ∀ {d}, u.changed? = some d → (fleet.find? d.id).isSome = true
  ne : ∀ {d e}, t.changed? = some d → u.changed? = some e → d.id ≠ e.id

theorem Trace.Apart.of_none {fleet : Fleet} {t u : Trace} (ht : t.changed? = none)
    (hu : u.changed? = none) : Apart fleet t u := by
  constructor <;> simp [ht, hu]

theorem Floor.leave_fleet_comm {f : Floor} {t u : Trace} (h : Trace.Apart f.fleet t u)
    (order other : Uuid) :
    ((f.leave other u).leave order t).fleet = ((f.leave order t).leave other u).fleet := by
  simp only [leave]
  cases ht : t.changed? with
  | none => rfl
  | some d =>
      cases hu : u.changed? with
      | none => rfl
      | some e => exact Register.put_comm (h.ne ht hu) (h.left ht) (h.right hu)

namespace Desk

/-! ## Two pieces of work -/

/-- Works on an order, if it is on record. -/
def workOn {α : Type} (order : Uuid) (missing : α) (work : Case → α × Case) (desk : Desk) :
    α × Desk :=
  match desk.docket? order with
  | none => (missing, desk)
  | some docket =>
    ((work ⟨docket, desk.floor⟩).1, desk.putBack (work ⟨docket, desk.floor⟩).2)

section WorkOn

variable {α : Type} {order : Uuid} {missing : α} {work : Case → α × Case} {desk : Desk}

theorem workOn_none (h : desk.docket? order = none) :
    desk.workOn order missing work = (missing, desk) := by
  simp only [workOn, h]

theorem workOn_some {docket : Docket} (h : desk.docket? order = some docket) :
    desk.workOn order missing work =
      ((work ⟨docket, desk.floor⟩).1, desk.putBack (work ⟨docket, desk.floor⟩).2) := by
  simp only [workOn, h]

/-- The other orders are left as they are. -/
theorem docket?_workOn_of_ne {other : Uuid} (hne : order ≠ other)
    (hid : ∀ docket, desk.docket? order = some docket →
      (work ⟨docket, desk.floor⟩).2.docket.id = docket.id) :
    (desk.workOn order missing work).2.docket? other = desk.docket? other := by
  cases hd : desk.docket? order with
  | none => rw [workOn_none hd]
  | some docket =>
      rw [workOn_some hd]
      refine docket?_putBack_of_ne ?_
      rwa [hid docket hd, id_of_docket? hd]

theorem handle_eq_workOn {α : Type} (order : Uuid) (work : Case → Answer α × Case)
    (desk : Desk) :
    desk.handle order work = desk.workOn order (.refused (.unknownOrder order)) work := by
  unfold handle workOn
  cases desk.docket? order <;> rfl

/-- The work and its trace. -/
theorem workOn_leaves {sees : Floor → Floor → Prop} {act : Renaming → α → α} {docket : Docket}
    {t : Trace} (hl : Case.Leaves sees act work ⟨docket, desk.floor⟩ t)
    (hr : sees desk.floor desk.floor) (hd : desk.docket? docket.id = some docket) :
    desk.workOn docket.id missing work = ((work ⟨docket, desk.floor⟩).1,
      ⟨desk.dockets.put (work ⟨docket, desk.floor⟩).2.docket, desk.floor.leave docket.id t⟩) := by
  rw [workOn_some hd, putBack, hl.floor_eq hr]

/-- The same work on another desk. -/
theorem workOn_elsewhere {sees : Floor → Floor → Prop} {act : Renaming → α → α}
    {docket : Docket} {t : Trace} (hl : Case.Leaves sees act work ⟨docket, desk.floor⟩ t)
    {desk' : Desk} {π : Renaming} (hd : desk'.docket? docket.id = some (docket.renamed π))
    (hs : sees desk.floor desk'.floor)
    (hdraws : t.Draws π desk.floor.issued desk'.floor.issued) :
    desk'.workOn docket.id missing work = (act π (work ⟨docket, desk.floor⟩).1,
      ⟨desk'.dockets.put ((work ⟨docket, desk.floor⟩).2.docket.renamed π),
        desk'.floor.leave docket.id (t.renamed π)⟩) := by
  have hsame : work ⟨docket.renamed π, desk'.floor⟩ = _ := hl.elsewhere hs hdraws
  rw [workOn_some hd, hsame]
  rfl

end WorkOn

/-- Two tasks may change places: both answer the same, and the desk is the same
in the end, up to the names of the offers that are made on the way. -/
def Exchange {α β : Type} (act₁ : Renaming → α → α) (act₂ : Renaming → β → β)
    (task₁ : Desk → α × Desk) (task₂ : Desk → β × Desk) (desk : Desk) : Prop :=
  let first := task₁ desk
  let second := task₂ first.2
  let first' := task₂ desk
  let second' := task₁ first'.2
  ∃ π : Renaming, Uuid.Renames π desk.floor.issued second.2.floor.issued ∧
    second'.1 = act₁ π first.1 ∧ first'.1 = act₂ π second.1 ∧ second.2.SameUpTo π second'.2

theorem Exchange.congr {α β : Type} {act₁ : Renaming → α → α} {act₂ : Renaming → β → β}
    {task₁ task₁' : Desk → α × Desk} {task₂ task₂' : Desk → β × Desk} {desk : Desk}
    (h : Exchange act₁ act₂ task₁' task₂' desk) (h₁ : task₁ desk = task₁' desk)
    (h₂ : task₂ desk = task₂' desk) (h₁₂ : task₂ (task₁ desk).2 = task₂' (task₁ desk).2)
    (h₂₁ : task₁ (task₂ desk).2 = task₁' (task₂ desk).2) :
    Exchange act₁ act₂ task₁ task₂ desk := by
  rw [h₁] at h₁₂
  rw [h₂] at h₂₁
  simp only [Exchange, h₁, h₂, h₁₂, h₂₁]
  exact h

section Exchange

variable {α β : Type} {act₁ : Renaming → α → α} {act₂ : Renaming → β → β}
  {sees₁ sees₂ : Floor → Floor → Prop} {work₁ : Case → α × Case} {work₂ : Case → β × Case}
  {missing₁ : α} {missing₂ : β} {desk : Desk} {docket₁ docket₂ : Docket} {t₁ t₂ : Trace}

/-- What is left on the desk in one order and in the other, where `π` renames
the second work's identifiers back. -/
theorem Drawn.leave_sameUpTo (h : desk.Drawn) (d₁ d₂ : Docket) (hne : d₁.id ≠ d₂.id)
    (h₁ : (desk.docket? d₁.id).isSome = true) (h₂ : (desk.docket? d₂.id).isSome = true)
    (hapart : Trace.Apart desk.floor.fleet t₁ t₂) {π : Renaming}
    (hπ : Uuid.Renames π desk.floor.issued (desk.floor.issued + t₁.drawn + t₂.drawn))
    (hi : desk.floor.issued + t₁.drawn + t₂.drawn ≤ Uuid.capacity) :
    SameUpTo π
      ⟨(desk.dockets.put d₁).put (d₂.renamed π⁻¹),
        (desk.floor.leave d₁.id t₁).leave d₂.id (t₂.renamed π⁻¹)⟩
      ⟨(desk.dockets.put d₂).put (d₁.renamed π),
        (desk.floor.leave d₂.id t₂).leave d₁.id (t₁.renamed π)⟩ := by
  have hle : desk.floor.issued ≤ desk.floor.issued + t₁.drawn + t₂.drawn := by omega
  -- What was there before has no name out of the two blocks.
  have hitems : desk.dockets.items.map (Docket.renamed π) = desk.dockets.items :=
    (List.map_congr_left fun d hm =>
      h.docket_eq hπ hle hi (Register.mem_items.1 hm)).trans (List.map_id _)
  have hsent : desk.floor.sent.map (·.renamed π) = desk.floor.sent :=
    (List.map_congr_left fun n hm => h.notice_eq hπ hle hi hm).trans (List.map_id _)
  have hback : (d₂.renamed π⁻¹).renamed π = d₂ := by simp
  have htold : (t₂.told.map (·.renamed π⁻¹)).map (·.renamed π) = t₂.told := by
    rw [List.map_map]
    refine (List.map_congr_left fun n _ => ?_).trans (List.map_id _)
    simp
  refine
    { dockets := ?_, settings := rfl, clock := rfl, openOrders := ?_, fleet := ?_, ledger := ?_,
      lastNumber := rfl, issued := ?_, sleeping := ?_, sent := ?_ }
  · show Register.replaceOrAppend _ (d₁.renamed π) (Register.replaceOrAppend _ d₂ _) =
      (Register.replaceOrAppend _ (d₂.renamed π⁻¹) (Register.replaceOrAppend _ d₁ _)).map
        (Docket.renamed π)
    rw [Register.map_replaceOrAppend (f := Docket.renamed π) fun _ => rfl,
      Register.map_replaceOrAppend (f := Docket.renamed π) fun _ => rfl, hback, hitems]
    exact Register.replaceOrAppend_comm (a := d₁.renamed π) hne (Register.mem_keys.2 h₁)
      (Register.mem_keys.2 h₂)
  · exact Floor.leave_openOrders_comm t₁ t₂ desk.floor
  · exact Floor.leave_fleet_comm hapart d₁.id d₂.id
  · exact Ledger.add_right_comm _ _ _
  · exact Nat.add_right_comm _ _ _
  · exact Floor.leave_sleeping_perm hne t₁ t₂ desk.floor
  · show ((desk.floor.sent ++ t₁.told ++ t₂.told.map (·.renamed π⁻¹)).map (·.renamed π)).Perm
      (desk.floor.sent ++ t₂.told ++ t₁.told.map (·.renamed π))
    rw [List.map_append, List.map_append, hsent, htold, List.append_assoc, List.append_assoc]
    exact .append_left _ List.perm_append_comm

/-- Two pieces of work on different orders may change places, if neither sees
what the other one did. -/
theorem Drawn.exchange (h : desk.Drawn) (hne : docket₁.id ≠ docket₂.id)
    (h₁ : desk.docket? docket₁.id = some docket₁) (h₂ : desk.docket? docket₂.id = some docket₂)
    (hl₁ : Case.Leaves sees₁ act₁ work₁ ⟨docket₁, desk.floor⟩ t₁)
    (hl₂ : Case.Leaves sees₂ act₂ work₂ ⟨docket₂, desk.floor⟩ t₂)
    (hr₁ : sees₁ desk.floor desk.floor) (hr₂ : sees₂ desk.floor desk.floor)
    (hs₁ : sees₁ desk.floor (desk.floor.leave docket₂.id t₂))
    (hs₂ : sees₂ desk.floor (desk.floor.leave docket₁.id t₁))
    (hapart : Trace.Apart desk.floor.fleet t₁ t₂)
    (hback : ∀ π b, act₂ π (act₂ π⁻¹ b) = b)
    (hi : desk.floor.issued + t₁.drawn + t₂.drawn ≤ Uuid.capacity) :
    Exchange act₁ act₂ (workOn docket₁.id missing₁ work₁) (workOn docket₂.id missing₂ work₂)
      desk := by
  obtain ⟨σ, hσ, hforth, hback'⟩ := Uuid.exists_exchange hi
  have hle : desk.floor.issued ≤ desk.floor.issued + t₁.drawn + t₂.drawn := by omega
  have hid₁ : (work₁ ⟨docket₁, desk.floor⟩).2.docket.id = docket₁.id := hl₁.id_eq
  have hid₂ : (work₂ ⟨docket₂, desk.floor⟩).2.docket.id = docket₂.id := hl₂.id_eq
  have hfirst : workOn docket₁.id missing₁ work₁ desk = _ := workOn_leaves hl₁ hr₁ h₁
  have hfirst' : workOn docket₂.id missing₂ work₂ desk = _ := workOn_leaves hl₂ hr₂ h₂
  -- The other docket is as it was, and this is also what it is under other names:
  -- nothing on it was drawn on the way.
  have haside₂ : (workOn docket₁.id missing₁ work₁ desk).2.docket? docket₂.id =
      some (docket₂.renamed σ) := by
    rw [hfirst, h.docket_eq hσ hle hi h₂]
    exact (Register.find?_put_of_ne (hid₁ ▸ hne)).trans h₂
  have haside₁ : (workOn docket₂.id missing₂ work₂ desk).2.docket? docket₁.id =
      some (docket₁.renamed σ⁻¹) := by
    rw [hfirst', h.docket_eq hσ.inv hle hi h₁]
    exact (Register.find?_put_of_ne (hid₂ ▸ hne.symm)).trans h₁
  have hsecond : workOn docket₂.id missing₂ work₂ (workOn docket₁.id missing₁ work₁ desk).2 = _ :=
    workOn_elsewhere hl₂ haside₂ (by rw [hfirst]; exact hs₂) (by rw [hfirst]; exact hforth)
  have hbackwards : t₁.Draws σ⁻¹ desk.floor.issued (desk.floor.issued + t₂.drawn) := by
    intro i hi
    rw [Equiv.Perm.inv_eq_iff_eq]
    exact (hback' i hi).symm
  have hsecond' : workOn docket₁.id missing₁ work₁ (workOn docket₂.id missing₂ work₂ desk).2 = _ :=
    workOn_elsewhere hl₁ haside₁ (by rw [hfirst']; exact hs₁) (by rw [hfirst']; exact hbackwards)
  have hsame := h.leave_sameUpTo (work₁ ⟨docket₁, desk.floor⟩).2.docket
    (work₂ ⟨docket₂, desk.floor⟩).2.docket (by rw [hid₁, hid₂]; exact hne)
    (by rw [hid₁, h₁]; rfl) (by rw [hid₂, h₂]; rfl) hapart hσ.inv hi
  refine ⟨σ⁻¹, ?_, ?_, ?_, ?_⟩
  · rw [hsecond, hfirst]
    exact hσ.inv
  · rw [hsecond', hfirst]
  · rw [hsecond, hfirst']
    have hone := hback σ⁻¹ (work₂ ⟨docket₂, desk.floor⟩).1
    rw [inv_inv] at hone
    exact hone.symm
  · rw [hsecond, hsecond', hfirst, hfirst']
    rw [hid₁, hid₂, inv_inv] at hsame
    exact hsame

/-- An order that is not on record is not worked on, before or after. -/
theorem exchange_of_known {order₁ order₂ : Uuid} (hne : order₁ ≠ order₂)
    (hone₁ : ∀ a, act₁ 1 a = a) (hone₂ : ∀ b, act₂ 1 b = b)
    (hid₁ : ∀ docket, desk.docket? order₁ = some docket →
      (work₁ ⟨docket, desk.floor⟩).2.docket.id = docket.id)
    (hid₂ : ∀ docket, desk.docket? order₂ = some docket →
      (work₂ ⟨docket, desk.floor⟩).2.docket.id = docket.id)
    (h : ∀ docket₁ docket₂, docket₁.id = order₁ → docket₂.id = order₂ →
      desk.docket? docket₁.id = some docket₁ → desk.docket? docket₂.id = some docket₂ →
      Exchange act₁ act₂ (workOn docket₁.id missing₁ work₁) (workOn docket₂.id missing₂ work₂)
        desk) :
    Exchange act₁ act₂ (workOn order₁ missing₁ work₁) (workOn order₂ missing₂ work₂) desk := by
  have haside₂ : (workOn order₁ missing₁ work₁ desk).2.docket? order₂ = desk.docket? order₂ :=
    docket?_workOn_of_ne hne hid₁
  have haside₁ : (workOn order₂ missing₂ work₂ desk).2.docket? order₁ = desk.docket? order₁ :=
    docket?_workOn_of_ne hne.symm hid₂
  cases hd₁ : desk.docket? order₁ with
  | none =>
      rw [hd₁] at haside₁
      refine ⟨1, .one _ _, ?_, ?_, ?_⟩
      · rw [workOn_none hd₁, workOn_none haside₁, hone₁]
      · rw [workOn_none hd₁, hone₂]
      · rw [workOn_none hd₁, workOn_none haside₁]
        exact .refl _
  | some docket₁ =>
      cases hd₂ : desk.docket? order₂ with
      | none =>
          rw [hd₂] at haside₂
          refine ⟨1, .one _ _, ?_, ?_, ?_⟩
          · rw [workOn_none hd₂, hone₁]
          · rw [workOn_none hd₂, workOn_none haside₂, hone₂]
          · rw [workOn_none hd₂, workOn_none haside₂]
            exact .refl _
      | some docket₂ =>
          obtain rfl := id_of_docket? hd₁
          obtain rfl := id_of_docket? hd₂
          exact h docket₁ docket₂ rfl rfl hd₁ hd₂

end Exchange

/-- What a search leaves on desks that are the same. -/
theorem SameUpTo.leave {π : Renaming} {a b : Desk} (h : a.SameUpTo π b) {t : Trace}
    (ht : t.Plain) (order : Uuid) (d : Docket) :
    SameUpTo π ⟨a.dockets.put d, a.floor.leave order t⟩
      ⟨b.dockets.put (d.renamed π), b.floor.leave order (t.renamed π)⟩ where
  dockets := by
    show Register.replaceOrAppend _ _ _ = (Register.replaceOrAppend _ _ _).map (Docket.renamed π)
    rw [Register.map_replaceOrAppend (f := Docket.renamed π) fun _ => rfl, h.dockets]
  settings := h.settings
  clock := h.clock
  openOrders := by
    simp only [Floor.leave, h.openOrders]
    rfl
  fleet := by rw [Floor.leave_fleet ht, Floor.leave_fleet (ht.renamed π), h.fleet]
  ledger := congrArg (· + t.counted) h.ledger
  lastNumber := h.lastNumber
  issued := congrArg (· + t.drawn) h.issued
  sleeping := by
    simp only [Floor.leave, Trace.renamed, ht.wakes, Option.elim_none]
    exact h.sleeping.append_right _
  sent := by
    show ((a.floor.sent ++ t.told).map _).Perm (b.floor.sent ++ t.told.map _)
    rw [List.map_append]
    exact h.sent.append_right _

/-- The same search on desks that are the same. -/
theorem SameUpTo.workOn {α : Type} {act : Renaming → α → α} {work : Case → α × Case}
    {missing : α} {order : Uuid} {π : Renaming} {a b : Desk} (h : a.SameUpTo π b)
    (hw : ∀ docket, ∃ t, Case.Traced act work ⟨docket, a.floor⟩ t)
    (hm : act π missing = missing) {first : Nat} (hπ : Uuid.Renames π first a.floor.issued)
    (hi : (a.workOn order missing work).2.floor.issued ≤ Uuid.capacity) :
    (b.workOn order missing work).1 = act π (a.workOn order missing work).1 ∧
      (a.workOn order missing work).2.SameUpTo π (b.workOn order missing work).2 := by
  cases hd : a.docket? order with
  | none =>
      have hd' : b.docket? order = none := by rw [h.docket?_eq, hd]; rfl
      rw [workOn_none hd, workOn_none hd']
      exact ⟨hm.symm, h⟩
  | some docket =>
      obtain ⟨t, ht⟩ := hw docket
      obtain rfl := id_of_docket? hd
      have hd' : b.docket? docket.id = some (docket.renamed π) := by rw [h.docket?_eq, hd]; rfl
      have hlook : a.floor.Alike b.floor := ⟨h.settings, h.clock, h.fleet⟩
      have hfirst : a.workOn docket.id missing work = _ :=
        workOn_leaves ht.toLeaves (.refl a.floor) hd
      rw [hfirst] at hi ⊢
      have hcap : a.floor.issued + t.drawn ≤ Uuid.capacity := hi
      rw [workOn_elsewhere ht.toLeaves hd' hlook fun i hi => by
        rw [h.issued]
        exact hπ.apply_issue (by omega) (by omega) (.inr (Nat.le_add_right _ _))]
      exact ⟨rfl, h.leave ht.plain _ _⟩

end Desk

end Hailing
