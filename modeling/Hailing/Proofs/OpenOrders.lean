import Mathlib.Data.List.Nodup
import Hailing.Proofs.Runs

/-!
# The list of open orders is exact

A sweep and the list of a driver's offers go through the open orders only. An
order that was taken off this list too early would never be swept again, and
its offers would be seen by nobody; one that stayed on it would be swept for
ever. So the list has to say exactly what the dockets say: an order is on it
if it waits or has an offer out.

Not every step settles the docket it works on, and not every step needs to.
The list is right after a step that settles, if only nothing was taken off it
too early (`settle_listed`). A step that does not settle leaves the list as it
is, and such a step never makes a docket settled: it works on an order that
waits before and after, or the docket was settled already.
-/

namespace Hailing

open Time (Instant)

namespace Docket

theorem isSettled_eq_false {d : Docket} :
    d.isSettled = false ↔ d.isPending = true ∨ d.hasOutstanding = true := by
  unfold isSettled
  cases d.isPending <;> simp

/-- Settled or not, as far as only the offers and the order count. -/
theorem isSettled_congr {d d' : Docket} (hp : d'.isPending = d.isPending)
    (ho : d'.offers = d.offers) : d'.isSettled = d.isSettled := by
  rw [isSettled, hp, hasOutstanding, ho, isSettled, hasOutstanding]

theorem not_settled_of_last {d : Docket} {offer : Offer}
    (hl : d.offers.getLast? = some offer) (ho : offer.isOutstanding = true) :
    d.isSettled = false :=
  isSettled_eq_false.2 (.inr (hasOutstanding_of_last hl ho))

end Docket

namespace Case

/-- The list of open orders has the order of the case if it should. -/
def Listed (c : Case) : Prop :=
  c.docket.id ∈ c.floor.openOrders ↔ c.docket.isSettled = false

theorem settle_listed {c : Case}
    (h : c.docket.isSettled = false → c.docket.id ∈ c.floor.openOrders) :
    c.settle.Listed := by
  show c.docket.id ∈ (c.floor.settle c.docket).openOrders ↔ c.docket.isSettled = false
  rw [Floor.mem_settle]
  constructor
  · rintro ⟨-, hs⟩
    exact Bool.eq_false_iff.2 fun hsettled => hs hsettled rfl
  · intro hs
    exact ⟨h hs, fun hsettled => absurd (hs.symm.trans hsettled) (by decide)⟩

/-- A step keeps the list right: for its own order if it was right before, and
for the others as it was. -/
structure Files (c c' : Case) : Prop where
  id_eq : c'.docket.id = c.docket.id
  listed : c.Listed → c'.Listed
  aside : ∀ order, order ≠ c.docket.id →
    (order ∈ c'.floor.openOrders ↔ order ∈ c.floor.openOrders)

namespace Files

variable {c c' c₁ c₂ : Case}

theorem refl (c : Case) : Files c c := ⟨rfl, fun h => h, fun _ _ => .rfl⟩

theorem trans (h₁ : Files c c₁) (h₂ : Files c₁ c₂) : Files c c₂ := by
  refine ⟨h₂.id_eq.trans h₁.id_eq, fun h => h₂.listed (h₁.listed h), fun order hne => ?_⟩
  exact (h₂.aside order (h₁.id_eq ▸ hne)).trans (h₁.aside order hne)

/-- A step that leaves the list alone must leave the docket settled or not. -/
theorem of_eq (hid : c'.docket.id = c.docket.id)
    (hs : c'.docket.isSettled = c.docket.isSettled)
    (ho : c'.floor.openOrders = c.floor.openOrders) : Files c c' := by
  refine ⟨hid, fun h => ?_, fun _ _ => by rw [ho]⟩
  rw [Listed, hid, ho, hs]
  exact h

/-- A step that settles has to start from an order that is listed. -/
theorem settle (hid : c₁.docket.id = c.docket.id)
    (ho : c₁.floor.openOrders = c.floor.openOrders)
    (hs : c₁.docket.isSettled = false → c.docket.isSettled = false) : Files c c₁.settle := by
  refine ⟨hid, fun h => settle_listed fun hn => ?_, fun order hne => ?_⟩
  · rw [hid, ho]
    exact h.2 (hs hn)
  · show _ ∈ (c₁.floor.settle c₁.docket).openOrders ↔ _
    rw [Floor.mem_settle, ho, hid]
    exact and_iff_left fun _ => hne

end Files

theorem isSettled_of_pending {d : Docket} (hp : d.isPending = true) : d.isSettled = false :=
  Docket.isSettled_eq_false.2 (.inl hp)

/-- An order that waits before and after is open before and after. -/
theorem Files.of_pending {c c' : Case} (hp : c.docket.isPending = true)
    (horder : c'.docket.order = c.docket.order)
    (ho : c'.floor.openOrders = c.floor.openOrders) : Files c c' := by
  refine .of_eq (congrArg Order.id horder) ?_ ho
  have hp' : c'.docket.isPending = true := (congrArg Order.isPending horder).trans hp
  rw [isSettled_of_pending hp, isSettled_of_pending hp']

theorem Dispatched.files {c c' : Case} {outcome : Outcome} (h : Dispatched c outcome c') :
    Files c c' := by
  cases h with
  | skipped => exact .refl c
  | offered hs | searching hs | exhausted hs =>
      exact .of_pending (Docket.skipReason?_eq_none.1 hs).1 rfl rfl

theorem Move.files {c c' : Case} (h : Move c c') : Files c c' := by
  cases h with
  | dispatched hd => exact hd.files
  | excluded driver =>
      refine .of_eq (congrArg Order.id (Docket.exclude_order _ _)) ?_ rfl
      exact Docket.isSettled_congr (congrArg Order.isPending (Docket.exclude_order _ _))
        (Docket.exclude_offers _ _)
  | closed hl ho =>
      exact .settle (congrArg Order.id (Docket.exclude_order _ _)) rfl
        fun _ => Docket.not_settled_of_last hl ho
  | settled => exact .settle rfl rfl fun hs => hs

theorem Moves.files {c c' : Case} (h : Moves c c') : Files c c' := by
  induction h with
  | refl => exact .refl c
  | tail _ hm ih => exact ih.trans hm.files

theorem Resumed.files {radii : Radii} {c c' : Case} (h : Resumed radii c c') :
    Files c c' := by
  cases h with
  | abandoned => exact .of_eq rfl rfl rfl
  | offered hp | exhausted hp | widened hp => exact .of_pending hp rfl rfl

theorem releaseDriver_openOrders (c : Case) :
    c.releaseDriver.floor.openOrders = c.floor.openOrders := by
  unfold releaseDriver
  split <;> rfl

theorem completed_openOrders (c : Case) :
    c.completed.floor.openOrders = c.floor.openOrders := by
  unfold completed
  dsimp only
  split <;> rfl

theorem claim_openOrders {driver : Uuid} {c c' : Case} {claimed : Bool}
    (h : c.claim driver = (claimed, c')) : c'.floor.openOrders = c.floor.openOrders := by
  rw [(claim_eq h).1]

theorem Decided.files {c c' : Case} {cmd : Command} (h : Decided c cmd c') : Files c c' := by
  have hid := h.id_eq
  cases h with
  | @taken offer c₁ hp _ _ hc =>
      have hwaits := isSettled_of_pending (Docket.isPending_iff.2 hp)
      have ho := claim_openOrders hc
      show Files c (settle ⟨(c₁.taken offer).docket, _⟩)
      exact .settle hid ho fun _ => hwaits
  | withdrawn hp =>
      exact .settle rfl rfl fun _ => isSettled_of_pending (Docket.isPending_iff.2 hp)
  | recalled =>
      refine .settle hid (releaseDriver_openOrders _) fun hs => ?_
      -- An offer that is still out was out before.
      rw [releaseDriver_docket] at hs
      rcases Docket.isSettled_eq_false.1 hs with hp | ho
      · cases hp
      · exact Docket.isSettled_eq_false.2 (.inr ho)
  | completed hp =>
      refine .of_eq hid ?_ (completed_openOrders c)
      rw [completed_docket]
      refine Docket.isSettled_congr ?_ rfl
      simp [Docket.isPending, Order.isPending, hp]

end Case

namespace Desk

def Indexed (desk : Desk) : Prop :=
  ∀ order, order ∈ desk.floor.openOrders ↔
    ∃ docket, desk.docket? order = some docket ∧ docket.isSettled = false

theorem Indexed.congr {desk desk' : Desk} (h : desk.Indexed)
    (hd : desk'.dockets = desk.dockets)
    (ho : desk'.floor.openOrders = desk.floor.openOrders) : desk'.Indexed := by
  intro order
  rw [ho, docket?_congr hd]
  exact h order

theorem Indexed.listed {desk : Desk} (h : desk.Indexed) {docket : Docket}
    (hd : desk.docket? docket.id = some docket) : Case.Listed ⟨docket, desk.floor⟩ := by
  refine (h docket.id).trans ⟨?_, fun hs => ⟨docket, hd, hs⟩⟩
  rintro ⟨found, hf, hs⟩
  rw [hd] at hf
  rwa [Option.some.inj hf]

theorem Indexed.putBack {desk : Desk} (h : desk.Indexed) {docket : Docket} {c : Case}
    (hd : desk.docket? docket.id = some docket) (hf : Case.Files ⟨docket, desk.floor⟩ c) :
    (desk.putBack c).Indexed := by
  intro order
  rw [docket?_putBack]
  split
  · next he =>
      subst he
      refine (hf.listed (h.listed hd)).trans ⟨fun hs => ⟨_, rfl, hs⟩, ?_⟩
      rintro ⟨found, hfound, hs⟩
      rwa [Option.some.inj hfound]
  · next hne =>
      have hother : order ≠ docket.id := fun he => hne (hf.id_eq.trans he.symm)
      exact (hf.aside order hother).trans (h order)

theorem Indexed.enter {desk : Desk} (h : desk.Indexed) (request : Order.NewOrder) :
    (desk.enter (desk.draftOrder request)).Indexed := by
  intro order
  rw [docket?_enter]
  refine Floor.mem_openOrder.trans ?_
  split
  · next he => exact ⟨fun _ => ⟨_, rfl, rfl⟩, fun _ => .inl he.symm⟩
  · next hne =>
      refine Iff.trans ⟨fun hm => ?_, .inr⟩ (h order)
      exact hm.resolve_left fun he => hne he.symm

theorem Move.indexed {desk desk' : Desk} (h : Move desk desk') (hx : desk.Indexed) :
    desk'.Indexed := by
  cases h with
  | worked hd hm => exact hx.putBack hd (Case.Moves.files hm)
  | entered => exact hx.enter _
  | reported | madeAvailable | sweepCounted => exact hx.congr rfl rfl

theorem Moves.indexed {desk desk' : Desk} (h : Moves desk desk') (hx : desk.Indexed) :
    desk'.Indexed := by
  induction h with
  | refl => exact hx
  | tail _ hm ih => exact hm.indexed ih

theorem Turn.indexed {desk desk' : Desk} {cmd : Command} (h : Turn desk cmd desk')
    (hx : desk.Indexed) : desk'.Indexed := by
  cases h with
  | passed _ hm => exact Moves.indexed hm.moves hx
  | decided hd _ hc => exact hx.putBack hd hc.files
  | @woken place _ _ _ _ hd hr =>
      have htaken : (desk.takeSearch place).Indexed := hx.congr rfl rfl
      rw [← id_of_docket? hd] at hd
      exact htaken.putBack hd hr.files
  | lost | claimed | freed | clockSet => exact hx.congr rfl rfl

theorem run_indexed {desk : Desk} (hs : desk.Sound) (h : desk.Indexed)
    (cmds : List Command) : (desk.run cmds).Indexed := run_kept Turn.indexed hs h cmds

theorem opening_indexed (settings : Settings) (start : Instant) :
    (opening settings start).Indexed := by
  intro order
  refine ⟨fun hm => (by cases hm), ?_⟩
  rintro ⟨docket, hd, -⟩
  cases hd

/-! ## Going through the open orders -/

theorem mem_openDockets {desk : Desk} (h : desk.Indexed) {docket : Docket} :
    docket ∈ desk.openDockets ↔ docket ∈ desk.dockets.items ∧ docket.isSettled = false := by
  rw [openDockets, List.mem_filterMap, Register.mem_items]
  constructor
  · rintro ⟨order, hm, hd⟩
    obtain rfl := id_of_docket? hd
    obtain ⟨found, hf, hs⟩ := (h docket.id).1 hm
    obtain rfl := Option.some.inj (hd.symm.trans hf)
    exact ⟨hd, hs⟩
  · rintro ⟨hd, hs⟩
    exact ⟨docket.id, (h docket.id).2 ⟨docket, hd, hs⟩, hd⟩

/-- The dockets of the open orders are those not settled, each once. -/
theorem openDockets_perm {desk : Desk} (hs : desk.Sound) (h : desk.Indexed) :
    desk.openDockets.Perm (desk.dockets.items.filter fun d => !d.isSettled) := by
  have hopen : desk.openDockets.Nodup := by
    refine hs.distinct.filterMap fun order order' docket hd hd' => ?_
    exact (id_of_docket? hd).symm.trans (id_of_docket? hd')
  have hall : desk.dockets.items.Nodup := .of_map _ desk.dockets.nodup
  refine (List.perm_ext_iff_of_nodup hopen (hall.filter _)).2 fun docket => ?_
  rw [mem_openDockets h, List.mem_filter, Bool.not_eq_true']

end Desk

/-- The offers of a docket that are out. -/
def Docket.outstanding (d : Docket) : List Offer := d.offers.filter (·.isOutstanding)

theorem Docket.hasOutstanding_iff {d : Docket} :
    d.hasOutstanding = true ↔ ∃ o ∈ d.offers, o.status = .requested := by
  simp only [hasOutstanding, List.any_eq_true, Offer.isOutstanding_iff]

theorem Docket.outstanding_of_settled {d : Docket} (h : d.isSettled = true) :
    d.outstanding = [] := by
  refine List.filter_eq_nil_iff.2 fun o ho hout => ?_
  have hn : d.hasOutstanding = true := List.any_eq_true.2 ⟨o, ho, hout⟩
  simp [isSettled, hn] at h

/-- Settled dockets have no part in the offers that are out. -/
theorem Docket.flatMap_outstanding_filter (dockets : List Docket) :
    (dockets.filter fun d => !d.isSettled).flatMap Docket.outstanding =
      dockets.flatMap Docket.outstanding := by
  induction dockets with
  | nil => rfl
  | cons d rest ih =>
      cases hs : d.isSettled with
      | true => simp [hs, ih, outstanding_of_settled hs]
      | false => simp [hs, ih]

theorem Docket.filter_isPending_filter (dockets : List Docket) :
    (dockets.filter fun d => !d.isSettled).filter (·.isPending) =
      dockets.filter (·.isPending) := by
  rw [List.filter_filter]
  refine List.filter_congr fun d _ => ?_
  cases hp : d.isPending <;> simp [isSettled, hp]

namespace Desk

/-- After every run an order is on the list of open orders exactly if it is on
record and waits or has an offer out. So whoever goes through the open orders
comes to the same dockets that are not settled, the same orders that wait and
the same offers that are out as one who goes through all orders, each as
often. -/
theorem open_orders_are_exact (settings : Settings) (start : Instant)
    (cmds : List Command) :
    let desk := (opening settings start).run cmds
    (∀ order, order ∈ desk.floor.openOrders ↔
      ∃ docket, desk.docket? order = some docket ∧
        (docket.order.status = .pending ∨ ∃ o ∈ docket.offers, o.status = .requested)) ∧
    desk.openDockets.Perm (desk.dockets.items.filter fun d => !d.isSettled) ∧
    (desk.openDockets.filter (·.isPending)).Perm
      (desk.dockets.items.filter (·.isPending)) ∧
    (desk.openDockets.flatMap Docket.outstanding).Perm
      (desk.dockets.items.flatMap Docket.outstanding) := by
  intro desk
  have hs : desk.Sound := run_sound (opening_sound settings start) cmds
  have hx : desk.Indexed :=
    run_indexed (opening_sound settings start) (opening_indexed settings start) cmds
  have hperm := openDockets_perm hs hx
  refine ⟨fun order => ?_, hperm, ?_, ?_⟩
  · simp only [hx order, Docket.isSettled_eq_false, Docket.isPending_iff,
      Docket.hasOutstanding_iff]
  · rw [← Docket.filter_isPending_filter desk.dockets.items]
    exact hperm.filter _
  · rw [← Docket.flatMap_outstanding_filter desk.dockets.items]
    exact hperm.flatMap_right _

end Desk

end Hailing
