import Mathlib.Data.List.Forall2
import Hailing.Proofs.OpenOrders
import Hailing.Proofs.Trips

/-!
# What a driver is shown

The list of a driver's offers is put together docket by docket, and a view is made of
each offer as it is found; only then are the views sorted. What is said of the list is
said of the offers, though, and of these in the order in which they are shown
(`Desk.outTo`). The two go together view by view (`offersOf_shows`): sorting looks at
nothing but what a view has from its offer and its order, so it may as well be done
before the views are made (`List.Forall₂.mergeSort`).

The list is complete or there is none. A view can only fail to be made when the time
that is left is not one the desk can reckon with, and one such offer spoils the whole
list (`offersOf_isOk_iff`).
-/

namespace Hailing

open Time (Instant Span)

/-! ## Lists made in one go -/

section Lists

variable {α β γ ε : Type}

theorem mapM_eq_ok_iff {f : α → Except ε β} {as : List α} {bs : List β} :
    as.mapM f = .ok bs ↔ List.Forall₂ (fun a b => f a = .ok b) as bs := by
  induction as generalizing bs with
  | nil => cases bs <;> simp [pure, Except.pure]
  | cons a rest ih =>
      rw [List.mapM_cons]
      cases hf : f a with
      | error => cases bs <;> simp [bind, Except.bind, hf]
      | ok b =>
          cases hr : rest.mapM f with
          | error => cases bs <;> simp [bind, Except.bind, hf, hr, ← ih]
          | ok more => cases bs <;> simp [bind, Except.bind, pure, Except.pure, hf, hr, ← ih]

theorem exists_mapM_eq_ok {f : α → Except ε β} {as : List α}
    (h : ∀ a ∈ as, ∃ b, f a = .ok b) : ∃ bs, as.mapM f = .ok bs := by
  induction as with
  | nil => exact ⟨[], rfl⟩
  | cons a rest ih =>
      obtain ⟨b, hb⟩ := h a List.mem_cons_self
      obtain ⟨bs, hbs⟩ := ih fun a ha => h a (List.mem_cons_of_mem _ ha)
      exact ⟨b :: bs, mapM_eq_ok_iff.2 (.cons hb (mapM_eq_ok_iff.1 hbs))⟩

/-- Two lists that go together still do when they are sorted alike. -/
theorem forall₂_mergeSort {R : α → β → Prop} {r : α → α → Bool} {s : β → β → Bool}
    (hrs : ∀ {a b a' b'}, R a b → R a' b' → r a a' = s b b') {as : List α} {bs : List β}
    (h : List.Forall₂ R as bs) : List.Forall₂ R (as.mergeSort r) (bs.mergeSort s) := by
  have hlength := h.length_eq
  have hpair : ∀ p ∈ as.zip bs, R p.1 p.2 := fun p hp => List.forall₂_zip h hp
  have hfst : ((as.zip bs).mergeSort fun p q => r p.1 q.1).map Prod.fst = as.mergeSort r := by
    rw [List.map_mergeSort (f := Prod.fst) (s := r) fun _ _ _ _ => rfl,
      List.map_fst_zip (Nat.le_of_eq hlength)]
  have hsnd : ((as.zip bs).mergeSort fun p q => r p.1 q.1).map Prod.snd = bs.mergeSort s := by
    rw [List.map_mergeSort (f := Prod.snd) (s := s) fun p hp q hq => hrs (hpair p hp) (hpair q hq),
      List.map_snd_zip (Nat.le_of_eq hlength.symm)]
  rw [← hfst, ← hsnd, List.forall₂_map_left_iff, List.forall₂_map_right_iff, List.forall₂_same]
  exact fun p hp => hpair p (List.mem_mergeSort.1 hp)

/-- Two lists that go together with a third one go together. -/
theorem forall₂_beside {R : α → β → Prop} {S : α → γ → Prop} {as : List α} {bs : List β}
    {cs : List γ} (hb : List.Forall₂ R as bs) (hc : List.Forall₂ S as cs) :
    List.Forall₂ (fun b c => ∃ a ∈ as, R a b ∧ S a c) bs cs := by
  induction hb generalizing cs with
  | nil =>
      cases hc
      exact .nil
  | cons hab _ ih =>
      cases hc with
      | cons hac hrest =>
          refine .cons ⟨_, List.mem_cons_self, hab, hac⟩ ((ih hrest).imp fun b c hbc => ?_)
          obtain ⟨a, ha, hr⟩ := hbc
          exact ⟨a, List.mem_cons_of_mem _ ha, hr⟩

theorem exists_of_forall₂_left {R : α → β → Prop} {as : List α} {bs : List β}
    (h : List.Forall₂ R as bs) {a : α} (ha : a ∈ as) : ∃ b ∈ bs, R a b := by
  induction h with
  | nil => cases ha
  | cons hab _ ih =>
      rcases List.mem_cons.1 ha with rfl | ha
      · exact ⟨_, List.mem_cons_self, hab⟩
      · obtain ⟨b, hb, hr⟩ := ih ha
        exact ⟨b, List.mem_cons_of_mem _ hb, hr⟩

end Lists

/-! ## Offers and their views -/

/-- The view of an offer, with the docket that it is on. -/
structure Offer.View.Shows (window : Span) (now : Instant) (d : Docket) (o : Offer)
    (v : Offer.View) : Prop where
  offer : v.offer = o.id
  order : v.order = d.id
  code : v.orderCode = d.order.code
  pickup : d.order.pickup? = some v.pickup
  distance : v.distance = o.distance
  requestedAt : v.requestedAt = o.requestedAt
  remaining : Desk.remainingSeconds window now o = .ok v.remainingSeconds

/-- The offers of an order that waits that are out to a driver. -/
def Docket.offersTo (driver : Uuid) (d : Docket) : List Offer :=
  match d.isPending, d.order.pickup? with
  | true, some _ => d.offers.filter (·.isOutstandingFor driver)
  | _, _ => []

namespace Docket

variable {driver : Uuid} {d : Docket}

theorem offersTo_of_waiting {pickup : Geo.Point} (hw : d.isPending = true)
    (hp : d.order.pickup? = some pickup) :
    d.offersTo driver = d.offers.filter (·.isOutstandingFor driver) := by
  rw [offersTo, hw, hp]

theorem offersTo_eq_nil
    (hn : ∀ pickup, d.isPending = true → d.order.pickup? = some pickup → False) :
    d.offersTo driver = [] := by
  unfold offersTo
  split
  · next hw hp => exact (hn _ hw hp).elim
  · rfl

theorem mem_offersTo {o : Offer} :
    o ∈ d.offersTo driver ↔ d.order.status = .pending ∧ d.order.pickup?.isSome = true ∧
      o ∈ d.offers ∧ o.status = .requested ∧ o.driver = driver := by
  unfold offersTo
  split
  · next hw hp => simp [isPending_iff.1 hw, hp, Offer.isOutstandingFor, Offer.isOutstanding]
  · next hn =>
      simp only [List.not_mem_nil, false_iff]
      rintro ⟨hw, hp, -⟩
      obtain ⟨pickup, hp⟩ := Option.isSome_iff_exists.1 hp
      exact hn pickup (isPending_iff.2 hw) hp

end Docket

namespace Desk

variable {desk : Desk} {driver : Uuid}

/-- The offers that are out to a driver, each with its docket, the oldest first; of two
equally old ones the one whose order has the smaller code. -/
def outTo (driver : Uuid) (desk : Desk) : List (Docket × Offer) :=
  (desk.openDockets.flatMap fun d => (d.offersTo driver).map fun o => (d, o)).mergeSort
    fun a b => a.2.requestedAt < b.2.requestedAt ||
      (a.2.requestedAt ≤ b.2.requestedAt && a.1.order.code ≤ b.1.order.code)

theorem mem_outTo {x : Docket × Offer} :
    x ∈ desk.outTo driver ↔ x.1 ∈ desk.openDockets ∧ x.2 ∈ x.1.offersTo driver := by
  obtain ⟨d, o⟩ := x
  simp only [outTo, List.mem_mergeSort, List.mem_flatMap, List.mem_map, Prod.mk.injEq]
  constructor
  · rintro ⟨d, hd, o, ho, rfl, rfl⟩
    exact ⟨hd, ho⟩
  · rintro ⟨hd, ho⟩
    exact ⟨d, hd, o, ho, rfl, rfl⟩

theorem views_shows {d : Docket} {found : List Offer.View} (h : views driver desk d = .ok found) :
    List.Forall₂ (Offer.View.Shows desk.settings.offerSpan desk.now d) (d.offersTo driver)
      found := by
  unfold views at h
  split at h
  · next pickup hw hp =>
      rw [Docket.offersTo_of_waiting hw hp]
      refine (mapM_eq_ok_iff.1 h).imp fun o v hv => ?_
      cases hr : remainingSeconds desk.settings.offerSpan desk.now o with
      | error => simp [hr, bind, Except.bind] at hv
      | ok remaining =>
          simp only [hr, bind, Except.bind, pure, Except.pure] at hv
          cases hv
          exact ⟨rfl, rfl, rfl, hp, rfl, rfl, hr⟩
  · next hn =>
      cases h
      rw [Docket.offersTo_eq_nil hn]
      exact .nil

theorem exists_views {d : Docket} (h : ∀ o ∈ d.offersTo driver, ∃ remaining,
      remainingSeconds desk.settings.offerSpan desk.now o = .ok remaining) :
    ∃ found, views driver desk d = .ok found := by
  unfold views
  split
  · next pickup hw hp =>
      rw [Docket.offersTo_of_waiting hw hp] at h
      refine exists_mapM_eq_ok fun o ho => ?_
      obtain ⟨remaining, hr⟩ := h o ho
      rw [hr]
      exact ⟨_, rfl⟩
  · exact ⟨[], rfl⟩

/-- The list shows the offers that are out to the driver, view by view. -/
theorem offersOf_shows {listed : List Offer.View} (h : desk.offersOf driver = .ok listed) :
    List.Forall₂ (fun x => Offer.View.Shows desk.settings.offerSpan desk.now x.1 x.2)
      (desk.outTo driver) listed := by
  cases hf : desk.openDockets.mapM (views driver desk) with
  | error => simp [offersOf, hf, bind, Except.bind] at h
  | ok found =>
      simp only [offersOf, hf, bind, Except.bind, pure, Except.pure] at h
      cases h
      have hfound := mapM_eq_ok_iff.1 hf
      refine forall₂_mergeSort ?_ ?_
      · intro x v y w hx hy
        rw [Offer.View.precedes, hx.requestedAt, hy.requestedAt, hx.code, hy.code]
      · rw [List.flatMap_def]
        refine List.rel_flatten ?_
        rw [List.forall₂_map_left_iff]
        refine hfound.imp fun d vs hd => ?_
        rw [List.forall₂_map_left_iff]
        exact views_shows hd

/-- There is a list exactly if each of the times that are left can be reckoned with. -/
theorem offersOf_isOk_iff : (∃ listed, desk.offersOf driver = .ok listed) ↔
    ∀ x ∈ desk.outTo driver, ∃ remaining,
      remainingSeconds desk.settings.offerSpan desk.now x.2 = .ok remaining := by
  constructor
  · rintro ⟨listed, h⟩ x hx
    obtain ⟨v, -, hv⟩ := exists_of_forall₂_left (offersOf_shows h) hx
    exact ⟨_, hv.remaining⟩
  · intro h
    obtain ⟨found, hf⟩ : ∃ found, desk.openDockets.mapM (views driver desk) = .ok found :=
      exists_mapM_eq_ok fun d hd => exists_views fun o ho => h (d, o) (mem_outTo.2 ⟨hd, ho⟩)
    exact ⟨_, by rw [offersOf, hf]; rfl⟩

/-! ## On a desk after a run -/

/-- The offer is out to the driver, and its order waits. The list of the open orders is not
asked. -/
structure LiveFor (driver : Uuid) (desk : Desk) (docket : Docket) (offer : Offer) : Prop where
  known : desk.docket? docket.id = some docket
  waits : docket.order.status = .pending
  mem : offer ∈ docket.offers
  out : offer.status = .requested
  asked : offer.driver = driver

/-- Such an offer is the last one of its docket. -/
theorem LiveFor.last (hs : desk.Sound) {docket : Docket} {offer : Offer}
    (h : desk.LiveFor driver docket offer) : docket.offers.getLast? = some offer :=
  (hs.orderly h.known).oneOpen.last_of_out h.mem h.out

section Runs

variable {listed : List Offer.View}

/-- On a desk after a run nothing is missing: an order that waits is open and has a pickup. -/
theorem mem_outTo_iff (hx : desk.Indexed) (hr : desk.Routed) {d : Docket} {o : Offer} :
    (d, o) ∈ desk.outTo driver ↔ desk.LiveFor driver d o := by
  rw [mem_outTo, Docket.mem_offersTo, mem_openDockets hx, Register.mem_items]
  constructor
  · rintro ⟨⟨hd, -⟩, hw, -, hmem, hout, hfor⟩
    exact ⟨hd, hw, hmem, hout, hfor⟩
  · rintro ⟨hd, hw, hmem, hout, hfor⟩
    obtain ⟨pickup, _, hp, -⟩ := (hr hd).ends
    refine ⟨⟨hd, ?_⟩, hw, by rw [hp]; rfl, hmem, hout, hfor⟩
    exact Docket.isSettled_eq_false.2 (.inl (Docket.isPending_iff.2 hw))

/-- What is shown is out to the driver. -/
theorem live_of_shown (hx : desk.Indexed) (hr : desk.Routed)
    (h : desk.offersOf driver = .ok listed) {v : Offer.View} (hv : v ∈ listed) :
    ∃ docket offer, desk.LiveFor driver docket offer ∧
      v.Shows desk.settings.offerSpan desk.now docket offer := by
  obtain ⟨⟨docket, offer⟩, hmem, hshows⟩ := exists_of_forall₂_left (offersOf_shows h).flip hv
  exact ⟨docket, offer, (mem_outTo_iff hx hr).1 hmem, hshows⟩

/-- What is out to the driver is shown. -/
theorem shown_of_live (hx : desk.Indexed) (hr : desk.Routed)
    (h : desk.offersOf driver = .ok listed) {docket : Docket} {offer : Offer}
    (ho : desk.LiveFor driver docket offer) :
    ∃ v ∈ listed, v.Shows desk.settings.offerSpan desk.now docket offer :=
  exists_of_forall₂_left (offersOf_shows h) ((mem_outTo_iff hx hr).2 ho)

/-- Nothing else is shown of its order. -/
theorem shows_of_live (hs : desk.Sound) (hx : desk.Indexed) (hr : desk.Routed)
    (h : desk.offersOf driver = .ok listed) {docket : Docket} {offer : Offer}
    (ho : desk.LiveFor driver docket offer) {v : Offer.View} (hv : v ∈ listed)
    (he : v.order = docket.id) : v.Shows desk.settings.offerSpan desk.now docket offer := by
  obtain ⟨found, other, hf, hshows⟩ := live_of_shown hx hr h hv
  have hsame : found.id = docket.id := hshows.order.symm.trans he
  have hknown := hf.known
  rw [hsame] at hknown
  obtain rfl := Option.some.inj (hknown.symm.trans ho.known)
  obtain rfl := Option.some.inj ((hf.last hs).symm.trans (ho.last hs))
  exact hshows

end Runs

end Desk

end Hailing
