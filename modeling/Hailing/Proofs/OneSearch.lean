import Hailing.Proofs.Watching

/-!
# One search at a time

While a search of an order is asleep, the order has no other search and no offer out
(`Docket.Pursued`), so no dispatch of it does anything. This is what is left of
`Docket.Watched` when going on with a search may break down: the flag then stays
behind without a search, but never a search without the flag.

That searches are lost in this way is why it is stated as a rule (`Case.Rule`) and not
as a law of dockets. A rule is about a docket and the searches asleep for its order,
and still holds if there are fewer of these. That is all that is needed to get from the
steps of a case to the runs of a desk (`Desk.run_obeys`).
-/

namespace Hailing

open Time (Instant)

/-! ## Rules -/

/-- What every step keeps about a docket and the searches asleep for its order. -/
structure Case.Rule (P : Docket → Floor → Prop) : Prop where
  fewer : ∀ {d : Docket} {f f' : Floor}, P d f → f'.settings = f.settings →
    (f'.asleep d.id).Sublist (f.asleep d.id) → P d f'
  new : ∀ {record : Order} {f : Floor}, f.asleep record.id = [] → P (.new record) f
  moved : ∀ {c c' : Case}, Move c c' → P c.docket c.floor → P c'.docket c'.floor
  decided : ∀ {c c' : Case} {cmd : Command}, Decided c cmd c' →
    P c.docket c.floor → P c'.docket c'.floor
  /-- The search that goes on was asleep on the floor before. -/
  resumed : ∀ {c c' : Case} {f : Floor} {search : Search}, Resumed search.radii c c' →
    P c.docket f → c.floor.settings = f.settings → search ∈ f.asleep c.docket.id →
    (c.floor.asleep c.docket.id).Sublist (f.asleep c.docket.id) →
    (f.asleep c.docket.id).length = (c.floor.asleep c.docket.id).length + 1 →
    P c'.docket c'.floor

theorem Case.Rule.moves {P : Docket → Floor → Prop} (hP : Case.Rule P) {c c' : Case}
    (h : Case.Moves c c') (hc : P c.docket c.floor) : P c'.docket c'.floor := by
  induction h with
  | refl => exact hc
  | tail _ hm ih => exact hP.moved hm ih

namespace Desk

/-- All dockets obey a rule. -/
def Obeys (P : Docket → Floor → Prop) (desk : Desk) : Prop :=
  ∀ order docket, desk.docket? order = some docket → P docket desk.floor

section Rules

variable {P : Docket → Floor → Prop} {desk desk' : Desk}

theorem asleep_takeSearch_sublist (place : Nat) (desk : Desk) (order : Uuid) :
    ((desk.takeSearch place).floor.asleep order).Sublist (desk.floor.asleep order) :=
  (List.eraseIdx_sublist _ _).filter _

theorem Obeys.putBack (hP : Case.Rule P) (h : desk.Obeys P) {c : Case}
    (hs : c.floor.settings = desk.settings) (hc : P c.docket c.floor)
    (haside : ∀ {order}, order ≠ c.docket.id →
      (c.floor.asleep order).Sublist (desk.floor.asleep order)) : (desk.putBack c).Obeys P := by
  intro order found hf
  rcases docket?_putBack_cases hf with ⟨-, rfl⟩ | ⟨hne, hf⟩
  · exact hc
  · exact hP.fewer (h _ _ hf) hs (haside (by rw [id_of_docket? hf]; exact hne.symm))

theorem Obeys.worked (hP : Case.Rule P) (h : desk.Obeys P) {docket : Docket} {c : Case}
    (hd : desk.docket? docket.id = some docket) (hm : Case.Moves ⟨docket, desk.floor⟩ c) :
    (desk.putBack c).Obeys P := by
  have hid : c.docket.id = docket.id := congrArg Order.id hm.order_eq
  refine h.putBack hP hm.steady.settings (hP.moves hm (h _ _ hd)) fun hne => ?_
  rw [hm.asleep_eq (.inr (hid ▸ hne))]

theorem Move.obeys (hP : Case.Rule P) (hm : Move desk desk') (hk : desk.SearchesKnown)
    (hi : desk'.floor.issued ≤ Uuid.capacity) (h : desk.Obeys P) : desk'.Obeys P := by
  cases hm with
  | worked hd hm => exact h.worked hP hd hm
  | @entered request _ hn =>
      rw [enter_issued] at hi
      intro order found hf
      have hasleep : ∀ order, (desk.enter (desk.draftOrder request)).floor.asleep order =
          desk.floor.asleep order := Floor.asleep_congr (Floor.openOrder_sleeping _ _)
      rw [docket?_enter] at hf
      split at hf
      · obtain rfl := Option.some.inj hf
        exact hP.new ((hasleep _).trans (hk _ (hn hi)))
      · refine hP.fewer (h _ _ hf) (enter_steady _ _).settings ?_
        rw [hasleep]
  | reported | madeAvailable | sweepCounted =>
      exact fun _ _ hf => hP.fewer (h _ _ hf) rfl (List.Sublist.refl _)

theorem Moves.obeys (hP : Case.Rule P) (hm : Moves desk desk') (hk : desk.SearchesKnown)
    (hi : desk'.floor.issued ≤ Uuid.capacity) (h : desk.Obeys P) : desk'.Obeys P := by
  induction hm with
  | refl => exact h
  | tail hms hm ih =>
      exact hm.obeys hP (Moves.searchesKnown hms hk) hi (ih (Nat.le_trans hm.issued_le hi))

theorem Turn.obeys (hP : Case.Rule P) {cmd : Command} (ht : Turn desk cmd desk')
    (hk : desk.SearchesKnown) (hi : desk'.floor.issued ≤ Uuid.capacity) (h : desk.Obeys P) :
    desk'.Obeys P := by
  cases ht with
  | passed _ hm => exact Moves.obeys hP hm.moves hk hi h
  | decided hd _ hc =>
      refine h.putBack hP hc.steady.settings (hP.decided hc (h _ _ hd)) fun _ => ?_
      rw [Floor.asleep_congr hc.sleeping_eq]
  | @woken place search docket c hs hd hr =>
      have hid := id_of_docket? hd
      have hmem : search ∈ desk.floor.asleep docket.id :=
        Floor.mem_asleep.2 ⟨List.mem_of_getElem? hs, hid.symm⟩
      have hone := length_asleep_takeSearch hs
      rw [← hid] at hone
      have hsame : c.docket.id = docket.id := congrArg Order.id hr.order_eq
      refine h.putBack hP hr.steady.settings (hP.resumed hr (h _ _ hd) rfl hmem
        (asleep_takeSearch_sublist _ _ _) hone) fun hne => ?_
      rw [hr.asleep_eq (.inr (hsame ▸ hne))]
      exact asleep_takeSearch_sublist _ _ _
  | lost => exact fun _ _ hf => hP.fewer (h _ _ hf) rfl (asleep_takeSearch_sublist _ _ _)
  | claimed | freed | clockSet => exact fun _ _ hf => hP.fewer (h _ _ hf) rfl (List.Sublist.refl _)

theorem run_obeys (hP : Case.Rule P) {settings : Settings} {start : Instant}
    {cmds : List Command} (hi : ((opening settings start).run cmds).floor.issued ≤ Uuid.capacity) :
    ((opening settings start).run cmds).Obeys P := by
  have hopen := opening_sound settings start
  refine run_induction (P := fun _ desk => desk.Obeys P) hopen (fun _ _ hf => by cases hf)
    (fun cmds cmd _ ht hi h => ?_) hi
  exact ht.obeys hP (run_searchesKnown hopen (opening_searchesKnown settings start) cmds) hi h

end Rules

end Desk

theorem Floor.asleep_sleep (order : Uuid) (radii : Radii) (f : Floor) :
    (f.sleep order radii).asleep order =
      f.asleep order ++ [⟨order, radii, f.clock.ticks + f.settings.radiusWait⟩] := by
  simp [sleep, asleep]

theorem Floor.asleep_sleep_of_nil {order : Uuid} {f : Floor} (h : f.asleep order = [])
    (radii : Radii) :
    (f.sleep order radii).asleep order =
      [⟨order, radii, f.clock.ticks + f.settings.radiusWait⟩] := by
  rw [asleep_sleep, h, List.nil_append]

/-! ## Nothing else is under way while a search is asleep -/

/-- If a search of the order is asleep, it is the only one, there is no offer out, and the
flag is set if the order waits. -/
structure Docket.Pursued (d : Docket) (f : Floor) : Prop where
  single : (f.asleep d.id).length ≤ 1
  free : f.asleep d.id ≠ [] → d.hasOutstanding = false
  flagged : f.asleep d.id ≠ [] → d.isPending = true → d.searching = true

namespace Docket.Pursued

variable {d d' : Docket} {f f' : Floor}

theorem of_nil (h : f.asleep d.id = []) : d.Pursued f :=
  ⟨by simp [h], fun hne => absurd h hne, fun hne => absurd h hne⟩

/-- A dispatch does nothing while a search is asleep. -/
theorem skipped (h : d.Pursued f) (ha : f.asleep d.id ≠ []) : d.skipReason? ≠ none := by
  intro hs
  obtain ⟨hp, -, hidle⟩ := Docket.skipReason?_eq_none.1 hs
  have hflag := h.flagged ha hp
  rw [hidle] at hflag
  cases hflag

theorem asleep_eq_nil (h : d.Pursued f) (hs : d.skipReason? = none) : f.asleep d.id = [] := by
  by_contra hne
  exact h.skipped hne hs

/-- An offer is only out when no search is asleep. -/
theorem asleep_of_out (h : d.Pursued f) (ho : d.hasOutstanding = true) : f.asleep d.id = [] := by
  by_contra hne
  have hfree := h.free hne
  rw [ho] at hfree
  cases hfree

/-- The searches asleep may become fewer, the order may cease to wait, and what was
excluded does not matter. -/
theorem congr (h : d.Pursued f) (hid : d'.id = d.id) (ho : d'.offers = d.offers)
    (hp : d'.isPending = true → d.isPending = true ∧ d'.searching = d.searching)
    (ha : (f'.asleep d.id).Sublist (f.asleep d.id)) : d'.Pursued f' := by
  have hne : f'.asleep d'.id ≠ [] → f.asleep d.id ≠ [] := by
    rw [hid]
    intro hne hnil
    rw [hnil, List.sublist_nil] at ha
    exact hne ha
  refine ⟨?_, fun hne' => ?_, fun hne' hwait => ?_⟩
  · rw [hid]
    exact Nat.le_trans ha.length_le h.single
  · rw [Docket.hasOutstanding, ho]
    exact h.free (hne hne')
  · obtain ⟨hp, hs⟩ := hp hwait
    rw [hs]
    exact h.flagged (hne hne') hp

end Docket.Pursued

namespace Case

theorem Dispatched.pursued {c c' : Case} {outcome : Outcome} (h : Dispatched c outcome c')
    (hc : c.docket.Pursued c.floor) : c'.docket.Pursued c'.floor := by
  cases h with
  | skipped => exact hc
  | offered hs | exhausted hs => exact .of_nil (hc.asleep_eq_nil hs)
  | searching hs =>
      obtain ⟨-, hn, -⟩ := Docket.skipReason?_eq_none.1 hs
      refine ⟨?_, fun _ => hn, fun _ _ => rfl⟩
      exact Nat.le_of_eq (congrArg List.length
        (Floor.asleep_sleep_of_nil (hc.asleep_eq_nil hs) _))

theorem pursued_rule : Rule Docket.Pursued where
  fewer h _ ha := h.congr rfl rfl (fun hp => ⟨hp, rfl⟩) ha
  new h := .of_nil h
  moved := by
    intro c c' hm hc
    cases hm with
    | dispatched hd => exact hd.pursued hc
    | excluded driver =>
        refine hc.congr (congrArg Order.id (Docket.exclude_order _ _)) (Docket.exclude_offers _ _)
          (fun hp => ⟨?_, Docket.exclude_searching _ _⟩) (List.Sublist.refl _)
        rwa [Docket.isPending, onDocket, Docket.exclude_order] at hp
    | @closed offer status hl ho =>
        have hid : (c.drop offer status).docket.id = c.docket.id :=
          congrArg Order.id (Docket.exclude_order _ _)
        refine .of_nil ?_
        show (Floor.settle _ _).asleep (c.drop offer status).docket.id = []
        rw [hid, Floor.asleep_congr (Floor.settle_sleeping _ _)]
        exact hc.asleep_of_out (Docket.hasOutstanding_of_last hl ho)
    | settled =>
        refine hc.congr rfl rfl (fun hp => ⟨hp, rfl⟩) ?_
        rw [settle, onFloor, Floor.asleep_congr (Floor.settle_sleeping _ _)]
  decided := by
    intro c c' cmd hd hc
    have hasleep : c'.floor.asleep c.docket.id = c.floor.asleep c.docket.id :=
      Floor.asleep_congr hd.sleeping_eq _
    have hfewer : (c'.floor.asleep c.docket.id).Sublist (c.floor.asleep c.docket.id) := by
      rw [hasleep]
    have hid := hd.id_eq
    cases hd with
    | taken _ hl ho =>
        refine .of_nil ?_
        rw [hid, hasleep]
        exact hc.asleep_of_out (Docket.hasOutstanding_of_last hl ho)
    | withdrawn => exact hc.congr rfl rfl (fun hp => by cases hp) hfewer
    | recalled =>
        refine hc.congr hid ?_ (fun hp => ?_) hfewer
        · show (releaseDriver _).docket.offers = _
          rw [releaseDriver_docket]
          rfl
        · have hover : (releaseDriver _).docket.isPending = true := hp
          rw [releaseDriver_docket] at hover
          cases hover
    | completed =>
        refine hc.congr hid ?_ (fun hp => ?_) hfewer
        · rw [completed_docket]
        · rw [completed_docket] at hp
          cases hp
  resumed := by
    intro c c' f search hr hc _ hmem _ hone
    have hnil : c.floor.asleep c.docket.id = [] := by
      have hle := hc.single
      exact List.length_eq_zero_iff.1 (by omega)
    have hne := List.ne_nil_of_mem hmem
    cases hr with
    | abandoned | offered | exhausted => exact .of_nil hnil
    | widened hp hn =>
        refine ⟨?_, fun _ => hn, fun _ _ => hc.flagged hne hp⟩
        exact Nat.le_of_eq (congrArg List.length (Floor.asleep_sleep_of_nil hnil _))

end Case

end Hailing
