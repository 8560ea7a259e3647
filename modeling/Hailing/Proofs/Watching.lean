import Hailing.Proofs.Runs

/-!
# Flags and searches

The flag of a docket says whether the order is being searched for, and the
searches asleep are somewhere else. That the two agree (`Watched`) is kept by
every move, also in the middle of a command: nothing but a dispatch puts a
search to sleep, it does so for its own order, and it sets the flag with it.

A search that sleeps is not told when its order is cancelled. It finds out
when it wakes up, and this is the only thing for which a search is given up
(`Turn.abandoned_cases`): a driver can only accept an order when no search of
it is asleep.
-/

namespace Hailing

open Geo (Point)
open Time (Instant)

/-- The flag of a docket goes with the searches asleep. -/
structure Docket.Watched (f : Floor) (d : Docket) : Prop where
  waiting : d.isPending = true →
    (d.searching = true → d.hasOutstanding = false) ∧
    (f.asleep d.id).length = if d.searching then 1 else 0
  ended : d.isPending = false →
    d.searching = false ∧ (f.asleep d.id).length ≤ 1 ∧
    (f.asleep d.id ≠ [] → d.order.status = .cancelled)

namespace Docket

theorem Watched.congr {f f' : Floor} {d d' : Docket} (h : d.Watched f)
    (ho : d'.order = d.order) (hs : d'.searching = d.searching)
    (hout : d'.hasOutstanding = true → d.hasOutstanding = true)
    (ha : f'.asleep d.id = f.asleep d.id) : d'.Watched f' := by
  have hid : d'.id = d.id := congrArg Order.id ho
  have hp : d'.isPending = d.isPending := congrArg Order.isPending ho
  constructor
  · intro hw
    rw [hp] at hw
    rw [hid, ha, hs]
    refine ⟨fun h' => ?_, (h.waiting hw).2⟩
    cases hd : d'.hasOutstanding with
    | false => rfl
    | true => rw [(h.waiting hw).1 h'] at hout; cases hout hd
  · intro hw
    rw [hp] at hw
    rw [hid, ha, hs, ho]
    exact h.ended hw

theorem Watched.of_over {f : Floor} {d : Docket} (hp : d.isPending = false)
    (hs : d.searching = false)
    (ha : f.asleep d.id = [] ∨ (f.asleep d.id).length ≤ 1 ∧ d.order.status = .cancelled) :
    d.Watched f := by
  refine ⟨fun hw => absurd (hp.symm.trans hw) (by decide), fun _ => ⟨hs, ?_, fun hne => ?_⟩⟩
  · rcases ha with ha | ha
    · rw [ha]
      decide
    · exact ha.1
  · rcases ha with ha | ha
    · exact absurd ha hne
    · exact ha.2

theorem Watched.of_waiting {f : Floor} {d : Docket} (hp : d.isPending = true)
    (hs : d.searching = false) (ha : f.asleep d.id = []) : d.Watched f := by
  refine ⟨fun _ => ⟨fun h => absurd (hs.symm.trans h) (by decide), ?_⟩, fun hover => ?_⟩
  · rw [ha, hs]
    rfl
  · exact absurd (hp.symm.trans hover) (by decide)

/-- No search of an order is asleep unless its flag says so. -/
theorem Watched.asleep_eq_nil {f : Floor} {d : Docket} (h : d.Watched f)
    (hp : d.isPending = true) (hs : d.searching = false) : f.asleep d.id = [] := by
  have hlen := (h.waiting hp).2
  rw [hs] at hlen
  exact List.length_eq_zero_iff.1 hlen

theorem Watched.searching_of_asleep {f : Floor} {d : Docket} (h : d.Watched f)
    (hp : d.isPending = true) (ha : f.asleep d.id ≠ []) : d.searching = true := by
  cases hs : d.searching with
  | true => rfl
  | false => exact absurd (h.asleep_eq_nil hp hs) ha

theorem Watched.not_searching {f : Floor} {d : Docket} (h : d.Watched f)
    (hp : d.isPending = true) (ho : d.hasOutstanding = true) : d.searching = false := by
  cases hs : d.searching with
  | false => rfl
  | true => rw [(h.waiting hp).1 hs] at ho; cases ho

end Docket

namespace Case

/-! ## The flag and the searches asleep -/

/-- A search is put to sleep by nobody but its order, and only while the order
waits. -/
theorem Dispatched.asleep_eq {c c' : Case} {outcome : Outcome} (h : Dispatched c outcome c')
    {order : Uuid} (ho : c.docket.isPending = false ∨ order ≠ c.docket.id) :
    c'.floor.asleep order = c.floor.asleep order := by
  cases h with
  | skipped | offered | exhausted => rfl
  | searching hs =>
      rcases ho with hp | hne
      · rw [(Docket.skipReason?_eq_none.1 hs).1] at hp
        cases hp
      · exact Floor.asleep_sleep_of_ne hne _ _

theorem Move.asleep_eq {c c' : Case} (h : Move c c') {order : Uuid}
    (ho : c.docket.isPending = false ∨ order ≠ c.docket.id) :
    c'.floor.asleep order = c.floor.asleep order := by
  cases h with
  | dispatched hd => exact hd.asleep_eq ho
  | excluded => rfl
  | closed => exact Floor.asleep_congr (Floor.settle_sleeping _ _) order
  | settled => exact Floor.asleep_congr (Floor.settle_sleeping _ _) order

theorem Moves.asleep_eq {c c' : Case} (h : Moves c c') {order : Uuid}
    (ho : c.docket.isPending = false ∨ order ≠ c.docket.id) :
    c'.floor.asleep order = c.floor.asleep order := by
  induction h with
  | refl => rfl
  | tail hms hm ih =>
      have horder := Moves.order_eq hms
      refine (hm.asleep_eq ?_).trans ih
      rw [Docket.isPending, Docket.id, horder]
      exact ho

theorem Resumed.asleep_eq {radii : Radii} {c c' : Case} (h : Resumed radii c c')
    {order : Uuid} (ho : c.docket.isPending = false ∨ order ≠ c.docket.id) :
    c'.floor.asleep order = c.floor.asleep order := by
  cases h with
  | abandoned | offered | exhausted => rfl
  | widened hp =>
      rcases ho with hp' | hne
      · rw [hp] at hp'
        cases hp'
      · exact Floor.asleep_sleep_of_ne hne _ _

theorem completed_sleeping (c : Case) : c.completed.floor.sleeping = c.floor.sleeping := by
  unfold completed
  dsimp only
  split <;> rfl

theorem releaseDriver_sleeping (c : Case) :
    c.releaseDriver.floor.sleeping = c.floor.sleeping := by
  unfold releaseDriver
  split <;> rfl

theorem Decided.sleeping_eq {c c' : Case} {cmd : Command} (h : Decided c cmd c') :
    c'.floor.sleeping = c.floor.sleeping := by
  cases h with
  | taken _ _ _ hc =>
      refine (Floor.settle_sleeping _ _).trans ?_
      rw [(claim_eq hc).1]
      rfl
  | withdrawn => exact Floor.settle_sleeping _ _
  | recalled => exact (Floor.settle_sleeping _ _).trans (releaseDriver_sleeping _)
  | completed => exact completed_sleeping c

theorem Dispatched.watched {c c' : Case} {outcome : Outcome} (h : Dispatched c outcome c')
    (hw : c.docket.Watched c.floor) : c'.docket.Watched c'.floor := by
  cases h with
  | skipped => exact hw
  | offered hs =>
      obtain ⟨hp, -, hidle⟩ := Docket.skipReason?_eq_none.1 hs
      have hnil := hw.asleep_eq_nil hp hidle
      exact .of_waiting hp hidle hnil
  | searching hs =>
      obtain ⟨hp, hn, hidle⟩ := Docket.skipReason?_eq_none.1 hs
      have hlen := (hw.waiting hp).2
      refine ⟨fun _ => ⟨fun _ => hn, ?_⟩, fun hover => ?_⟩
      · refine (Floor.length_asleep_sleep _ _ _).trans ?_
        rw [hidle] at hlen
        exact congrArg _ hlen
      · exact absurd (hp.symm.trans hover) (by decide)
  | exhausted hs =>
      obtain ⟨hp, hn, hidle⟩ := Docket.skipReason?_eq_none.1 hs
      exact hw.congr rfl hidle.symm (fun ho => ho) rfl

theorem Move.watched {c c' : Case} (h : Move c c') (hw : c.docket.Watched c.floor) :
    c'.docket.Watched c'.floor := by
  cases h with
  | dispatched hd => exact hd.watched hw
  | excluded driver =>
      refine hw.congr (Docket.exclude_order _ _) (Docket.exclude_searching _ _) ?_ rfl
      show (c.docket.exclude driver).hasOutstanding = true → _
      rw [Docket.hasOutstanding, Docket.exclude_offers]
      exact fun ho => ho
  | closed hl ho =>
      refine hw.congr (Docket.exclude_order _ _) (Docket.exclude_searching _ _) ?_ ?_
      · exact fun _ => Docket.hasOutstanding_of_last hl ho
      · exact Floor.asleep_congr (Floor.settle_sleeping _ _) _
  | settled =>
      exact hw.congr rfl rfl (fun ho => ho)
        (Floor.asleep_congr (Floor.settle_sleeping _ _) _)

theorem Moves.watched {c c' : Case} (h : Moves c c') (hw : c.docket.Watched c.floor) :
    c'.docket.Watched c'.floor := by
  induction h with
  | refl => exact hw
  | tail _ hm ih => exact hm.watched ih

theorem Decided.watched {c c' : Case} {cmd : Command} (h : Decided c cmd c')
    (hw : c.docket.Watched c.floor) : c'.docket.Watched c'.floor := by
  have hasleep : c'.floor.asleep c'.docket.id = c.floor.asleep c.docket.id := by
    rw [h.id_eq]
    exact Floor.asleep_congr h.sleeping_eq _
  -- Whoever drives or has driven was found with no search asleep.
  have hdriven : c.docket.order.status = .confirmed → c.floor.asleep c.docket.id = [] := by
    intro hs
    have hp : c.docket.isPending = false := by simp [Docket.isPending, Order.isPending, hs]
    by_contra hne
    have hc := (hw.ended hp).2.2 hne
    rw [hs] at hc
    cases hc
  cases h with
  | taken hp hl ho =>
      have hp' := Docket.isPending_iff.2 hp
      have hs := hw.not_searching hp' (Docket.hasOutstanding_of_last hl ho)
      have hnil := hasleep.trans (hw.asleep_eq_nil hp' hs)
      exact .of_over rfl rfl (.inl hnil)
  | withdrawn hp =>
      have hlen := (hw.waiting (Docket.isPending_iff.2 hp)).2
      refine .of_over rfl rfl (.inr ⟨?_, rfl⟩)
      rw [hasleep, hlen]
      split <;> decide
  | recalled hp =>
      have hnil := hasleep.trans (hdriven hp)
      refine .of_over ?_ ?_ (.inl hnil)
      · show (releaseDriver _).docket.isPending = false
        rw [releaseDriver_docket]
        rfl
      · show (releaseDriver _).docket.searching = false
        rw [releaseDriver_docket]
        rfl
  | completed hp =>
      have hnil := hasleep.trans (hdriven hp)
      have hover : c.docket.isPending = false := by simp [Docket.isPending, Order.isPending, hp]
      refine .of_over ?_ ?_ (.inl hnil)
      · rw [completed_docket]
        rfl
      · rw [completed_docket]
        exact (hw.ended hover).1

/-- The search that goes on was the only one asleep. -/
theorem Resumed.watched {radii : Radii} {f : Floor} {c c' : Case} (h : Resumed radii c c')
    (hw : c.docket.Watched f)
    (hone : (f.asleep c.docket.id).length = (c.floor.asleep c.docket.id).length + 1) :
    c'.docket.Watched c'.floor := by
  have hle : (f.asleep c.docket.id).length ≤ 1 := by
    cases hp : c.docket.isPending with
    | true =>
        rw [(hw.waiting hp).2]
        split <;> decide
    | false => exact (hw.ended hp).2.1
  have hnil : c.floor.asleep c.docket.id = [] := List.length_eq_zero_iff.1 (by omega)
  have hsome : f.asleep c.docket.id ≠ [] := List.ne_nil_of_length_pos (by omega)
  cases h with
  | abandoned hn =>
      cases hp : c.docket.isPending with
      | true =>
          rw [hp, (hw.waiting hp).1 (hw.searching_of_asleep hp hsome)] at hn
          simp at hn
      | false => exact .of_over hp rfl (.inl hnil)
  | offered hp | exhausted hp => exact .of_waiting hp rfl hnil
  | widened hp hn =>
      refine ⟨fun _ => ⟨fun _ => hn, ?_⟩, fun hover => ?_⟩
      · refine (Floor.length_asleep_sleep _ _ _).trans ?_
        show (c.floor.asleep c.docket.id).length + 1 = if c.docket.searching then 1 else 0
        rw [hnil, hw.searching_of_asleep hp hsome]
        rfl
      · exact absurd (hp.symm.trans hover) (by decide)

/-! ## Searches that are given up

Only a search that wakes up can be given up. -/

theorem Dispatched.abandoned_eq {c c' : Case} {outcome : Outcome}
    (h : Dispatched c outcome c') :
    c'.floor.ledger.abandoned = c.floor.ledger.abandoned := by
  cases h <;> rfl

theorem Move.abandoned_eq {c c' : Case} (h : Move c c') :
    c'.floor.ledger.abandoned = c.floor.ledger.abandoned := by
  cases h with
  | dispatched hd => exact hd.abandoned_eq
  | excluded => rfl
  | closed _ _ hs =>
      refine (congrArg Ledger.abandoned (Floor.settle_ledger _ _)).trans ?_
      rcases hs with rfl | ⟨rfl, -⟩
      · rfl
      · rfl
  | settled => exact congrArg Ledger.abandoned (Floor.settle_ledger _ _)

theorem Moves.abandoned_eq {c c' : Case} (h : Moves c c') :
    c'.floor.ledger.abandoned = c.floor.ledger.abandoned := by
  induction h with
  | refl => rfl
  | tail _ hm ih => exact hm.abandoned_eq.trans ih

theorem releaseDriver_ledger (c : Case) : c.releaseDriver.floor.ledger = c.floor.ledger := by
  unfold releaseDriver
  split <;> rfl

theorem completed_ledger (c : Case) : c.completed.floor.ledger = c.floor.ledger := by
  unfold completed
  dsimp only
  split <;> rfl

theorem Decided.abandoned_eq {c c' : Case} {cmd : Command} (h : Decided c cmd c') :
    c'.floor.ledger.abandoned = c.floor.ledger.abandoned := by
  cases h with
  | taken _ _ _ hc =>
      refine (congrArg Ledger.abandoned (Floor.settle_ledger _ _)).trans ?_
      rw [(claim_eq hc).1]
      rfl
  | withdrawn =>
      refine (congrArg Ledger.abandoned (Floor.settle_ledger _ _)).trans ?_
      rfl
  | recalled =>
      refine (congrArg Ledger.abandoned (Floor.settle_ledger _ _)).trans ?_
      rw [releaseDriver_ledger]
      rfl
  | completed => rw [completed_ledger]

end Case

namespace Desk

/-! ## The searches asleep on a desk -/

section Asleep

variable {desk : Desk} {place : Nat} {search : Search}

/-- Where a search is among those asleep. -/
theorem sleeping_split (h : desk.floor.sleeping[place]? = some search) :
    ∃ before behind, desk.floor.sleeping = before ++ search :: behind ∧
      (desk.takeSearch place).floor.sleeping = before ++ behind := by
  obtain ⟨hlt, hget⟩ := List.getElem?_eq_some_iff.1 h
  refine ⟨desk.floor.sleeping.take place, desk.floor.sleeping.drop (place + 1), ?_, ?_⟩
  · rw [← hget, List.getElem_cons_drop, List.take_append_drop]
  · exact List.eraseIdx_eq_take_drop_succ _ _

theorem length_asleep_takeSearch (h : desk.floor.sleeping[place]? = some search) :
    (desk.floor.asleep search.order).length =
      ((desk.takeSearch place).floor.asleep search.order).length + 1 := by
  obtain ⟨before, behind, hs, ht⟩ := sleeping_split h
  rw [Floor.asleep, Floor.asleep, hs, ht]
  simp
  omega

theorem asleep_ne_nil (h : desk.floor.sleeping[place]? = some search) :
    desk.floor.asleep search.order ≠ [] :=
  List.ne_nil_of_mem (Floor.mem_asleep.2 ⟨List.mem_of_getElem? h, rfl⟩)

theorem asleep_takeSearch_of_ne (h : desk.floor.sleeping[place]? = some search)
    {order : Uuid} (hne : order ≠ search.order) :
    (desk.takeSearch place).floor.asleep order = desk.floor.asleep order := by
  obtain ⟨before, behind, hs, ht⟩ := sleeping_split h
  rw [Floor.asleep, Floor.asleep, hs, ht]
  simp [hne.symm]

theorem asleep_takeSearch_subset (order : Uuid) :
    (desk.takeSearch place).floor.asleep order ⊆ desk.floor.asleep order := by
  intro found hmem
  obtain ⟨hmem, ho⟩ := Floor.mem_asleep.1 hmem
  exact Floor.mem_asleep.2 ⟨List.eraseIdx_subset hmem, ho⟩

end Asleep

structure Watched (desk : Desk) : Prop where
  dockets : ∀ {order docket}, desk.docket? order = some docket → docket.Watched desk.floor
  nobody : ∀ {order}, desk.docket? order = none → desk.floor.asleep order = []

theorem Watched.congr {desk desk' : Desk} (h : desk.Watched)
    (hd : desk'.dockets = desk.dockets)
    (hs : desk'.floor.sleeping = desk.floor.sleeping) : desk'.Watched := by
  refine ⟨fun {order docket} hf => ?_, fun {order} hf => ?_⟩
  · rw [docket?_congr hd] at hf
    exact (h.dockets hf).congr rfl rfl (fun ho => ho) (Floor.asleep_congr hs _)
  · rw [docket?_congr hd] at hf
    rw [Floor.asleep_congr hs]
    exact h.nobody hf

theorem Watched.putBack {desk : Desk} (h : desk.Watched) {docket : Docket} {c : Case}
    (hid : c.docket.id = docket.id) (hw : c.docket.Watched c.floor)
    (haside : ∀ {order}, order ≠ docket.id →
      c.floor.asleep order = desk.floor.asleep order) : (desk.putBack c).Watched := by
  refine ⟨fun {order found} hf => ?_, fun {order} hf => ?_⟩
  · rcases docket?_putBack_cases hf with ⟨-, rfl⟩ | ⟨hne, hf⟩
    · exact hw
    · have hfound := id_of_docket? hf
      refine (h.dockets hf).congr rfl rfl (fun ho => ho) (haside ?_)
      rw [hfound, ← hid]
      exact hne.symm
  · rw [docket?_putBack, hid] at hf
    split at hf
    · cases hf
    · next hne => exact (haside fun he => hne he.symm).trans (h.nobody hf)

theorem Watched.enter {desk : Desk} (h : desk.Watched) {request : Order.NewOrder}
    (hn : desk.docket? desk.floor.nextId = none) :
    (desk.enter (desk.draftOrder request)).Watched := by
  have hs : (desk.enter (desk.draftOrder request)).floor.sleeping = desk.floor.sleeping :=
    Floor.openOrder_sleeping _ _
  refine ⟨fun {order found} hf => ?_, fun {order} hf => ?_⟩
  all_goals
    rw [docket?_enter] at hf
    split at hf
  · obtain rfl := Option.some.inj hf
    exact .of_waiting rfl rfl ((Floor.asleep_congr hs _).trans (h.nobody hn))
  · exact (h.dockets hf).congr rfl rfl (fun ho => ho) (Floor.asleep_congr hs _)
  · cases hf
  · exact (Floor.asleep_congr hs _).trans (h.nobody hf)

theorem Move.watched {desk desk' : Desk} (h : Move desk desk')
    (hi : desk'.floor.issued ≤ Uuid.capacity) (hw : desk.Watched) : desk'.Watched := by
  cases h with
  | worked hd hm =>
      exact hw.putBack (congrArg Order.id hm.order_eq) (hm.watched (hw.dockets hd))
        fun hne => hm.asleep_eq (.inr hne)
  | entered _ hn =>
      rw [enter_issued] at hi
      exact hw.enter (hn hi)
  | reported | madeAvailable | sweepCounted => exact hw.congr rfl rfl

theorem Moves.watched {desk desk' : Desk} (h : Moves desk desk')
    (hi : desk'.floor.issued ≤ Uuid.capacity) (hw : desk.Watched) : desk'.Watched := by
  induction h with
  | refl => exact hw
  | tail _ hm ih => exact hm.watched hi (ih (Nat.le_trans hm.issued_le hi))

theorem Turn.watched {desk desk' : Desk} {cmd : Command} (h : Turn desk cmd desk')
    (hi : desk'.floor.issued ≤ Uuid.capacity)
    (hb : (desk.perform cmd).1.isBroken = false) (hw : desk.Watched) : desk'.Watched := by
  cases h with
  | passed _ hm => exact Moves.watched hm.moves hi hw
  | decided hd _ hc =>
      exact hw.putBack hc.id_eq (hc.watched (hw.dockets hd))
        fun _ => Floor.asleep_congr hc.sleeping_eq _
  | woken hs hd hr =>
      have hid := id_of_docket? hd
      have hone := length_asleep_takeSearch hs
      rw [← hid] at hd hone
      refine hw.putBack (congrArg Order.id hr.order_eq)
        (hr.watched (hw.dockets hd) hone) fun hne => ?_
      exact (hr.asleep_eq (.inr hne)).trans (asleep_takeSearch_of_ne hs (hid ▸ hne))
  | lost hs hl =>
      rcases hl with hn | hbroken
      · have hlen := length_asleep_takeSearch hs
        rw [hw.nobody hn] at hlen
        cases hlen
      · rw [hb] at hbroken
        cases hbroken
  | claimed | freed | clockSet => exact hw.congr rfl rfl

theorem opening_watched (settings : Settings) (start : Instant) :
    (opening settings start).Watched where
  dockets := by intro order docket hf; cases hf
  nobody := fun _ => rfl

/-! ## Every search has its order on record

This needs less than `Watched`: it is kept also where something breaks down,
and no matter how many identifiers are drawn. -/

def SearchesKnown (desk : Desk) : Prop :=
  ∀ order, desk.docket? order = none → desk.floor.asleep order = []

theorem SearchesKnown.putBack {desk : Desk} (h : desk.SearchesKnown) {docket : Docket}
    {c : Case} (hid : c.docket.id = docket.id)
    (haside : ∀ {order}, order ≠ docket.id →
      c.floor.asleep order = desk.floor.asleep order) : (desk.putBack c).SearchesKnown := by
  intro order hf
  rw [docket?_putBack, hid] at hf
  split at hf
  · cases hf
  · next hne => exact (haside fun he => hne he.symm).trans (h order hf)

theorem SearchesKnown.takeSearch {desk : Desk} (h : desk.SearchesKnown) (place : Nat) :
    (desk.takeSearch place).SearchesKnown := fun order hf =>
  List.eq_nil_of_subset_nil (h order hf ▸ asleep_takeSearch_subset order)

theorem Move.searchesKnown {desk desk' : Desk} (h : Move desk desk')
    (hk : desk.SearchesKnown) : desk'.SearchesKnown := by
  cases h with
  | worked _ hm =>
      exact hk.putBack (congrArg Order.id hm.order_eq) fun hne => hm.asleep_eq (.inr hne)
  | entered =>
      intro order hf
      rw [docket?_enter] at hf
      split at hf
      · cases hf
      · exact (Floor.asleep_congr (Floor.openOrder_sleeping _ _) order).trans (hk order hf)
  | reported | madeAvailable | sweepCounted => exact hk

theorem Moves.searchesKnown {desk desk' : Desk} (h : Moves desk desk')
    (hk : desk.SearchesKnown) : desk'.SearchesKnown := by
  induction h with
  | refl => exact hk
  | tail _ hm ih => exact hm.searchesKnown ih

theorem Turn.searchesKnown {desk desk' : Desk} {cmd : Command} (h : Turn desk cmd desk')
    (hk : desk.SearchesKnown) : desk'.SearchesKnown := by
  cases h with
  | passed _ hm => exact Moves.searchesKnown hm.moves hk
  | decided _ _ hc => exact hk.putBack hc.id_eq fun _ => Floor.asleep_congr hc.sleeping_eq _
  | woken _ _ hr =>
      exact (hk.takeSearch _).putBack (congrArg Order.id hr.order_eq)
        fun hne => hr.asleep_eq (.inr hne)
  | lost => exact hk.takeSearch _
  | claimed | freed | clockSet => exact hk

theorem run_searchesKnown {desk : Desk} (hs : desk.Sound) (hk : desk.SearchesKnown)
    (cmds : List Command) : (desk.run cmds).SearchesKnown :=
  run_kept Turn.searchesKnown hs hk cmds

theorem opening_searchesKnown (settings : Settings) (start : Instant) :
    (opening settings start).SearchesKnown := fun _ _ => rfl

/-- A search that wakes up finds its order. -/
theorem SearchesKnown.docket_of_sleeping {desk : Desk} (h : desk.SearchesKnown) {place : Nat}
    {search : Search} (hs : desk.floor.sleeping[place]? = some search) :
    ∃ docket, desk.docket? search.order = some docket := by
  refine Option.isSome_iff_exists.1 ?_
  cases hd : desk.docket? search.order with
  | some => rfl
  | none => exact absurd (h _ hd) (asleep_ne_nil hs)

/-! ## What a search is given up for -/

theorem Move.abandoned_eq {desk desk' : Desk} (h : Move desk desk') :
    desk'.floor.ledger.abandoned = desk.floor.ledger.abandoned := by
  cases h with
  | worked _ hm => exact hm.abandoned_eq
  | entered =>
      show (Floor.openOrder _ _).ledger.abandoned = _
      rw [Floor.openOrder_ledger]
      rfl
  | reported | madeAvailable | sweepCounted => rfl

theorem Moves.abandoned_eq {desk desk' : Desk} (h : Moves desk desk') :
    desk'.floor.ledger.abandoned = desk.floor.ledger.abandoned := by
  induction h with
  | refl => rfl
  | tail _ hm ih => exact hm.abandoned_eq.trans ih

/-- A search is given up when it wakes up and its order does not wait. -/
theorem Turn.abandoned_cases {desk desk' : Desk} {cmd : Command} (h : Turn desk cmd desk')
    (hw : desk.Watched) :
    desk'.floor.ledger.abandoned = desk.floor.ledger.abandoned ∨
      ∃ place search docket, cmd = .wake place ∧
        desk.floor.sleeping[place]? = some search ∧
        desk.docket? search.order = some docket ∧ docket.isPending = false := by
  cases h with
  | passed _ hm => exact .inl (Moves.abandoned_eq hm.moves)
  | decided _ _ hc => exact .inl hc.abandoned_eq
  | @woken place search docket c hs hd hr =>
      cases hr with
      | abandoned hn =>
          refine .inr ⟨place, search, docket, rfl, hs, hd, ?_⟩
          rcases hn with hp | ho
          · exact hp
          · cases hp : docket.isPending with
            | false => rfl
            | true =>
                have hsome := asleep_ne_nil hs
                rw [← id_of_docket? hd] at hsome
                have hfree := ((hw.dockets hd).waiting hp).1
                  ((hw.dockets hd).searching_of_asleep hp hsome)
                rw [hfree] at ho
                cases ho
      | offered | exhausted | widened => exact .inl rfl
  | lost | claimed | freed | clockSet => exact .inl rfl

/-! ## What happens to an order while its search is asleep -/

/-- Moves do not end the waiting of an order, and put nothing to sleep for an
order that does not wait. -/
theorem Move.over_asleep {desk desk' : Desk} (h : Move desk desk') {order : Uuid}
    {docket' : Docket} (hd' : desk'.docket? order = some docket')
    (hp' : docket'.isPending = false) :
    ∃ docket, desk.docket? order = some docket ∧ docket.isPending = false ∧
      desk'.floor.asleep order = desk.floor.asleep order := by
  cases h with
  | @worked docket c hd hm =>
      have hid : c.docket.id = docket.id := congrArg Order.id hm.order_eq
      rcases docket?_putBack_cases hd' with ⟨rfl, rfl⟩ | ⟨hne, hd'⟩
      · have hp : docket.isPending = false :=
          (congrArg Order.isPending hm.order_eq).symm.trans hp'
        exact ⟨docket, by rw [hid, hd], hp, hm.asleep_eq (.inl hp)⟩
      · have hother : order ≠ docket.id := fun hsame => hne (hid.trans hsame.symm)
        exact ⟨docket', hd', hp', hm.asleep_eq (.inr hother)⟩
  | entered =>
      rw [docket?_enter] at hd'
      split at hd'
      · obtain rfl := Option.some.inj hd'
        cases hp'
      · exact ⟨docket', hd', hp', Floor.asleep_congr (Floor.openOrder_sleeping _ _) order⟩
  | reported | madeAvailable | sweepCounted => exact ⟨docket', hd', hp', rfl⟩

theorem Moves.over_asleep {desk desk' : Desk} (h : Moves desk desk') {order : Uuid}
    {docket' : Docket} (hd' : desk'.docket? order = some docket')
    (hp' : docket'.isPending = false) :
    ∃ docket, desk.docket? order = some docket ∧ docket.isPending = false ∧
      desk'.floor.asleep order = desk.floor.asleep order := by
  induction h generalizing docket' with
  | refl => exact ⟨docket', hd', hp', rfl⟩
  | tail _ hm ih =>
      obtain ⟨docket₁, hd₁, hp₁, hasleep₁⟩ := hm.over_asleep hd' hp'
      obtain ⟨docket, hd, hp, hasleep⟩ := ih hd₁ hp₁
      exact ⟨docket, hd, hp, hasleep₁.trans hasleep⟩

/-- A search of an order that does not wait was asleep before, and either the
order did not wait then, or it is being cancelled. -/
theorem Turn.over_asleep {desk desk' : Desk} {cmd : Command} (h : Turn desk cmd desk')
    (hw : desk.Watched) {order : Uuid} {docket' : Docket}
    (hd' : desk'.docket? order = some docket') (hp' : docket'.isPending = false)
    {search : Search} (hm : search ∈ desk'.floor.asleep order) :
    search ∈ desk.floor.asleep order ∧
      ((∃ docket, desk.docket? order = some docket ∧ docket.isPending = false) ∨
        (∃ reason text, cmd = .cancel order reason text) ∧
          (desk.perform cmd).1.isDone = true) := by
  cases h with
  | passed _ hmoves =>
      obtain ⟨docket, hd, hp, hasleep⟩ := Moves.over_asleep hmoves.moves hd' hp'
      exact ⟨hasleep ▸ hm, .inl ⟨docket, hd, hp⟩⟩
  | @decided _ docket c hd hdone hc =>
      have hsame : desk.floor.asleep order = (desk.putBack c).floor.asleep order :=
        (Floor.asleep_congr hc.sleeping_eq _).symm
      rw [← hsame] at hm
      refine ⟨hm, ?_⟩
      rw [docket?_putBack, hc.id_eq] at hd'
      split at hd'
      · next he =>
          subst he
          cases hc with
          | taken hp hl ho =>
              have hwait := Docket.isPending_iff.2 hp
              have hfree := (hw.dockets hd).not_searching hwait
                (Docket.hasOutstanding_of_last hl ho)
              have hnil := (hw.dockets hd).asleep_eq_nil hwait hfree
              rw [hnil] at hm
              cases hm
          | withdrawn => exact .inr ⟨⟨_, _, rfl⟩, hdone⟩
          | recalled => exact .inr ⟨⟨_, _, rfl⟩, hdone⟩
          | completed hp =>
              refine .inl ⟨docket, hd, ?_⟩
              simp only at hp
              simp [Docket.isPending, Order.isPending, hp]
      · exact .inl ⟨docket', hd', hp'⟩
  | @woken place found docket c hs hd hr =>
      have hid : c.docket.id = found.order :=
        (congrArg Order.id hr.order_eq).trans (id_of_docket? hd)
      rcases docket?_putBack_cases hd' with ⟨rfl, rfl⟩ | ⟨hne, hd'⟩
      · have hp : docket.isPending = false :=
          (congrArg Order.isPending hr.order_eq).symm.trans hp'
        have hasleep : (desk.putBack c).floor.asleep c.docket.id =
            (desk.takeSearch place).floor.asleep c.docket.id := hr.asleep_eq (.inl hp)
        rw [hasleep] at hm
        refine ⟨asleep_takeSearch_subset _ hm, .inl ⟨docket, ?_, hp⟩⟩
        rw [hid, hd]
      · have hother : order ≠ found.order := fun hsame => hne (hid.trans hsame.symm)
        have hasleep : (desk.putBack c).floor.asleep order =
            (desk.takeSearch place).floor.asleep order :=
          hr.asleep_eq (.inr (id_of_docket? hd ▸ hother))
        rw [hasleep] at hm
        exact ⟨asleep_takeSearch_subset order hm, .inl ⟨docket', hd', hp'⟩⟩
  | lost => exact ⟨asleep_takeSearch_subset order hm, .inl ⟨docket', hd', hp'⟩⟩
  | claimed | freed | clockSet => exact ⟨hm, .inl ⟨docket', hd', hp'⟩⟩

end Desk

end Hailing
