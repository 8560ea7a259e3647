import Hailing.Proofs.InRange
import Hailing.Proofs.Tries

/-!
# The course of a search

A search that finds nobody at first sleeps, and each time it wakes up it tries the
next radius or finds that it is over. These wakings, up to the one after which no
search of the order is asleep, are its course (`Desk.course`). Between two of them
anything may happen, but nothing that the order would notice: as long as a search of
it is asleep it is offered to nobody, and no other search of it begins
(`Turn.waits`). So the course can be followed from waking to waking, and the k-th
one has the k-th of the radii that were left (`course_inTurn`).

A run may wake a search up at any moment. In one that is punctual (`Desk.isPunctual`)
it wakes up when its time has come, and then the k-th waking is that many rests after
the first try.
-/

namespace Hailing

open Time (Instant)

/-! ## While a search is asleep -/

namespace Case

variable {c c' : Case}

/-- The offers of the order and the searches asleep for it stay as they are. -/
structure Waits (c c' : Case) : Prop where
  offers : c'.docket.offers = c.docket.offers
  asleep : c'.floor.asleep c.docket.id = c.floor.asleep c.docket.id

theorem Move.waits (h : Move c c') (hp : c.docket.Pursued c.floor)
    (ha : c.floor.asleep c.docket.id ≠ []) : Waits c c' := by
  cases h with
  | dispatched hd =>
      cases hd with
      | skipped => exact ⟨rfl, rfl⟩
      | offered hs | searching hs | exhausted hs => exact absurd hs (hp.skipped ha)
  | excluded driver => exact ⟨Docket.exclude_offers _ _, rfl⟩
  | closed hl ho => exact absurd (hp.asleep_of_out (Docket.hasOutstanding_of_last hl ho)) ha
  | settled => exact ⟨rfl, Floor.asleep_congr (Floor.settle_sleeping _ _) _⟩

theorem Moves.waits (h : Moves c c') (hp : c.docket.Pursued c.floor)
    (ha : c.floor.asleep c.docket.id ≠ []) : Waits c c' := by
  induction h with
  | refl => exact ⟨rfl, rfl⟩
  | @tail c₁ c' hms hm ih =>
      have hid : c₁.docket.id = c.docket.id := congrArg Order.id (Moves.order_eq hms)
      have ha₁ : c₁.floor.asleep c₁.docket.id ≠ [] := by rwa [hid, ih.asleep]
      have hstep := hm.waits (pursued_rule.moves hms hp) ha₁
      refine ⟨hstep.offers.trans ih.offers, ?_⟩
      have hasleep := hstep.asleep
      rw [hid] at hasleep
      exact hasleep.trans ih.asleep

theorem Decided.waits {cmd : Command} (h : Decided c cmd c') (hp : c.docket.Pursued c.floor)
    (ha : c.floor.asleep c.docket.id ≠ []) : Waits c c' := by
  refine ⟨?_, Floor.asleep_congr h.sleeping_eq _⟩
  cases h with
  | taken _ hl ho => exact absurd (hp.asleep_of_out (Docket.hasOutstanding_of_last hl ho)) ha
  | withdrawn => rfl
  | recalled =>
      show (releaseDriver _).docket.offers = _
      rw [releaseDriver_docket]
      rfl
  | completed => rw [completed_docket]

end Case

namespace Desk

variable {desk desk' : Desk} {order : Uuid}

/-- The offers of an order and the searches asleep for it stay as they are. -/
structure Waits (order : Uuid) (desk desk' : Desk) : Prop where
  offers : desk'.offersFor order = desk.offersFor order
  asleep : desk'.floor.asleep order = desk.floor.asleep order

theorem Waits.putBack {docket : Docket} {c : Case} (hd : desk.docket? docket.id = some docket)
    (hid : c.docket.id = docket.id)
    (hw : docket.id = order → Case.Waits ⟨docket, desk.floor⟩ c)
    (haside : order ≠ docket.id → c.floor.asleep order = desk.floor.asleep order) :
    desk.Waits order (desk.putBack c) := by
  by_cases he : docket.id = order
  · subst he
    refine ⟨?_, (hw rfl).asleep⟩
    rw [offersFor, docket?_putBack, if_pos hid, offersFor, hd]
    exact (hw rfl).offers
  · refine ⟨?_, haside fun h => he h.symm⟩
    rw [offersFor, docket?_putBack_of_ne (hid ▸ he), offersFor]

theorem Move.waits (h : Move desk desk') (hk : desk.SearchesKnown)
    (hp : desk.Obeys Docket.Pursued) (hi : desk'.floor.issued ≤ Uuid.capacity)
    (ha : desk.floor.asleep order ≠ []) : desk.Waits order desk' := by
  cases h with
  | @worked docket c hd hm =>
      refine .putBack hd (congrArg Order.id hm.order_eq) (fun he => ?_) fun hne =>
        hm.asleep_eq (.inr hne)
      exact hm.waits (hp _ _ hd) (he ▸ ha)
  | @entered request _ hn =>
      rw [enter_issued] at hi
      have hne : (desk.draftOrder request).id ≠ order := by
        rintro rfl
        exact ha (hk _ (hn hi))
      refine ⟨?_, Floor.asleep_congr (Floor.openOrder_sleeping _ _) _⟩
      rw [offersFor, docket?_enter, if_neg hne, offersFor]
  | reported | madeAvailable | sweepCounted => exact ⟨rfl, rfl⟩

theorem Moves.waits (h : Moves desk desk') (hk : desk.SearchesKnown)
    (hp : desk.Obeys Docket.Pursued) (hi : desk'.floor.issued ≤ Uuid.capacity)
    (ha : desk.floor.asleep order ≠ []) : desk.Waits order desk' := by
  induction h with
  | refl => exact ⟨rfl, rfl⟩
  | @tail desk₁ desk' hms hm ih =>
      have hi₁ := Nat.le_trans hm.issued_le hi
      have hfirst := ih hi₁
      have hstep := hm.waits (Moves.searchesKnown hms hk)
        (Moves.obeys Case.pursued_rule hms hk hi₁ hp) hi (hfirst.asleep ▸ ha)
      exact ⟨hstep.offers.trans hfirst.offers, hstep.asleep.trans hfirst.asleep⟩

/-! ## Wakings -/

/-- A search that wakes up, on the desk before and the desk after. -/
structure Waking where
  search : Search
  found : Desk
  left : Desk

/-- The search that a command wakes up. -/
def wokenBy? : Command → Desk → Option Search
  | .wake place, desk => desk.floor.sleeping[place]?
  | _, _ => none

/-- The wakings of the search of an order, up to the one after which none is asleep. -/
def course (order : Uuid) : List Command → Desk → List Waking
  | [], _ => []
  | cmd :: rest, desk =>
    if (desk.floor.asleep order).isEmpty then []
    else match (desk.wokenBy? cmd).filter (·.order = order) with
      | none => course order rest (desk.after cmd)
      | some search => ⟨search, desk, desk.after cmd⟩ :: course order rest (desk.after cmd)

/-- No search wakes up before its time or after it. -/
def isPunctual : List Command → Desk → Bool
  | [], _ => true
  | cmd :: rest, desk =>
    (desk.wokenBy? cmd).all (·.wakeAt = desk.floor.clock.ticks) &&
      isPunctual rest (desk.after cmd)

/-- Whatever is done, an order does not notice it while its search is asleep. -/
theorem Turn.waits {cmd : Command} (h : Turn desk cmd desk') (hk : desk.SearchesKnown)
    (hp : desk.Obeys Docket.Pursued) (hi : desk'.floor.issued ≤ Uuid.capacity)
    (ha : desk.floor.asleep order ≠ [])
    (hn : ∀ search, desk.wokenBy? cmd = some search → search.order ≠ order) :
    desk.Waits order desk' := by
  cases h with
  | passed _ hm => exact Moves.waits hm.moves hk hp hi ha
  | @decided _ docket c hd _ hc =>
      exact .putBack hd hc.id_eq (fun he => hc.waits (hp _ _ hd) (he ▸ ha))
        fun _ => Floor.asleep_congr hc.sleeping_eq _
  | @woken place search docket c hs hd hr =>
      have hne := hn search hs
      have hid := id_of_docket? hd
      refine .putBack (hid ▸ hd) (congrArg Order.id hr.order_eq)
        (fun he => absurd (hid.symm.trans he) hne) fun hother => ?_
      exact (hr.asleep_eq (.inr hother)).trans (asleep_takeSearch_of_ne hs hne.symm)
  | lost hs => exact ⟨rfl, asleep_takeSearch_of_ne hs (hn _ hs).symm⟩
  | claimed | freed | clockSet => exact ⟨rfl, rfl⟩

end Desk

/-! ## What comes of a waking -/

/-- A search is asleep after a try only if nobody was found and a radius is left. -/
theorem Case.Tried.widened_of_asleep {c : Case} {radii : Radii} {earlier : List Offer}
    (h : c.Tried radii earlier) (ha : c.floor.asleep c.docket.id ≠ []) :
    c.query radii.first = .ok [] ∧ c.docket.offers = earlier ∧
      ∃ next rest, radii.wider = next :: rest ∧ c.floor.asleep c.docket.id =
        [⟨c.docket.id, ⟨next, rest⟩, c.floor.clock.ticks + c.floor.settings.radiusWait⟩] := by
  cases h with
  | offered _ _ _ _ hnil => exact absurd hnil ha
  | widened hw hq ho _ hsleep => exact ⟨hq, ho, _, _, hw, hsleep⟩
  | exhausted _ _ _ _ _ hnil => exact absurd hnil ha

/-- Going on with a search changes nothing that a query looks at. -/
theorem Case.Resumed.unmoved {radii : Radii} {c c' : Case} (h : Resumed radii c c') :
    c.floor.Alike c'.floor ∧ c'.docket.excluded = c.docket.excluded := by
  cases h with
  | abandoned | offered | exhausted | widened => exact ⟨⟨rfl, rfl, rfl⟩, rfl⟩

/-- Going on with a search breaks down only with the query. -/
theorem Case.resume_error {radii : Radii} {c c' : Case} {breakdown : Breakdown}
    (h : c.resume radii = (.error breakdown, c')) :
    c.docket.isPending = true ∧ c.query radii.first = .error breakdown ∧ c' = c := by
  unfold resume at h
  split at h
  · cases h
  · next hwait =>
    split at h
    · next hb =>
      cases h
      refine ⟨?_, best?_eq_error.1 hb, rfl⟩
      by_contra hp
      simp [hp] at hwait
    all_goals cases h

namespace Desk

variable {desk : Desk} {order : Uuid}

namespace Waking

variable {w : Waking}

/-- The order waited, and nobody was found. -/
def FoundNobody (order : Uuid) (w : Waking) : Prop :=
  ∃ docket, w.found.docket? order = some docket ∧ docket.isPending = true ∧
    Case.query w.search.radii.first ⟨docket, w.found.floor⟩ = .ok []

/-- What comes of a waking: the search ends without a try if the order does not wait,
and otherwise the next radius is tried, unless the query breaks down. Neither the floor
nor the excluded drivers change on the way. -/
inductive Result (order : Uuid) (w : Waking) : Prop
  | abandoned {docket : Docket} (hd : w.found.docket? order = some docket)
      (hp : docket.isPending = false)
      (hl : w.left.docket? order =
        some { docket with searching := false, lastSearchEnded? := some w.found.now })
      (ha : w.left.floor.asleep order = [])
  | tried {docket docket' : Docket} (hd : w.found.docket? order = some docket)
      (hp : docket.isPending = true) (hl : w.left.docket? order = some docket')
      (hf : w.found.floor.Alike w.left.floor)
      (hq : ∀ radius, Case.query radius ⟨docket', w.left.floor⟩ =
        Case.query radius ⟨docket, w.found.floor⟩)
      (ht : Case.Tried w.search.radii docket.offers ⟨docket', w.left.floor⟩)
  | broken {docket : Docket} {breakdown : Breakdown}
      (hd : w.found.docket? order = some docket) (hp : docket.isPending = true)
      (hb : Case.query w.search.radii.first ⟨docket, w.found.floor⟩ = .error breakdown)
      (hl : w.left.docket? order = some docket) (ha : w.left.floor.asleep order = [])

/-- If a search is asleep after a waking, nobody was found at it. -/
theorem Result.goes_on (h : w.Result order) (ha : w.left.floor.asleep order ≠ []) :
    w.FoundNobody order ∧ w.left.offersFor order = w.found.offersFor order ∧
      ∃ next rest, w.search.radii.wider = next :: rest ∧ w.left.floor.asleep order =
        [⟨order, ⟨next, rest⟩, w.found.floor.clock.ticks + w.found.settings.radiusWait⟩] := by
  cases h with
  | abandoned _ _ _ hnil | broken _ _ _ _ hnil => exact absurd hnil ha
  | @tried docket docket' hd hp hl hf hq ht =>
      have hid := id_of_docket? hl
      obtain ⟨hb, ho, next, rest, hw, hsleep⟩ := ht.widened_of_asleep (by rwa [hid])
      refine ⟨⟨docket, hd, hp, (hq _).symm.trans hb⟩, ?_, next, rest, hw, ?_⟩
      · rw [offersFor, hl, offersFor, hd]
        exact ho
      · rw [settings, ← hf.clock, ← hf.settings, ← hid]
        exact hsleep

end Waking

/-- A search that wakes up was the only one of its order. -/
theorem wake_result (hk : desk.SearchesKnown) (hp : desk.Obeys Docket.Pursued) {place : Nat}
    {search : Search} (hs : desk.floor.sleeping[place]? = some search) :
    Waking.Result search.order ⟨search, desk, desk.after (.wake place)⟩ := by
  obtain ⟨docket, hd⟩ := hk.docket_of_sleeping hs
  have hid := id_of_docket? hd
  have hpursued := hp _ _ hd
  have hne : desk.floor.asleep docket.id ≠ [] := hid ▸ asleep_ne_nil hs
  have hnil : (desk.takeSearch place).floor.asleep docket.id = [] := by
    have hone := length_asleep_takeSearch hs
    rw [← hid] at hone
    have hle := hpursued.single
    exact List.length_eq_zero_iff.1 (by omega)
  have hafter : desk.after (.wake place) = desk.putBack
      (Case.resume search.radii ⟨docket, (desk.takeSearch place).floor⟩).2 := by
    rw [after, perform_wake hs, handle, show (desk.takeSearch place).docket? search.order =
      some docket from hd]
    rfl
  rcases Case.resume_cases search.radii ⟨docket, (desk.takeSearch place).floor⟩ with
    ⟨breakdown, hr⟩ | ⟨c, hr, hresumed⟩
  · obtain ⟨hwait, hb, -⟩ := Case.resume_error hr
    rw [hr] at hafter
    refine .broken hd hwait hb ?_ ?_
    · show (desk.after _).docket? _ = _
      rw [hafter, docket?_putBack, if_pos hid]
    · show (desk.after _).floor.asleep _ = _
      rw [hafter, ← hid]
      exact hnil
  · have hsame : c.docket.id = search.order := (congrArg Order.id hresumed.order_eq).trans hid
    rw [hr] at hafter
    have hleft : (desk.after (.wake place)).docket? search.order = some c.docket := by
      rw [hafter, docket?_putBack, if_pos hsame]
    cases hwait : docket.isPending with
    | true =>
        have hfree := hpursued.free hne
        obtain ⟨hf, hx⟩ := hresumed.unmoved
        have htried := hresumed.tried hwait hfree (hpursued.flagged hne hwait) hnil
        have hfloor : desk.floor.Alike c.floor := ⟨hf.settings, hf.clock, hf.fleet⟩
        refine .tried hd hwait hleft (hafter ▸ hfloor) (fun radius => ?_) (hafter ▸ htried)
        rw [hafter]
        exact Case.query_congr hresumed.order_eq hx hf radius
    | false =>
        cases hresumed with
        | abandoned =>
            refine .abandoned hd hwait hleft ?_
            show (desk.after _).floor.asleep _ = _
            rw [hafter, ← hid]
            exact hnil
        | offered hp | exhausted hp | widened hp =>
            rw [hwait] at hp
            cases hp

/-! ## From waking to waking -/

/-- A waking that comes in its turn: with these radii left, no offer made since the
search began, and an end of its own. -/
structure Waking.InTurn (order : Uuid) (offers : List Offer) (radii : List Float)
    (w : Waking) : Prop where
  radii : w.search.radii.toList = radii
  offers : w.found.offersFor order = offers
  result : w.Result order

theorem course_of_nil (ha : desk.floor.asleep order = []) (later : List Command) :
    desk.course order later = [] := by
  cases later with
  | nil => rfl
  | cons => rw [course, if_pos (by rw [ha]; rfl)]

theorem isPunctual_wake {place : Nat} {search : Search}
    (hs : desk.floor.sleeping[place]? = some search) {rest : List Command} :
    desk.isPunctual (.wake place :: rest) = true ↔
      search.wakeAt = desk.floor.clock.ticks ∧
        (desk.after (.wake place)).isPunctual rest = true := by
  rw [isPunctual, wokenBy?, hs, Bool.and_eq_true, Option.all_some, decide_eq_true_eq]

theorem wokenBy?_eq_some {cmd : Command} {search : Search}
    (h : desk.wokenBy? cmd = some search) :
    ∃ place, cmd = .wake place ∧ desk.floor.sleeping[place]? = some search := by
  cases cmd with
  | wake place => exact ⟨place, rfl, h⟩
  | _ => cases h

/-- The wakings of a search come in the order of its radii, and each but the last one
found nobody. -/
theorem course_inTurn (hs : desk.Sound) (hk : desk.SearchesKnown)
    (hp : desk.Obeys Docket.Pursued) {later : List Command}
    (hi : (desk.run later).floor.issued ≤ Uuid.capacity) {search : Search}
    (ha : desk.floor.asleep order = [search]) {k : Nat} {w : Waking}
    (hw : (desk.course order later)[k]? = some w) :
    w.InTurn order (desk.offersFor order) (search.radii.toList.drop k) ∧
      (∀ earlier ∈ (desk.course order later).take k, earlier.FoundNobody order) ∧
      (desk.isPunctual later = true →
        w.found.floor.clock.ticks = search.wakeAt + k * desk.settings.radiusWait) := by
  -- By induction on the run, for whichever search is asleep: it is another one after
  -- each waking, with a radius less and a rest later.
  induction later generalizing desk search k with
  | nil => cases hw
  | cons cmd rest ih =>
      have hturn := after_turn hs cmd
      have hs' := hturn.sound hs
      have hi' := Nat.le_trans (run_issued_le hs' rest) hi
      have hk' := hturn.searchesKnown hk
      have hp' := hturn.obeys Case.pursued_rule hk hi' hp
      have hne : desk.floor.asleep order ≠ [] := by simp [ha]
      rw [course, if_neg (by simp [ha])] at hw ⊢
      cases hwoken : (desk.wokenBy? cmd).filter (·.order = order) with
      | none =>
          rw [hwoken] at hw
          have hwaits := hturn.waits hk hp hi' hne fun found hf he => by
            simp [hf, he] at hwoken
          obtain ⟨hin, hearlier, htime⟩ := ih hs' hk' hp' hi (hwaits.asleep.trans ha) hw
          rw [hwaits.offers] at hin
          refine ⟨hin, hearlier, fun hpunctual => ?_⟩
          rw [isPunctual, Bool.and_eq_true] at hpunctual
          rw [htime hpunctual.2, hturn.settings_eq]
      | some found =>
          obtain ⟨hf, he⟩ := Option.filter_eq_some_iff.1 hwoken
          obtain rfl := of_decide_eq_true he
          obtain ⟨place, rfl, hplace⟩ := wokenBy?_eq_some hf
          obtain rfl : found = search := by
            have hm : found ∈ desk.floor.asleep found.order :=
              Floor.mem_asleep.2 ⟨List.mem_of_getElem? hplace, rfl⟩
            rw [ha] at hm
            exact List.mem_singleton.1 hm
          have hresult := wake_result hk hp hplace
          rw [hwoken] at hw
          -- Of the wakings the first is this one, and if there is another one it belongs
          -- to the search that this one has put to sleep.
          cases k with
          | zero =>
              obtain rfl := Option.some.inj hw
              refine ⟨⟨rfl, rfl, hresult⟩, fun _ hm => ?_, fun hpunctual => ?_⟩
              · cases hm
              · rw [Nat.zero_mul]
                exact ((isPunctual_wake hplace).1 hpunctual).1.symm
          | succ k =>
              have hgoes : (desk.after (.wake place)).floor.asleep found.order ≠ [] := by
                intro hnil
                simp [course_of_nil hnil] at hw
              obtain ⟨hnobody, hoffers, next, wider, hwider, hsleep⟩ := hresult.goes_on hgoes
              obtain ⟨hin, hearlier, htime⟩ := ih hs' hk' hp' hi hsleep hw
              refine ⟨⟨?_, hin.offers.trans hoffers, hin.result⟩, ?_, fun hpunctual => ?_⟩
              · rw [hin.radii, Radii.toList, Radii.toList, hwider]
                rfl
              · intro earlier hm
                rcases List.mem_cons.1 hm with rfl | hm
                · exact hnobody
                · exact hearlier _ hm
              · obtain ⟨hnow, hrest⟩ := (isPunctual_wake hplace).1 hpunctual
                calc
                  w.found.floor.clock.ticks
                  _ = desk.floor.clock.ticks + desk.settings.radiusWait +
                        k * desk.settings.radiusWait := by rw [htime hrest, hturn.settings_eq]
                  _ = found.wakeAt + (k + 1) * desk.settings.radiusWait := by
                    rw [hnow, Nat.succ_mul]
                    omega

/-- A search has begun for the order. It is gone on with from one waking to the next, the
k-th one of which has the k-th of the radii left, and comes k rests after the beginning
if searches wake up at their times. Before it all queries were in vain, each at its own
time, and no offer was made. -/
def RunsItsCourse (order : Uuid) (radii : Radii) (later : List Command) (desk : Desk) : Prop :=
  ∀ k w, (desk.course order later)[k]? = some w →
    w.InTurn order (desk.offersFor order) (radii.toList.drop (k + 1)) ∧
    (∃ docket, desk.docket? order = some docket ∧
      Case.query radii.first ⟨docket, desk.floor⟩ = .ok []) ∧
    (∀ earlier ∈ (desk.course order later).take k, earlier.FoundNobody order) ∧
    (desk.isPunctual later = true →
      w.found.floor.clock.ticks = desk.floor.clock.ticks + (k + 1) * desk.settings.radiusWait)

/-- What a search comes to that has begun. -/
theorem Begins.runsItsCourse {desk desk' : Desk} {radii : Radii} {later : List Command}
    (h : desk.Begins order radii desk') (hs : desk'.Sound) (hk : desk'.SearchesKnown)
    (hp : desk'.Obeys Docket.Pursued) (hi : (desk'.run later).floor.issued ≤ Uuid.capacity) :
    desk'.RunsItsCourse order radii later := by
  intro k w hw
  obtain ⟨-, earlier, docket, -, hd, -, htried⟩ := h
  have hid := id_of_docket? hd
  have ha : desk'.floor.asleep docket.id ≠ [] := by
    intro hnil
    rw [hid] at hnil
    simp [course_of_nil hnil] at hw
  obtain ⟨hnobody, -, next, rest, hwider, hsleep⟩ := htried.widened_of_asleep ha
  obtain ⟨hin, hearlier, htime⟩ := course_inTurn hs hk hp hi (hid ▸ hsleep) hw
  refine ⟨⟨?_, hin.offers, hin.result⟩, ⟨docket, hd, hnobody⟩, hearlier, fun hpunctual => ?_⟩
  · rw [hin.radii, Radii.toList, Radii.toList, hwider]
    rfl
  · rw [htime hpunctual, Nat.succ_mul]
    show desk'.floor.clock.ticks + desk'.settings.radiusWait + _ = _
    omega

end Desk

end Hailing
