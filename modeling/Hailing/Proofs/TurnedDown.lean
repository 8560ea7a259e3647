import Hailing.Proofs.Lawful
import Hailing.Proofs.OfferTimes
import Hailing.Proofs.SweptOrders

/-!
# Saying no and saying nothing

A driver turns an offer down by rejecting it or by letting its time run out. The
two are dealt with in different places, one on the driver's word and the other in a
sweep, but they are the same step (`Case.turnedDown`): the offer is closed, its
driver is not asked again, and the order is searched for anew if it still waits,
and settled if it does not. A sweep does more than that in general, but not to an
order with an offer that has run out.

How the offer was closed makes no difference to what follows. A search looks at the
offers only to see whether one is out (`Dispatched.beside`), and not at the counts,
which are all else that is told apart. So the step may be done under the other name
and on another floor, as long as a search sees no difference there, and it leaves
the same trace (`turnedDown_otherwise`). A sweep does have another floor when it
comes to the order, because the orders before have drawn identifiers; that is where
the new offer gets another one.
-/

namespace Hailing

open Time (Instant Span)

theorem Floor.Alike.symm {f g : Floor} (h : f.Alike g) : g.Alike f :=
  ⟨h.settings.symm, h.clock.symm, h.fleet.symm⟩

theorem Event.renamed_order (π : Renaming) (e : Event) : (e.renamed π).order = e.order := by
  cases e <;> rfl

namespace Floor

variable {order : Uuid} {t : Trace}

theorem mem_leave (f : Floor) :
    order ∈ (f.leave order t).openOrders ↔ order ∈ f.openOrders ∧ t.closes = false := by
  rw [leave]
  cases t.closes <;> simp

theorem asleep_leave (ht : t.Plain) (f : Floor) :
    (f.leave order t).asleep order =
      f.asleep order ++ t.slept.map fun (radii, wakeAt) => ⟨order, radii, wakeAt⟩ := by
  have hown : (t.slept.map fun (radii, wakeAt) => (⟨order, radii, wakeAt⟩ : Search)).filter
      (·.order = order) = t.slept.map fun (radii, wakeAt) => ⟨order, radii, wakeAt⟩ := by
    refine List.filter_eq_self.2 fun search hm => ?_
    obtain ⟨_, -, rfl⟩ := List.mem_map.1 hm
    exact decide_eq_true rfl
  rw [asleep, leave, ht.wakes, Option.elim_none, List.filter_append, hown, asleep]

end Floor

namespace Docket

/-- The docket with other offers on it. -/
def withOffers (offers : List Offer) (d : Docket) : Docket := { d with offers := offers }

theorem withOffers_exclude (offers : List Offer) (driver : Uuid) (d : Docket) :
    (d.withOffers offers).exclude driver = (d.exclude driver).withOffers offers := by
  cases h : d.excluded.contains driver <;>
    simp only [withOffers, exclude, h, if_true, Bool.false_eq_true, if_false]

theorem withOffers_isSettled {offers : List Offer} {d : Docket}
    (h : offers.any (·.isOutstanding) = d.hasOutstanding) :
    (d.withOffers offers).isSettled = d.isSettled :=
  congrArg (fun out => !d.isPending && !out) h

end Docket

namespace Case

variable {c c' : Case} {offer : Offer} {status other : Offer.Status}

/-! ## One step for both -/

/-- An offer is turned down. The order is searched for anew if it waits. -/
def turnedDown (offer : Offer) (status : Offer.Status) (c : Case) :
    Except Breakdown (Option Outcome) × Case :=
  let c := c.drop offer status
  if c.docket.isPending then (c.dispatch.1.map some, c.dispatch.2)
  else (.ok none, c.settle)

theorem turnedDown_of_pending (hp : c.docket.isPending = true) :
    c.turnedDown offer status =
      ((c.drop offer status).dispatch.1.map some, (c.drop offer status).dispatch.2) :=
  if_pos (drop_isPending.trans hp)

theorem turnedDown_of_over (hp : c.docket.isPending = false) :
    c.turnedDown offer status = (.ok none, (c.drop offer status).settle) := by
  have hover : ¬ (c.drop offer status).docket.isPending = true := by
    rw [drop_isPending, hp]
    decide
  exact if_neg hover

/-- A rejection turns the last offer down. -/
theorem reject_eq_turnedDown (ho : c.docket.OneOpen) (hl : c.docket.offers.getLast? = some offer)
    (hout : offer.isOutstanding = true) :
    c.respond offer.driver .reject =
      ((Answer.ofExcept (c.turnedDown offer .rejected).1).map fun next? =>
          ⟨offer.closed .rejected c.floor.now,
            (c.turnedDown offer .rejected).2.docket.order.status, next?⟩,
        (c.turnedDown offer .rejected).2) := by
  have hresolve : c.resolve offer .rejected = (offer.closed .rejected c.floor.now,
      { c with docket := c.docket.answered offer .rejected c.floor.now }) := by
    rw [resolve, ho.resolve_eq c.floor.now hl hout (by decide)]
  have hsame : turnDown offer.driver
      { c with docket := c.docket.answered offer .rejected c.floor.now } =
      c.turnedDown offer .rejected := by
    cases hp : c.docket.isPending with
    | true => exact (if_pos hp).trans (turnedDown_of_pending hp).symm
    | false =>
        have hover : ¬ c.docket.isPending = true := by simp [hp]
        exact (if_neg hover).trans (turnedDown_of_over hp).symm
  have hgo : c.respond offer.driver .reject = c.reject offer := by
    simp only [respond, ho.offerTo?_of_last hl hout]
    rfl
  rw [hgo, reject_eq hresolve, hsame]

theorem reject_turnedDown (ho : c.docket.OneOpen) (hl : c.docket.offers.getLast? = some offer)
    (hout : offer.isOutstanding = true) {next? : Option Outcome}
    (h : c.turnedDown offer .rejected = (.ok next?, c')) :
    ∃ reaction, c.respond offer.driver .reject = (.done reaction, c') := by
  rw [reject_eq_turnedDown ho hl hout, h]
  exact ⟨_, rfl⟩

/-- A sweep turns an offer down that has run out, and does nothing else. -/
theorem Swept.turnedDown (ho : c.docket.OneOpen) {found : SweepReport} {noted : List Outcome}
    (hl : c.docket.offers.getLast? = some offer)
    (he : offer.isExpired c.floor.settings.offerSpan c.floor.now = true)
    (h : Swept c found noted c') :
    ∃ next?, c.turnedDown offer .timeout = (.ok next?, c') := by
  have hlate := ho.late_eq hl he
  cases h with
  | left hq =>
      rw [hq.late] at hlate
      cases hlate
  | closed hlast _ hp =>
      obtain rfl := Option.some.inj (hl.symm.trans hlast)
      exact ⟨none, turnedDown_of_over hp⟩
  | @passedOn _ outcome _ hlast _ hp hd =>
      obtain rfl := Option.some.inj (hl.symm.trans hlast)
      refine ⟨some outcome, ?_⟩
      rw [turnedDown_of_pending hp, hd.dispatch_eq]
      rfl
  | retried hnone =>
      rw [hnone] at hlate
      cases hlate

/-! ## It does not matter how the offer was closed -/

/-- A dispatch may be made beside other offers, if one is out there or none is as
here. -/
theorem Dispatched.beside {outcome : Outcome} (h : Dispatched c outcome c') :
    ∃ new, c'.docket.offers = c.docket.offers ++ new ∧
      ∀ offers : List Offer, offers.any (·.isOutstanding) = c.docket.hasOutstanding →
        Dispatched ⟨c.docket.withOffers offers, c.floor⟩ outcome
          ⟨c'.docket.withOffers (offers ++ new), c'.floor⟩ := by
  have hskip : ∀ offers : List Offer, offers.any (·.isOutstanding) = c.docket.hasOutstanding →
      (c.docket.withOffers offers).skipReason? = c.docket.skipReason? := by
    intro offers ho
    have hsame : (c.docket.withOffers offers).hasOutstanding = c.docket.hasOutstanding := ho
    unfold Docket.skipReason?
    rw [hsame]
    rfl
  cases h with
  | skipped hs =>
      refine ⟨[], (List.append_nil _).symm, fun offers ho => ?_⟩
      rw [List.append_nil]
      exact .skipped ((hskip offers ho).trans hs)
  | offered hs hr hb =>
      exact ⟨[_], rfl, fun offers ho => .offered ((hskip offers ho).trans hs) hr hb⟩
  | searching hs hr hb =>
      refine ⟨[], (List.append_nil _).symm, fun offers ho => ?_⟩
      rw [List.append_nil]
      exact .searching ((hskip offers ho).trans hs) hr hb
  | exhausted hs hr hb =>
      refine ⟨[], (List.append_nil _).symm, fun offers ho => ?_⟩
      rw [List.append_nil]
      exact .exhausted ((hskip offers ho).trans hs) hr hb

theorem Dispatched.of_eq {outcome : Outcome} (h : c.dispatch = (.ok outcome, c')) :
    Dispatched c outcome c' := by
  rcases dispatch_cases c with ⟨_, hd⟩ | ⟨_, _, hd, hdispatched⟩
  · cases hd.symm.trans h
  · cases hd.symm.trans h
    exact hdispatched

/-- And it may be made on another floor at the same time. -/
theorem Dispatched.elsewhere {outcome : Outcome} (h : Dispatched c outcome c') :
    ∃ new t, c'.docket.offers = c.docket.offers ++ new ∧ t.Plain ∧
      c'.floor = c.floor.leave c.docket.id t ∧
      ∀ {offers : List Offer} {π : Renaming} {g : Floor},
        offers.any (·.isOutstanding) = c.docket.hasOutstanding → c.floor.Alike g →
        t.Draws π c.floor.issued g.issued →
        dispatch ⟨c.docket.withOffers offers, g⟩ = (.ok (outcome.renamed π),
          ⟨c'.docket.withOffers (offers ++ new.map (·.renamed π)),
            g.leave c.docket.id (t.renamed π)⟩) := by
  obtain ⟨new, hnew, -⟩ := h.offers_eq
  obtain ⟨t, ht⟩ := h.traced
  have hc := h.dispatch_eq
  have hfloor : c'.floor = c.floor.leave c.docket.id t := by
    have hleft := ht.floor_eq (.refl _)
    rwa [hc] at hleft
  refine ⟨new, t, hnew, ht.plain, hfloor, fun {offers π g} hout hg hdraws => ?_⟩
  have hgo := ht.elsewhere hg hdraws
  rw [hc] at hgo
  obtain ⟨new', hnew', hbeside⟩ := (Dispatched.of_eq hgo).beside
  obtain rfl : new' = new.map (·.renamed π) := by
    have hall : c'.docket.offers.map (·.renamed π) =
        c.docket.offers.map (·.renamed π) ++ new' := hnew'
    rw [hnew, List.map_append] at hall
    exact (List.append_cancel_left hall).symm
  exact (hbeside offers (hout.trans (c.docket.renamed_hasOutstanding π).symm)).dispatch_eq

theorem drop_offers :
    (c.drop offer status).docket.offers =
      c.docket.offers.dropLast ++ [offer.closed status c.floor.now] :=
  Docket.exclude_offers _ _

theorem drop_id : (c.drop offer status).docket.id = c.docket.id :=
  congrArg Order.id (Docket.exclude_order _ _)

/-- Once an offer is turned down none is out. -/
theorem drop_hasOutstanding (ho : c.docket.OneOpen) (hs : status ≠ .requested) :
    (c.drop offer status).docket.hasOutstanding = false := by
  rw [Docket.hasOutstanding, drop_offers, List.any_append, Bool.or_eq_false_iff]
  refine ⟨List.any_eq_false.2 fun o hm => by simp [ho o hm], ?_⟩
  simpa [Offer.isOutstanding, Offer.closed] using hs

/-- Between two ways to turn an offer down there is nothing but its outcome. -/
theorem drop_eq_withOffers (status : Offer.Status) {g : Floor} (hg : g.now = c.floor.now) :
    (Case.mk c.docket g).drop offer other =
      ⟨(c.drop offer status).docket.withOffers
          (c.docket.offers.dropLast ++ [offer.closed other c.floor.now]),
        g.count (·.countOffer other)⟩ := by
  refine congrArg (Case.mk · _) ?_
  show (c.docket.answered offer other g.now).exclude offer.driver = _
  rw [hg]
  exact Docket.withOffers_exclude _ offer.driver (c.docket.answered offer status c.floor.now)

/-- An offer that is turned down in another way and on another floor leads to the
same, except for the outcome that is entered and the identifier that is drawn. -/
theorem turnedDown_otherwise (ho : c.docket.OneOpen) (hs : status ≠ .requested)
    (hother : other ≠ .requested) {next? : Option Outcome}
    (h : c.turnedDown offer status = (.ok next?, c')) :
    ∃ new t, c'.docket.offers =
        c.docket.offers.dropLast ++ offer.closed status c.floor.now :: new ∧
      t.Plain ∧ c'.floor = (c.floor.count (·.countOffer status)).leave c.docket.id t ∧
      ∀ {π : Renaming} {g : Floor}, c.floor.Alike g →
        t.Draws π c.floor.issued g.issued →
        (Case.mk c.docket g).turnedDown offer other = (.ok (next?.map (·.renamed π)),
          ⟨c'.docket.withOffers (c.docket.offers.dropLast ++
              offer.closed other c.floor.now :: new.map (·.renamed π)),
            (g.count (·.countOffer other)).leave c.docket.id (t.renamed π)⟩) := by
  have hnone : (c.docket.offers.dropLast ++ [offer.closed other c.floor.now]).any
      (·.isOutstanding) = (c.drop offer status).docket.hasOutstanding := by
    have hfree : (c.drop offer other).docket.hasOutstanding = false :=
      drop_hasOutstanding ho hother
    rw [drop_hasOutstanding ho hs, ← hfree, Docket.hasOutstanding, drop_offers]
  cases hp : c.docket.isPending with
  | true =>
      rw [turnedDown_of_pending hp] at h
      rcases hd : (c.drop offer status).dispatch with ⟨_ | outcome, c₁⟩
      · rw [hd] at h
        cases h
      · rw [hd] at h
        cases h
        obtain ⟨new, t, hnew, ht, hfloor, hgo⟩ := (Dispatched.of_eq hd).elsewhere
        rw [drop_id] at hfloor
        refine ⟨new, t, ?_, ht, hfloor, fun {π g} hg hdraws => ?_⟩
        · rw [hnew, drop_offers, List.append_assoc, List.singleton_append]
        · have halike : (c.drop offer status).floor.Alike (g.count (·.countOffer other)) :=
            ⟨hg.settings, hg.clock, hg.fleet⟩
          have hpend : (Case.mk c.docket g).docket.isPending = true := hp
          rw [turnedDown_of_pending hpend, drop_eq_withOffers status hg.now_eq,
            hgo hnone halike hdraws, drop_id, List.append_assoc, List.singleton_append]
          rfl
  | false =>
      rw [turnedDown_of_over hp] at h
      cases h
      refine ⟨[], { closes := (c.drop offer status).docket.isSettled }, drop_offers, ⟨rfl, rfl⟩,
        ?_, fun {π g} hg hdraws => ?_⟩
      · refine (Floor.settle_eq_leave _ _).trans ?_
        rw [drop_id]
        rfl
      · have hpend : (Case.mk c.docket g).docket.isPending = false := hp
        rw [turnedDown_of_over hpend, drop_eq_withOffers status hg.now_eq]
        refine congrArg (fun floor => (Except.ok none, Case.mk _ floor)) ?_
        refine (Floor.settle_eq_leave _ _).trans ?_
        rw [Docket.withOffers_isSettled hnone]
        exact congrArg (Floor.leave · _ _) drop_id

end Case

namespace Desk

/-- An order finds the same on both desks, up to the names of offers. -/
structure SameFor (order : Uuid) (π : Renaming) (a b : Desk) : Prop where
  listed : order ∈ b.floor.openOrders ↔ order ∈ a.floor.openOrders
  asleep : b.floor.asleep order = a.floor.asleep order
  told : b.noticesAbout order = (a.noticesAbout order).map (·.renamed π)
  fleet : b.floor.fleet = a.floor.fleet

variable {desk : Desk} {order : Uuid} {docket : Docket} {offer : Offer}

/-! ## One after the other -/

/-- A sweep leaves an offer alone that is not out. -/
theorem after_sweep_keeps (hs : desk.Sound) (hd : desk.docket? order = some docket)
    {place : Nat} (hat : docket.offers[place]? = some offer)
    (hout : offer.isOutstanding = false) (visited : List Uuid) :
    ((desk.after (.sweep visited)).offersFor order)[place]? = some offer := by
  obtain ⟨found, hf, hcase⟩ := after_sweep hs hd visited
  have hoffers : (desk.after (.sweep visited)).offersFor order = found.offers := by
    rw [offersFor, hf]
    rfl
  rw [hoffers]
  rcases hcase with ⟨-, report, floor, -, rfl⟩ | ⟨rfl, -⟩
  · have ho := hs.orderly hd
    have hmoves := (Case.sweep_worked (c := ⟨docket, floor⟩) ho.oneOpen report).moves
    obtain ⟨offer', hat', hbecomes⟩ :=
      Case.extends_law.moves (c := ⟨docket, floor⟩) ho hmoves place offer hat
    cases hbecomes with
    | same => exact hat'
    | closed _ hrequested =>
        rw [Offer.isOutstanding, hrequested] at hout
        cases hout
  · exact hat

/-- Whoever has turned an offer down cannot reject it once more. -/
theorem reject_refused (hd : desk.docket? order = some docket) (ha : docket.AskedOnce)
    (hm : offer ∈ docket.offers) (hout : offer.isOutstanding = false) :
    desk.perform (.respond order offer.driver .reject) =
      (.refused (.noOffer order offer.driver), desk) := by
  have hnone : docket.offerTo? offer.driver = none := by
    refine List.find?_eq_none.2 fun o ho hfor => ?_
    rw [Offer.isOutstandingFor, Bool.and_eq_true, decide_eq_true_eq] at hfor
    rw [List.inj_on_of_nodup_map ha.nodup ho hm hfor.2] at hfor
    rw [hfor.1] at hout
    cases hout
  have hrespond : (Case.mk docket desk.floor).respond offer.driver .reject =
      (.refused (.noOffer docket.id offer.driver), ⟨docket, desk.floor⟩) := by
    simp only [Case.respond, hnone]
    rfl
  obtain rfl := id_of_docket? hd
  show desk.handle docket.id (·.respond offer.driver .reject) = _
  rw [handle_eq_workOn, workOn_some hd, hrespond, putBack_self hd]

/-! ## Both on a desk -/

theorem noticesAbout_of_sent {desk' : Desk} {told : List Notice}
    (h : desk'.floor.sent = desk.floor.sent ++ told) (order : Uuid) :
    desk'.noticesAbout order = desk.noticesAbout order ++ told.filter (·.event.order = order) := by
  rw [noticesAbout, h, List.filter_append, noticesAbout]

/-- The same step on the desk and somewhere in the middle of a sweep. -/
theorem sameFor_of_leave {desk₁ left swept rejected : Desk} {step step' : Ledger → Ledger}
    {π : Renaming} {t : Trace} (ht : t.Plain) (hbefore : desk.Aside order desk₁)
    (hafter : left.Aside order swept)
    (hleft : left.floor = (desk₁.floor.count step).leave order t)
    (hrejected : rejected.floor = (desk.floor.count step').leave order (t.renamed π))
    (hold : ∀ notice ∈ desk.floor.sent, notice.renamed π = notice) :
    swept.SameFor order π rejected where
  listed := by
    rw [hafter.listed, hleft, hrejected, Floor.mem_leave, Floor.mem_leave]
    exact and_congr_left fun _ => hbefore.listed.symm
  asleep := by
    rw [hafter.asleep, hleft, hrejected, Floor.asleep_leave ht, Floor.asleep_leave (ht.renamed π)]
    exact congrArg (· ++ _) hbefore.asleep.symm
  told := by
    have hsent : left.floor.sent = desk₁.floor.sent ++ t.told := by
      rw [hleft]
      rfl
    have hsent' : rejected.floor.sent = desk.floor.sent ++ t.told.map (·.renamed π) := by
      rw [hrejected]
      rfl
    have hkept : (desk.noticesAbout order).map (·.renamed π) = desk.noticesAbout order :=
      (List.map_congr_left fun notice hm => hold notice (List.mem_filter.1 hm).1).trans
        (List.map_id _)
    have hown : (t.told.map (·.renamed π)).filter (·.event.order = order) =
        (t.told.filter (·.event.order = order)).map (·.renamed π) := by
      rw [List.filter_map]
      refine congrArg (List.map _) (List.filter_congr fun n _ => ?_)
      exact congrArg (fun id => decide (id = order)) (n.event.renamed_order π)
    have hfirst : left.noticesAbout order =
        desk₁.noticesAbout order ++ t.told.filter (·.event.order = order) :=
      noticesAbout_of_sent hsent order
    rw [hafter.told, hfirst, noticesAbout_of_sent hsent' order, hbefore.told, List.map_append,
      hkept, hown]
  fleet := by
    have hfleet := hafter.alike.fleet
    rw [hleft, Floor.leave_fleet ht] at hfleet
    rw [hfleet, hrejected, Floor.leave_fleet (ht.renamed π)]
    exact hbefore.alike.fleet.symm

/-- Rejecting an offer that has run out leads to what a sweep leads to, for its order. -/
theorem Drawn.reject_swept (h : desk.Drawn) (hx : desk.Indexed)
    (hr : 0 < desk.settings.retryAfter) {visited : List Uuid}
    (hv : visited.Perm desk.floor.openOrders) {report : SweepReport} {swept : Desk}
    (hswept : desk.sweepAs visited = (.ok report, swept))
    (hroom : swept.floor.issued ≤ Uuid.capacity)
    (hd : desk.docket? order = some docket) (hl : docket.offers.getLast? = some offer)
    (he : offer.isExpired desk.settings.offerSpan desk.now = true) :
    ∃ reaction rejected found new π,
      desk.perform (.respond order offer.driver .reject) = (.done reaction, rejected) ∧
      Uuid.Renames π desk.floor.issued swept.floor.issued ∧
      swept.docket? order = some found ∧
      found.offers = docket.offers.dropLast ++ offer.closed .timeout desk.now :: new ∧
      rejected.docket? order = some (found.withOffers
        (docket.offers.dropLast ++ offer.closed .rejected desk.now :: new.map (·.renamed π))) ∧
      swept.SameFor order π rejected := by
  have hcount : Move desk desk.countSweep := .sweepCounted
  have hs₀ := hcount.sound h.sound
  have hm : order ∈ visited := by
    refine hv.mem_iff.2 ((hx order).2 ⟨docket, hd, ?_⟩)
    rw [Docket.isSettled, Docket.hasOutstanding_of_last hl (Offer.isExpired_outstanding he),
      Bool.not_true, Bool.and_false]
  have hok : (sweepOrders visited {} desk.countSweep).1 = .ok report := congrArg Prod.fst hswept
  obtain ⟨desk₁, _, _, c, haside, -, hc, hafter⟩ :=
    sweepOrders_split (hv.nodup_iff.2 h.sound.distinct) hs₀ hr hm hd hok
  rw [show (sweepOrders visited {} desk.countSweep).2 = swept from congrArg Prod.snd hswept]
    at hafter
  have hbefore : desk.Aside order desk₁ := (Aside.countSweep order desk).trans haside
  have hnow : desk₁.floor.now = desk.now := hbefore.alike.now_eq
  have he₁ : offer.isExpired desk₁.floor.settings.offerSpan desk₁.floor.now = true := by
    rw [hbefore.alike.settings, hnow]
    exact he
  have ho := (h.sound.orderly hd).oneOpen
  obtain rfl := id_of_docket? hd
  obtain ⟨next?, hturned⟩ :=
    Case.Swept.turnedDown (c := ⟨docket, desk₁.floor⟩) ho hl he₁ hc
  have hother : Offer.Status.rejected ≠ .requested := by decide
  obtain ⟨new, t, hoffers, ht, hfloor, hgo⟩ :=
    Case.turnedDown_otherwise ho (by decide) hother hturned
  have hid : c.docket.id = docket.id := congrArg Order.id (Case.Moves.order_eq hc.moves)
  -- What was drawn before the sweep came to the order moves up behind what it draws.
  have hle : desk₁.floor.issued + t.drawn ≤ swept.floor.issued := by
    have hend : c.floor.issued ≤ swept.floor.issued := hafter.issued_le
    rw [hfloor] at hend
    exact hend
  have hlater := hbefore.issued_le
  obtain ⟨π, hπ, -, hmoved⟩ := Uuid.exists_exchange (n := desk.floor.issued) (p := t.drawn)
    (q := desk₁.floor.issued - desk.floor.issued) (by omega)
  have hdraws : t.Draws π desk₁.floor.issued desk.floor.issued := by
    intro i hi
    have hto := hmoved i hi
    rwa [Nat.add_sub_cancel' hlater] at hto
  have hnames : Uuid.Renames π desk.floor.issued swept.floor.issued :=
    hπ.mono (Nat.le_refl _) (by omega)
  let left : Case := ⟨c.docket.withOffers
      (docket.offers.dropLast ++ offer.closed .rejected desk.now :: new.map (·.renamed π)),
    (desk.floor.count (·.countOffer .rejected)).leave docket.id (t.renamed π)⟩
  have hthere : (Case.mk docket desk.floor).turnedDown offer .rejected =
      (.ok (next?.map (·.renamed π)), left) := by
    have hsame := hgo hbefore.alike.symm hdraws
    rwa [hnow] at hsame
  obtain ⟨reaction, hrespond⟩ := Case.reject_turnedDown (c := ⟨docket, desk.floor⟩) ho hl
    (Offer.isExpired_outstanding he) hthere
  refine ⟨reaction, desk.putBack left, c.docket, new, π, ?_, hnames, ?_, ?_, ?_, ?_⟩
  · show desk.handle docket.id (·.respond offer.driver .reject) = _
    rw [handle_eq_workOn, workOn_some hd, hrespond]
  · rw [hafter.docket, docket?_putBack, if_pos hid]
  · rw [← hnow]
    exact hoffers
  · rw [docket?_putBack]
    exact if_pos hid
  · refine sameFor_of_leave ht hbefore hafter hfloor rfl fun notice hm => ?_
    exact h.notice_eq hnames (Nat.le_trans hlater (Nat.le_of_add_right_le hle)) hroom hm

/-- And whichever is done first, the offer keeps the outcome that it got. -/
theorem Lawful.reject_swept (h : desk.Lawful) (hr : 0 < desk.settings.retryAfter)
    {visited : List Uuid} (hv : visited.Perm desk.floor.openOrders) {report : SweepReport}
    {swept : Desk} (hswept : desk.sweepAs visited = (.ok report, swept))
    (hroom : swept.floor.issued ≤ Uuid.capacity) (hd : desk.docket? order = some docket)
    (hm : offer ∈ docket.offers)
    (he : offer.isExpired desk.settings.offerSpan desk.now = true) :
    ∃ earlier reaction rejected found new π,
      docket.offers = earlier ++ [offer] ∧
      desk.perform (.respond order offer.driver .reject) = (.done reaction, rejected) ∧
      Uuid.Renames π desk.floor.issued swept.floor.issued ∧
      swept.docket? order = some found ∧
      found.offers = earlier ++ offer.closed .timeout desk.now :: new ∧
      rejected.docket? order = some (found.withOffers
        (earlier ++ offer.closed .rejected desk.now :: new.map (·.renamed π))) ∧
      swept.SameFor order π rejected ∧
      swept.perform (.respond order offer.driver .reject) =
        (.refused (.noOffer order offer.driver), swept) ∧
      ∀ visited', ((rejected.after (.sweep visited')).offersFor order)[earlier.length]? =
        some (offer.closed .rejected desk.now) := by
  have hs := h.sound
  have hl : docket.offers.getLast? = some offer :=
    (hs.orderly hd).oneOpen.last_of_out hm
      (Offer.isOutstanding_iff.1 (Offer.isExpired_outstanding he))
  obtain ⟨reaction, rejected, found, new, π, hperform, hnames, hfound, hoffers, hleft, hsame⟩ :=
    h.drawn.reject_swept h.indexed hr hv hswept hroom hd hl he
  refine ⟨docket.offers.dropLast, reaction, rejected, found, new, π, Docket.offers_eq_of_last hl,
    hperform, hnames, hfound, hoffers, hleft, hsame, ?_, fun visited' => ?_⟩
  · have hafter : desk.after (.sweep visited) = swept := by
      rw [after, perform, if_pos (List.isPerm_iff.2 hv)]
      exact congrArg Prod.snd hswept
    have hlawful : swept.Lawful := hafter ▸ (after_turn hs _).lawful (hafter ▸ hroom) h
    have hmem : offer.closed .timeout desk.now ∈ found.offers := by
      rw [hoffers]
      exact List.mem_append_right _ List.mem_cons_self
    have hrefused := reject_refused hfound (hlawful.askedOnce hfound) hmem rfl
    exact hrefused
  · have hrejected : rejected = desk.after (.respond order offer.driver .reject) :=
      (congrArg Prod.snd hperform).symm
    have hsound : rejected.Sound := hrejected ▸ (after_turn hs _).sound hs
    refine after_sweep_keeps hsound hleft ?_ rfl visited'
    show (_ ++ _ :: _)[_]? = _
    rw [List.getElem?_append_right (Nat.le_refl _), Nat.sub_self, List.getElem?_cons_zero]

/-- After every run, if searches rest before they are tried again, a sweep gives a
report wherever searches come to an end. Whenever it gives one, an offer that has run
out could as well have been rejected by its driver at this time. For its order it
would be the same, but for the row of the offer and the names of new offers: the
docket, its place among the open orders, its searches asleep, the notices about it,
and the fleet. And whichever is done first, the offer keeps the outcome that it got:
a rejection after the sweep is refused, and a sweep after the rejection leaves the
offer as it is. -/
theorem reject_and_timeout_agree (settings : Settings) (start : Instant) (cmds : List Command)
    (hrest : 0 < settings.retryAfter) {visited : List Uuid}
    (hv : visited.Perm ((opening settings start).run cmds).floor.openOrders)
    (hroom : ((opening settings start).run (cmds ++ [.sweep visited])).floor.issued ≤
      Uuid.capacity) :
    let desk := (opening settings start).run cmds
    (desk.floor.CanSearch → ∃ report, (desk.sweepAs visited).1 = .ok report) ∧
    ∀ report swept, desk.sweepAs visited = (.ok report, swept) →
      ∀ order docket offer, desk.docket? order = some docket → offer ∈ docket.offers →
        offer.isExpired settings.offerSpan desk.now = true →
        ∃ earlier reaction rejected found new π,
          docket.offers = earlier ++ [offer] ∧
          desk.perform (.respond order offer.driver .reject) = (.done reaction, rejected) ∧
          Uuid.Renames π desk.floor.issued swept.floor.issued ∧
          swept.docket? order = some found ∧
          found.offers = earlier ++ offer.closed .timeout desk.now :: new ∧
          rejected.docket? order = some (found.withOffers
            (earlier ++ offer.closed .rejected desk.now :: new.map (·.renamed π))) ∧
          swept.SameFor order π rejected ∧
          swept.perform (.respond order offer.driver .reject) =
            (.refused (.noOffer order offer.driver), swept) ∧
          ∀ visited', ((rejected.after (.sweep visited')).offersFor order)[earlier.length]? =
            some (offer.closed .rejected desk.now) := by
  intro desk
  have hs : desk.Sound := run_sound (opening_sound settings start) cmds
  have hhow : desk.settings = settings := run_settings (opening_sound settings start) cmds
  refine ⟨fun hc => sweepAs_ok hs hc visited, fun report swept hswept order docket offer hd hm he =>
    ?_⟩
  have hrun : (opening settings start).run (cmds ++ [.sweep visited]) = swept := by
    rw [run_concat, after, perform, if_pos (List.isPerm_iff.2 hv)]
    exact congrArg Prod.snd hswept
  have hlawful : desk.Lawful := by
    refine run_lawful (Nat.le_trans ?_ hroom)
    rw [run_append]
    exact run_issued_le hs _
  rw [← hhow] at he hrest
  exact hlawful.reject_swept hrest hv hswept (hrun ▸ hroom) hd hm he

/-- In the run nobody has been asked, so there is nothing to be turned down. Where the order
has been offered to a driver, who has not answered for 25 seconds, a sweep and a rejection
come to the same. -/
theorem reject_and_timeout_agree_trial :
    let desk := (opening {} trialStart).run [.create trialRequest]
    let asked := askedDesk 25000
    ((∃ report, (desk.sweepAs [trialOrder]).1 = .ok report) ∧
      ∀ docket offer, desk.docket? trialOrder = some docket → offer ∈ docket.offers →
        offer.isExpired (Settings.offerSpan {}) desk.now = true →
        ∃ reaction rejected, desk.perform (.respond trialOrder offer.driver .reject) =
          (.done reaction, rejected)) ∧
    ∃ docket offer report swept reaction rejected found new π,
      asked.LiveFor (.ofNat 9) docket offer ∧
      asked.sweepAs [trialOrder] = (.ok report, swept) ∧
      asked.perform (.respond trialOrder (.ofNat 9) .reject) = (.done reaction, rejected) ∧
      swept.docket? trialOrder = some found ∧
      found.offers = offer.closed .timeout asked.now :: new ∧
      rejected.docket? trialOrder = some (found.withOffers
        (offer.closed .rejected asked.now :: new.map (·.renamed π))) ∧
      swept.SameFor trialOrder π rejected := by
  intro desk asked
  constructor
  · have hopen : desk.floor.openOrders = [trialOrder] := by decide +kernel
    obtain ⟨hok, hsame⟩ := reject_and_timeout_agree {} trialStart [.create trialRequest]
      (by decide) (.of_eq hopen.symm) (by decide +kernel)
    obtain ⟨report, hr⟩ := hok ⟨by decide +kernel, by decide +kernel⟩
    refine ⟨⟨report, hr⟩, fun docket offer hd hm he => ?_⟩
    obtain ⟨-, reaction, rejected, -, -, -, -, hperform, -⟩ :=
      hsame report _ (Prod.ext hr rfl) trialOrder docket offer hd hm he
    exact ⟨reaction, rejected, hperform⟩
  · have hdesk : asked.Lawful := askedDesk_lawful 25000
    obtain ⟨docket, offer, hlive, hid, hoffers, hmade⟩ := askedDesk_live 25000
    have hopen : asked.floor.openOrders = [trialOrder] := by decide +kernel
    obtain ⟨report, hreport⟩ := sweepAs_ok hdesk.sound
      ⟨by decide +kernel, by decide +kernel⟩ [trialOrder]
    have hlate : offer.isExpired asked.settings.offerSpan asked.now = true := by
      rw [Offer.isExpired, hmade, Offer.isOutstanding_iff.2 hlive.out]
      decide +kernel
    have hroom : (asked.sweepAs [trialOrder]).2.floor.issued ≤ Uuid.capacity := by decide +kernel
    obtain ⟨earlier, reaction, rejected, found, new, π, hlast, hreject, -, hfound, hclosed, hleft,
      hsame, -⟩ := hdesk.reject_swept (by decide +kernel) (.of_eq hopen.symm)
        (Prod.ext hreport rfl) hroom hlive.known hlive.mem hlate
    obtain rfl : earlier = [] := by
      rw [hoffers] at hlast
      exact (List.append_eq_singleton_iff.1 hlast.symm).elim (·.1) fun h => by simp at h
    rw [hid, hlive.asked] at hreject
    rw [hid] at hfound hleft hsame
    exact ⟨docket, offer, report, _, reaction, rejected, found, new, π, hlive,
      Prod.ext hreport rfl, hreject, hfound, hclosed, hleft, hsame⟩

end Desk

end Hailing
