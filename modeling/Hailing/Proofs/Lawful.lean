import Hailing.Proofs.Drawn
import Hailing.Proofs.Exclusion
import Hailing.Proofs.Listing

/-!
# Desks on which offers are out

What an answer or a sweep does to an offer depends on the desk that it is out on, and
not on how it got there. So that is said of every desk that is as runs leave it
(`Desk.Lawful`), and a desk after a run is only one of these (`run_lawful`).

There are others. Whom a search comes upon depends on distances, and these are worked out
in floating point from sines, of which nothing is known here but that the machine has
them; no run that is written out can be followed through a search that finds somebody.
What a search does with whomever it has found is plain, though (`Desk.offerTo`, which is
what a dispatch does by `dispatch_offerTo`), and it takes little to see that the desk stays
as runs leave it (`Lawful.offerTo`): the driver has to be on record and must not be
excluded. Where the driver is does not matter. So an offer can be made by hand on a desk
after a run, and more commands can follow.
-/

namespace Hailing

open Time (Instant)

/-! ## While an offer is out no search waits -/

def Docket.Paused (d : Docket) : Prop := d.hasOutstanding = true → d.searching = false

theorem Docket.Paused.congr {d d' : Docket} (h : d.Paused) (ho : d'.offers = d.offers)
    (hs : d'.searching = d.searching) : d'.Paused := by
  intro hout
  rw [hasOutstanding, ho] at hout
  rw [hs]
  exact h hout

/-- The flag is set when nobody was found, and then no offer is out. -/
theorem Docket.Paused.of_none {d : Docket} (h : d.hasOutstanding = false) : d.Paused :=
  fun hout => absurd (h.symm.trans hout) (by decide)

namespace Case

theorem paused_law : Law fun a b => a.Paused → b.Paused where
  refl _ h := h
  trans h₁ h₂ h := h₂ (h₁ h)
  moved _ hm h := by
    cases hm with
    | dispatched hd =>
        cases hd with
        | skipped => exact h
        | offered hs => exact fun _ => (Docket.skipReason?_eq_none.1 hs).2.2
        | searching hs => exact .of_none (Docket.skipReason?_eq_none.1 hs).2.1
        | exhausted => exact fun _ => rfl
    | excluded driver =>
        exact h.congr (Docket.exclude_offers _ _) (Docket.exclude_searching _ _)
    | closed hl ho =>
        -- The offer that is closed was out, so the flag was not set.
        intro _
        show (Docket.exclude _ _).searching = false
        rw [Docket.exclude_searching]
        exact h (Docket.hasOutstanding_of_last hl ho)
    | settled => exact h
  decided _ hd h := by
    cases hd with
    | taken | withdrawn => exact fun _ => rfl
    | recalled =>
        show (releaseDriver _).docket.Paused
        rw [releaseDriver_docket]
        exact fun _ => rfl
    | completed =>
        rw [completed_docket]
        exact h.congr rfl rfl
  resumed _ hr _ := by
    cases hr with
    | abandoned | offered | exhausted => exact fun _ => rfl
    | widened _ hn => exact .of_none hn

end Case

namespace Desk

variable {desk desk' : Desk}

/-! ## Laws of all dockets -/

/-- A property of dockets that new ones have and steps keep, after one command. -/
theorem Turn.docket {P : Docket → Prop} (hR : Case.Law fun a b => P a → P b)
    (hnew : ∀ record, Drafted record → P (.new record)) {cmd : Command}
    (ht : Turn desk cmd desk') (hs : desk.Sound) (hi : desk'.floor.issued ≤ Uuid.capacity)
    (h : ∀ ⦃order docket⦄, desk.docket? order = some docket → P docket) ⦃order : Uuid⦄
    ⦃docket : Docket⦄ (hd : desk'.docket? order = some docket) : P docket := by
  obtain ⟨before, ho, hkept⟩ := ht.follows hR hs hi order docket hd
  cases ho with
  | old hbefore => exact hkept (h hbefore)
  | new _ _ hr => exact hkept (hnew _ hr)

/-- A desk as runs leave it. -/
structure Lawful (desk : Desk) : Prop where
  drawn : desk.Drawn
  indexed : desk.Indexed
  routed : desk.Routed
  askedOnce : ∀ ⦃order docket⦄, desk.docket? order = some docket → docket.AskedOnce
  paused : ∀ ⦃order docket⦄, desk.docket? order = some docket → docket.Paused
  known : ∀ order, ∀ offer ∈ desk.offersFor order,
    (desk.floor.fleet.find? offer.driver).isSome = true

theorem mem_offersFor {order : Uuid} {offer : Offer} : offer ∈ desk.offersFor order ↔
    ∃ docket, desk.docket? order = some docket ∧ offer ∈ docket.offers := by
  rw [offersFor]
  cases desk.docket? order <;> simp

theorem Lawful.sound (h : desk.Lawful) : desk.Sound := h.drawn.sound

theorem Lawful.known_driver (h : desk.Lawful) {order : Uuid} {docket : Docket}
    (hd : desk.docket? order = some docket) {offer : Offer} (hm : offer ∈ docket.offers) :
    (desk.floor.fleet.find? offer.driver).isSome = true :=
  h.known order offer (mem_offersFor.2 ⟨docket, hd, hm⟩)

theorem Turn.lawful {cmd : Command} (ht : Turn desk cmd desk')
    (hi : desk'.floor.issued ≤ Uuid.capacity) (h : desk.Lawful) : desk'.Lawful where
  drawn := ht.drawn hi h.drawn
  indexed := ht.indexed h.indexed
  routed := ht.docket Case.routed_law (fun _ hr => hr.routed) h.sound hi h.routed
  askedOnce := ht.docket Case.askedOnce_law (fun record _ => .new record) h.sound hi h.askedOnce
  paused := ht.docket Case.paused_law (fun _ _ => .of_none rfl) h.sound hi h.paused
  known := fun order => ht.asked_known hi (h.known order)

theorem opening_lawful (settings : Settings) (start : Instant) :
    (opening settings start).Lawful where
  drawn := show ((opening settings start).run []).Drawn from run_drawn (Nat.zero_le _)
  indexed := opening_indexed settings start
  routed := fun _ _ hd => by cases hd
  askedOnce := fun _ _ hd => by cases hd
  paused := fun _ _ hd => by cases hd
  known := fun _ _ hm => by cases hm

/-- More commands may follow. -/
theorem Lawful.run (h : desk.Lawful) {cmds : List Command}
    (hi : (desk.run cmds).floor.issued ≤ Uuid.capacity) : (desk.run cmds).Lawful :=
  run_induction (P := fun _ desk => desk.Lawful) h.sound h
    (fun _ _ _ ht hi hl => ht.lawful hi hl) hi

theorem run_lawful {settings : Settings} {start : Instant} {cmds : List Command}
    (hi : ((opening settings start).run cmds).floor.issued ≤ Uuid.capacity) :
    ((opening settings start).run cmds).Lawful :=
  (opening_lawful settings start).run hi

/-! ## An offer that is made by hand -/

/-- What is done when an order is dispatched and the search comes upon this candidate. -/
def offerTo (order : Uuid) (candidate : Candidate) (radius : Float) (desk : Desk) : Desk :=
  match desk.docket? order with
  | none => desk
  | some docket =>
      let c : Case := ⟨docket, desk.floor⟩
      desk.putBack (c.makeOffer (c.draftOffer candidate radius))

variable {order : Uuid} {docket : Docket} {candidate : Candidate} {radius : Float}

theorem offerTo_eq (hd : desk.docket? order = some docket) :
    desk.offerTo order candidate radius =
      let c : Case := ⟨docket, desk.floor⟩
      desk.putBack (c.makeOffer (c.draftOffer candidate radius)) := by
  simp only [offerTo, hd]

theorem offerTo_settings : (desk.offerTo order candidate radius).settings = desk.settings := by
  unfold offerTo
  split <;> rfl

theorem dispatch_offerTo (hd : desk.docket? order = some docket)
    (hs : docket.skipReason? = none) {wider : List Float}
    (hr : desk.settings.radii = some ⟨radius, wider⟩)
    (hb : (Case.mk docket desk.floor).best? radius = .ok (some candidate)) :
    desk.perform (.dispatch order) =
      (.done (.offered desk.floor.nextId candidate.driver radius),
        desk.offerTo order candidate radius) := by
  have hdispatched : Case.Dispatched ⟨docket, desk.floor⟩ _ _ := .offered hs hr hb
  rw [offerTo_eq hd]
  show desk.handle order (freely Case.dispatch) = _
  rw [handle, hd]
  dsimp only [freely]
  rw [hdispatched.dispatch_eq]
  rfl

/-- What all dockets are like they still are when one is put back that is like it. -/
theorem forall_docket_putBack {P : Docket → Prop} {c : Case}
    (h : ∀ ⦃order docket⦄, desk.docket? order = some docket → P docket) (hc : P c.docket)
    ⦃order : Uuid⦄ ⦃docket : Docket⦄ (hd : (desk.putBack c).docket? order = some docket) :
    P docket := by
  rcases docket?_putBack_cases hd with ⟨-, rfl⟩ | ⟨-, hd⟩
  · exact hc
  · exact h hd

/-- The desk stays as runs leave it, if a search is called for and the driver is on record
and not excluded. -/
theorem Lawful.offerTo (h : desk.Lawful) (hd : desk.docket? order = some docket)
    (hs : docket.skipReason? = none)
    (hknown : (desk.floor.fleet.find? candidate.driver).isSome = true)
    (hnew : candidate.driver ∉ docket.excluded) (radius : Float) :
    (desk.offerTo order candidate radius).Lawful := by
  obtain rfl := id_of_docket? hd
  obtain ⟨hp, hn, hidle⟩ := Docket.skipReason?_eq_none.1 hs
  have hw := Docket.isPending_iff.1 hp
  have ho := h.sound.orderly hd
  have hr : docket.Routed := h.routed hd
  let c : Case := ⟨docket, desk.floor⟩
  let c' := c.makeOffer (c.draftOffer candidate radius)
  have hlater : desk.floor.Later c'.floor := ⟨Nat.le_succ _, .refl _, fun h => h⟩
  have hasked : ∀ offer ∈ c'.docket.offers,
      (desk.floor.fleet.find? offer.driver).isSome = true := by
    intro offer hm
    rcases List.mem_append.1 hm with hm | hm
    · exact h.known_driver hd hm
    · rwa [List.mem_singleton.1 hm]
  rw [offerTo_eq hd]
  show (desk.putBack c').Lawful
  exact
    { drawn :=
        { sound := h.sound.putBack hd rfl (ho.offered hw hn rfl) hlater
          offers := offers_drawn_putBack h.drawn.offers hlater.issued_le
            (Case.makeOffer_drawn (h.drawn.offers hd) candidate radius)
          told := h.drawn.told.putBack hd rfl ⟨rfl, rfl⟩ (Case.Reports.offered ho hw) }
      indexed := h.indexed.putBack hd (.of_pending hp rfl rfl)
      routed := forall_docket_putBack h.routed hr
      askedOnce := forall_docket_putBack h.askedOnce
        ((h.askedOnce hd).offered ho hw hn hnew rfl)
      paused := forall_docket_putBack h.paused fun _ => hidle
      known := by
        intro order offer hm
        obtain ⟨found, hf, hm⟩ := mem_offersFor.1 hm
        rcases docket?_putBack_cases hf with ⟨-, rfl⟩ | ⟨-, hf⟩
        · exact hasked offer hm
        · exact h.known_driver hf hm }

/-- The offer is out. -/
theorem offerTo_live (hd : desk.docket? order = some docket)
    (hw : docket.order.status = .pending) (candidate : Candidate) (radius : Float) :
    let offer := (Case.mk docket desk.floor).draftOffer candidate radius
    (desk.offerTo order candidate radius).LiveFor candidate.driver
      { docket with offers := docket.offers ++ [offer] } offer where
  known := by
    rw [offerTo_eq hd]
    exact (docket?_putBack _ _ _).trans (if_pos rfl)
  waits := hw
  mem := List.mem_append_right _ List.mem_cons_self
  out := rfl
  asked := rfl

/-! ## A trial desk

A driver is on record, but nobody knows where they are, so the order is searched for in
vain up to the largest radius. Then it is offered to them after all, and some time goes by. -/

def trialSearch : Desk :=
  (opening {} trialStart).run
    [.setAvailability (.ofNat 9) true none, .create trialRequest, .wake 0, .wake 0, .wake 0]

def trialCandidate : Candidate := ⟨.ofNat 9, 1.0, false⟩

def askedDesk (ticks : Nat) : Desk :=
  (trialSearch.offerTo trialOrder trialCandidate 5.0).run [.setClock ⟨trialStart, ticks, 0⟩]

theorem trialSearch_waits : ∃ docket, trialSearch.docket? trialOrder = some docket ∧
    docket.skipReason? = none ∧ docket.offers = [] ∧ trialCandidate.driver ∉ docket.excluded := by
  have hrests : (trialSearch.docket? trialOrder).any (fun d => d.skipReason?.isNone &&
      d.offers.isEmpty && !d.excluded.contains trialCandidate.driver) = true := by
    decide +kernel
  obtain ⟨docket, hd, hrests⟩ := (Option.any_eq_true _ _).1 hrests
  simp only [Bool.and_eq_true, Option.isNone_iff_eq_none, List.isEmpty_iff, Bool.not_eq_true',
    List.contains_eq_mem, decide_eq_false_iff_not] at hrests
  exact ⟨docket, hd, hrests.1.1, hrests.1.2, hrests.2⟩

theorem askedDesk_lawful (ticks : Nat) : (askedDesk ticks).Lawful := by
  obtain ⟨docket, hd, hs, -, hnew⟩ := trialSearch_waits
  have hsearched : trialSearch.Lawful := run_lawful (by decide +kernel)
  have hknown : (trialSearch.floor.fleet.find? trialCandidate.driver).isSome = true := by
    decide +kernel
  refine (hsearched.offerTo hd hs hknown hnew 5.0).run ?_
  show (trialSearch.offerTo trialOrder trialCandidate 5.0).floor.issued ≤ _
  decide +kernel

theorem askedDesk_settings (ticks : Nat) : (askedDesk ticks).settings = {} := by
  refine offerTo_settings.trans ?_
  exact run_settings (opening_sound {} trialStart) _

theorem askedDesk_free (ticks : Nat) :
    ((askedDesk ticks).floor.fleet.driver (.ofNat 9)).trips = [] := by
  refine List.isEmpty_iff.1 ?_
  show ((trialSearch.offerTo trialOrder trialCandidate 5.0).floor.fleet.driver _).trips.isEmpty = _
  decide +kernel

theorem askedDesk_live (ticks : Nat) : ∃ docket offer,
    (askedDesk ticks).LiveFor (.ofNat 9) docket offer ∧ docket.id = trialOrder ∧
      docket.offers = [offer] ∧ offer.requestedAt = trialStart := by
  obtain ⟨docket, hd, hs, hnone, -⟩ := trialSearch_waits
  have hw := Docket.isPending_iff.1 (Docket.skipReason?_eq_none.1 hs).1
  have hlive := offerTo_live hd hw trialCandidate 5.0
  have hid : docket.id = trialOrder := id_of_docket? hd
  refine ⟨_, _, ⟨hlive.known, hlive.waits, hlive.mem, hlive.out, hlive.asked⟩, hid, ?_, ?_⟩
  · rw [hnone]
    rfl
  · show trialSearch.now = trialStart
    decide +kernel

end Desk

end Hailing
