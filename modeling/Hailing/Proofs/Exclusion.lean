import Mathlib.Data.List.Perm.Subperm
import Hailing.Proofs.Runs

/-!
# No driver is asked twice

Who turns an offer down is excluded from the order, and a search passes over
those who are excluded. When an offer is made, no offer is out and none was
accepted, so all drivers asked before have turned theirs down and are
excluded: the next one is a new one (`AskedOnce.offered`). That is the whole
argument, and it needs the offers and the excluded drivers to be looked at
together.

Beside it stands what a command as a whole does (`Docket.Asks`). Drivers are
excluded first and asked afterwards, so whoever is asked is not excluded even
at the end of the command.
-/

namespace Hailing

open Time (Instant)

namespace Docket

/-- The drivers who were asked, in the order in which they were. -/
def asked (d : Docket) : List Uuid := d.offers.map (·.driver)

theorem answered_asked {d : Docket} {offer : Offer} (hl : d.offers.getLast? = some offer)
    (status : Offer.Status) (moment : Instant) :
    (d.answered offer status moment).asked = d.asked := by
  rw [asked, asked, offers_eq_of_last hl]
  simp [answered, Offer.closed]

structure AskedOnce (d : Docket) : Prop where
  nodup : d.asked.Nodup
  excluded : ∀ o ∈ d.offers, o.TurnedDown → o.driver ∈ d.excluded

namespace AskedOnce

variable {d : Docket}

theorem new (record : Order) : AskedOnce (.new record) :=
  ⟨List.nodup_nil, fun _ hmem => by cases hmem⟩

theorem congr {d' : Docket} (h : d.AskedOnce) (ho : d'.offers = d.offers)
    (hx : d.excluded ⊆ d'.excluded) : d'.AskedOnce := by
  refine ⟨by rw [asked, ho]; exact h.nodup, fun o hmem ht => hx (h.excluded o ?_ ht)⟩
  rw [← ho]
  exact hmem

/-- Whoever is not excluded has not been asked. -/
theorem offered (h : d.AskedOnce) (hd : d.Orderly) (hp : d.order.status = .pending)
    (hn : d.hasOutstanding = false) {offer : Offer} (hx : offer.driver ∉ d.excluded)
    (ho : offer.isOutstanding = true) :
    AskedOnce { d with offers := d.offers ++ [offer] } := by
  have hdown := hd.turnedDown_of_waiting hp hn
  constructor
  · have hnew : offer.driver ∉ d.asked := by
      intro hmem
      obtain ⟨o, hmem, hsame⟩ := List.mem_map.1 hmem
      exact hx (hsame ▸ h.excluded o hmem (hdown o hmem))
    show (List.map _ (d.offers ++ [offer])).Nodup
    rw [List.map_append]
    refine List.nodup_append.2 ⟨h.nodup, by simp, fun a ha b hb he => hnew ?_⟩
    rw [he, List.mem_singleton.1 hb] at ha
    exact ha
  · intro o hmem ht
    rcases List.mem_append.1 hmem with hmem | hmem
    · exact h.excluded o hmem ht
    · obtain rfl := List.mem_singleton.1 hmem
      rw [ht.not_outstanding] at ho
      cases ho

/-- If the last offer is turned down, its driver must be excluded for it. -/
theorem answered (h : d.AskedOnce) {offer : Offer} {status : Offer.Status}
    {moment : Instant} (hl : d.offers.getLast? = some offer) {d' : Docket}
    (ho : d'.offers = (d.answered offer status moment).offers)
    (hx : d.excluded ⊆ d'.excluded)
    (ht : (offer.closed status moment).TurnedDown → offer.driver ∈ d'.excluded) :
    d'.AskedOnce := by
  constructor
  · have hasked := answered_asked hl status moment
    rw [asked, ← ho] at hasked
    rw [asked, hasked]
    exact h.nodup
  · intro o hmem hdown
    rw [ho] at hmem
    rcases List.mem_append.1 hmem with hmem | hmem
    · exact hx (h.excluded o (List.dropLast_subset _ hmem) hdown)
    · obtain rfl := List.mem_singleton.1 hmem
      exact ht hdown

end AskedOnce

/-- What a command adds to the drivers asked and to those excluded. -/
structure Asks (fleet : Fleet) (a b : Docket) : Prop where
  excluded : a.excluded ⊆ b.excluded
  asked : ∃ drivers, b.asked = a.asked ++ drivers ∧
    ∀ driver ∈ drivers, driver ∉ b.excluded ∧ (fleet.find? driver).isSome = true

namespace Asks

variable {fleet : Fleet} {a b c : Docket}

theorem of_eq (ha : b.asked = a.asked) (hx : a.excluded ⊆ b.excluded) : Asks fleet a b :=
  ⟨hx, [], by simp [ha], fun _ h => by cases h⟩

/-- Nobody may be excluded after somebody was asked. -/
theorem trans (hab : Asks fleet a b) (hbc : Asks fleet b c) (hx : c.excluded = b.excluded) :
    Asks fleet a c := by
  obtain ⟨first, hfirst, hnot⟩ := hab.asked
  obtain ⟨next, hnext, hnot'⟩ := hbc.asked
  refine ⟨hx ▸ hab.excluded, first ++ next, by rw [hnext, hfirst, List.append_assoc],
    fun driver hmem => ?_⟩
  rcases List.mem_append.1 hmem with hmem | hmem
  · rw [hx]
    exact hnot driver hmem
  · exact hnot' driver hmem

end Asks

end Docket

namespace Case

/-- The candidate of a search is an available driver who is known to be somewhere
or is on a trip. -/
theorem best?_available {c : Case} {radius : Float} {candidate : Candidate}
    (h : c.best? radius = .ok (some candidate)) :
    ∃ d ∈ c.floor.fleet.available c.docket.excluded, candidate.driver = d.id ∧
      (d.position?.isSome = true ∨ d.trips ≠ []) := by
  unfold best? at h
  split at h
  · cases h
  · next pickup _ =>
      cases hc : Fleet.candidates c.floor.settings c.floor.fleet pickup radius
        c.docket.excluded c.floor.now with
      | error breakdown => rw [hc] at h; cases h
      | ok ranked =>
          rw [hc] at h
          obtain ⟨rest, rfl⟩ := List.head?_eq_some_iff.1 (Except.ok.inj h)
          exact Fleet.mem_candidates hc List.mem_cons_self

/-- The candidate of a search is on record and not excluded. -/
theorem best?_spec {c : Case} {radius : Float} {candidate : Candidate}
    (h : c.best? radius = .ok (some candidate)) :
    candidate.driver ∉ c.docket.excluded ∧
      (c.floor.fleet.find? candidate.driver).isSome = true := by
  obtain ⟨d, hd, hsame, -⟩ := best?_available h
  obtain ⟨hmem, -, hx⟩ := Fleet.mem_available.1 hd
  rw [hsame]
  exact ⟨hx, Register.mem_keys.1 (List.mem_map_of_mem hmem)⟩

/-! ## Each order asks a driver once -/

theorem makeOffer_askedOnce {c : Case} (ho : c.docket.Orderly) (h : c.docket.AskedOnce)
    (hp : c.docket.isPending = true) (hn : c.docket.hasOutstanding = false)
    {radius : Float} {candidate : Candidate} (hb : c.best? radius = .ok (some candidate)) :
    (c.makeOffer (c.draftOffer candidate radius)).docket.AskedOnce :=
  h.offered ho (Docket.isPending_iff.1 hp) hn (best?_spec hb).1 rfl

theorem askedOnce_law : Law fun a b => a.AskedOnce → b.AskedOnce where
  refl _ h := h
  trans h₁ h₂ h := h₂ (h₁ h)
  moved ho hm h := by
    cases hm with
    | dispatched hd =>
        cases hd with
        | skipped => exact h
        | offered hs _ hb =>
            obtain ⟨hp, hn, -⟩ := Docket.skipReason?_eq_none.1 hs
            exact makeOffer_askedOnce ho h hp hn hb
        | searching | exhausted => exact h.congr rfl (List.Subset.refl _)
    | excluded driver =>
        exact h.congr (Docket.exclude_offers _ _) fun _ hx => Docket.mem_exclude.2 (.inl hx)
    | closed hl =>
        exact h.answered hl (Docket.exclude_offers _ _)
          (fun _ hx => Docket.mem_exclude.2 (.inl hx))
          fun _ => Docket.mem_exclude.2 (.inr rfl)
    | settled => exact h
  decided _ hd h := by
    cases hd with
    | taken _ hl _ hc =>
        rw [← claim_docket hc] at hl h
        exact h.answered hl rfl (List.Subset.refl _) fun ht => absurd rfl ht.not_accepted
    | withdrawn => exact h.congr rfl (List.Subset.refl _)
    | recalled =>
        show (releaseDriver _).docket.AskedOnce
        rw [releaseDriver_docket]
        exact h.congr rfl (List.Subset.refl _)
    | completed =>
        rw [completed_docket]
        exact h.congr rfl (List.Subset.refl _)
  resumed ho hr h := by
    cases hr with
    | offered hp hn hb =>
        exact (makeOffer_askedOnce ho h hp hn hb).congr rfl (List.Subset.refl _)
    | abandoned | exhausted | widened => exact h.congr rfl (List.Subset.refl _)

/-! ## Nobody who is excluded is asked -/

theorem makeOffer_asks {c : Case} {radius : Float} {candidate : Candidate}
    (hb : c.best? radius = .ok (some candidate)) :
    Docket.Asks c.floor.fleet c.docket
      (c.makeOffer (c.draftOffer candidate radius)).docket := by
  refine ⟨List.Subset.refl _, [candidate.driver], ?_, fun driver hmem => ?_⟩
  · simp [makeOffer, draftOffer, Docket.asked]
  · rw [List.mem_singleton.1 hmem]
    exact best?_spec hb

theorem exclude_asks (fleet : Fleet) (driver : Uuid) (d : Docket) :
    Docket.Asks fleet d (d.exclude driver) :=
  .of_eq (by rw [Docket.asked, Docket.exclude_offers, Docket.asked])
    fun _ hx => Docket.mem_exclude.2 (.inl hx)

theorem drop_asks {c : Case} {offer : Offer} (fleet : Fleet) (status : Offer.Status)
    (hl : c.docket.offers.getLast? = some offer) :
    Docket.Asks fleet c.docket (c.drop offer status).docket := by
  refine .of_eq ?_ fun _ hx => Docket.mem_exclude.2 (.inl hx)
  rw [← Docket.answered_asked hl status c.floor.now, Docket.asked, Docket.asked]
  exact congrArg _ (Docket.exclude_offers _ _)

theorem Dispatched.asks {c c' : Case} {outcome : Outcome} (h : Dispatched c outcome c') :
    c'.docket.excluded = c.docket.excluded ∧
      Docket.Asks c.floor.fleet c.docket c'.docket := by
  cases h with
  | skipped | searching | exhausted => exact ⟨rfl, .of_eq rfl (List.Subset.refl _)⟩
  | offered _ _ hb => exact ⟨rfl, makeOffer_asks hb⟩

theorem Sought.asks {c c' : Case} (h : Sought c c') :
    c'.docket.excluded = c.docket.excluded ∧
      Docket.Asks c.floor.fleet c.docket c'.docket := by
  induction h with
  | refl => exact ⟨rfl, .of_eq rfl (List.Subset.refl _)⟩
  | tail hs hstep ih =>
      cases hstep with
      | dispatched hd =>
          obtain ⟨hx, ha⟩ := hd.asks
          rw [(Sought.moves hs).fleet_eq] at ha
          exact ⟨hx.trans ih.1, ih.2.trans ha hx⟩
      | settled => exact ih

theorem Worked.asks {c c' : Case} (h : Worked c c') :
    Docket.Asks c.floor.fleet c.docket c'.docket := by
  cases h with
  | sought h => exact (Sought.asks h).2
  | excluded driver h =>
      obtain ⟨hx, ha⟩ := Sought.asks h
      exact (exclude_asks _ _ _).trans ha hx
  | @closed offer status hl _ _ h =>
      obtain ⟨hx, ha⟩ := Sought.asks h
      have hfleet : (c.drop offer status).settle.floor.fleet = c.floor.fleet :=
        Floor.settle_fleet _ _
      rw [hfleet] at ha
      exact (drop_asks _ _ hl).trans ha hx

theorem Resumed.asks {radii : Radii} {c c' : Case} (h : Resumed radii c c') :
    Docket.Asks c.floor.fleet c.docket c'.docket := by
  cases h with
  | offered _ _ hb => exact ⟨(makeOffer_asks hb).excluded, (makeOffer_asks hb).asked⟩
  | abandoned | exhausted | widened => exact .of_eq rfl (List.Subset.refl _)

theorem Decided.asked_eq {c c' : Case} {cmd : Command} (h : Decided c cmd c') :
    c'.docket.asked = c.docket.asked ∧ c'.docket.excluded = c.docket.excluded := by
  cases h with
  | taken _ hl _ hc =>
      rw [← claim_docket hc] at hl ⊢
      exact ⟨Docket.answered_asked hl _ _, rfl⟩
  | withdrawn => exact ⟨rfl, rfl⟩
  | recalled =>
      show (releaseDriver _).docket.asked = _ ∧ (releaseDriver _).docket.excluded = _
      rw [releaseDriver_docket]
      exact ⟨rfl, rfl⟩
  | completed =>
      rw [completed_docket]
      exact ⟨rfl, rfl⟩

theorem Touched.asks {fleet : Fleet} {a b : Docket} (h : Touched fleet a b) :
    Docket.Asks fleet a b := by
  cases h with
  | left => exact .of_eq rfl (List.Subset.refl _)
  | worked hf hw => exact hf ▸ hw.asks
  | decided hd => exact .of_eq hd.asked_eq.1 fun _ hx => hd.asked_eq.2 ▸ hx
  | resumed hf hr => exact hf ▸ hr.asks

end Case

namespace Desk

/-! ## On the desk -/

/-- Whoever is asked by a command is not excluded when it is over. -/
theorem Turn.asks {desk desk' : Desk} {cmd : Command} (h : Turn desk cmd desk')
    (hi : desk'.floor.issued ≤ Uuid.capacity) (order : Uuid) :
    desk.excludedFrom order ⊆ desk'.excludedFrom order ∧
      ∃ drivers, (desk'.offersFor order).map (·.driver) =
          (desk.offersFor order).map (·.driver) ++ drivers ∧
        ∀ driver ∈ drivers, driver ∉ desk'.excludedFrom order ∧
          (desk.floor.fleet.find? driver).isSome = true := by
  cases hf : desk'.docket? order with
  | none =>
      have hnone : desk.docket? order = none := by
        cases hd : desk.docket? order with
        | none => rfl
        | some docket =>
            have hkept : (desk'.docket? order).isSome = true := h.keeps (by rw [hd]; rfl)
            rw [hf] at hkept
            cases hkept
      simp [offersFor, excludedFrom, hf, hnone]
  | some found =>
      obtain ⟨before, ho, ht⟩ := h.touches hi order found hf
      rw [ho.offersFor_eq.1, ho.offersFor_eq.2]
      simp only [offersFor, excludedFrom, hf, Option.map_some, Option.getD_some]
      exact ⟨ht.asks.excluded, ht.asks.asked⟩

theorem Move.known {desk desk' : Desk} (h : Move desk desk') {driver : Uuid}
    (hd : (desk.floor.fleet.find? driver).isSome = true) :
    (desk'.floor.fleet.find? driver).isSome = true := by
  cases h with
  | worked _ hm => exact hm.later.known hd
  | entered =>
      rw [enter_fleet]
      exact hd
  | reported => exact Fleet.report_known hd
  | madeAvailable => exact Fleet.setAvailability_known hd
  | sweepCounted => exact hd

theorem Moves.known {desk desk' : Desk} (h : Moves desk desk') {driver : Uuid}
    (hd : (desk.floor.fleet.find? driver).isSome = true) :
    (desk'.floor.fleet.find? driver).isSome = true := by
  induction h with
  | refl => exact hd
  | tail _ hm ih => exact hm.known ih

/-- Drivers stay on record. -/
theorem Turn.known {desk desk' : Desk} {cmd : Command} (h : Turn desk cmd desk')
    {driver : Uuid} (hd : (desk.floor.fleet.find? driver).isSome = true) :
    (desk'.floor.fleet.find? driver).isSome = true := by
  cases h with
  | passed _ hm => exact Moves.known hm.moves hd
  | decided _ _ hc => exact hc.later.known hd
  | woken _ _ hr => exact ((takeSearch_later _ desk).trans hr.later).known hd
  | lost | clockSet => exact hd
  | claimed => exact Fleet.claimTrip_known hd
  | freed => exact Fleet.markFree_known hd

theorem Turn.asked_known {desk desk' : Desk} {cmd : Command} (h : Turn desk cmd desk')
    (hi : desk'.floor.issued ≤ Uuid.capacity) {order : Uuid}
    (hk : ∀ offer ∈ desk.offersFor order, (desk.floor.fleet.find? offer.driver).isSome = true) :
    ∀ offer ∈ desk'.offersFor order, (desk'.floor.fleet.find? offer.driver).isSome = true := by
  intro offer hmem
  obtain ⟨drivers, hasked, hnew⟩ := (h.asks hi order).2
  have hdriver : offer.driver ∈ (desk'.offersFor order).map (·.driver) := List.mem_map_of_mem hmem
  rw [hasked] at hdriver
  rcases List.mem_append.1 hdriver with hold | hadded
  · obtain ⟨before, hbefore, hsame⟩ := List.mem_map.1 hold
    rw [← hsame]
    exact h.known (hk before hbefore)
  · exact h.known (hnew _ hadded).2

/-- Every driver who was ever asked is on record. -/
theorem asked_known {settings : Settings} {start : Instant} {cmds : List Command}
    (hi : ((opening settings start).run cmds).floor.issued ≤ Uuid.capacity) (order : Uuid) :
    ∀ offer ∈ ((opening settings start).run cmds).offersFor order,
      (((opening settings start).run cmds).floor.fleet.find? offer.driver).isSome = true :=
  run_induction (P := fun _ desk => ∀ offer ∈ desk.offersFor order,
      (desk.floor.fleet.find? offer.driver).isSome = true)
    (opening_sound settings start) (fun offer hmem => by cases hmem)
    (fun _ _ _ ht hi ih => ht.asked_known hi ih) hi

theorem run_askedOnce {settings : Settings} {start : Instant} {cmds : List Command}
    (hi : ((opening settings start).run cmds).floor.issued ≤ Uuid.capacity)
    {order : Uuid} {docket : Docket}
    (hd : ((opening settings start).run cmds).docket? order = some docket) :
    docket.AskedOnce :=
  run_docket (P := Docket.AskedOnce) Case.askedOnce_law (fun record _ => .new record) hi hd

/-- After every run the drivers who were asked to take an order are all
different, those who turned it down are excluded from it, and there are at
most as many as there are drivers. With every step of the run the excluded
drivers of an order only become more, the offers made for it before stay in
their places, and those made in this step went to drivers who are not excluded
even when the step is over. -/
theorem asked_at_most_once (settings : Settings) (start : Instant) (cmds : List Command)
    (hi : ((opening settings start).run cmds).floor.issued ≤ Uuid.capacity) :
    (∀ order,
      let desk := (opening settings start).run cmds
      ((desk.offersFor order).map (·.driver)).Nodup ∧
      (∀ offer ∈ desk.offersFor order, offer.status = .rejected ∨ offer.status = .timeout →
        offer.driver ∈ desk.excludedFrom order) ∧
      (desk.offersFor order).length ≤ desk.floor.fleet.size) ∧
    ∀ before cmd rest order, cmds = before ++ cmd :: rest →
      let desk := (opening settings start).run before
      let desk' := (opening settings start).run (before ++ [cmd])
      desk.excludedFrom order ⊆ desk'.excludedFrom order ∧
      (desk.offersFor order).map (·.driver) <+: (desk'.offersFor order).map (·.driver) ∧
      ∀ offer ∈ (desk'.offersFor order).drop (desk.offersFor order).length,
        offer.driver ∉ desk'.excludedFrom order := by
  refine ⟨fun order => ?_, ?_⟩
  · dsimp only
    have hknown := asked_known hi order
    cases hd : ((opening settings start).run cmds).docket? order with
    | none => simp [offersFor, hd]
    | some docket =>
        obtain ⟨hoffers, hexcluded⟩ := (Origin.old hd).offersFor_eq
        have honce := run_askedOnce hi hd
        rw [hoffers] at hknown ⊢
        rw [hexcluded]
        refine ⟨honce.nodup, honce.excluded, ?_⟩
        have hsub : docket.asked ⊆
            ((opening settings start).run cmds).floor.fleet.items.map Driver.id := by
          intro driver hmem
          obtain ⟨o, ho, rfl⟩ := List.mem_map.1 hmem
          exact Register.mem_keys.2 (hknown o ho)
        have hle := (List.subperm_of_subset honce.nodup hsub).length_le
        rwa [Docket.asked, List.length_map, List.length_map] at hle
  · rintro before cmd rest order rfl
    obtain ⟨-, hturn, hle⟩ := run_split (opening_sound settings start) hi
    obtain ⟨hx, drivers, hasked, hnot⟩ := hturn.asks hle order
    refine ⟨hx, ⟨drivers, hasked.symm⟩, fun offer hmem => ?_⟩
    have hnew := List.mem_map_of_mem (f := Offer.driver) hmem
    rw [List.map_drop, hasked, List.drop_left' (List.length_map _)] at hnew
    exact (hnot _ hnew).1

theorem asked_at_most_once_trial :
    ((opening {} trialStart).run trialRun).floor.issued ≤ Uuid.capacity ∧
      (((opening {} trialStart).run trialRun).offersFor trialOrder).length ≤
        ((opening {} trialStart).run trialRun).floor.fleet.size := by
  have hi : ((opening {} trialStart).run trialRun).floor.issued ≤ Uuid.capacity := by
    decide +kernel
  exact ⟨hi, ((asked_at_most_once {} trialStart trialRun hi).1 trialOrder).2.2⟩

end Desk

end Hailing
