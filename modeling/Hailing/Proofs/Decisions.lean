import Hailing.Proofs.Traces

/-!
# What decisions leave on the floor

A driver who accepts, a cancellation and the end of a trip are unlike searches:
they change the fleet. But of the fleet they see and change one driver only,
the one who accepts or who is on the trip. So on a floor on which nothing is
different for this driver (`Floor.AlikeFor`) they do the same and leave the same
trace, whoever else has come, gone or moved; and no other entry is in the trace
(`Trace.Concerns`).

Many drivers may want the same order, and whether one gets the trip is the only
thing that an acceptance asks of the fleet. So the claim comes first
(`Case.claim_onto`), and what follows from it does not look at the fleet again.
-/

namespace Hailing

namespace Floor

/-- Nothing is different for a driver. -/
structure AlikeFor (driver? : Option Uuid) (f g : Floor) : Prop where
  settings : g.settings = f.settings
  clock : g.clock = f.clock
  driver : ∀ {driver}, driver? = some driver → g.fleet.find? driver = f.fleet.find? driver

variable {driver? : Option Uuid} {f g : Floor}

theorem AlikeFor.now_eq (h : f.AlikeFor driver? g) : g.now = f.now := congrArg Clock.wall h.clock

theorem notify_eq_leave (recipient : Uuid) (event : Event) (order : Uuid) (f : Floor) :
    f.notify recipient event = f.leave order { told := [⟨recipient, event, f.now⟩] } := by
  simp [leave, notify]

theorem markFree_eq_leave (driver order : Uuid) (f : Floor) :
    { f with fleet := f.fleet.markFree driver order } =
      f.leave order { changed? := (f.fleet.find? driver).map (·.dropTrip order) } := by
  unfold Fleet.markFree
  cases f.fleet.find? driver <;> simp [leave]

end Floor

/-- The trace of an errand: it draws one identifier at most, and changes nobody
but one driver, who is on record. -/
structure Trace.Concerns (fleet : Fleet) (driver? : Option Uuid) (t : Trace) : Prop where
  drawn : t.drawn ≤ 1
  entry : ∀ {d}, t.changed? = some d → driver? = some d.id ∧ (fleet.find? d.id).isSome = true

theorem Trace.Concerns.nothing (fleet : Fleet) (driver? : Option Uuid) :
    Concerns fleet driver? {} := ⟨Nat.zero_le _, fun h => by cases h⟩

/-- The driver who is on the trip of an order. -/
def Docket.onTrip? (d : Docket) : Option Uuid :=
  if d.order.status = .confirmed then d.order.driver? else none

namespace Case

/-- A claim succeeds or fails for the driver, whoever else there is. -/
theorem claim_onto (driver : Uuid) (c : Case) :
    ∃ claimed changed?, (∀ {d}, changed? = some d → d.id = driver) ∧
      ∀ {π g}, c.floor.AlikeFor (some driver) g →
        (c.onto π g).claim driver =
          (claimed, c.onto π (g.leave c.docket.id { changed? := changed? })) := by
  cases hp : c.docket.order.pickup? with
  | none =>
      refine ⟨true, none, (by simp), fun {π g} _ => ?_⟩
      simp only [claim, onto_docket, Docket.renamed_order, hp, Floor.leave_nothing]
  | some pickup =>
      cases hd : c.docket.order.destination? with
      | none =>
          refine ⟨true, none, (by simp), fun {π g} _ => ?_⟩
          simp only [claim, onto_docket, Docket.renamed_order, hp, hd, Floor.leave_nothing]
      | some destination =>
          let radius := c.floor.settings.destinationRadius
          let known := c.floor.fleet.driver driver
          let trip : Driver.Trip := ⟨c.docket.id, destination⟩
          have hclaim : ∀ {π g}, c.floor.AlikeFor (some driver) g → (c.onto π g).claim driver =
              if known.canTake radius pickup then
                (true, c.onto π { g with fleet := g.fleet.put (known.addTrip trip) })
              else (false, c.onto π g) := by
            intro π g hg
            have hknown : g.fleet.driver driver = known := by
              show (g.fleet.find? driver).getD _ = (c.floor.fleet.find? driver).getD _
              rw [hg.driver rfl]
            have hradius : g.settings.destinationRadius = radius :=
              congrArg Settings.destinationRadius hg.settings
            simp only [claim, onto_docket, onto_floor, Docket.renamed_order, hp, hd, hradius,
              Fleet.claimTrip, hknown]
            split <;> rfl
          by_cases ht : known.canTake radius pickup = true
          · refine ⟨true, some (known.addTrip trip), ?_, fun {π g} hg => ?_⟩
            · rintro _ ⟨⟩
              rw [Driver.addTrip_eq]
              exact Fleet.driver_id
            · rw [hclaim hg, if_pos ht]
              simp [Floor.leave]
          · refine ⟨false, none, (by simp), fun {π g} hg => ?_⟩
            rw [hclaim hg, if_neg ht, Floor.leave_nothing]

/-- What follows when a driver has got the trip. -/
def grant (driver : Uuid) (c : Case) : Case :=
  (((c.confirm driver).notify c.docket.order.rider
    (.driverFound c.docket.id c.docket.order.code driver)).count
      fun l => { l with accepted := l.accepted + 1, pending := l.pending - 1 }).settle

def grantTrace (driver : Uuid) (c : Case) : Trace :=
  { closes := (c.confirm driver).docket.isSettled
    counted := { accepted := 1, pending := -1 }
    told := [⟨c.docket.order.rider, .driverFound c.docket.id c.docket.order.code driver,
      c.floor.now⟩] }

theorem accept_eq {claimed : Bool} {c c₁ : Case} (offer : Offer)
    (h : c.claim offer.driver = (claimed, c₁)) :
    c.accept offer =
      if claimed then
        (.done ⟨(c₁.resolve offer .accepted).1, .confirmed, none⟩,
          (c₁.resolve offer .accepted).2.grant offer.driver)
      else (.refused (.tripElsewhere c₁.docket.id offer.driver), c₁) := by
  unfold accept
  rw [h]
  cases claimed <;> rfl

theorem grant_onto {c : Case} {π : Renaming} {g : Floor} (hg : g.now = c.floor.now)
    (driver : Uuid) :
    (c.onto π g).grant driver =
      (c.grant driver).onto π (g.leave c.docket.id ((c.grantTrace driver).renamed π)) := by
  have hcount : ∀ l : Ledger, { l with accepted := l.accepted + 1, pending := l.pending - 1 } =
      l + { accepted := 1, pending := -1 } := fun l => by simp [Ledger.add_def, Int.sub_eq_add_neg]
  have hsettled : ((c.onto π g).confirm driver).docket.isSettled =
      (c.confirm driver).docket.isSettled := (c.confirm driver).docket.renamed_isSettled π
  refine congrArg (Case.mk _) ?_
  show ((g.notify _ _).count _).settle ((c.onto π g).confirm driver).docket = _
  rw [Floor.settle_eq_leave, Floor.count_eq_leave hcount c.docket.id,
    Floor.notify_eq_leave _ _ c.docket.id, hsettled, hg]
  show ((g.leave c.docket.id _).leave c.docket.id _).leave c.docket.id _ = _
  rw [Floor.leave_leave ⟨rfl, rfl⟩, Floor.leave_leave ⟨rfl, rfl⟩]
  rfl

/-- What an accepted offer leads to, if the claim is known. -/
theorem accept_onto {c : Case} {offer : Offer} {claimed : Bool} {changed? : Option Driver}
    {π : Renaming} {g : Floor} (hg : g.now = c.floor.now)
    (h : (c.onto π g).claim offer.driver =
      (claimed, c.onto π (g.leave c.docket.id { changed? := changed? }))) :
    let resolved := c.resolve offer .accepted
    (c.onto π g).accept (offer.renamed π) =
      if claimed then
        (.done ⟨resolved.1.renamed π, .confirmed, none⟩,
          (resolved.2.grant offer.driver).onto π (g.leave c.docket.id
            (({ changed? := changed? } : Trace).andThen
              (resolved.2.grantTrace offer.driver) |>.renamed π)))
      else (.refused (.tripElsewhere c.docket.id offer.driver),
        c.onto π (g.leave c.docket.id { changed? := changed? })) := by
  let claimedFloor := g.leave c.docket.id { changed? := changed? }
  have hresolve := resolve_onto (c := c) (π := π) (g := claimedFloor) hg offer .accepted
  have hgrant := grant_onto (c := (c.resolve offer .accepted).2) (π := π) (g := claimedFloor) hg
    offer.driver
  have hid : (c.resolve offer .accepted).2.docket.id = c.docket.id := rfl
  rw [hid, Floor.leave_leave ⟨rfl, rfl⟩] at hgrant
  intro resolved
  rw [accept_eq (offer.renamed π) h, hresolve]
  show (if claimed then (_, (resolved.2.onto π _).grant offer.driver) else _) = _
  rw [hgrant]
  rfl

/-- A driver accepts. Nothing is seen or changed of any other driver. -/
theorem accept_leaves (driver : Uuid) {c : Case}
    (hk : ∀ offer ∈ c.docket.offers, (c.floor.fleet.find? offer.driver).isSome = true) :
    ∃ t, Leaves (Floor.AlikeFor (some driver)) (fun π => Answer.map (Reaction.renamed π))
        (·.respond driver .accept) c t ∧
      t.Concerns c.floor.fleet (some driver) := by
  have hself : c.floor.AlikeFor (some driver) c.floor := ⟨rfl, rfl, fun _ => rfl⟩
  by_cases hp : c.docket.isPending = true
  · cases hf : c.docket.offerTo? driver with
    | none =>
        refine ⟨{}, .still (a := .refused (.noOffer c.docket.id driver)) hself rfl
          fun _ => ?_, .nothing _ _⟩
        simp [respond, hp, hf, Docket.renamed_offerTo?, Answer.map]
    | some offer =>
        obtain rfl : offer.driver = driver := by
          have hfor := List.find?_some hf
          simp only [Offer.isOutstandingFor, Bool.and_eq_true, decide_eq_true_eq] at hfor
          exact hfor.2
        have honto : ∀ {π g}, (c.onto π g).respond offer.driver .accept =
            (c.onto π g).accept (offer.renamed π) := by
          intro π g
          simp only [respond, onto_docket, Docket.renamed_offerTo?, Docket.renamed_isPending,
            hf, hp]
          rfl
        -- Whether the trip is the driver's is decided before anything else.
        obtain ⟨claimed, changed?, hentry, hclaim⟩ := claim_onto offer.driver c
        have hconcerns : ∀ {d}, changed? = some d →
            some offer.driver = some d.id ∧ (c.floor.fleet.find? d.id).isSome = true := by
          intro d hd
          rw [hentry hd]
          exact ⟨rfl, hk offer (List.mem_of_find?_eq_some hf)⟩
        cases claimed with
        | false =>
            refine ⟨{ changed? := changed? }, .of_onto (d := c.docket)
              (a := .refused (.tripElsewhere c.docket.id offer.driver)) hself rfl rfl
              fun {π g} hg _ => ?_, Nat.zero_le _, hconcerns⟩
            exact honto.trans (accept_onto hg.now_eq (hclaim hg))
        | true =>
            let resolved := c.resolve offer .accepted
            refine ⟨({ changed? := changed? } : Trace).andThen (resolved.2.grantTrace offer.driver),
              .of_onto (d := (resolved.2.grant offer.driver).docket)
              (a := .done ⟨resolved.1, .confirmed, none⟩) hself rfl rfl fun {π g} hg _ => ?_,
              Nat.zero_le _, hconcerns⟩
            exact honto.trans (accept_onto hg.now_eq (hclaim hg))
  · refine ⟨{}, .still (a := .refused (.notAcceptable c.docket.id c.docket.order.status))
      hself rfl fun _ => ?_, .nothing _ _⟩
    simp [respond, hp, Answer.map]

/-- The entry of the driver without the trip. -/
def freedDriver? (c : Case) : Option Driver :=
  c.docket.order.driver?.bind fun driver =>
    (c.floor.fleet.find? driver).map (·.dropTrip c.docket.id)

theorem freedDriver?_spec {c : Case} {d : Driver} (h : c.freedDriver? = some d) :
    c.docket.order.driver? = some d.id ∧ (c.floor.fleet.find? d.id).isSome = true := by
  obtain ⟨driver, hdriver, hd⟩ := Option.bind_eq_some_iff.1 h
  obtain ⟨known, hknown, rfl⟩ := Option.map_eq_some_iff.1 hd
  have hid : known.id = driver := Register.key_of_find? hknown
  subst hid
  exact ⟨hdriver, by rw [show (known.dropTrip c.docket.id).id = known.id from rfl, hknown]; rfl⟩

theorem freedDriver?_onto {c : Case} {π : Renaming} {g : Floor}
    (hg : c.floor.AlikeFor c.docket.order.driver? g) :
    (c.onto π g).freedDriver? = c.freedDriver? := by
  show c.docket.order.driver?.bind _ = c.docket.order.driver?.bind _
  cases hd : c.docket.order.driver? with
  | none => rfl
  | some driver =>
      show (g.fleet.find? driver).map _ = (c.floor.fleet.find? driver).map _
      rw [hg.driver hd]
      rfl

def releaseTrace (c : Case) : Trace :=
  { changed? := c.freedDriver?
    told := c.docket.order.driver?.toList.map fun driver =>
      ⟨driver, .orderCancelled c.docket.id c.docket.order.code, c.floor.now⟩ }

theorem releaseDriver_leave (c : Case) :
    c.releaseDriver = c.onFloor (·.leave c.docket.id c.releaseTrace) := by
  unfold releaseDriver releaseTrace freedDriver?
  cases hd : c.docket.order.driver? with
  | none => exact congrArg (Case.mk _) (Floor.leave_nothing _ _).symm
  | some driver =>
      refine congrArg (Case.mk _) ?_
      show Floor.notify _ _ { c.floor with fleet := _ } = _
      rw [Floor.markFree_eq_leave, Floor.notify_eq_leave _ _ c.docket.id,
        Floor.leave_leave ⟨rfl, rfl⟩]
      rfl

def completeTrace (c : Case) : Trace :=
  { changed? := c.freedDriver?
    told := [⟨c.docket.order.rider, .orderCompleted c.docket.id c.docket.order.code,
      c.floor.now⟩] }

theorem completed_leave (c : Case) :
    c.completed.floor = c.floor.leave c.docket.id c.completeTrace := by
  unfold completed completeTrace freedDriver?
  cases hd : c.docket.order.driver? with
  | none =>
      simp only [onDocket, hd]
      exact Floor.notify_eq_leave _ _ _ _
  | some driver =>
      simp only [onDocket, hd]
      show Floor.notify c.docket.order.rider (.orderCompleted c.docket.id c.docket.order.code)
        { c.floor with fleet := c.floor.fleet.markFree driver c.docket.id } = _
      rw [Floor.markFree_eq_leave, Floor.notify_eq_leave _ _ c.docket.id,
        Floor.leave_leave ⟨rfl, rfl⟩]
      rfl

theorem releaseTrace_onto {c : Case} {π : Renaming} {g : Floor}
    (hg : c.floor.AlikeFor c.docket.order.driver? g) :
    (c.onto π g).releaseTrace = c.releaseTrace.renamed π := by
  rw [releaseTrace, freedDriver?_onto hg, onto_docket, onto_floor, hg.now_eq]
  cases hd : c.docket.order.driver? <;>
    simp [releaseTrace, Trace.renamed, hd, Notice.renamed, Event.renamed]

theorem completeTrace_onto {c : Case} {π : Renaming} {g : Floor}
    (hg : c.floor.AlikeFor c.docket.order.driver? g) :
    (c.onto π g).completeTrace = c.completeTrace.renamed π := by
  rw [completeTrace, freedDriver?_onto hg, onto_docket, onto_floor, hg.now_eq]
  rfl

theorem cancel_eq {reason : Order.Reason} {text : Option String}
    {cancellation : Order.Cancellation} {c : Case}
    (hs : c.docket.order.status = .pending ∨ c.docket.order.status = .confirmed)
    (hm : Order.Cancellation.make reason text c.floor.now = .ok cancellation) :
    c.cancel reason text =
      (.done (c.withdraw cancellation).docket.order,
        (if c.docket.order.status = .pending then
          (c.withdraw cancellation).count fun l => { l with pending := l.pending - 1 }
        else (c.withdraw cancellation).releaseDriver).settle) := by
  have hs' : ¬(c.docket.order.status ≠ .pending ∧ c.docket.order.status ≠ .confirmed) := by
    rcases hs with hs | hs <;> simp [hs]
  unfold cancel
  rw [if_neg hs', hm]
  dsimp only
  split
  · rfl
  · refine congrArg (Prod.mk · _) (congrArg (fun d : Docket => Answer.done d.order) ?_)
    exact releaseDriver_docket (c.withdraw cancellation)

/-- A cancellation sees and changes nobody but the driver who is on the trip. -/
theorem cancel_leaves (reason : Order.Reason) (text : Option String) (c : Case) :
    ∃ t, Leaves (Floor.AlikeFor c.docket.onTrip?) (fun _ a => a) (·.cancel reason text) c t ∧
      t.Concerns c.floor.fleet c.docket.onTrip? := by
  have hself : c.floor.AlikeFor c.docket.onTrip? c.floor := ⟨rfl, rfl, fun _ => rfl⟩
  by_cases hs : c.docket.order.status ≠ .pending ∧ c.docket.order.status ≠ .confirmed
  · exact ⟨{}, .still (a := .refused (.notCancellable c.docket.id c.docket.order.status)) hself rfl
      fun _ => if_pos hs, .nothing _ _⟩
  have hs' : c.docket.order.status = .pending ∨ c.docket.order.status = .confirmed := by
    rwa [not_and_or, not_not, not_not] at hs
  cases hm : Order.Cancellation.make reason text c.floor.now with
  | error refusal =>
      refine ⟨{}, .still (a := .refused refusal) hself rfl fun {π g} hg => ?_, .nothing _ _⟩
      refine (if_neg hs).trans ?_
      simp only [onto_floor, hg.now_eq, hm]
  | ok cancellation =>
      let withdrawn := c.withdraw cancellation
      have hmake : ∀ {π g}, c.floor.AlikeFor c.docket.onTrip? g →
          Order.Cancellation.make reason text (c.onto π g).floor.now = .ok cancellation := by
        intro π g hg
        rw [onto_floor, hg.now_eq, hm]
      have hsettled : ∀ π, (withdrawn.docket.renamed π).isSettled = withdrawn.docket.isSettled :=
        fun π => withdrawn.docket.renamed_isSettled π
      by_cases hp : c.docket.order.status = .pending
      · -- Nobody is on the trip, and the fleet is left alone.
        have hcount : ∀ l : Ledger, { l with pending := l.pending - 1 } = l + { pending := -1 } :=
          fun l => by simp [Ledger.add_def, Int.sub_eq_add_neg]
        refine ⟨{ closes := withdrawn.docket.isSettled, counted := { pending := -1 } },
          .of_onto (a := .done withdrawn.docket.order) (d := withdrawn.docket) hself rfl rfl
          fun {π g} hg _ => ?_, Nat.zero_le _, fun hd => by cases hd⟩
        rw [cancel_eq (c := c.onto π g) hs' (hmake hg)]
        refine congrArg (Prod.mk _) ((congrArg settle (if_pos hp)).trans (congrArg (Case.mk _) ?_))
        show (g.count _).settle (withdrawn.docket.renamed π) = _
        rw [Floor.settle_eq_leave, Floor.count_eq_leave hcount c.docket.id, hsettled]
        exact Floor.leave_leave ⟨rfl, rfl⟩ _ _
      · have hc := hs'.resolve_left hp
        have htrip : c.docket.onTrip? = c.docket.order.driver? := if_pos hc
        refine ⟨withdrawn.releaseTrace.andThen { closes := withdrawn.docket.isSettled },
          .of_onto (a := .done withdrawn.docket.order) (d := withdrawn.docket) hself rfl rfl
          fun {π g} hg _ => ?_, Nat.zero_le _, fun hd => ?_⟩
        · rw [cancel_eq (c := c.onto π g) hs' (hmake hg)]
          refine congrArg (Prod.mk _) ((congrArg settle (if_neg hp)).trans ?_)
          show (withdrawn.onto π g).releaseDriver.settle = _
          rw [htrip] at hg
          rw [releaseDriver_leave, releaseTrace_onto (c := withdrawn) hg]
          refine congrArg (Case.mk _) ?_
          show (g.leave _ _).settle (withdrawn.docket.renamed π) = _
          rw [Floor.settle_eq_leave, hsettled, Trace.renamed_andThen]
          have hplain : Trace.Plain { closes := withdrawn.docket.isSettled } := ⟨rfl, rfl⟩
          exact Floor.leave_leave hplain _ _
        · rw [htrip]
          exact freedDriver?_spec (c := withdrawn) hd

/-- So does the end of a trip. -/
theorem complete_leaves (c : Case) :
    ∃ t, Leaves (Floor.AlikeFor c.docket.onTrip?) (fun _ a => a) (·.complete) c t ∧
      t.Concerns c.floor.fleet c.docket.onTrip? := by
  have hself : c.floor.AlikeFor c.docket.onTrip? c.floor := ⟨rfl, rfl, fun _ => rfl⟩
  by_cases hs : c.docket.order.status = .confirmed
  · have htrip : c.docket.onTrip? = c.docket.order.driver? := if_pos hs
    refine ⟨c.completeTrace, .of_onto (a := .done c.completed.docket.order)
      (d := c.completed.docket) hself rfl ?_ fun {π g} hg _ => ?_, Nat.zero_le _, fun hd => ?_⟩
    · rw [completed_docket]
      rfl
    · rw [htrip] at hg
      have hdone : (c.onto π g).complete =
          (.done (c.onto π g).completed.docket.order, (c.onto π g).completed) :=
        if_neg (not_not.2 hs)
      have hdocket : (c.onto π g).completed.docket = c.completed.docket.renamed π := by
        rw [completed_docket, completed_docket, onto_floor, hg.now_eq]
        rfl
      have hfloor : (c.onto π g).completed.floor =
          g.leave c.docket.id (c.completeTrace.renamed π) := by
        rw [completed_leave, completeTrace_onto hg]
        rfl
      rw [hdone, hdocket]
      exact congrArg (Prod.mk _) (congrArg₂ Case.mk hdocket hfloor)
    · rw [htrip]
      exact freedDriver?_spec hd
  · exact ⟨{}, .still (a := .refused (.notCompletable c.docket.id c.docket.order.status)) hself rfl
      fun _ => if_pos hs, .nothing _ _⟩

end Case

end Hailing
