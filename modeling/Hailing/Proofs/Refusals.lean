import Hailing.Http.Call
import Hailing.Proofs.Watching

/-!
# A refusal leaves no trace

Whatever is refused might as well not have been asked for: the dockets, the
list of open orders, the number of the last order, the fleet, the ledger, the
searches asleep and the notices sent are as they were. It is said of the desk
as a whole, so nothing that a desk ever gets is forgotten here.

Wherever something can be refused, nothing has been written before (`Spares`).
Two places need a second look. A driver who is refused a trip has been looked
up before, and looking up a driver who was never heard of would put them on
record; but such a driver is free, and is never refused one. And a search that
woke up is taken out of those asleep before its order is looked up; but it has
its order on record, so this lookup is never refused.
-/

namespace Hailing

open Geo (Point)
open Time (Instant)

/-- If it is refused, what it leaves behind is what was there before. -/
def Answer.Spares {α σ : Type} (before : σ) (result : Answer α × σ) : Prop :=
  result.1.isRefused = true → result.2 = before

namespace Answer.Spares

variable {α β σ : Type} {s t : σ} {a : Answer α}

theorem refused (r : Refusal) (s : σ) : Spares (α := α) s (.refused r, s) := fun _ => rfl

/-- What cannot be refused may leave behind anything. -/
theorem of_not_refused (h : a.isRefused = false) : Spares s (a, t) :=
  fun hr => absurd (h.symm.trans hr) (by decide)

theorem map (f : α → β) (h : Spares s (a, t)) : Spares s (a.map f, t) := by
  intro hr
  rw [Answer.isRefused_map] at hr
  exact h hr

end Answer.Spares

open Answer (Spares)

namespace Fleet

theorem report_spares (id : Uuid) (point : Point) (stamp now : Instant) (fleet : Fleet) :
    Spares fleet (fleet.report id point stamp now) := by
  unfold report
  split
  · exact .refused _ _
  · split
    · exact .of_not_refused rfl
    · dsimp only
      split
      · exact .refused _ _
      · split
        · exact .of_not_refused rfl
        · exact .of_not_refused rfl

theorem setAvailability_spares (id : Uuid) (online : Bool) (maxPickup : Option Float)
    (fleet : Fleet) : Spares fleet (fleet.setAvailability id online maxPickup) := by
  unfold setAvailability
  split
  · exact .refused _ _
  · exact .of_not_refused rfl

/-- Only a driver on record can be refused a trip, as any other is free. -/
theorem claimTrip_failed {radius : Float} {id : Uuid} {pickup : Point} {trip : Driver.Trip}
    {fleet : Fleet} (h : (fleet.claimTrip radius id pickup trip).1 = false) :
    (fleet.find? id).isSome = true ∧ (fleet.claimTrip radius id pickup trip).2 = fleet := by
  unfold claimTrip at h ⊢
  dsimp only at h ⊢
  split at h
  · cases h
  · next hc =>
      rw [if_neg hc]
      refine ⟨?_, rfl⟩
      cases hd : fleet.find? id with
      | some => rfl
      | none => simp [driver, hd, Driver.new, Driver.canTake, Driver.isFree] at hc

end Fleet

namespace Case

theorem Decides.spares {α : Type} {cmd : Command} {c : Case} {result : Answer α × Case}
    (h : Decides cmd c result) : Spares c result := by
  rcases h with ⟨refusal, rfl⟩ | ⟨_, _, rfl, -⟩
  · exact .refused _ _
  · exact .of_not_refused rfl

theorem reject_spares {c : Case} (h : c.docket.OneOpen) (driver : Uuid) :
    Spares c (c.respond driver .reject) := by
  rcases reject_cases h driver with
    ⟨_, hr⟩ | ⟨_, -, -, -, ⟨-, react, hr⟩ | ⟨-, _, hr⟩⟩
  · rw [hr]
    exact .refused _ _
  · rw [hr]
    exact .map react (.of_not_refused (Answer.isRefused_ofExcept _))
  · rw [hr]
    exact .of_not_refused rfl

theorem retry_spares (c : Case) : Spares c c.retry := by
  unfold retry
  split
  · exact .refused _ _
  · exact .of_not_refused (Answer.isRefused_ofExcept _)

end Case

namespace Desk

/-- Work that spares the case spares the desk. -/
theorem handle_spares {α : Type} {order : Uuid} {work : Case → Answer α × Case} {desk : Desk}
    (hw : ∀ docket, docket.id = order → desk.docket? docket.id = some docket →
      Spares ⟨docket, desk.floor⟩ (work ⟨docket, desk.floor⟩)) :
    Spares desk (desk.handle order work) := by
  intro hr
  rcases handle_cases order work desk with ⟨_, h⟩ | ⟨docket, hid, hd, h⟩
  · rw [h]
  · rw [h] at hr ⊢
    rw [hw docket hid hd hr]
    exact putBack_self hd

theorem handle_freely_spares {α : Type} (order : Uuid)
    (work : Case → Except Breakdown α × Case) (desk : Desk) :
    Spares desk (desk.handle order (freely work)) :=
  handle_spares fun _ _ _ => .of_not_refused (Answer.isRefused_ofExcept _)

theorem withFleet_spares {α : Type} {work : Fleet → Answer α × Fleet} {desk : Desk}
    (hw : Spares desk.floor.fleet (work desk.floor.fleet)) :
    Spares desk (desk.withFleet work) := by
  intro hr
  show { desk with floor := { desk.floor with fleet := (work desk.floor.fleet).2 } } = desk
  rw [hw hr]

theorem createOrder_spares (request : Order.NewOrder) (desk : Desk) :
    Spares desk (desk.createOrder request) := by
  rcases createOrder_cases request desk with ⟨_, h⟩ | ⟨_, react, h⟩
  · rw [h]
    exact .refused _ _
  · rw [h]
    exact .map react (.of_not_refused (Answer.isRefused_ofExcept _))

theorem respond_spares {desk : Desk} (hs : desk.Sound) (order driver : Uuid)
    (reply : Offer.Reply) : Spares desk (desk.respond order driver reply) := by
  refine handle_spares fun docket hid hd => ?_
  have ho := (hs.orderly hd).oneOpen
  cases reply with
  | accept => exact (Case.accept_decides (c := ⟨docket, desk.floor⟩) ho driver).spares
  | reject => exact Case.reject_spares ho driver

theorem cancelOrder_spares (order : Uuid) (reason : Order.Reason) (text : Option String)
    (desk : Desk) : Spares desk (desk.cancelOrder order reason text) :=
  handle_spares fun docket _ _ => (Case.cancel_decides reason text ⟨docket, desk.floor⟩).spares

theorem completeOrder_spares (order : Uuid) (desk : Desk) :
    Spares desk (desk.completeOrder order) :=
  handle_spares fun docket _ _ => (Case.complete_decides ⟨docket, desk.floor⟩).spares

/-- A search that wakes up finds its order, and is refused nothing. -/
theorem wake_not_refused {desk : Desk} (hk : desk.SearchesKnown) (place : Nat) :
    (desk.perform (.wake place)).1.isRefused = false := by
  cases hs : desk.floor.sleeping[place]? with
  | none =>
      rw [perform_wake_none hs]
      rfl
  | some search =>
      obtain ⟨docket, hd⟩ := hk.docket_of_sleeping hs
      have htaken : (desk.takeSearch place).docket? search.order = some docket := hd
      rw [perform_wake hs, handle, htaken]
      exact Answer.isRefused_ofExcept _

theorem perform_spares {desk : Desk} (hs : desk.Sound) (hk : desk.SearchesKnown)
    (cmd : Command) : Spares desk (desk.perform cmd) := by
  cases cmd with
  | create request => exact createOrder_spares request desk
  | respond order driver reply => exact respond_spares hs order driver reply
  | cancel order reason text => exact cancelOrder_spares order reason text desk
  | complete order => exact completeOrder_spares order desk
  | dispatch order => exact handle_freely_spares order _ desk
  | retry order => exact handle_spares fun docket _ _ => Case.retry_spares ⟨docket, desk.floor⟩
  | reassign order driver => exact handle_freely_spares order _ desk
  | report driver point stamp => exact withFleet_spares (Fleet.report_spares _ _ _ _ _)
  | setAvailability driver online maxPickup =>
      exact withFleet_spares (Fleet.setAvailability_spares _ _ _ _)
  | claimTrip | markFree | setClock => exact .of_not_refused rfl
  | sweep visited =>
      rw [perform]
      split
      · exact .of_not_refused (Answer.isRefused_ofExcept _)
      · exact .of_not_refused rfl
  | wake place => exact .of_not_refused (wake_not_refused hk place)

/-- The calls that only look leave the desk as it is in any case. -/
theorem call_spares {desk : Desk} (hs : desk.Sound) (call : Http.Call) :
    Spares desk (call.run desk) := by
  cases call with
  | drivers | driver | offers | order | driverPosition | health | metrics => exact fun _ => rfl
  | report id r => exact .map _ (withFleet_spares (Fleet.report_spares _ _ _ _ _))
  | availability id a => exact .map _ (withFleet_spares (Fleet.setAvailability_spares _ _ _ _))
  | respond driver order reply => exact .map _ (respond_spares hs order driver reply)
  | createOrder request => exact .map _ (createOrder_spares request desk)
  | cancel id w => exact .map _ (cancelOrder_spares id w.reason w.otherReason desk)
  | complete id => exact .map _ (completeOrder_spares id desk)
  | retry id =>
      exact .map _ (handle_spares fun docket _ _ => Case.retry_spares ⟨docket, desk.floor⟩)

/-- After every run, a command or a call that is refused leaves the desk as it
was. A driver who is refused a trip was on record, and the desk stays as it
was. -/
theorem refusals_leave_no_trace (settings : Settings) (start : Instant)
    (cmds : List Command) :
    let desk := (opening settings start).run cmds
    (∀ cmd : Command, (desk.perform cmd).1.isRefused = true → desk.after cmd = desk) ∧
    (∀ call : Http.Call, (call.run desk).1.isRefused = true → (call.run desk).2 = desk) ∧
    (∀ driver pickup trip, (desk.claimTrip driver pickup trip).1 = false →
      (desk.floor.fleet.find? driver).isSome = true ∧
        (desk.claimTrip driver pickup trip).2 = desk) := by
  intro desk
  have hopen := opening_sound settings start
  have hs : desk.Sound := run_sound hopen cmds
  have hk : desk.SearchesKnown :=
    run_searchesKnown hopen (opening_searchesKnown settings start) cmds
  refine ⟨perform_spares hs hk, call_spares hs, fun driver pickup trip hf => ?_⟩
  obtain ⟨hknown, hsame⟩ := Fleet.claimTrip_failed hf
  refine ⟨hknown, ?_⟩
  show { desk with floor := { desk.floor with fleet := (Fleet.claimTrip _ _ _ _ _).2 } } = desk
  rw [hsame]

/-- A cancellation that lacks the text it needs, and a request whose last leg
ends beyond the pole. -/
theorem refusals_leave_no_trace_trial :
    let desk := (opening {} trialStart).run (trialRun.take 1)
    let cancel := Command.cancel trialOrder .other none
    let create := Http.Call.createOrder { trialRequest with
      legs := trialRequest.legs ++ [⟨⟨41.35, 69.3⟩, ⟨91, 69.3⟩, none, none⟩] }
    ((desk.perform cancel).1.isRefused = true ∧ desk.after cancel = desk) ∧
      ((create.run desk).1.isRefused = true ∧ (create.run desk).2 = desk) := by
  intro desk cancel create
  have hcancel : (desk.perform cancel).1.isRefused = true := by decide +kernel
  have hcreate : (create.run desk).1.isRefused = true := by decide +kernel
  have h := refusals_leave_no_trace {} trialStart (trialRun.take 1)
  exact ⟨⟨hcancel, h.1 cancel hcancel⟩, hcreate, h.2.1 create hcreate⟩

end Desk

end Hailing
