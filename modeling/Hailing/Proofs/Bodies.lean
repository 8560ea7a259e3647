import Hailing.Http.Call
import Hailing.Proofs.RoundTrip

/-!
# Bodies

What a client is told is written down once more, field by field and word by word
(`Told`). It is what the writers of the records write, so none of them can leave out a
field, mix two of them up or change a word without an equation here failing.

What a client asks can be put in many ways. The fields of a record may stand in any
order, and one that may be missing is given, or null, or not there. All bodies that
stand for a request are read as this request (`Body.reads`): with the fields that are
not there left out of its form, the others fill it (`Form.Fills`).
-/

namespace Hailing.Http

open Geo (Point)
open Json
open Json.Form (Fills)
open Time (Instant)

/-! ## What is told -/

namespace Told

/-- What may be missing is told as null. -/
def orNull {α : Type} (tell : α → Value) : Option α → Value
  | some a => tell a
  | none => .null

def uuid (id : Uuid) : Value := .text (toString id)

def moment (t : Instant) : Value := .text t.toWire

def point (p : Point) : Value := .record [("lat", .real p.lat), ("lng", .real p.lng)]

def position (p : Driver.Position) : Value :=
  .record [("point", point p.point), ("updated_at", moment p.updatedAt)]

def trip (t : Driver.Trip) : Value :=
  .record [("order_id", uuid t.order), ("destination", point t.destination)]

def driver (d : Driver) : Value :=
  .record
    [ ("id", uuid d.id),
      ("online", .bool d.online),
      ("max_pickup_km", orNull .real d.maxPickup?),
      ("location", orNull position d.position?),
      ("active_trips", .list (d.trips.map trip)) ]

/-- Whether a report of a position counts. -/
def reception : Fleet.Reception → Value
  | .applied => .text "applied"
  | .ignored => .text "ignored"

def offerStatus : Offer.Status → Value
  | .requested => .text "requested"
  | .accepted => .text "accepted"
  | .rejected => .text "rejected"
  | .timeout => .text "timeout"

def offer (o : Offer) : Value :=
  .record
    [ ("id", uuid o.id),
      ("order_id", uuid o.order),
      ("driver_id", uuid o.driver),
      ("status", offerStatus o.status),
      ("radius_km", .real o.radius),
      ("distance_km", .real o.distance),
      ("destination_match", .bool o.destinationMatch),
      ("requested_at", moment o.requestedAt),
      ("responded_at", orNull moment o.respondedAt?) ]

/-- An offer as it is put to its driver. -/
def view (v : Offer.View) : Value :=
  .record
    [ ("assignment_id", uuid v.offer),
      ("order_id", uuid v.order),
      ("order_code", .text v.orderCode),
      ("pickup", point v.pickup),
      ("distance_km", .real v.distance),
      ("requested_at", moment v.requestedAt),
      ("remaining_secs", .whole v.remainingSeconds.toInt) ]

def orderStatus : Order.Status → Value
  | .pending => .text "pending"
  | .confirmed => .text "confirmed"
  | .completed => .text "completed"
  | .cancelled => .text "cancelled"

def kind : Order.Kind → Value
  | .pickup => .text "pickup"
  | .forMe => .text "for_me"

def reason : Order.Reason → Value
  | .changeInPlans => .text "change_in_plans"
  | .waitingForLongTime => .text "waiting_for_long_time"
  | .driverDeniedToGoToDestination => .text "driver_denied_to_go_to_destination"
  | .driverDeniedToComeToPickup => .text "driver_denied_to_come_to_pickup"
  | .wrongAddressShown => .text "wrong_address_shown"
  | .thePriceIsNotReasonable => .text "the_price_is_not_reasonable"
  | .emergencySituation => .text "emergency_situation"
  | .other => .text "other"

def cancellation (c : Order.Cancellation) : Value :=
  .record
    [ ("reason", reason c.reason),
      ("other_reason", orNull .text c.otherReason),
      ("cancelled_at", moment c.cancelledAt) ]

def leg (leg : Order.Leg) : Value :=
  .record
    [ ("pickup", point leg.pickup),
      ("dropoff", point leg.dropoff),
      ("is_final_stop", .bool leg.finalStop),
      ("ride_category", .text leg.category),
      ("distance_km", .real leg.distance),
      ("eta_minutes", .whole leg.etaMinutes.toNat),
      ("price", orNull .real leg.price) ]

def order (o : Order) : Value :=
  .record
    [ ("id", uuid o.id),
      ("code", .text o.code),
      ("rider_id", uuid o.rider),
      ("kind", kind o.kind),
      ("legs", .list (o.legs.map leg)),
      ("status", orderStatus o.status),
      ("driver_id", orNull uuid o.driver?),
      ("cancellation", orNull cancellation o.cancellation?),
      ("created_at", moment o.createdAt),
      ("completed_at", orNull moment o.completedAt?) ]

/-- What became of a search. -/
def outcome : Outcome → Value
  | .offered offer driver radius =>
    .record
      [ ("outcome", .text "offered"),
        ("assignment_id", uuid offer),
        ("driver_id", uuid driver),
        ("radius_km", .real radius) ]
  | .searching next =>
    .record [("outcome", .text "searching"), ("next_radius_km", .real next)]
  | .exhausted => .record [("outcome", .text "exhausted")]
  | .skipped .notPending =>
    .record [("outcome", .text "skipped"), ("reason", .text "order is not pending")]
  | .skipped .offerOutstanding =>
    .record [("outcome", .text "skipped"), ("reason", .text "offer already outstanding")]
  | .skipped .searchInFlight =>
    .record [("outcome", .text "skipped"), ("reason", .text "search already in flight")]

def created (c : Desk.Created) : Value :=
  .record [("order", order c.order), ("dispatch", outcome c.dispatch)]

/-- An order with all that was done about it. -/
def details (d : Docket) : Value :=
  .record
    [ ("order", order d.order),
      ("assignments", .list (d.offers.map offer)),
      ("searching", .bool d.searching) ]

/-- What became of an offer that was answered. -/
def reaction (r : Reaction) : Value :=
  .record
    [ ("assignment", offer r.offer),
      ("order_status", orderStatus r.orderStatus),
      ("next", orNull outcome r.next?) ]

/-- What became of a report. -/
def reported (r : Fleet.Reception × Driver) : Value :=
  .record [("result", reception r.1), ("driver", driver r.2)]

/-! It is what is written. -/

theorem orNull_eq {α : Type} (tell : α → Value) : orNull tell = .ofOption tell :=
  funext fun o => by cases o <;> rfl

theorem position_eq : position = Driver.Position.toValue := rfl

theorem driver_eq : driver = Driver.toValue := by
  funext d
  simp only [driver, orNull_eq, position_eq]
  rfl

theorem reception_eq (r : Fleet.Reception) : reception r = .text r.word := by
  cases r <;> rfl

theorem offer_eq : offer = Offer.toValue := by
  funext o
  have hstatus : offerStatus o.status = o.status.toValue := by cases o.status <;> rfl
  simp only [offer, orNull_eq, hstatus]
  rfl

theorem view_eq : view = Offer.View.toValue := rfl

theorem orderStatus_eq : orderStatus = Order.Status.toValue :=
  funext fun s => by cases s <;> rfl

theorem kind_eq : kind = Order.Kind.toValue :=
  funext fun k => by cases k <;> rfl

theorem reason_eq : reason = Order.Reason.toValue :=
  funext fun r => by cases r <;> rfl

theorem cancellation_eq : cancellation = Order.Cancellation.toValue := by
  funext c
  simp only [cancellation, orNull_eq, reason_eq]
  rfl

theorem leg_eq : leg = Order.Leg.toValue := by
  funext l
  simp only [leg, orNull_eq]
  rfl

theorem order_eq : order = Order.toValue := by
  funext o
  simp only [order, orNull_eq, kind_eq, leg_eq, orderStatus_eq, cancellation_eq]
  rfl

theorem outcome_eq : outcome = Outcome.toValue := by
  funext o
  cases o with
  | offered | searching | exhausted => rfl
  | skipped reason => cases reason <;> rfl

theorem created_eq : created = Desk.Created.toValue := by
  funext c
  rw [created, order_eq, outcome_eq]
  rfl

theorem details_eq (d : Docket) :
    details d = (Desk.Details.mk d.order d.offers d.searching).toValue := by
  rw [details, order_eq, offer_eq]
  rfl

theorem reaction_eq : reaction = Reaction.toValue := by
  funext r
  rw [reaction, offer_eq, orderStatus_eq, outcome_eq, orNull_eq]
  rfl

theorem reported_eq : reported = Call.receptionValue := by
  funext r
  rw [reported, reception_eq, driver_eq]
  rfl

end Told

/-! ## What is asked -/

namespace Body

/-- What may be written for a field that can be missing. -/
inductive Field {α : Type} (name : String) (tell : α → Value) : Option α → Given → Prop
  | given (a : α) : Field name tell (some a) [(name, tell a)]
  | null : Field name tell none [(name, .null)]
  | missing : Field name tell none []

/-- A point, with its fields in any order. -/
inductive Place (p : Point) : Value → Prop
  | record {fields : Given} (h : fields.Perm [("lat", .real p.lat), ("lng", .real p.lng)]) :
      Place p (.record fields)

inductive Leg (leg : Order.NewLeg) : Value → Prop
  | record {pickup dropoff : Value} {category price fields : Given}
      (hp : Place leg.pickup pickup) (hd : Place leg.dropoff dropoff)
      (hcategory : Field "ride_category" .text leg.category category)
      (hprice : Field "price" .real leg.price price)
      (h : fields.Perm ([("pickup", pickup), ("dropoff", dropoff)] ++ category ++ price)) :
      Leg leg (.record fields)

/-- An order is a pickup of somebody unless something else is said. -/
inductive Kind : Order.Kind → Given → Prop
  | given (kind : Order.Kind) : Kind kind [("kind", Told.kind kind)]
  | missing : Kind .pickup []

end Body

open Body (Field Place Leg Kind)

/-- The bodies that stand for what is asked, which each kind of request has its decoder
for. -/
inductive Body : {α : Type} → Decoder α → α → Value → Prop
  | report {report : Driver.Report} {stamp fields : Given}
      (hstamp : Field "at" Told.moment report.stamp stamp)
      (h : fields.Perm ([("lat", .real report.lat), ("lng", .real report.lng)] ++ stamp)) :
      Body Driver.Report.decoder report (.record fields)
  | availability {availability : Driver.Availability} {limit fields : Given}
      (hlimit : Field "max_pickup_km" .real availability.maxPickup limit)
      (h : fields.Perm ([("online", .bool availability.online)] ++ limit)) :
      Body Driver.Availability.decoder availability (.record fields)
  | accept : Body Offer.Response.decoder ⟨.accept⟩ (.record [("action", .text "accept")])
  | reject : Body Offer.Response.decoder ⟨.reject⟩ (.record [("action", .text "reject")])
  | order {request : Order.NewOrder} {kind fields : Given} {legs : List Value}
      (hkind : Kind request.kind kind) (hlegs : List.Forall₂ Leg request.legs legs)
      (h : fields.Perm ([("rider_id", Told.uuid request.rider)] ++ kind ++
        [("legs", .list legs)])) :
      Body Order.NewOrder.decoder request (.record fields)
  | withdrawal {withdrawal : Order.Withdrawal} {other fields : Given}
      (hother : Field "other_reason" .text withdrawal.otherReason other)
      (h : fields.Perm ([("reason", Told.reason withdrawal.reason)] ++ other)) :
      Body Order.Withdrawal.decoder withdrawal (.record fields)

namespace Body

variable {α : Type} {n : Nat}

theorem Field.fills {name : String} {tell : α → Value} {o : Option α} {fields : Given}
    {decode : Decoder α} (h : Field name tell o fields)
    (hread : ∀ a, Reads n decode (tell a) a) (hnull : ∀ a, tell a ≠ .null) :
    ∃ left, (Form.optional name decode).Fills n fields left o := by
  cases h with
  | given a => exact ⟨_, .optional name ((hread a).some (hnull a))⟩
  | null => exact ⟨_, .optional name fun _ _ _ => rfl⟩
  | missing => exact ⟨_, .missing name decode⟩

theorem Field.fills_text {name : String} {o : Option String} {fields : Given}
    (h : Field name .text o fields) :
    ∃ left, (Form.optional name Decode.text).Fills n fields left o :=
  h.fills (.text n) fun _ => Value.text_ne_null

theorem Field.fills_real {name : String} {o : Option Float} {fields : Given}
    (h : Field name .real o fields) :
    ∃ left, (Form.optional name Decode.real).Fills n fields left o :=
  h.fills (.real n) fun _ => Value.real_ne_null

theorem Place.reads {p : Point} {v : Value} (h : Place p v) (n : Nat) :
    Reads (n + 1) Point.decoder v p := by
  cases h with
  | record h => exact p.reads_perm n h

theorem Leg.reads {leg : Order.NewLeg} {v : Value} (h : Leg leg v) (n : Nat) :
    Reads (n + 2) Order.NewLeg.decoder v leg := by
  cases h with
  | record hp hd hcategory hprice h =>
      obtain ⟨_, hcategory⟩ := hcategory.fills_text
      obtain ⟨_, hprice⟩ := hprice.fills_real
      exact Fills.required "pickup" (hp.reads n)
        |>.map Order.NewLeg.mk
        |>.seq (.required "dropoff" (hd.reads n))
        |>.seq hcategory
        |>.seq hprice
        |>.reads_perm (by decide) h

theorem Kind.fills {kind : Order.Kind} {fields : Given} (h : Kind kind fields) :
    ∃ left, (Form.defaulted "kind" Order.Kind.decoder .pickup).Fills n fields left kind := by
  cases h with
  | given =>
      rw [Told.kind_eq]
      exact ⟨_, .defaulted "kind" (.word n kind.ofWord?_word)⟩
  | missing => exact ⟨_, .default "kind" Order.Kind.decoder .pickup⟩

/-- Whatever is asked, each body that stands for it is read as it. -/
theorem reads {decode : Decoder α} {a : α} {v : Value} (h : Body decode a v) :
    Reads 4 decode v a := by
  cases h with
  | @report report _ _ hstamp h =>
      obtain ⟨_, hstamp⟩ := hstamp.fills (.instant 3) fun _ => Value.text_ne_null
      exact Fills.required "lat" (.real 3 report.lat)
        |>.map Driver.Report.mk
        |>.seq (.required "lng" (.real 3 report.lng))
        |>.seq hstamp
        |>.reads_perm (by decide) h
  | @availability availability _ _ hlimit h =>
      obtain ⟨_, hlimit⟩ := hlimit.fills_real
      exact Fills.required "online" (.bool 3 availability.online)
        |>.map Driver.Availability.mk
        |>.seq hlimit
        |>.reads_perm (by decide) h
  | accept =>
      have hword := Offer.Reply.ofWord?_word .accept
      exact .record (.map Offer.Response.mk (.required "action" (.word 3 hword))) (by decide)
  | reject =>
      have hword := Offer.Reply.ofWord?_word .reject
      exact .record (.map Offer.Response.mk (.required "action" (.word 3 hword))) (by decide)
  | @order request _ _ legs hkind hlegs h =>
      obtain ⟨_, hkind⟩ := hkind.fills
      exact Fills.required "rider_id" (.uuid 3 request.rider)
        |>.map Order.NewOrder.mk
        |>.seq hkind
        |>.seq (.required "legs" (.list (hlegs.imp fun _ _ hleg => hleg.reads 0)))
        |>.reads_perm (by decide) h
  | @withdrawal withdrawal _ _ hother h =>
      obtain ⟨_, hother⟩ := hother.fills_text
      rw [Told.reason_eq] at h
      exact Fills.required "reason" (.word 3 withdrawal.reason.ofWord?_word)
        |>.map Order.Withdrawal.mk
        |>.seq hother
        |>.reads_perm (by decide) h

end Body

end Hailing.Http
