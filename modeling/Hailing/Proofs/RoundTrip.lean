import Hailing.Driver.Wire
import Hailing.Notice.Wire
import Hailing.Offer.Wire
import Hailing.Order.Wire
import Hailing.Proofs.Forms

/-!
# The wire format round-trips

For each record that goes over the wire its fields are listed once more, in the
order in which its form asks for them, each with the reason why its value is
read. The number is how many records and lists may lie around the value: an
order holds legs, and a leg holds points. An event is read as its tag says. For
events, and for points, which are also sent to the desk, the order of the fields
is left open.

That a text is read back is then one step (`Reads.read_print`), and what is
asked of the doubles in a value is asked of all that are written for it.
-/

namespace Hailing

open Json
open Json.Form (Fills)
open Geo (Point)
open Time (Instant)

theorem Geo.Point.reads_perm (n : Nat) (p : Point) {fields : List (String × Value)}
    (hp : fields.Perm [("lat", .real p.lat), ("lng", .real p.lng)]) :
    Reads (n + 1) Point.decoder (.record fields) p :=
  Fills.required "lat" (.real n p.lat)
    |>.map Point.mk
    |>.seq (.required "lng" (.real n p.lng))
    |>.reads_perm (by decide) hp

theorem Geo.Point.reads (n : Nat) (p : Point) : Reads (n + 1) Point.decoder p.toValue p :=
  p.reads_perm n (.refl _)

namespace Offer

theorem reads (n : Nat) (o : Offer) : Reads (n + 1) Offer.decoder o.toValue o := by
  refine .record ?_ (by decide)
  exact Fills.required "id" (.uuid n o.id)
    |>.map Offer.mk
    |>.seq (.required "order_id" (.uuid n o.order))
    |>.seq (.required "driver_id" (.uuid n o.driver))
    |>.seq (.required "status" (.word n o.status.ofWord?_word))
    |>.seq (.required "radius_km" (.real n o.radius))
    |>.seq (.required "distance_km" (.real n o.distance))
    |>.seq (.required "destination_match" (.bool n o.destinationMatch))
    |>.seq (.required "requested_at" (.instant n o.requestedAt))
    |>.seq (.optional "responded_at"
      (.ofOption (.instant n) (fun _ => Value.text_ne_null) o.respondedAt?))

theorem View.reads (n : Nat) (v : View) : Reads (n + 2) View.decoder v.toValue v := by
  refine .record ?_ (by decide)
  exact Fills.required "assignment_id" (.uuid _ v.offer)
    |>.map View.mk
    |>.seq (.required "order_id" (.uuid _ v.order))
    |>.seq (.required "order_code" (.text _ v.orderCode))
    |>.seq (.required "pickup" (v.pickup.reads n))
    |>.seq (.required "distance_km" (.real _ v.distance))
    |>.seq (.required "requested_at" (.instant _ v.requestedAt))
    |>.seq (.required "remaining_secs" (.signed64 _ v.remainingSeconds))

end Offer

namespace Driver

theorem Position.reads (n : Nat) (p : Position) :
    Reads (n + 2) Position.decoder p.toValue p := by
  refine .record ?_ (by decide)
  exact Fills.required "point" (p.point.reads n)
    |>.map Position.mk
    |>.seq (.required "updated_at" (.instant _ p.updatedAt))

theorem Trip.reads (n : Nat) (t : Trip) : Reads (n + 2) Trip.decoder t.toValue t := by
  refine .record ?_ (by decide)
  exact Fills.required "order_id" (.uuid _ t.order)
    |>.map Trip.mk
    |>.seq (.required "destination" (t.destination.reads n))

theorem reads (n : Nat) (d : Driver) : Reads (n + 4) Driver.decoder d.toValue d := by
  refine .record ?_ (by decide)
  exact Fills.required "id" (.uuid _ d.id)
    |>.map Driver.mk
    |>.seq (.required "online" (.bool _ d.online))
    |>.seq (.optional "max_pickup_km"
      (.ofOption (.real _) (fun _ => Value.real_ne_null) d.maxPickup?))
    |>.seq (.optional "location"
      (.ofOption (Position.reads (n + 1)) (fun _ => Value.record_ne_null) d.position?))
    |>.seq (.required "active_trips" (.map (Trip.reads n) d.trips))

end Driver

namespace Order

theorem Cancellation.reads (n : Nat) (c : Cancellation) :
    Reads (n + 1) Cancellation.decoder c.toValue c := by
  refine .record ?_ (by decide)
  exact Fills.required "reason" (.word n c.reason.ofWord?_word)
    |>.map Cancellation.mk
    |>.seq (.optional "other_reason"
      (.ofOption (.text n) (fun _ => Value.text_ne_null) c.otherReason))
    |>.seq (.required "cancelled_at" (.instant n c.cancelledAt))

theorem Leg.reads (n : Nat) (leg : Leg) : Reads (n + 2) Leg.decoder leg.toValue leg := by
  refine .record ?_ (by decide)
  exact Fills.required "pickup" (leg.pickup.reads n)
    |>.map Leg.mk
    |>.seq (.required "dropoff" (leg.dropoff.reads n))
    |>.seq (.required "is_final_stop" (.bool _ leg.finalStop))
    |>.seq (.required "ride_category" (.text _ leg.category))
    |>.seq (.required "distance_km" (.real _ leg.distance))
    |>.seq (.required "eta_minutes" (.unsigned32 _ leg.etaMinutes))
    |>.seq (.optional "price" (.ofOption (.real _) (fun _ => Value.real_ne_null) leg.price))

theorem reads (n : Nat) (o : Order) : Reads (n + 4) Order.decoder o.toValue o := by
  refine .record ?_ (by decide)
  exact Fills.required "id" (.uuid _ o.id)
    |>.map Order.mk
    |>.seq (.required "code" (.text _ o.code))
    |>.seq (.required "rider_id" (.uuid _ o.rider))
    |>.seq (.required "kind" (.word _ o.kind.ofWord?_word))
    |>.seq (.required "legs" (.map (Leg.reads n) o.legs))
    |>.seq (.required "status" (.word _ o.status.ofWord?_word))
    |>.seq (.optional "driver_id" (.ofOption (.uuid _) (fun _ => Value.text_ne_null) o.driver?))
    |>.seq (.optional "cancellation"
      (.ofOption (Cancellation.reads (n + 2)) (fun _ => Value.record_ne_null) o.cancellation?))
    |>.seq (.required "created_at" (.instant _ o.createdAt))
    |>.seq (.optional "completed_at"
      (.ofOption (.instant _) (fun _ => Value.text_ne_null) o.completedAt?))

end Order

namespace Event

theorem flaw?_text (depth : Nat) (s : String) :
    Decode.flaw? depth (Value.text s).draft = none := by
  rw [Value.draft]
  cases depth with
  | zero => rfl
  | succ depth => cases depth <;> rfl

theorem flaw?_unsigned64 (depth : Nat) (k : UInt64) :
    Decode.flaw? depth (Value.whole k.toNat).draft = none := by
  rw [Value.draft, ofInt_natural k.toNat_lt]
  cases depth with
  | zero => rfl
  | succ depth => cases depth <;> rfl

theorem flaw?_contentFields (e : Event) :
    ∀ f ∈ e.contentFields, ∀ depth, Decode.flaw? depth f.2.draft = none := by
  cases e <;> simp [contentFields, Uuid.toValue, flaw?_text, flaw?_unsigned64]

theorem reads_perm (n : Nat) (e : Event) {fields : List (String × Value)}
    (hp : fields.Perm (("type", .text e.tag.word) :: e.contentFields)) :
    Reads (n + 1) Event.decoder (.record fields) e := by
  have hw := e.tag.ofWord?_word
  have hflaw := e.flaw?_contentFields
  cases e with
  | offerCreated order code offer expires =>
      refine Fills.reads_tagged ?_ hw rfl (by decide) hflaw hp
      exact Fills.required "order_id" (.uuid n order)
        |>.map Event.offerCreated
        |>.seq (.required "order_code" (.text n code))
        |>.seq (.required "assignment_id" (.uuid n offer))
        |>.seq (.required "expires_in_secs" (.unsigned64 n expires))
  | driverFound order code driver =>
      refine Fills.reads_tagged ?_ hw rfl (by decide) hflaw hp
      exact Fills.required "order_id" (.uuid n order)
        |>.map Event.driverFound
        |>.seq (.required "order_code" (.text n code))
        |>.seq (.required "driver_id" (.uuid n driver))
  | orderCancelled order code =>
      refine Fills.reads_tagged ?_ hw rfl (by decide) hflaw hp
      exact Fills.required "order_id" (.uuid n order)
        |>.map Event.orderCancelled
        |>.seq (.required "order_code" (.text n code))
  | orderCompleted order code =>
      refine Fills.reads_tagged ?_ hw rfl (by decide) hflaw hp
      exact Fills.required "order_id" (.uuid n order)
        |>.map Event.orderCompleted
        |>.seq (.required "order_code" (.text n code))

end Event

theorem Notice.reads (n : Nat) (notice : Notice) :
    Reads (n + 2) Notice.decoder notice.toValue notice := by
  refine .record ?_ (by decide)
  exact Fills.required "recipient" (.uuid _ notice.recipient)
    |>.map Notice.mk
    |>.seq (.required "event" (notice.event.reads_perm n (.refl _)))
    |>.seq (.required "sent_at" (.instant _ notice.sentAt))

/-! ## Every text is read back -/

theorem Event.reals_fields (e : Event) :
    ∀ f ∈ ("type", Value.text e.tag.word) :: e.contentFields, f.2.reals = [] := by
  cases e <;> simp [contentFields, Uuid.toValue, Value.reals]

theorem Event.legible_perm {e : Event} {fields : List (String × Value)}
    (hp : fields.Perm (("type", .text e.tag.word) :: e.contentFields)) :
    (Value.record fields).Legible :=
  Value.legible_of_fields fun f hf => e.reals_fields f (hp.mem_iff.1 hf)

theorem Notice.legible (notice : Notice) : notice.toValue.Legible := by
  have hevent : notice.event.toValue.reals = [] := by
    rw [Event.toValue, Value.reals_record, List.flatMap_eq_nil_iff.2 notice.event.reals_fields]
  exact Value.legible_of_fields
    (by simp [Uuid.toValue, Instant.toValue, Value.reals, hevent])

theorem Order.Cancellation.legible (c : Cancellation) : c.toValue.Legible := by
  refine Value.legible_of_fields ?_
  cases c.otherReason <;> simp [Reason.toValue, Instant.toValue, Value.ofOption, Value.reals]

/-- What is written is read back, if each double in it is. The fields of an
event can stand in any order, with the tag anywhere among them. -/
theorem wire_round_trip :
    (∀ notice : Notice, read Notice.decoder notice.toValue.print = .ok notice) ∧
    (∀ event : Event, read Event.decoder event.toValue.print = .ok event) ∧
    (∀ (event : Event) (fields : List (String × Value)),
      fields.Perm (("type", .text event.tag.word) :: event.contentFields) →
        read Event.decoder (Value.record fields).print = .ok event) ∧
    (∀ cancellation : Order.Cancellation,
      read Order.Cancellation.decoder cancellation.toValue.print = .ok cancellation) ∧
    (∀ offer : Offer, (∀ x ∈ offer.toValue.reals, ReadsBack x) →
      read Offer.decoder offer.toValue.print = .ok offer) ∧
    (∀ view : Offer.View, (∀ x ∈ view.toValue.reals, ReadsBack x) →
      read Offer.View.decoder view.toValue.print = .ok view) ∧
    (∀ driver : Driver, (∀ x ∈ driver.toValue.reals, ReadsBack x) →
      read Driver.decoder driver.toValue.print = .ok driver) ∧
    (∀ leg : Order.Leg, (∀ x ∈ leg.toValue.reals, ReadsBack x) →
      read Order.Leg.decoder leg.toValue.print = .ok leg) ∧
    (∀ order : Order, (∀ x ∈ order.toValue.reals, ReadsBack x) →
      read Order.decoder order.toValue.print = .ok order) := by
  refine ⟨?_, ?_, ?_, ?_, ?_, ?_, ?_, ?_, ?_⟩
  · exact fun notice => (notice.reads 0).read_print (by decide) notice.legible
  · exact fun event => (event.reads_perm 0 (.refl _)).read_print (by decide)
      (Event.legible_perm (.refl _))
  · exact fun event _ hp => (event.reads_perm 0 hp).read_print (by decide)
      (Event.legible_perm hp)
  · exact fun c => (c.reads 0).read_print (by decide) c.legible
  · exact fun offer => (offer.reads 0).read_print (by decide)
  · exact fun view => (view.reads 0).read_print (by decide)
  · exact fun driver => (driver.reads 0).read_print (by decide)
  · exact fun leg => (leg.reads 0).read_print (by decide)
  · exact fun order => (order.reads 0).read_print (by decide)

/-- An order with a text to be escaped, and an event with its tag at the end. -/
theorem wire_round_trip_trial :
    let start : Instant := ⟨19783, 36000, 500000, by decide, by decide, by decide, by decide⟩
    let order : Order :=
      { id := .ofNat 1
        code := "ORD-000001"
        rider := .ofNat 7
        kind := .forMe
        legs :=
          [⟨⟨41.3, 69.24⟩, ⟨41.35, -0.5⟩, true, "extra \"wide\"\n", 5.56, 9, some 12000.0⟩]
        status := .pending
        driver? := none
        cancellation? := some ⟨.other, some "naïve", start⟩
        createdAt := start
        completedAt? := none }
    let event : Event := .driverFound (.ofNat 1) "ORD-000001" (.ofNat 9)
    (∀ x ∈ order.toValue.reals, ReadsBack x) ∧
      read Order.decoder order.toValue.print = .ok order ∧
      read Event.decoder
        (Value.record (event.contentFields ++ [("type", .text event.tag.word)])).print =
          .ok event := by
  intro start order event
  have hreals : ∀ x ∈ order.toValue.reals, ReadsBack x := by decide +kernel
  obtain ⟨-, -, hevent, -, -, -, -, -, horder⟩ := wire_round_trip
  exact ⟨hreals, horder order hreals, hevent event _ List.perm_append_comm⟩

end Hailing
