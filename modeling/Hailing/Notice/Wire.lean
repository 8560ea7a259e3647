import Hailing.Json.Form
import Hailing.Json.Scalar
import Hailing.Notice.Basic

/-!
# Notices on the wire

An event is a record with a tag, which stands first when it is written and
anywhere when it is read.
-/

namespace Hailing

open Json
open Time (Instant)

namespace Event

/-- What the tag of an event can be. -/
inductive Tag where
  | offerCreated
  | driverFound
  | orderCancelled
  | orderCompleted
  deriving DecidableEq, Repr

namespace Tag

def word : Tag → String
  | .offerCreated => "offer_created"
  | .driverFound => "driver_found"
  | .orderCancelled => "order_cancelled"
  | .orderCompleted => "order_completed"

def ofWord? : String → Option Tag
  | "offer_created" => some .offerCreated
  | "driver_found" => some .driverFound
  | "order_cancelled" => some .orderCancelled
  | "order_completed" => some .orderCompleted
  | _ => none

theorem ofWord?_word (t : Tag) : ofWord? t.word = some t := by
  cases t <;> rfl

/-- The fields of an event with this tag. -/
def content : Tag → Decoder Event
  | .offerCreated =>
    Form.decoder (Event.offerCreated <$> .required "order_id" Uuid.decoder
      <*> .required "order_code" Decode.text
      <*> .required "assignment_id" Uuid.decoder
      <*> .required "expires_in_secs" Decode.unsigned64)
  | .driverFound =>
    Form.decoder (Event.driverFound <$> .required "order_id" Uuid.decoder
      <*> .required "order_code" Decode.text
      <*> .required "driver_id" Uuid.decoder)
  | .orderCancelled =>
    Form.decoder (Event.orderCancelled <$> .required "order_id" Uuid.decoder
      <*> .required "order_code" Decode.text)
  | .orderCompleted =>
    Form.decoder (Event.orderCompleted <$> .required "order_id" Uuid.decoder
      <*> .required "order_code" Decode.text)

end Tag

def tag : Event → Tag
  | .offerCreated _ _ _ _ => .offerCreated
  | .driverFound _ _ _ => .driverFound
  | .orderCancelled _ _ => .orderCancelled
  | .orderCompleted _ _ => .orderCompleted

def contentFields : Event → List (String × Value)
  | .offerCreated order code offer expires =>
    [ ("order_id", order.toValue),
      ("order_code", .text code),
      ("assignment_id", offer.toValue),
      ("expires_in_secs", .whole expires.toNat) ]
  | .driverFound order code driver =>
    [ ("order_id", order.toValue),
      ("order_code", .text code),
      ("driver_id", driver.toValue) ]
  | .orderCancelled order code =>
    [("order_id", order.toValue), ("order_code", .text code)]
  | .orderCompleted order code =>
    [("order_id", order.toValue), ("order_code", .text code)]

def toValue (e : Event) : Value :=
  .record (("type", .text e.tag.word) :: e.contentFields)

def decoder : Decoder Event := Decode.tagged "type" Tag.ofWord? Tag.content

end Event

namespace Notice

def toValue (n : Notice) : Value :=
  .record
    [ ("recipient", n.recipient.toValue),
      ("event", n.event.toValue),
      ("sent_at", n.sentAt.toValue) ]

def decoder : Decoder Notice :=
  Form.decoder (Notice.mk <$> .required "recipient" Uuid.decoder
    <*> .required "event" Event.decoder
    <*> .required "sent_at" Instant.decoder)

end Notice

end Hailing
