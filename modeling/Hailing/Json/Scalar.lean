import Hailing.Json.Decode
import Hailing.Json.Value
import Hailing.Time.Reading
import Hailing.Time.Written
import Hailing.Uuid

/-!
# Single values on the wire

Identifiers and instants are texts, and numbers have the width of their
type. For each there is the value that is written and the decoder that reads
it back.
-/

namespace Hailing

open Json

namespace Uuid

def toValue (u : Uuid) : Value := .text u.toString

def decoder : Decoder Uuid := Decode.parsed Uuid.ofString?

end Uuid

namespace Time.Instant

def toValue (t : Instant) : Value := .text t.toWire

def decoder : Decoder Instant := Decode.parsed Instant.ofString?

end Time.Instant

namespace Json.Decode

def unsigned32 : Decoder UInt32 := fun depth d =>
  UInt32.ofNat <$> natural UInt32.size depth d

def unsigned64 : Decoder UInt64 := fun depth d =>
  UInt64.ofNat <$> natural UInt64.size depth d

def signed64 : Decoder Int64 := fun depth d => Int64.ofInt <$> integer depth d

end Json.Decode

end Hailing
