import Hailing.Json.Decode

/-!
# Forms

A form says which fields a record has and how a value is put together from
them. It is made of single fields with `<$>` and `<*>`, in the order in which
a list would hold them, so that the names are given once for both: the check
of the record from the left to the right, and the value afterwards.
-/

namespace Hailing.Json

structure Form (α : Type) where
  rules : List Decode.Rule
  fill : Nat → Decode.Fields → Except Fault α

namespace Form

protected def map {α β : Type} (f : α → β) (form : Form α) : Form β :=
  ⟨form.rules, fun depth found => f <$> form.fill depth found⟩

protected def seq {α β : Type} (f : Form (α → β)) (form : Unit → Form α) : Form β :=
  ⟨f.rules ++ (form ()).rules, fun depth found => do
    let g ← f.fill depth found
    let a ← (form ()).fill depth found
    return g a⟩

instance : Functor Form := ⟨Form.map, fun a form => Form.map (fun _ => a) form⟩

instance : Seq Form := ⟨Form.seq⟩

/-- A field that has to be there. -/
def required {α : Type} (name : String) (decode : Decoder α) : Form α :=
  ⟨[.required name decode], fun depth found => Decode.get found name decode depth⟩

/-- A field that may be missing or null. -/
def optional {α : Type} (name : String) (decode : Decoder α) : Form (Option α) :=
  ⟨[.optional name decode], fun depth found => Decode.get? found name decode depth⟩

/-- A field that may be missing, but not null. -/
def defaulted {α : Type} (name : String) (decode : Decoder α) (default : α) : Form α :=
  ⟨[.of name decode .defaulted], fun depth found =>
    match found.lookup name with
    | none => .ok default
    | some d => decode (depth - 1) d⟩

/-- Reads a record, or a list that holds the fields in their order. -/
def decoder {α : Type} (form : Form α) : Decoder α := fun depth d => do
  let found ← Decode.fields form.rules depth d
  form.fill depth found

end Form

end Hailing.Json
