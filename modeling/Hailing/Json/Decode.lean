import Hailing.Json.Draft

/-!
# Reading drafts as values of a type

A decoder says what a draft means as a value of some type, or what is to
blame. A fault that lies in the text is the flaw of the draft; a well-formed
value of a wrong kind does not fit. Records are read field by field in the
order of the text: a field that comes twice does not fit as soon as it comes
again, a field that nobody asked for is passed over, and whether a field is
missing is decided at the end. A list can stand for a record and holds its
fields in their order.

Lists and records lie in each other up to a fixed depth; a text that goes
deeper is taken for malformed where it does.
-/

namespace Hailing.Json

inductive Fault where
  | malformed
  | truncated
  | unfitting
  deriving DecidableEq, Repr

/-- Two steps succeed if both of them do. -/
theorem bind_eq_ok {ε α β : Type} {x : Except ε α} {f : α → Except ε β} {b : β} :
    x >>= f = .ok b ↔ ∃ a, x = .ok a ∧ f a = .ok b := by
  cases x with
  | error e => exact iff_of_false nofun nofun
  | ok a =>
      refine ⟨fun h => ⟨a, rfl, h⟩, ?_⟩
      rintro ⟨_, h, hf⟩
      cases h
      exact hf

def Flaw.fault : Flaw → Fault
  | .malformed => .malformed
  | .truncated => .truncated

/-- Reads a draft; the number is how many lists and records may still be
opened, plus one. -/
abbrev Decoder (α : Type) := Nat → Draft → Except Fault α

def depthLimit : Nat := 128

/-- The depth inside of a list or record. -/
def deeper (depth : Nat) : Except Fault Nat :=
  if depth ≤ 1 then .error .malformed else .ok (depth - 1)

/-- The fault of a draft that is not of the wanted kind. -/
def Draft.unfit : Draft → Fault
  | .broken _ read _ => read.fault
  | .text none => .malformed
  | .number .vast => .malformed
  | _ => .unfitting

namespace Decode

def bool : Decoder Bool
  | _, .bool b => .ok b
  | _, d => .error d.unfit

def text : Decoder String
  | _, .text (some s) => .ok s
  | _, d => .error d.unfit

/-- A text that a reader of its own understands. -/
def parsed {α : Type} (read : String → Option α) : Decoder α := fun depth d => do
  match read (← text depth d) with
  | some a => .ok a
  | none => .error .unfitting

def real : Decoder Float
  | _, .number (.natural n) => .ok (Float.ofNat n)
  | _, .number (.negative n) => .ok (-(Float.ofNat n))
  | _, .number (.real x) => .ok x
  | _, d => .error d.unfit

/-- A whole number from zero to below the bound. -/
def natural (bound : Nat) : Decoder Nat
  | _, .number (.natural n) => if n < bound then .ok n else .error .unfitting
  | _, d => .error d.unfit

/-- A whole number with a sign, in 64 bits. -/
def integer : Decoder Int
  | _, .number (.natural n) => if n < UInt64.size / 2 then .ok n else .error .unfitting
  | _, .number (.negative n) => .ok (-n)
  | _, d => .error d.unfit

def optional {α : Type} (decode : Decoder α) : Decoder (Option α)
  | _, .null => .ok none
  | _, .broken (some 'n') read _ => .error read.fault
  | depth, d => some <$> decode depth d

/-- One of several words. It may also be the only key of a record, with a
null behind it. Anything else than a text or a record is malformed here, and
so is anything else than a text where the key should be. -/
def word {α : Type} (meaning : String → Option α) : Decoder α
  | _, .text (some s) =>
    match meaning s with
    | some a => .ok a
    | none => .error .unfitting
  | _, .text none => .error .malformed
  | depth, .record fields stray ending => do
    let _ ← deeper depth
    match fields, stray, ending with
    | [], _, .flawed read _ => .error read.fault
    | [], _, .closed => .error .malformed
    | (none, _) :: _, _, _ => .error .malformed
    | (some key, value) :: rest, stray, ending =>
      match meaning key with
      | none => .error .unfitting
      | some a =>
        match value, rest, stray, ending with
        | .null, [], none, .closed => .ok a
        | .null, [], none, .flawed read _ => .error read.fault
        | .null, _, _, _ => .error .malformed
        | d, _, _, _ => .error d.unfit
  | _, .broken none read _ => .error read.fault
  | _, .broken (some '\"') read _ => .error read.fault
  | _, _ => .error .malformed

def items {α : Type} (decode : Decoder α) (depth : Nat) :
    List Draft → Except Fault (List α)
  | [] => .ok []
  | d :: rest => do return (← decode depth d) :: (← items decode depth rest)

def Ending.check : Ending → Except Fault Unit
  | .closed => .ok ()
  | .flawed read _ => .error read.fault

def list {α : Type} (decode : Decoder α) : Decoder (List α)
  | depth, .list drafts ending => do
    let inner ← deeper depth
    let values ← items decode inner drafts
    Ending.check ending
    return values
  | _, d => .error d.unfit

/-! ## Records -/

/-- What may be left out. -/
inductive Presence where
  | required
  /-- May be missing in a record. -/
  | optional
  /-- May be missing in a record and in a list. -/
  | defaulted
  deriving DecidableEq, Repr

/-- A field of a record: its name, and what its value has to be. -/
structure Rule where
  name : String
  presence : Presence
  check : Decoder Unit

def Rule.of {α : Type} (name : String) (decode : Decoder α)
    (presence : Presence) : Rule :=
  ⟨name, presence, fun depth d => do let _ ← decode depth d; return ()⟩

def Rule.required {α : Type} (name : String) (decode : Decoder α) : Rule :=
  .of name decode .required

def Rule.optional {α : Type} (name : String) (decode : Decoder α) : Rule :=
  .of name (Decode.optional decode) .optional

/-- The fields of a record that were asked for, by name. -/
abbrev Fields := List (String × Draft)

/-- The fields of a record up to its end. -/
def checkFields (rules : List Rule) (depth : Nat) :
    Fields → List (Option String × Draft) → Except Fault Fields
  | found, [] => .ok found
  | _, (none, _) :: _ => .error .malformed
  | found, (some key, d) :: rest =>
    match rules.find? (·.name == key) with
    | none =>
      match d.skipFlaw? with
      | some flaw => .error flaw.fault
      | none => checkFields rules depth found rest
    | some rule =>
      if found.any (·.1 == key) then .error .unfitting
      else do
        rule.check depth d
        checkFields rules depth (found ++ [(key, d)]) rest

/-- The end of a record. -/
def checkEnd (stray : Option Draft) (ending : Ending) : Except Fault Unit :=
  match stray, ending with
  | _, .closed => .ok ()
  | _, .flawed read _ => .error read.fault

/-- The fields of a record that is given as a list. -/
def checkItems (depth : Nat) (ending : Ending) :
    List Rule → List Draft → Except Fault Fields
  | [], [] => do Ending.check ending; return []
  | [], _ :: _ => .error .malformed
  | rule :: rules, d :: rest => do
    rule.check depth d
    return (rule.name, d) :: (← checkItems depth ending rules rest)
  | rule :: rules, [] => do
    Ending.check ending
    if rule.presence = .defaulted then checkItems depth ending rules [] else .error .unfitting

def fields (rules : List Rule) : Decoder Fields
  | depth, .record given stray ending => do
    let inner ← deeper depth
    let found ← checkFields rules inner [] given
    checkEnd stray ending
    if rules.all fun r => r.presence != .required || found.any (·.1 == r.name) then
      return found
    else .error .unfitting
  | depth, .list drafts ending => do
    let inner ← deeper depth
    checkItems inner ending rules drafts
  | _, d => .error d.unfit

/-- The value of a field that has to be there. -/
def get {α : Type} (found : Fields) (name : String) (decode : Decoder α)
    (depth : Nat) : Except Fault α :=
  match found.lookup name with
  | some d => decode (depth - 1) d
  | none => .error .unfitting

/-- The value of a field that may be missing. -/
def get? {α : Type} (found : Fields) (name : String) (decode : Decoder α)
    (depth : Nat) : Except Fault (Option α) :=
  match found.lookup name with
  | some d => optional decode (depth - 1) d
  | none => .ok none

/-! ## Records with a tag -/

/-- The first flaw of a draft, whatever it is read as. -/
def flaw? : Nat → Draft → Option Fault
  | _, .broken _ read _ => some read.fault
  | _, .text none => some .malformed
  | _, .number .vast => some .malformed
  | depth + 2, .list drafts ending =>
    (drafts.findSome? (flaw? (depth + 1))).or
      (match ending with | .closed => none | .flawed read _ => some read.fault)
  | depth + 2, .record given stray ending =>
    (given.findSome? fun (key, d) =>
      if key.isNone then some .malformed else flaw? (depth + 1) d).or
      (match stray, ending with | _, .closed => none | _, .flawed read _ => some read.fault)
  | _, .list _ _ => some .malformed
  | _, .record _ _ _ => some .malformed
  | _, _ => none

/-- The tag among the fields of a record, and the other fields. -/
def splitTag {α : Type} (tag : String) (meaning : String → Option α) (depth : Nat) :
    Option α → List (Option String × Draft) →
      Except Fault (Option α × List (Option String × Draft))
  | found, [] => .ok (found, [])
  | _, (none, _) :: _ => .error .malformed
  | found, (some key, d) :: rest =>
    if key == tag then
      if found.isSome then .error .unfitting
      else do
        let a ← parsed meaning depth d
        splitTag tag meaning depth (some a) rest
    else
      match flaw? depth d with
      | some fault => .error fault
      | none => do
        let (found, others) ← splitTag tag meaning depth found rest
        return (found, (some key, d) :: others)

/-- A record whose tag, which may stand anywhere, decides about the other
fields; a list has the tag first. The whole text is gone through before the
fields are looked at, and a field that is wrong then does not fit. -/
def tagged {α β : Type} (tag : String) (meaning : String → Option α)
    (content : α → Decoder β) : Decoder β
  | depth, .record given stray ending => do
    let inner ← deeper depth
    let (found, others) ← splitTag tag meaning inner none given
    checkEnd stray ending
    match found with
    | none => .error .unfitting
    | some a =>
      match content a depth (.record others none .closed) with
      | .ok b => .ok b
      | .error _ => .error .unfitting
  | depth, .list drafts ending => do
    let inner ← deeper depth
    match drafts with
    | [] => do
      Ending.check ending
      .error .unfitting
    | d :: rest => do
      let a ← parsed meaning inner d
      match rest.findSome? (flaw? inner) with
      | some fault => .error fault
      | none =>
        Ending.check ending
        match content a depth (.list rest .closed) with
        | .ok b => .ok b
        | .error _ => .error .unfitting
  | _, d => .error d.unfit

end Decode

/-- Reads a text that holds one value and nothing behind it. -/
def read {α : Type} (decode : Decoder α) (s : String) : Except Fault α := do
  let (draft, rest) := Draft.ofChars s.toList
  let a ← decode depthLimit draft
  if rest.isEmpty then .ok a else .error .malformed

/-- Reads the value a text starts with, whatever stands behind it. -/
def readFront {α : Type} (decode : Decoder α) (s : String) : Except Fault α :=
  decode depthLimit (Draft.ofChars s.toList).1

end Hailing.Json
