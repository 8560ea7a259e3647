import Hailing.Json.Token
import Hailing.Json.Value

/-!
# Drafts

A draft is what a JSON text looks like up to its first flaw: a tree like that
of a JSON value, with the flaw left where it was met. Whether a text can be
read as a value of some type, and what is to blame if not, is decided on its
draft from left to right, so that a field of a wrong kind is found before a
bracket missing behind it, and the other way round.

Drafts are built by going through the tokens once, with the open lists and
records kept on a stack; nesting of any depth is no problem.
-/

namespace Hailing.Json

/-- How a list or record ends. `read` is what a reader of the values finds,
`skip` what one finds who only passes over them. -/
inductive Ending where
  | closed
  | flawed (read skip : Flaw)
  deriving DecidableEq, Repr

inductive Draft where
  | null
  | bool (b : Bool)
  | number (n : Number)
  | text (s : Option String)
  | list (items : List Draft) (ending : Ending)
  /-- `stray` is what stands where a key should be. -/
  | record (fields : List (Option String × Draft)) (stray : Option Draft) (ending : Ending)
  /-- No value: `lead` is the character found, if there is one. -/
  | broken (lead : Option Char) (read skip : Flaw)
  deriving Inhabited, Repr

namespace Draft

def missing : Draft := .broken none .truncated .truncated

/-- A list or record that is still open; `before` holds the last one first. -/
inductive Frame where
  | list (before : List Draft)
  | record (before : List (Option String × Draft)) (key : Option String)

def Frame.take (d : Draft) : Frame → Frame
  | .list before => .list (d :: before)
  | .record before key => .record ((key, d) :: before) key

def Frame.close (stray : Option Draft) (ending : Ending) : Frame → Draft
  | .list before => .list before.reverse ending
  | .record before _ => .record before.reverse stray ending

/-- Closes what is still open around a draft, as far as it goes. -/
def abandon (ending : Ending) (d : Draft) : List Frame → Draft
  | [] => d
  | f :: frames => abandon ending ((f.take d).close none ending) frames

/-- What comes next. -/
inductive Expected where
  | item
  | itemOrEnd
  | key
  | keyOrEnd
  | colon
  | delimiter

/-- The character a token starts with. -/
def lead : Token → Char
  | .comma => ','
  | .colon => ':'
  | .openList => '['
  | .closeList => ']'
  | .openRecord => '{'
  | .closeRecord => '}'
  | .null => 'n'
  | .bool b => if b then 't' else 'f'
  | .number _ => '0'
  | .text _ => '\"'
  | .broken c _ _ => c

/-- The draft of a token where a value is wanted. -/
def ofToken : Token → Draft
  | .null => .null
  | .bool b => .bool b
  | .number n => .number n
  | .text s => .text s
  | .openList => .list [] .closed
  | .openRecord => .record [] none .closed
  | .broken c read skip => .broken (some c) read skip
  | t => .broken (some (lead t)) .malformed .malformed

/-- A flaw between the values of the innermost open list or record. -/
def interrupted (stray : Option Draft) (read skip : Flaw) : List Frame → Draft
  | [] => .broken none read skip
  | f :: frames =>
    let ending := .flawed read skip
    abandon ending (f.close stray ending) frames

/-- A token where a key is wanted, and no key. -/
def strayKey (d : Draft) (frames : List Frame) : Draft :=
  match d with
  | .broken none read skip => interrupted (some d) read skip frames
  | .broken (some '\"') read skip => interrupted (some d) read skip frames
  | d => interrupted (some d) .malformed .malformed frames

/-- What is there if the text ends. -/
def cutOff (frames : List Frame) : Expected → Draft
  | .item => abandon (.flawed .truncated .truncated) missing frames
  | .itemOrEnd => interrupted none .truncated .truncated frames
  | .key => strayKey missing frames
  | .keyOrEnd => strayKey missing frames
  | .colon => abandon (.flawed .truncated .truncated) missing frames
  | .delimiter => interrupted none .truncated .truncated frames

/-- What a token leads to. -/
inductive Progress where
  /-- The value goes on. -/
  | going (expected : Expected) (frames : List Frame)
  | complete (d : Draft)
  /-- Nothing behind the flaw is looked at. -/
  | stopped (d : Draft)

/-- A value is complete; it goes into what is open around it. -/
def finish (d : Draft) : List Frame → Progress
  | [] => .complete d
  | f :: outer => .going .delimiter (f.take d :: outer)

/-- A token where a value is wanted. -/
def startValue (t : Token) (frames : List Frame) : Progress :=
  match t with
  | .openList => .going .itemOrEnd (.list [] :: frames)
  | .openRecord => .going .keyOrEnd (.record [] none :: frames)
  | t =>
    match ofToken t with
    | .broken c read skip => .stopped (abandon (.flawed read skip) (.broken c read skip) frames)
    | d => finish d frames

/-- A token where a key is wanted. -/
def startField (t : Token) (frames : List Frame) : Progress :=
  match t, frames with
  | .text key, .record before _ :: outer => .going .colon (.record before key :: outer)
  | t, frames => .stopped (strayKey (ofToken t) frames)

/-- A token behind a key. -/
def afterKey (t : Token) (frames : List Frame) : Progress :=
  match t with
  | .colon => .going .item frames
  | _ =>
    .stopped (abandon (.flawed .malformed .malformed) (.broken none .malformed .malformed) frames)

/-- A token behind a value. -/
def afterValue (t : Token) (frames : List Frame) : Progress :=
  match t, frames with
  | .comma, .list before :: outer => .going .item (.list before :: outer)
  | .comma, .record before key :: outer => .going .key (.record before key :: outer)
  | .closeList, .list before :: outer => finish (.list before.reverse .closed) outer
  | .closeRecord, .record before _ :: outer =>
    finish (.record before.reverse none .closed) outer
  | _, frames => .stopped (interrupted none .malformed .malformed frames)

def advance (t : Token) (expected : Expected) (frames : List Frame) : Progress :=
  match expected, t, frames with
  | .item, t, frames => startValue t frames
  | .itemOrEnd, .closeList, f :: outer => finish (f.close none .closed) outer
  | .itemOrEnd, t, frames => startValue t frames
  | .keyOrEnd, .closeRecord, f :: outer => finish (f.close none .closed) outer
  | .keyOrEnd, t, frames => startField t frames
  | .key, t, frames => startField t frames
  | .colon, t, frames => afterKey t frames
  | .delimiter, t, frames => afterValue t frames

/-- Goes through the tokens up to the end of the outermost value; the tokens
behind it are handed back. -/
def build : List Token → Expected → List Frame → Draft × List Token
  | [], expected, frames => (cutOff frames expected, [])
  | t :: rest, expected, frames =>
    match advance t expected frames with
    | .going expected frames => build rest expected frames
    | .complete d => (d, rest)
    | .stopped d => (d, [])

/-- The draft of the first value of a text, and the tokens behind it. -/
def ofChars (cs : List Char) : Draft × List Token := build (tokens cs) .item []

/-- Nothing is found by one who passes over the value. -/
def skipFlaw? : Draft → Option Flaw
  | .broken _ _ skip => some skip
  | .list _ (.flawed _ skip) => some skip
  | .record _ _ (.flawed _ skip) => some skip
  | _ => none

end Draft

end Hailing.Json
