/-!
# Media types

A media type is a type and a subtype of it, both tokens, with parameters
behind them. It says that a body is JSON if it is an application of the
subtype `json` or of a subtype with the suffix `json`; small and capital
letters are the same.
-/

namespace Hailing.Http

/-- A character of a token. -/
def isToken (c : Char) : Bool :=
  c.isAlphanum || "!#$%&'*+-.^_`|~".toList.contains c

/-- A character between quotes: a blank or a visible one. -/
def isQuotable (c : Char) : Bool := 32 ≤ c.toNat && c.toNat < 127

/-- Where the reading of parameters stands. -/
inductive ParameterPlace where
  /-- At the start of a name, before which there may be blanks. -/
  | start
  | name
  /-- At the first character of a value. -/
  | value
  | token
  /-- Within quotes; `empty` if nothing stands between them so far. -/
  | quoted (empty : Bool)
  | afterQuote
  deriving DecidableEq, Repr

/-- The characters behind the first semicolon are parameters. -/
def areParameters : ParameterPlace → List Char → Bool
  | .start, [] => true
  | .start, ' ' :: rest => areParameters .start rest
  | .start, c :: rest => isToken c && areParameters .name rest
  | .name, [] => false
  | .name, '=' :: rest => areParameters .value rest
  | .name, c :: rest => isToken c && areParameters .name rest
  | .value, [] => true
  | .value, '\"' :: rest => areParameters (.quoted true) rest
  | .value, c :: rest => isToken c && areParameters .token rest
  | .token, [] => true
  | .token, ';' :: rest => areParameters .start rest
  | .token, c :: rest => isToken c && areParameters .token rest
  | .quoted _, [] => false
  | .quoted false, '\"' :: rest => areParameters .afterQuote rest
  | .quoted _, c :: rest => isQuotable c && areParameters (.quoted false) rest
  | .afterQuote, [] => true
  | .afterQuote, ';' :: rest => areParameters .start rest
  | .afterQuote, ' ' :: rest => areParameters .afterQuote rest
  | .afterQuote, _ :: _ => false

/-- The part of a subtype before its last plus sign, and the suffix behind
it. A plus sign at the front does not count. -/
def splitSuffix (subtype : List Char) : List Char × Option (List Char) :=
  let suffix := (subtype.reverse.takeWhile (· ≠ '+')).reverse
  let size := subtype.length - suffix.length
  if 2 ≤ size then (subtype.take (size - 1), some suffix) else (subtype, none)

/-- A media type for JSON. -/
def isJsonType (s : String) : Bool :=
  let cs := s.toList.map Char.toLower
  let kind := cs.takeWhile (· ≠ '/')
  match cs.dropWhile (· ≠ '/') with
  | [] => false
  | _ :: rest =>
    let subtype := rest.takeWhile (· ≠ ';')
    let parameters := (rest.dropWhile (· ≠ ';')).drop 1
    let (base, suffix) := splitSuffix subtype
    let json := ['j', 's', 'o', 'n']
    kind = "application".toList && subtype.all isToken &&
      areParameters .start parameters && (base = json || suffix = some json)

end Hailing.Http
