import Hailing.Json.Number

/-!
# The tokens of a JSON text

Reading a text never fails here. A token that is broken is a token too, the
last one, and says what is wrong with it. Two readers may find different
things wrong: one that wants the value and one that only passes over it. The
second one does not mind half a surrogate pair or a number too large, and it
takes a numeral that stops too early for a malformed one.
-/

namespace Hailing.Json

inductive Flaw where
  | malformed
  /-- The text ends too early. -/
  | truncated
  deriving DecidableEq, Repr

inductive Token where
  | comma
  | colon
  | openList
  | closeList
  | openRecord
  | closeRecord
  | null
  | bool (b : Bool)
  | number (n : Number)
  /-- A text, or nothing if half a surrogate pair is in it. -/
  | text (s : Option String)
  /-- Starts with `lead`; `read` and `skip` are what the two readers find. -/
  | broken (lead : Char) (read skip : Flaw)
  deriving Repr

/-- A token and the characters behind it. -/
abbrev Scanned := Token × List Char

def Scanned.broken (lead : Char) (read skip : Flaw) : Scanned :=
  (.broken lead read skip, [])

/-! ## Words and numerals -/

/-- The rest of a word whose first character is `lead`. -/
def word (lead : Char) (token : Token) : List Char → List Char → Scanned
  | [], cs => (token, cs)
  | _ :: _, [] => .broken lead .truncated .truncated
  | w :: ws, c :: cs =>
    if w = c then word lead token ws cs else .broken lead .malformed .malformed

/-- Where a digit has to stand there is none. -/
def noDigit (lead : Char) : List Char → Scanned
  | [] => .broken lead .truncated .malformed
  | _ :: _ => .broken lead .malformed .malformed

/-- The exponent, if there is one, and the end of the numeral. -/
def exponentPart (lead : Char) (n : Numeral) (cs : List Char) : Scanned :=
  match cs with
  | [] => (.number n.value, [])
  | e :: rest =>
    if e = 'e' ∨ e = 'E' then
      let minus := rest.head? = some '-'
      let signless := if minus ∨ rest.head? = some '+' then rest.tail else rest
      let (ds, after) := Text.spanDigits signless
      if ds.isEmpty then noDigit lead after
      else
        let power : Int := Text.natOfDigits ds
        (.number { n with exponent := if minus then -power else power, plain := false }.value,
          after)
    else (.number n.value, cs)

/-- The places behind the point, if there are some, and what follows. -/
def placesPart (lead : Char) (n : Numeral) (cs : List Char) : Scanned :=
  match cs with
  | '.' :: rest =>
    let (ds, after) := Text.spanDigits rest
    if ds.isEmpty then noDigit lead after
    else exponentPart lead { n with places := ds, plain := false } after
  | cs => exponentPart lead n cs

/-- A numeral behind its sign. -/
def numeral (lead : Char) (minus : Bool) (cs : List Char) : Scanned :=
  let (ds, after) := Text.spanDigits cs
  match ds with
  | [] => noDigit lead after
  | '0' :: _ :: _ => .broken lead .malformed .malformed
  | ds => placesPart lead ⟨minus, ds, [], 0, true⟩ after

/-! ## Texts -/

/-- Four hexadecimal digits, and what follows them. Fewer than four bytes to
the end of the text count as its end, whatever they are. -/
def hexFour : List Char → Except Flaw Nat × List Char
  | a :: b :: c :: d :: rest =>
    match Text.hexValue? a, Text.hexValue? b, Text.hexValue? c, Text.hexValue? d with
    | some a, some b, some c, some d => (.ok (((a * 16 + b) * 16 + c) * 16 + d), rest)
    | _, _, _, _ => (.error .malformed, [])
  | cs =>
    if (String.ofList cs).utf8ByteSize < 4 then (.error .truncated, [])
    else (.error .malformed, [])

/-- The character that a letter behind a backslash stands for. -/
def shortEscape? (c : Char) : Option Char :=
  if c = '\"' then some '\"'
  else if c = '\\' then some '\\'
  else if c = '/' then some '/'
  else if c = 'b' then some (Char.ofNat 8)
  else if c = 'f' then some (Char.ofNat 12)
  else if c = 'n' then some '\n'
  else if c = 'r' then some '\r'
  else if c = 't' then some '\t'
  else none

def isHighHalf (n : Nat) : Bool := 0xD800 ≤ n && n < 0xDC00

def isLowHalf (n : Nat) : Bool := 0xDC00 ≤ n && n < 0xE000

def joinHalves (high low : Nat) : Char :=
  Char.ofNat ((high - 0xD800) * 0x400 + (low - 0xDC00) + 0x10000)

/-- What a backslash and the characters behind it stand for: a character, or
nothing if it is half a surrogate pair. -/
abbrev Escaped := Except Flaw (Option Char) × List Char

/-- The second half of a pair, behind the first half `high`. -/
def secondHalf (high : Nat) (cs : List Char) : Escaped :=
  match cs with
  | [] => (.error .truncated, [])
  | ['\\'] => (.error .truncated, [])
  | '\\' :: 'u' :: rest =>
    match hexFour rest with
    | (.error flaw, _) => (.error flaw, [])
    | (.ok low, after) =>
      if isLowHalf low then (.ok (some (joinHalves high low)), after) else (.ok none, cs)
  | cs => (.ok none, cs)

/-- What stands behind a backslash. -/
def escaped (cs : List Char) : Escaped :=
  match cs with
  | [] => (.error .truncated, [])
  | 'u' :: rest =>
    match hexFour rest with
    | (.error flaw, _) => (.error flaw, [])
    | (.ok n, after) =>
      if isLowHalf n then (.ok none, after)
      else if isHighHalf n then secondHalf n after
      else (.ok (some (Char.ofNat n)), after)
  | c :: rest =>
    match shortEscape? c with
    | some c => (.ok (some c), rest)
    | none => (.error .malformed, [])

theorem hexFour_length (cs : List Char) : (hexFour cs).2.length ≤ cs.length := by
  unfold hexFour
  split
  · split
    · simp only [List.length_cons]; omega
    · simp
  · split <;> simp

theorem secondHalf_length (high : Nat) (cs : List Char) :
    (secondHalf high cs).2.length ≤ cs.length := by
  unfold secondHalf
  split
  · simp
  · simp
  · rename_i rest
    have := hexFour_length rest
    split
    · simp
    · rename_i h
      rw [h] at this
      dsimp only at this
      split <;> simp only [List.length_cons] <;> omega
  · simp

theorem escaped_length (cs : List Char) : (escaped cs).2.length ≤ cs.length := by
  unfold escaped
  split
  · simp
  · rename_i rest
    have := hexFour_length rest
    split
    · simp
    · rename_i h
      rw [h] at this
      dsimp only at this
      rename_i after
      have := secondHalf_length ‹Nat› after
      split
      · simp only [List.length_cons]; omega
      · split <;> simp only [List.length_cons] <;> omega
  · split <;> simp

/-- What a reader of the value finds if its text breaks off or goes wrong:
half a surrogate pair further left was wrong already. -/
def brokenText (whole : Bool) (flaw : Flaw) : Scanned :=
  .broken '\"' (if whole then flaw else .malformed) flaw

/-- The characters up to the closing quote. `seen` holds them in reverse,
and `whole` tells that no half of a surrogate pair was among them. -/
def textPart (seen : List Char) (whole : Bool) (cs : List Char) : Scanned :=
  match cs with
  | [] => brokenText whole .truncated
  | c :: rest =>
    if c = '\"' then
      (.text (if whole then some (String.ofList seen.reverse) else none), rest)
    else if c = '\\' then
      have := escaped_length rest
      match (escaped rest).1 with
      | .ok (some c) => textPart (c :: seen) whole (escaped rest).2
      | .ok none => textPart seen false (escaped rest).2
      | .error flaw => brokenText whole flaw
    else if c.toNat < 32 then brokenText whole .malformed
    else textPart (c :: seen) whole rest
termination_by cs.length
decreasing_by all_goals (simp only [List.length_cons]; omega)

/-! ## All tokens -/

/-- The blanks that may stand between tokens. -/
def isSpace (c : Char) : Bool := c = ' ' || c = '\n' || c = '\t' || c = '\r'

/-- The token that starts with `c`. -/
def token (c : Char) (cs : List Char) : Scanned :=
  if c = ',' then (.comma, cs)
  else if c = ':' then (.colon, cs)
  else if c = '[' then (.openList, cs)
  else if c = ']' then (.closeList, cs)
  else if c = '{' then (.openRecord, cs)
  else if c = '}' then (.closeRecord, cs)
  else if c = '\"' then textPart [] true cs
  else if c = 'n' then word c .null "ull".toList cs
  else if c = 't' then word c (.bool true) "rue".toList cs
  else if c = 'f' then word c (.bool false) "alse".toList cs
  else if c = '-' then numeral c true cs
  else if c.isDigit then numeral c false (c :: cs)
  else .broken c .malformed .malformed

theorem word_length (lead : Char) (t : Token) (ws cs : List Char) :
    (word lead t ws cs).2.length ≤ cs.length := by
  induction ws generalizing cs with
  | nil => simp [word]
  | cons w ws ih =>
    cases cs with
    | nil => simp [word, Scanned.broken]
    | cons c cs =>
      simp only [word]
      split
      · exact Nat.le_succ_of_le (ih cs)
      · simp [Scanned.broken]

theorem spanDigits_length (cs : List Char) : (Text.spanDigits cs).2.length ≤ cs.length := by
  simp only [Text.spanDigits]
  exact List.IsSuffix.length_le (List.dropWhile_suffix _)

theorem noDigit_length (lead : Char) (cs : List Char) :
    (noDigit lead cs).2.length ≤ cs.length := by
  cases cs <;> simp [noDigit, Scanned.broken]

theorem exponentPart_length (lead : Char) (n : Numeral) (cs : List Char) :
    (exponentPart lead n cs).2.length ≤ cs.length := by
  unfold exponentPart
  split
  · simp
  · rename_i e rest
    split
    · dsimp only
      generalize hs : (if rest.head? = some '-' ∨ rest.head? = some '+' then rest.tail else rest)
        = signless
      have hle : signless.length ≤ rest.length := by
        rw [← hs]; split <;> simp
      have := spanDigits_length signless
      have := noDigit_length lead (Text.spanDigits signless).2
      split <;> simp only [List.length_cons] <;> omega
    · simp

theorem placesPart_length (lead : Char) (n : Numeral) (cs : List Char) :
    (placesPart lead n cs).2.length ≤ cs.length := by
  unfold placesPart
  split
  · rename_i rest
    dsimp only
    have := spanDigits_length rest
    have := noDigit_length lead (Text.spanDigits rest).2
    have := exponentPart_length lead
      { n with places := (Text.spanDigits rest).1, plain := false } (Text.spanDigits rest).2
    split <;> simp only [List.length_cons] <;> omega
  · exact exponentPart_length lead n cs

theorem numeral_length (lead : Char) (minus : Bool) (cs : List Char) :
    (numeral lead minus cs).2.length ≤ cs.length := by
  unfold numeral
  have := spanDigits_length cs
  dsimp only
  split
  · have := noDigit_length lead (Text.spanDigits cs).2
    omega
  · simp [Scanned.broken]
  · have := placesPart_length lead ⟨minus, (Text.spanDigits cs).1, [], 0, true⟩
      (Text.spanDigits cs).2
    omega

/-- A numeral that starts with a digit takes at least this digit. -/
theorem numeral_length_lt {lead c : Char} {minus : Bool} {cs : List Char}
    (h : c.isDigit = true) : (numeral lead minus (c :: cs)).2.length ≤ cs.length := by
  unfold numeral
  have hd := spanDigits_length cs
  have hspan : Text.spanDigits (c :: cs) =
      (c :: (Text.spanDigits cs).1, (Text.spanDigits cs).2) := by
    simp [Text.spanDigits, List.takeWhile, List.dropWhile, h]
  rw [hspan]
  dsimp only
  split
  · rename_i he; exact absurd he (by simp)
  · simp [Scanned.broken]
  · have := placesPart_length lead ⟨minus, c :: (Text.spanDigits cs).1, [], 0, true⟩
      (Text.spanDigits cs).2
    omega

theorem textPart_length (seen : List Char) (whole : Bool) (cs : List Char) :
    (textPart seen whole cs).2.length ≤ cs.length := by
  fun_induction textPart seen whole cs with
  | case1 => simp [brokenText, Scanned.broken]
  | case2 => simp
  | case3 seen whole rest _ _ _ _ ih =>
    have := escaped_length rest
    simp only [List.length_cons]; omega
  | case4 seen whole rest _ _ _ ih =>
    have := escaped_length rest
    simp only [List.length_cons]; omega
  | case5 => simp [brokenText, Scanned.broken]
  | case6 => simp [brokenText, Scanned.broken]
  | case7 seen whole c rest _ _ _ ih => simp only [List.length_cons]; omega

theorem length_ite_le {p : Prop} [Decidable p] {a b : Scanned} {n : Nat}
    (ha : a.2.length ≤ n) (hb : b.2.length ≤ n) : (if p then a else b).2.length ≤ n := by
  split <;> assumption

theorem token_length (c : Char) (cs : List Char) : (token c cs).2.length ≤ cs.length := by
  unfold token
  iterate 6 refine length_ite_le (Nat.le_refl _) ?_
  refine length_ite_le (textPart_length _ _ _) ?_
  iterate 3 refine length_ite_le (word_length _ _ _ _) ?_
  refine length_ite_le (numeral_length _ _ _) ?_
  split
  · exact numeral_length_lt (by assumption)
  · simp [Scanned.broken]

def tokens (cs : List Char) : List Token :=
  match cs with
  | [] => []
  | c :: rest =>
    if isSpace c then tokens rest
    else
      have := token_length c rest
      (token c rest).1 :: tokens (token c rest).2
termination_by cs.length
decreasing_by all_goals (simp only [List.length_cons]; omega)

end Hailing.Json
