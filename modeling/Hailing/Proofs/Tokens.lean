import Hailing.Json.Decode
import Hailing.Json.Value

/-!
# Single values as tokens

What is written for a word, a number or a text is one token, and it is the same
token with anything behind it. Words and texts have an end of their own: a text
ends with a quote, and inside of it every character is read as itself however it
was escaped (`textPart_escape`). A numeral has none. It ends where something
stands that it cannot go on with (`EndsNumeral`), and as all that its reader
does is to take digits off the front, a numeral that is read to the end of a
text is read in the same way with such a thing behind it.

So nothing has to be known about the numeral of a double but that it starts as
numerals do. That it is read as this double (`ReadsBack`) says the rest.
-/

namespace Hailing.Json

open Text (NoDigit spanDigits)

/-! ## Numerals -/

/-- A numeral ends before these characters. -/
structure EndsNumeral (cs : List Char) : Prop where
  noDigit : NoDigit cs
  noPoint : cs.head? ≠ some '.'
  noExponent : cs.head? ≠ some 'e' ∧ cs.head? ≠ some 'E'

variable {lead : Char} {n : Numeral} {v : Number} {cs after rest : List Char}

theorem noDigit_ne_number : noDigit lead cs ≠ (.number v, after) := by
  cases cs <;> nofun

/-- The power behind its sign. -/
def unsigned (power : List Char) : List Char :=
  if power.head? = some '-' ∨ power.head? = some '+' then power.tail else power

theorem unsigned_append (c : Char) (cs rest : List Char) :
    unsigned (c :: (cs ++ rest)) = unsigned (c :: cs) ++ rest :=
  (apply_ite (· ++ rest) ((c :: cs).head? = some '-' ∨ (c :: cs).head? = some '+')
    (c :: cs).tail (c :: cs)).symm

theorem exponentPart_mark {e : Char} (he : e = 'e' ∨ e = 'E') (power : List Char) :
    exponentPart lead n (e :: power) =
      if (spanDigits (unsigned power)).1.isEmpty then
        noDigit lead (spanDigits (unsigned power)).2
      else
        (.number { n with
          exponent := if power.head? = some '-'
            then -(Text.natOfDigits (spanDigits (unsigned power)).1 : Int)
            else Text.natOfDigits (spanDigits (unsigned power)).1
          plain := false }.value,
          (spanDigits (unsigned power)).2) :=
  if_pos he

/-- Without an exponent nothing is taken. -/
theorem exponentPart_none (h : cs.head? ≠ some 'e' ∧ cs.head? ≠ some 'E') :
    exponentPart lead n cs = (.number n.value, cs) := by
  cases cs with
  | nil => rfl
  | cons c cs =>
      have hne : ¬(c = 'e' ∨ c = 'E') := by simpa using h
      exact if_neg hne

theorem exponentPart_append (hr : EndsNumeral rest)
    (h : exponentPart lead n cs = (.number v, after)) :
    exponentPart lead n (cs ++ rest) = (.number v, after ++ rest) := by
  cases cs with
  | nil =>
      cases h
      exact exponentPart_none hr.noExponent
  | cons e power =>
      by_cases he : e = 'e' ∨ e = 'E'
      · rw [exponentPart_mark he] at h
        rw [List.cons_append, exponentPart_mark he]
        cases power with
        | nil => exact absurd (show noDigit lead [] = _ from h) noDigit_ne_number
        | cons c digits =>
            rw [List.cons_append, unsigned_append, Text.spanDigits_append hr.noDigit]
            dsimp only
            split at h
            · exact absurd h noDigit_ne_number
            · next hne =>
                cases h
                exact if_neg hne
      · have hnone : ∀ cs, exponentPart lead n (e :: cs) = (.number n.value, e :: cs) :=
          fun cs => exponentPart_none (by simpa using he)
        rw [hnone] at h
        cases h
        exact hnone _

theorem placesPart_append (hr : EndsNumeral rest)
    (h : placesPart lead n cs = (.number v, after)) :
    placesPart lead n (cs ++ rest) = (.number v, after ++ rest) := by
  unfold placesPart at h
  split at h
  · next digits =>
      dsimp only at h
      rw [List.cons_append, placesPart, Text.spanDigits_append hr.noDigit]
      dsimp only
      split at h
      · exact absurd h noDigit_ne_number
      · next hne =>
          rw [if_neg hne]
          exact exponentPart_append hr h
  · next hpoint =>
      unfold placesPart
      split
      · next digits heq =>
          cases cs with
          | nil => exact absurd (congrArg List.head? heq) hr.noPoint
          | cons c cs =>
              cases heq
              exact absurd rfl (hpoint cs)
      · exact exponentPart_append hr h

theorem numeral_append {minus : Bool} (hr : EndsNumeral rest)
    (h : numeral lead minus cs = (.number v, after)) :
    numeral lead minus (cs ++ rest) = (.number v, after ++ rest) := by
  unfold numeral at h ⊢
  rw [Text.spanDigits_append hr.noDigit]
  dsimp only at h ⊢
  split at h
  · exact absurd h noDigit_ne_number
  · cases h
  · exact placesPart_append hr h

/-- A token that is a number or broken. -/
def Token.IsNumeric : Token → Prop
  | .number _ => True
  | .broken _ _ _ => True
  | _ => False

theorem noDigit_numeric (lead : Char) (cs : List Char) : (noDigit lead cs).1.IsNumeric := by
  cases cs <;> trivial

theorem exponentPart_numeric (lead : Char) (n : Numeral) (cs : List Char) :
    (exponentPart lead n cs).1.IsNumeric := by
  cases cs with
  | nil => trivial
  | cons e power =>
      by_cases he : e = 'e' ∨ e = 'E'
      · rw [exponentPart_mark he]
        split
        · exact noDigit_numeric lead _
        · trivial
      · rw [exponentPart_none (by simpa using he)]
        trivial

theorem placesPart_numeric (lead : Char) (n : Numeral) (cs : List Char) :
    (placesPart lead n cs).1.IsNumeric := by
  unfold placesPart
  split
  · dsimp only
    split
    · exact noDigit_numeric lead _
    · exact exponentPart_numeric lead _ _
  · exact exponentPart_numeric lead _ _

theorem numeral_numeric (lead : Char) (minus : Bool) (cs : List Char) :
    (numeral lead minus cs).1.IsNumeric := by
  unfold numeral
  dsimp only
  split
  · exact noDigit_numeric lead _
  · trivial
  · exact placesPart_numeric lead _ _

/-! ## Tokens -/

/-- What a token has to start with to be a number. -/
def StartsNumeral (c : Char) : Prop := c = '-' ∨ c.isDigit = true

theorem ne_of_isDigit {c d : Char} (hc : c.isDigit = true) (hd : d.isDigit = false) :
    c ≠ d := by
  rintro rfl
  rw [hc] at hd
  cases hd

theorem token_numeral {c : Char} (hc : StartsNumeral c) (cs : List Char) :
    token c cs = if c = '-' then numeral c true cs else numeral c false (c :: cs) := by
  unfold token
  rcases hc with rfl | hc
  · rfl
  · have hne : ∀ d : Char, d.isDigit = false → c ≠ d := fun _ => ne_of_isDigit hc
    simp only [hne ',' rfl, hne ':' rfl, hne '[' rfl, hne ']' rfl, hne '{' rfl, hne '}' rfl,
      hne '\"' rfl, hne 'n' rfl, hne 't' rfl, hne 'f' rfl, hne '-' rfl, hc, if_false, if_true]

theorem isSpace_of_startsNumeral {c : Char} (hc : StartsNumeral c) : isSpace c = false := by
  rcases hc with rfl | hc
  · rfl
  · have hne : ∀ d : Char, d.isDigit = false → c ≠ d := fun _ => ne_of_isDigit hc
    simp [isSpace, hne ' ' rfl, hne '\n' rfl, hne '\t' rfl, hne '\r' rfl]

theorem tokens_cons {c : Char} (hc : isSpace c = false) (cs : List Char) :
    tokens (c :: cs) = (token c cs).1 :: tokens (token c cs).2 := by
  rw [tokens]
  simp [hc]

/-- Where no token is left, there is nothing but blanks. -/
theorem tokens_append_of_nil (h : tokens cs = []) : tokens (cs ++ rest) = tokens rest := by
  induction cs with
  | nil => rfl
  | cons c cs ih =>
      rw [tokens] at h
      split at h
      · next hc =>
          rw [List.cons_append, tokens, if_pos hc]
          exact ih h
      · cases h

/-- A number is the same token with something behind it. -/
theorem tokens_number_append {c : Char} (hc : StartsNumeral c) (hr : EndsNumeral rest)
    (h : tokens (c :: cs) = [.number v]) :
    tokens (c :: cs ++ rest) = .number v :: tokens rest := by
  have hspace := isSpace_of_startsNumeral hc
  rw [tokens_cons hspace] at h
  obtain ⟨hv, hafter⟩ := List.cons.inj h
  obtain ⟨after, ht⟩ : ∃ after, token c cs = (.number v, after) := ⟨_, Prod.ext hv rfl⟩
  have happend : token c (cs ++ rest) = (.number v, after ++ rest) := by
    rw [token_numeral hc] at ht ⊢
    split at ht
    · next hm =>
        rw [if_pos hm]
        exact numeral_append hr ht
    · next hm =>
        rw [if_neg hm]
        exact numeral_append hr ht
  rw [ht] at hafter
  rw [List.cons_append, tokens_cons hspace, happend, tokens_append_of_nil hafter]

/-- A whole number as the numeral that is written for it. -/
def Number.ofInt (n : Int) : Number :=
  Numeral.value ⟨n < 0, Text.digits n.natAbs, [], 0, true⟩

theorem toList_toString (n : Int) : (toString n).toList =
    if n < 0 then '-' :: Text.digits n.natAbs else Text.digits n.natAbs := by
  cases n with
  | ofNat m =>
      have hnonneg : ¬Int.ofNat m < 0 := Int.not_lt.2 (Int.natCast_nonneg m)
      rw [if_neg hnonneg]
      show (toString m).toList = Text.digits m
      rw [Nat.toString_eq_ofList_toDigits, String.toList_ofList, Text.digits]
  | negSucc m =>
      rw [if_pos (Int.negSucc_lt_zero m)]
      show ("-" ++ toString (m + 1)).toList = '-' :: Text.digits (m + 1)
      rw [String.toList_append, Nat.toString_eq_ofList_toDigits,
        @String.toList_ofList (Nat.toDigits 10 (m + 1))]
      rfl

theorem fitting_eq {n : Nat} {ds : List Char}
    (h : ds.foldl (fun n c => 10 * n + Text.digitValue c) n < UInt64.size) :
    fitting n ds = (ds.foldl (fun n c => 10 * n + Text.digitValue c) n, []) := by
  have hgrows : ∀ (ds : List Char) (n : Nat),
      n ≤ ds.foldl (fun n c => 10 * n + Text.digitValue c) n := by
    intro ds
    induction ds with
    | nil => exact fun n => Nat.le_refl n
    | cons c ds ih =>
        intro n
        have := ih (10 * n + Text.digitValue c)
        rw [List.foldl_cons]
        omega
  induction ds generalizing n with
  | nil => rfl
  | cons c ds ih =>
      rw [List.foldl_cons] at h ⊢
      have hnext := Nat.lt_of_le_of_lt (hgrows ds _) h
      rw [fitting, if_pos hnext]
      exact ih h

theorem fitting_digits {n : Nat} (h : n < UInt64.size) : fitting 0 (Text.digits n) = (n, []) := by
  have hn := Text.natOfDigits_digits n
  unfold Text.natOfDigits at hn
  rw [fitting_eq (by rw [hn]; exact h), hn]

theorem ofInt_natural {n : Nat} (h : n < UInt64.size) : Number.ofInt n = .natural n := by
  have hneg : ¬((n : Int) < 0) := by omega
  simp [Number.ofInt, Numeral.value, fitting_digits h, hneg]

theorem ofInt_negative {n : Nat} (h0 : 0 < n) (h : n ≤ UInt64.size / 2) :
    Number.ofInt (-n) = .negative n := by
  have hlt : n < UInt64.size := by unfold UInt64.size at *; omega
  have hneg : -(n : Int) < 0 := by omega
  have hne : (n == 0) = false := by simp; omega
  simp [Number.ofInt, Numeral.value, fitting_digits hlt, h0, h, hne]

theorem numeral_digits (lead : Char) (minus : Bool) (n : Nat) :
    numeral lead minus (Text.digits n) =
      (.number (Numeral.value ⟨minus, Text.digits n, [], 0, true⟩), []) := by
  unfold numeral
  rw [Text.spanDigits_of_digits fun _ => Text.isDigit_of_mem_digits]
  dsimp only
  split
  · next h => exact absurd h (Text.digits_ne_nil n)
  · next h =>
      by_cases hn : n = 0
      · subst hn
        cases h
      · exact absurd (by rw [h]; rfl) (Text.head?_digits hn)
  · rfl

/-- These characters are one number and nothing else. -/
structure AreNumber (cs : List Char) (v : Number) : Prop where
  starts : ∃ c, cs.head? = some c ∧ StartsNumeral c
  tokens_eq : tokens cs = [.number v]

theorem AreNumber.tokens_append (h : AreNumber cs v) (hr : EndsNumeral rest) :
    tokens (cs ++ rest) = .number v :: tokens rest := by
  obtain ⟨c, hc, hstarts⟩ := h.starts
  obtain ⟨tail, rfl⟩ := List.head?_eq_some_iff.1 hc
  exact tokens_number_append hstarts hr h.tokens_eq

theorem areNumber_of_token {c : Char} (hc : StartsNumeral c) (h : token c cs = (.number v, [])) :
    AreNumber (c :: cs) v := by
  refine ⟨⟨c, rfl, hc⟩, ?_⟩
  rw [tokens_cons (isSpace_of_startsNumeral hc), h, tokens]

theorem areNumber_whole (n : Int) : AreNumber (toString n).toList (.ofInt n) := by
  rw [toList_toString]
  split
  · next hneg =>
      refine areNumber_of_token (.inl rfl) ?_
      rw [token_numeral (.inl rfl), if_pos rfl, numeral_digits, Number.ofInt, decide_eq_true hneg]
  · next hneg =>
      obtain ⟨d, ds, hds⟩ := List.exists_cons_of_ne_nil (Text.digits_ne_nil n.natAbs)
      have hd : d.isDigit = true := Text.isDigit_of_mem_digits (hds ▸ List.mem_cons_self)
      have hminus : d ≠ '-' := ne_of_isDigit hd rfl
      rw [hds]
      refine areNumber_of_token (.inr hd) ?_
      rw [token_numeral (.inr hd), if_neg hminus, ← hds, numeral_digits, Number.ofInt,
        decide_eq_false hneg]

/-! ## Texts -/

theorem textPart_backslash {seen : List Char} {c : Char}
    (h : escaped cs = (.ok (some c), rest)) :
    textPart seen true ('\\' :: cs) = textPart (c :: seen) true rest := by
  rw [textPart]
  simp [h]

theorem escaped_hex {n : Nat} (h : n < 32) (rest : List Char) :
    escaped ('u' :: '0' :: '0' :: Text.hexDigit (n / 16) :: Text.hexDigit (n % 16) :: rest) =
      (.ok (some (Char.ofNat n)), rest) := by
  have hzero : Text.hexValue? '0' = some 0 := rfl
  have hhigh : Text.hexValue? (Text.hexDigit (n / 16)) = some (n / 16) :=
    Text.hexValue?_hexDigit (by omega)
  have hlow : Text.hexValue? (Text.hexDigit (n % 16)) = some (n % 16) :=
    Text.hexValue?_hexDigit (by omega)
  have hvalue : ((0 * 16 + 0) * 16 + n / 16) * 16 + n % 16 = n := by omega
  have hnolow : isLowHalf n = false := by simp [isLowHalf]; omega
  have hnohigh : isHighHalf n = false := by simp [isHighHalf]; omega
  rw [escaped, hexFour]
  simp only [hzero, hhigh, hlow, hvalue, hnolow, hnohigh]
  simp

/-- An escaped character is read as the character. -/
theorem textPart_escape (seen : List Char) (c : Char) (rest : List Char) :
    textPart seen true (escape c ++ rest) = textPart (c :: seen) true rest := by
  unfold escape
  split
  · next h => subst h; exact textPart_backslash rfl
  split
  · next h => subst h; exact textPart_backslash rfl
  split
  · next h => subst h; exact textPart_backslash rfl
  split
  · next h => subst h; exact textPart_backslash rfl
  split
  · next h => subst h; exact textPart_backslash rfl
  split
  · next h =>
      obtain rfl : Char.ofNat 8 = c := by rw [← h, Char.ofNat_toNat]
      exact textPart_backslash rfl
  split
  · next h =>
      obtain rfl : Char.ofNat 12 = c := by rw [← h, Char.ofNat_toNat]
      exact textPart_backslash rfl
  split
  · next h =>
      refine textPart_backslash ?_
      exact (escaped_hex h rest).trans (by rw [Char.ofNat_toNat])
  · next hquote hslash _ _ _ _ _ hcontrol =>
      rw [List.singleton_append, textPart]
      simp [hquote, hslash, hcontrol]

theorem textPart_flatMap (seen cs rest : List Char) :
    textPart seen true (cs.flatMap escape ++ '\"' :: rest) =
      (.text (some (String.ofList (seen.reverse ++ cs))), rest) := by
  induction cs generalizing seen with
  | nil =>
      rw [List.flatMap_nil, List.nil_append, textPart]
      simp
  | cons c cs ih =>
      rw [List.flatMap_cons, List.append_assoc, textPart_escape, ih, List.reverse_cons,
        List.append_assoc, List.singleton_append]

theorem tokens_quoted (s : String) (rest : List Char) :
    tokens (quoted s ++ rest) = .text (some s) :: tokens rest := by
  have htoken : token '\"' (s.toList.flatMap escape ++ '\"' :: rest) =
      textPart [] true (s.toList.flatMap escape ++ '\"' :: rest) := rfl
  rw [quoted, List.cons_append, List.cons_append, List.append_assoc, List.singleton_append,
    tokens_cons rfl, htoken, textPart_flatMap]
  simp

/-! ## Words -/

theorem tokens_null (rest : List Char) : tokens ("null".toList ++ rest) = .null :: tokens rest :=
  tokens_cons rfl _

theorem tokens_bool (b : Bool) (rest : List Char) :
    tokens ((Value.bool b).toChars ++ rest) = .bool b :: tokens rest := by
  cases b <;> exact tokens_cons rfl _

/-! ## Doubles -/

theorem positional_starts (s : Decimal.Scientific) :
    ∃ c, s.positional.head? = some c ∧ c.isDigit = true := by
  obtain ⟨d, ds, hds⟩ := List.exists_cons_of_ne_nil (Text.digits_ne_nil s.significand)
  have hd : d.isDigit = true := Text.isDigit_of_mem_digits (hds ▸ List.mem_cons_self)
  unfold Decimal.Scientific.positional
  rw [hds]
  dsimp only
  split
  · exact ⟨d, rfl, hd⟩
  · split
    · next hplaces =>
        obtain ⟨k, hk⟩ := Nat.exists_eq_succ_of_ne_zero (Nat.sub_ne_zero_of_lt hplaces)
        rw [hk]
        exact ⟨d, rfl, hd⟩
    · exact ⟨'0', rfl, rfl⟩

theorem compact_starts (s : Decimal.Scientific) :
    ∃ c, s.compact.head? = some c ∧ c.isDigit = true := by
  obtain ⟨c, hc, hdigit⟩ := positional_starts s
  obtain ⟨d, ds, hds⟩ := List.exists_cons_of_ne_nil (Text.digits_ne_nil s.significand)
  have hd : d.isDigit = true := Text.isDigit_of_mem_digits (hds ▸ List.mem_cons_self)
  unfold Decimal.Scientific.compact
  dsimp only
  split
  · exact ⟨c, by rw [List.head?_append, hc]; rfl, hdigit⟩
  · split
    · exact ⟨c, hc, hdigit⟩
    · rw [hds]
      split
      · next heq => cases heq; exact ⟨_, rfl, hd⟩
      · next heq => cases heq; exact ⟨_, rfl, hd⟩
      · next heq => cases heq

/-- The text of a double is read as this double. -/
def ReadsBack (x : Float) : Prop := read Decode.real (Value.real x).print = .ok x

instance (x : Float) : Decidable (ReadsBack x) :=
  decidable_of_iff ((read Decode.real (Value.real x).print).toOption = some x) (by
    unfold ReadsBack
    cases read Decode.real (Value.real x).print <;> simp [Except.toOption])

/-- The text of a double is a numeral, unless there is no word for it. -/
theorem toChars_real (x : Float) : (Value.real x).toChars = "null".toList ∨
    ∃ c, (Value.real x).toChars.head? = some c ∧ StartsNumeral c := by
  show (Decimal.compact x).getD _ = _ ∨ ∃ c, ((Decimal.compact x).getD _).head? = some c ∧ _
  unfold Decimal.compact
  split
  · exact .inl rfl
  · exact .inl rfl
  · next negative m q _ =>
      right
      generalize (if m == 0 then (⟨0, 0⟩ : Decimal.Scientific)
        else Decimal.shortest .even m q) = s
      obtain ⟨c, hc, hdigit⟩ := compact_starts s
      cases negative with
      | true => exact ⟨'-', rfl, .inl rfl⟩
      | false => exact ⟨c, hc, .inr hdigit⟩

theorem ReadsBack.areNumber {x : Float} (h : ReadsBack x) :
    ∃ v, AreNumber (Value.real x).toChars v ∧
      ∀ depth, Decode.real depth (.number v) = .ok x := by
  unfold ReadsBack read Draft.ofChars Value.print at h
  rw [String.toList_ofList] at h
  rcases toChars_real x with hnull | ⟨c, hc, hstarts⟩
  · rw [hnull, ← List.append_nil "null".toList, tokens_null] at h
    cases h
  · obtain ⟨cs, hcs⟩ := List.head?_eq_some_iff.1 hc
    have hnumeric : (token c cs).1.IsNumeric := by
      rw [token_numeral hstarts]
      split <;> exact numeral_numeric _ _ _
    have htokens := tokens_cons (isSpace_of_startsNumeral hstarts) cs
    rw [hcs, htokens] at h
    generalize (token c cs).1 = t at *
    generalize tokens (token c cs).2 = ts at *
    cases t with
    | number v =>
        have hread : (do
            let a ← Decode.real depthLimit (.number v)
            if ts.isEmpty then .ok a else .error .malformed) = Except.ok x := h
        obtain ⟨a, ha, hts⟩ := bind_eq_ok.1 hread
        split at hts
        · next hempty =>
            cases hts
            rw [List.isEmpty_iff.1 hempty] at htokens
            rw [hcs]
            refine ⟨v, ⟨⟨c, rfl, hstarts⟩, htokens⟩, fun depth => ?_⟩
            cases v <;> exact ha
        · cases hts
    | broken => cases h
    | _ => cases hnumeric

end Hailing.Json
