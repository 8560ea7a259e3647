import Hailing.Text.Digits

/-!
# Identifiers

Orders, offers, riders and drivers are known by 128-bit identifiers. There
is one written form, thirty-two lower-case hexadecimal digits in five groups,
and four forms that are read. New identifiers have the layout of randomly
chosen ones, with six bits fixed; they come from a running number, and the
number is moved far from zero first so that the small identifiers people
write by hand are not among them.
-/

namespace Hailing

structure Uuid where
  bits : BitVec 128
  deriving DecidableEq, Repr

namespace Uuid

def ofNat (n : Nat) : Uuid := ⟨BitVec.ofNat 128 n⟩

def toNat (u : Uuid) : Nat := u.bits.toNat

theorem toNat_injective {a b : Uuid} (h : a.toNat = b.toNat) : a = b := by
  cases a; cases b
  simp only [toNat] at h
  simpa using BitVec.eq_of_toNat_eq h

instance : LE Uuid := ⟨fun a b => a.toNat ≤ b.toNat⟩

instance (a b : Uuid) : Decidable (a ≤ b) :=
  inferInstanceAs (Decidable (a.toNat ≤ b.toNat))

/-- The last `count` hexadecimal digits of a number. -/
def hexDigits (n : Nat) : Nat → List Char
  | 0 => []
  | count + 1 => hexDigits (n / 16) count ++ [Text.hexDigit (n % 16)]

/-- Groups of 8, 4, 4, 4 and 12 digits. -/
def toChars (u : Uuid) : List Char :=
  let n := u.toNat
  hexDigits (n >>> 96) 8 ++ '-' :: hexDigits (n >>> 80) 4 ++
    '-' :: hexDigits (n >>> 64) 4 ++ '-' :: hexDigits (n >>> 48) 4 ++
    '-' :: hexDigits n 12

protected def toString (u : Uuid) : String := String.ofList u.toChars

instance : ToString Uuid := ⟨Uuid.toString⟩

/-- Exactly thirty-two hexadecimal digits. -/
def ofDigits? (cs : List Char) : Option Uuid :=
  if cs.length == 32 then
    (cs.mapM Text.hexValue?).map fun ds => ofNat (ds.foldl (16 * · + ·) 0)
  else none

/-- The five groups, with a hyphen between each two. -/
def ofGroups? (cs : List Char) : Option Uuid :=
  let isHyphen (n : Nat) : Bool := cs[n]? == some '-'
  if cs.length == 36 && isHyphen 8 && isHyphen 13 && isHyphen 18 && isHyphen 23 then
    ofDigits? (cs.take 8 ++ (cs.drop 9).take 4 ++ (cs.drop 14).take 4 ++
      (cs.drop 19).take 4 ++ cs.drop 24)
  else none

/-- The scheme of a name, in small letters. -/
def scheme : List Char := "urn:uuid:".toList

/-- Reads bare digits, the groups, the groups in braces, and the groups
behind the scheme of a name, in which small and capital letters are the
same. -/
def ofChars? (cs : List Char) : Option Uuid :=
  match ofDigits? cs with
  | some u => some u
  | none =>
    if cs.length == 38 && cs.head? == some '{' && cs.getLast? == some '}' then
      ofGroups? ((cs.drop 1).take 36)
    else if cs.length == 45 && (cs.take 9).map Char.toLower == scheme then
      ofGroups? (cs.drop 9)
    else ofGroups? cs

def ofString? (s : String) : Option Uuid := ofChars? s.toList

/-- How many identifiers can be issued before one comes up again. -/
def capacity : Nat := 1 <<< 122

/-- Where issuing starts. -/
def origin : Nat := 0x2c5ea4c0d1b7f3a9564e80d32f71b6c

/-- The `n`-th new identifier: version four, variant one. -/
def issue (n : Nat) : Uuid :=
  let free := (origin + n) % capacity
  let (first, second, third) := (free >>> 74, (free >>> 62) % 4096, free % (1 <<< 62))
  ofNat ((((first <<< 4 + 4) <<< 12 + second) <<< 2 + 2) <<< 62 + third)

/-! ## New identifiers are new -/

theorem toNat_ofNat_of_lt {n : Nat} (h : n < 1 <<< 128) : (ofNat n).toNat = n :=
  (BitVec.toNat_ofNat n 128).trans (Nat.mod_eq_of_lt h)

/-- The number that a new identifier was laid out from can be read off it:
its three groups stand above the version, the variant and nothing. -/
theorem toNat_issue (n : Nat) :
    (issue n).toNat >>> 80 <<< 74 + ((issue n).toNat >>> 64 % 4096) <<< 62 +
      (issue n).toNat % (1 <<< 62) = (origin + n) % capacity := by
  have hlt : (origin + n) % capacity < 2 ^ 122 := Nat.mod_lt _ (by decide)
  unfold issue
  generalize (origin + n) % capacity = free at hlt ⊢
  simp only [Nat.shiftRight_eq_div_pow, Nat.shiftLeft_eq, Nat.one_mul]
  generalize hfirst : free / 2 ^ 74 = first
  generalize hsecond : free / 2 ^ 62 % 4096 = second
  generalize hthird : free % 2 ^ 62 = third
  have hfree : free = first * 2 ^ 74 + second * 2 ^ 62 + third := by omega
  have hsmall : first < 2 ^ 48 ∧ second < 4096 ∧ third < 2 ^ 62 := by omega
  rw [hfree]
  clear hfirst hsecond hthird hfree hlt
  rw [toNat_ofNat_of_lt (by omega)]
  omega

/-- No identifier comes up twice before all have come up. -/
theorem issue_injective {m n : Nat} (hm : m < capacity) (hn : n < capacity)
    (h : issue m = issue n) : m = n := by
  have heq : (origin + m) % capacity = (origin + n) % capacity := by
    rw [← toNat_issue, ← toNat_issue, h]
  have hc : capacity = 2 ^ 122 := by decide
  rw [hc] at hm hn heq
  omega

/-! ## What is written is read back -/

theorem length_hexDigits (n count : Nat) : (hexDigits n count).length = count := by
  induction count generalizing n with
  | zero => rfl
  | succ count ih => simp [hexDigits, ih]

/-- Groups of digits stand next to each other. -/
theorem hexDigits_append (n first second : Nat) :
    hexDigits (n / Nat.pow 16 second) first ++ hexDigits n second =
      hexDigits n (first + second) := by
  induction second generalizing n with
  | zero => simp [hexDigits]
  | succ second ih =>
      have hpow : n / Nat.pow 16 (second + 1) = n / 16 / Nat.pow 16 second := by
        rw [Nat.div_div_eq_div_mul, Nat.mul_comm]
        rfl
      rw [hpow, ← Nat.add_assoc, hexDigits, hexDigits, ← List.append_assoc, ih]

theorem hexDigits_read (n count : Nat) :
    ∃ ds, (hexDigits n count).mapM Text.hexValue? = some ds ∧
      ds.foldl (16 * · + ·) 0 = n % Nat.pow 16 count := by
  induction count generalizing n with
  | zero => exact ⟨[], rfl, (Nat.mod_one n).symm⟩
  | succ count ih =>
      obtain ⟨ds, hds, hvalue⟩ := ih (n / 16)
      have hlast : Text.hexValue? (Text.hexDigit (n % 16)) = some (n % 16) :=
        Text.hexValue?_hexDigit (Nat.mod_lt _ (by decide))
      refine ⟨ds ++ [n % 16], ?_, ?_⟩
      · simp [hexDigits, List.mapM_append, hds, hlast]
      · have hmod : n % Nat.pow 16 (count + 1) = n % 16 + 16 * (n / 16 % Nat.pow 16 count) := by
          rw [← Nat.mod_mul, Nat.mul_comm]
          rfl
        rw [List.foldl_append, hvalue, hmod, Nat.add_comm]
        rfl

theorem mem_hexDigits {n count : Nat} {c : Char} (h : c ∈ hexDigits n count) :
    ∃ d < 16, c = Text.hexDigit d := by
  induction count generalizing n with
  | zero => cases h
  | succ count ih =>
      rcases List.mem_append.1 h with h | h
      · exact ih h
      · exact ⟨n % 16, Nat.mod_lt _ (by decide), List.mem_singleton.1 h⟩

/-- An identifier is written with digits and hyphens only. -/
theorem mem_toChars {u : Uuid} {c : Char} (h : c ∈ u.toChars) :
    c = '-' ∨ ∃ d < 16, c = Text.hexDigit d := by
  simp only [toChars, List.mem_append, List.mem_cons] at h
  rcases h with ((((h | h | h) | h | h) | h | h) | h | h)
  all_goals
    first
    | exact .inl h
    | exact .inr (mem_hexDigits h)

theorem toNat_lt (u : Uuid) : u.toNat < Nat.pow 16 32 := u.bits.isLt

theorem ofDigits?_hexDigits (u : Uuid) : ofDigits? (hexDigits u.toNat 32) = some u := by
  obtain ⟨ds, hds, hvalue⟩ := hexDigits_read u.toNat 32
  have hself : ofNat u.toNat = u := toNat_injective (toNat_ofNat_of_lt u.toNat_lt)
  simp [ofDigits?, length_hexDigits, hds, hvalue, Nat.mod_eq_of_lt u.toNat_lt, hself]

theorem length_toChars (u : Uuid) : u.toChars.length = 36 := by
  simp [toChars, length_hexDigits]

theorem drop_hexDigits {n count k : Nat} (h : count ≤ k) : (hexDigits n count).drop k = [] :=
  List.drop_eq_nil_of_le (by rw [length_hexDigits]; exact h)

theorem hexDigits_groups (n : Nat) :
    hexDigits (n >>> 96) 8 ++ (hexDigits (n >>> 80) 4 ++ (hexDigits (n >>> 64) 4 ++
      (hexDigits (n >>> 48) 4 ++ hexDigits n 12))) = hexDigits n 32 := by
  have hshift : ∀ k, n >>> (4 * k) = n / Nat.pow 16 k := by
    intro k
    rw [Nat.shiftRight_eq_div_pow, Nat.pow_mul]
    rfl
  rw [hshift 12, hexDigits_append, hshift 16, hexDigits_append, hshift 20, hexDigits_append,
    hshift 24, hexDigits_append]

theorem ofGroups?_toChars (u : Uuid) : ofGroups? u.toChars = some u := by
  rw [ofGroups?, length_toChars]
  simp [toChars, length_hexDigits, List.drop_append, drop_hexDigits,
    hexDigits_groups, ofDigits?_hexDigits]

theorem ofString?_toString (u : Uuid) : ofString? u.toString = some u := by
  have hlen := u.length_toChars
  have hbare : ofDigits? u.toChars = none := by simp [ofDigits?, hlen]
  simp [ofString?, Uuid.toString, ofChars?, hbare, hlen, ofGroups?_toChars]

end Uuid

end Hailing
