import Hailing.Decimal.Binary

/-!
# The order of doubles

Two doubles that are numbers compare as their rungs do: the bits without the
sign, counted from zero in the direction of the sign. The comparison itself goes
by exponents first and by mantissas where these are equal. That this is the
order of the rungs is because a mantissa never outgrows its exponent: above the
least exponent it lies between `normalMantissa` and twice that (`Shaped`).

The total order refines this one. It tells the two zeros apart and gives what
is not a number a place, and nothing else.
-/

namespace Hailing.Decimal

open Float.Model (Format UnpackedFloat)
open Float.Model.UnpackedFloat (Sign unpack unpackExponent unpackMantissa unpackSign)

/-- A double as a whole number that grows with it. Both zeros are at zero. -/
def rung (x : Float) : Int :=
  let bits := x.toBits.toNat
  if bits < signBit then bits else signBit - bits

/-! ## Doubles taken apart -/

def directed : Sign → Int → Int
  | .positive, n => n
  | .negative, n => -n

/-- The rung of a double that has been taken apart. -/
def rungOf : UnpackedFloat → Int
  | .infinity s => directed s (2047 * normalMantissa)
  | .notANumber => 0
  | .zero _ => 0
  | .finite s m e _ => directed s ((e + 1074) * normalMantissa + m)

/-- The mantissa fits its exponent. -/
def Shaped : UnpackedFloat → Prop
  | .finite _ m e _ =>
    m < 2 * normalMantissa ∧ -1074 ≤ e ∧ e ≤ 971 ∧ (e = -1074 ∨ normalMantissa ≤ m)
  | _ => True

/-- Exponents first, and then mantissas. -/
theorem compare_finite {s₁ s₂ : Sign} {m₁ m₂ : Nat} {e₁ e₂ : Int} {h₁ : 0 < m₁} {h₂ : 0 < m₂}
    (ha : Shaped (.finite s₁ m₁ e₁ h₁)) (hb : Shaped (.finite s₂ m₂ e₂ h₂)) :
    (compare e₁ e₂).then (compare m₁ m₂) =
      compare ((e₁ + 1074) * normalMantissa + m₁ : Int) ((e₂ + 1074) * normalMantissa + m₂) := by
  obtain ⟨hm₁, hlow₁, -, hfit₁⟩ := ha
  obtain ⟨hm₂, hlow₂, -, hfit₂⟩ := hb
  simp only [normalMantissa] at hm₁ hm₂ hfit₁ hfit₂
  rcases Int.lt_trichotomy e₁ e₂ with he | he | he
  · have hrung : (e₁ + 1074) * (normalMantissa : Int) + m₁ < (e₂ + 1074) * normalMantissa + m₂ := by
      simp only [normalMantissa]
      omega
    rw [Int.compare_eq_lt.2 he, Int.compare_eq_lt.2 hrung]
    rfl
  · subst he
    rw [Int.compare_eq_eq.2 rfl]
    show compare m₁ m₂ = _
    rcases Nat.lt_trichotomy m₁ m₂ with hm | hm | hm
    · rw [Nat.compare_eq_lt.2 hm, Int.compare_eq_lt.2 (by omega)]
    · rw [Nat.compare_eq_eq.2 hm, Int.compare_eq_eq.2 (by omega)]
    · rw [Nat.compare_eq_gt.2 hm, Int.compare_eq_gt.2 (by omega)]
  · have hrung : (e₂ + 1074) * (normalMantissa : Int) + m₂ < (e₁ + 1074) * normalMantissa + m₁ := by
      simp only [normalMantissa]
      omega
    rw [Int.compare_eq_gt.2 he, Int.compare_eq_gt.2 hrung]
    rfl

theorem compare_neg (a b : Int) : compare (-a) (-b) = (compare a b).swap := by
  rcases Int.lt_trichotomy a b with h | h | h
  · rw [Int.compare_eq_lt.2 h, Int.compare_eq_gt.2 (by omega)]
    rfl
  · rw [Int.compare_eq_eq.2 h, Int.compare_eq_eq.2 (by omega)]
    rfl
  · rw [Int.compare_eq_gt.2 h, Int.compare_eq_lt.2 (by omega)]
    rfl

/-- A finite double that is not zero lies between zero and infinity. -/
theorem Shaped.bounds {s : Sign} {m : Nat} {e : Int} {h : 0 < m} (hs : Shaped (.finite s m e h)) :
    match s with
    | .positive => 0 < rungOf (.finite s m e h) ∧
        rungOf (.finite s m e h) < rungOf (.infinity .positive)
    | .negative => rungOf (.infinity .negative) < rungOf (.finite s m e h) ∧
        rungOf (.finite s m e h) < 0 := by
  obtain ⟨hm, hlow, hhigh, -⟩ := hs
  have hpos : 0 < (e + 1074) * (normalMantissa : Int) + m := by
    simp only [normalMantissa]
    omega
  have hfin : (e + 1074) * (normalMantissa : Int) + m < 2047 * normalMantissa := by
    simp only [normalMantissa] at hm ⊢
    omega
  cases s with
  | positive => exact ⟨hpos, hfin⟩
  | negative => exact ⟨Int.neg_lt_neg hfin, Int.neg_neg_of_pos hpos⟩

theorem less {a b : Int} (h : a < b) : some Ordering.lt = some (compare a b) := by
  rw [Int.compare_eq_lt.2 h]

theorem greater {a b : Int} (h : b < a) : some Ordering.gt = some (compare a b) := by
  rw [Int.compare_eq_gt.2 h]

theorem infinity_bounds :
    rungOf (.infinity .negative) < 0 ∧ 0 < rungOf (.infinity .positive) := by decide

/-- Doubles that are numbers compare as their rungs. -/
theorem compare_eq {a b : UnpackedFloat} (ha : Shaped a) (hb : Shaped b)
    (hna : a.isNaN = false) (hnb : b.isNaN = false) :
    UnpackedFloat.compare a b = some (compare (rungOf a) (rungOf b)) := by
  obtain ⟨hbottom, htop⟩ := infinity_bounds
  cases a with
  | notANumber => cases hna
  | zero s =>
      cases b with
      | notANumber => cases hnb
      | zero => rfl
      | infinity t => cases t <;> rfl
      | finite t =>
          have hbounds := hb.bounds
          cases t with
          | negative => exact greater hbounds.2
          | positive => exact less hbounds.1
  | infinity s =>
      cases b with
      | notANumber => cases hnb
      | zero => cases s <;> rfl
      | infinity t => cases s <;> cases t <;> rfl
      | finite t =>
          have hbounds := hb.bounds
          cases s <;> cases t <;> first | exact less (by omega) | exact greater (by omega)
  | finite s =>
      have hbounds := ha.bounds
      cases b with
      | notANumber => cases hnb
      | zero =>
          cases s with
          | negative => exact less hbounds.2
          | positive => exact greater hbounds.1
      | infinity t =>
          cases s <;> cases t <;> first | exact less (by omega) | exact greater (by omega)
      | finite t =>
          have hbounds' := hb.bounds
          have hlex := compare_finite ha hb
          cases s <;> cases t
          · exact congrArg some ((congrArg Ordering.swap hlex).trans (compare_neg _ _).symm)
          · exact less (Int.lt_trans hbounds.2 hbounds'.1)
          · exact greater (Int.lt_trans hbounds'.2 hbounds.1)
          · exact congrArg some hlex

/-! ## Taking a double apart -/

section Unpack

variable (b : BitVec Format.binary64.numBits)

theorem toNat_unpackExponent : (unpackExponent b).toNat = b.toNat / normalMantissa % 2048 := by
  show (b.extractLsb 62 52).toNat = _
  rw [BitVec.extractLsb_toNat, Nat.shiftRight_eq_div_pow]
  rfl

theorem toNat_unpackMantissa : (unpackMantissa b).toNat = b.toNat % normalMantissa := by
  show (b.extractLsb 51 0).toNat = _
  rw [BitVec.extractLsb_toNat, Nat.shiftRight_zero]
  rfl

theorem ofBitVec_unpackSign :
    Sign.ofBitVec (unpackSign b) = if b.toNat < signBit then .positive else .negative := by
  have hb : b.toNat < 2 * signBit := b.isLt
  have hsign : (unpackSign b).toNat = b.toNat / signBit := by
    show (b.extractLsb 63 63).toNat = _
    rw [BitVec.extractLsb_toNat, Nat.shiftRight_eq_div_pow]
    show b.toNat / signBit % 2 = _
    simp only [signBit] at hb ⊢
    omega
  rw [Sign.ofBitVec]
  by_cases h : b.toNat < signBit
  · rw [if_pos h, if_pos]
    refine BitVec.eq_of_toNat_eq (hsign.trans ?_)
    exact Nat.div_eq_of_lt h
  · rw [if_neg h, if_neg]
    intro hzero
    rw [hzero] at hsign
    simp only [signBit] at h hsign hb
    simp at hsign
    omega

theorem toNat_one_append : (1#1 ++ unpackMantissa b).toNat =
    normalMantissa + b.toNat % normalMantissa := by
  rw [BitVec.toNat_append, ← Nat.shiftLeft_add_eq_or_of_lt (unpackMantissa b).isLt,
    toNat_unpackMantissa]
  rfl

end Unpack

/-- What comes out has its shape, and the rung that the bits have. -/
theorem unpack_spec (b : BitVec Format.binary64.numBits) :
    Shaped (unpack .binary64 b) ∧ ((unpack .binary64 b).isNaN = false →
      rungOf (unpack .binary64 b) =
        directed (Sign.ofBitVec (unpackSign b)) (b.toNat % signBit : Nat)) := by
  have hexp := toNat_unpackExponent b
  have hman := toNat_unpackMantissa b
  have hb : b.toNat < 2 * signBit := b.isLt
  have hbias : (Format.binary64.exponentBias : Int) = 1023 := by decide
  delta UnpackedFloat.unpack
  dsimp only
  by_cases hones : unpackExponent b = -1#11
  · have hfull : b.toNat / normalMantissa % 2048 = 2047 := by rw [← hexp, hones]; rfl
    rw [if_pos hones]
    by_cases hnil : unpackMantissa b = 0#52
    · have hnone : b.toNat % normalMantissa = 0 := by rw [← hman, hnil]; rfl
      rw [if_pos hnil]
      refine ⟨trivial, fun _ => congrArg (directed _) ?_⟩
      simp only [normalMantissa, signBit] at hfull hnone hb ⊢
      omega
    · rw [if_neg hnil]
      exact ⟨trivial, fun h => by cases h⟩
  · have hpart : b.toNat / normalMantissa % 2048 ≠ 2047 := fun h =>
      hones (BitVec.eq_of_toNat_eq (hexp.trans h))
    rw [if_neg hones]
    by_cases hleast : unpackExponent b = 0#11
    · have hlow : b.toNat / normalMantissa % 2048 = 0 := by rw [← hexp, hleast]; rfl
      rw [if_pos hleast]
      by_cases hnil : unpackMantissa b = 0#52
      · have hnone : b.toNat % normalMantissa = 0 := by rw [← hman, hnil]; rfl
        have hzero : b.toNat % signBit = 0 := by
          simp only [normalMantissa, signBit] at hlow hnone hb ⊢
          omega
        rw [dif_pos hnil, hzero]
        refine ⟨trivial, fun _ => ?_⟩
        cases Sign.ofBitVec (unpackSign b) <;> rfl
      · rw [dif_neg hnil]
        refine ⟨⟨?_, ?_, ?_, .inl ?_⟩, fun _ => congrArg (directed _) ?_⟩
        all_goals
          simp only [normalMantissa, signBit] at hexp hman hlow hb ⊢
          omega
    · have hhigh : b.toNat / normalMantissa % 2048 ≠ 0 := fun h =>
        hleast (BitVec.eq_of_toNat_eq (hexp.trans h))
      have hone := toNat_one_append b
      rw [if_neg hleast]
      refine ⟨⟨?_, ?_, ?_, .inr ?_⟩, fun _ => congrArg (directed _) ?_⟩
      all_goals
        simp only [normalMantissa, signBit] at hexp hone hpart hhigh hb ⊢
        omega

/-! ## Doubles compared -/

theorem rungOf_unpack {x : Float} (hx : x.isNaN = false) :
    rungOf x.toModel.unpack = rung x := by
  have hbits : x.toBits.toNat < 2 * signBit := x.toBits.toBitVec.isLt
  refine ((unpack_spec x.toModel.toBits.toBitVec).2 hx).trans ?_
  rw [ofBitVec_unpackSign]
  show directed (if x.toBits.toNat < signBit then _ else _) (x.toBits.toNat % signBit : Nat) =
    if x.toBits.toNat < signBit then (x.toBits.toNat : Int) else signBit - x.toBits.toNat
  by_cases h : x.toBits.toNat < signBit
  · rw [if_pos h, if_pos h, Nat.mod_eq_of_lt h]
    rfl
  · rw [if_neg h, if_neg h]
    simp only [directed, signBit] at h hbits ⊢
    omega

theorem compare_rung {x y : Float} (hx : x.isNaN = false) (hy : y.isNaN = false) :
    UnpackedFloat.compare x.toModel.unpack y.toModel.unpack = some (compare (rung x) (rung y)) := by
  rw [← rungOf_unpack hx, ← rungOf_unpack hy]
  exact compare_eq (unpack_spec _).1 (unpack_spec _).1 hx hy

/-- What is not a number compares with nothing. -/
theorem compare_nan {x y : Float} (h : x.isNaN = true ∨ y.isNaN = true) :
    UnpackedFloat.compare x.toModel.unpack y.toModel.unpack = none := by
  have hnan : ∀ u : UnpackedFloat, u.isNaN = true → u = .notANumber := by
    intro u hu
    cases u <;> first | rfl | cases hu
  rcases h with h | h
  · rw [hnan _ h]
    rfl
  · rw [hnan _ h]
    cases x.toModel.unpack <;> rfl

theorem lt_iff_compare {x y : Float} :
    x < y ↔ UnpackedFloat.compare x.toModel.unpack y.toModel.unpack = some .lt := by
  show decide (x.toModel.lt y.toModel = true) = true ↔ _
  rw [decide_eq_true_iff]
  exact beq_iff_eq

theorem le_iff_compare {x y : Float} :
    x ≤ y ↔ (UnpackedFloat.compare x.toModel.unpack y.toModel.unpack).any (·.isLE) = true := by
  show decide (x.toModel.le y.toModel = true) = true ↔ _
  rw [decide_eq_true_iff]
  exact .rfl

theorem lt_iff {x y : Float} (hx : x.isNaN = false) (hy : y.isNaN = false) :
    x < y ↔ rung x < rung y := by
  rw [lt_iff_compare, compare_rung hx hy, Option.some_inj, Int.compare_eq_lt]

theorem le_iff {x y : Float} (hx : x.isNaN = false) (hy : y.isNaN = false) :
    x ≤ y ↔ rung x ≤ rung y := by
  rw [le_iff_compare, compare_rung hx hy]
  exact Int.isLE_compare

theorem not_le_of_nan {x y : Float} (h : x.isNaN = true ∨ y.isNaN = true) : ¬ x ≤ y := by
  rw [le_iff_compare, compare_nan h]
  decide

theorem isNaN_of_lt {x y : Float} (h : x < y) : x.isNaN = false ∧ y.isNaN = false := by
  have hnone : ¬ (x.isNaN = true ∨ y.isNaN = true) := fun hnan => by
    rw [lt_iff_compare, compare_nan hnan] at h
    cases h
  rwa [not_or, Bool.not_eq_true, Bool.not_eq_true] at hnone

theorem isNaN_of_le {x y : Float} (h : x ≤ y) : x.isNaN = false ∧ y.isNaN = false := by
  have hnone : ¬ (x.isNaN = true ∨ y.isNaN = true) := fun hnan => not_le_of_nan hnan h
  rwa [not_or, Bool.not_eq_true, Bool.not_eq_true] at hnone

theorem lt_irrefl (x : Float) : ¬ x < x := by
  intro h
  obtain ⟨hx, -⟩ := isNaN_of_lt h
  exact Int.lt_irrefl _ ((lt_iff hx hx).1 h)

theorem le_of_lt {x y : Float} (h : x < y) : x ≤ y := by
  obtain ⟨hx, hy⟩ := isNaN_of_lt h
  exact (le_iff hx hy).2 (Int.le_of_lt ((lt_iff hx hy).1 h))

theorem le_trans {x y z : Float} (hxy : x ≤ y) (hyz : y ≤ z) : x ≤ z := by
  obtain ⟨hx, hy⟩ := isNaN_of_le hxy
  have hz := (isNaN_of_le hyz).2
  exact (le_iff hx hz).2 (Int.le_trans ((le_iff hx hy).1 hxy) ((le_iff hy hz).1 hyz))

theorem lt_of_le_of_lt {x y z : Float} (hxy : x ≤ y) (hyz : y < z) : x < z := by
  obtain ⟨hx, hy⟩ := isNaN_of_le hxy
  have hz := (isNaN_of_lt hyz).2
  exact (lt_iff hx hz).2 (Int.lt_of_le_of_lt ((le_iff hx hy).1 hxy) ((lt_iff hy hz).1 hyz))

theorem lt_of_lt_of_le {x y z : Float} (hxy : x < y) (hyz : y ≤ z) : x < z := by
  obtain ⟨hx, hy⟩ := isNaN_of_lt hxy
  have hz := (isNaN_of_le hyz).2
  exact (lt_iff hx hz).2 (Int.lt_of_lt_of_le ((lt_iff hx hy).1 hxy) ((le_iff hy hz).1 hyz))

/-- Of two numbers one is at most the other, or more. -/
theorem lt_of_not_le {x y : Float} (hx : x.isNaN = false) (hy : y.isNaN = false)
    (h : ¬ x ≤ y) : y < x := by
  rw [le_iff hx hy, Int.not_le] at h
  exact (lt_iff hy hx).2 h

/-! ## The total order -/

/-- What is less comes first in the total order. -/
theorem orderKey_lt_of_lt {x y : Float} (h : x < y) : orderKey x < orderKey y := by
  obtain ⟨hx, hy⟩ := isNaN_of_lt h
  have hxb : x.toBits.toNat < 2 * signBit := x.toBits.toBitVec.isLt
  have hyb : y.toBits.toNat < 2 * signBit := y.toBits.toBitVec.isLt
  rw [lt_iff hx hy, rung, rung] at h
  rw [orderKey, orderKey]
  by_cases hxs : x.toBits.toNat < signBit <;> by_cases hys : y.toBits.toNat < signBit <;>
    simp only [hxs, hys, if_true, if_false] at h ⊢ <;>
    simp only [signBit, UInt64.size] at hxs hys hxb hyb h ⊢ <;>
    omega

/-- Different doubles have different places in the total order. -/
theorem orderKey_injective {x y : Float} (h : orderKey x = orderKey y) : x = y := by
  have hxb : x.toBits.toNat < 2 * signBit := x.toBits.toBitVec.isLt
  have hyb : y.toBits.toNat < 2 * signBit := y.toBits.toBitVec.isLt
  have hbits : x.toBits.toNat = y.toBits.toNat := by
    rw [orderKey, orderKey] at h
    split at h <;> split at h <;> simp only [signBit, UInt64.size] at * <;> omega
  obtain ⟨⟨bits, _⟩⟩ := x
  obtain ⟨⟨bits', _⟩⟩ := y
  obtain rfl : bits = bits' := UInt64.toNat_inj.1 hbits
  rfl

end Hailing.Decimal
