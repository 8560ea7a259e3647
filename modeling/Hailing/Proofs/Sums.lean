import Mathlib.Algebra.Order.Field.Rat
import Mathlib.Tactic.Positivity
import Mathlib.Algebra.Order.Field.Power
import Mathlib.Tactic.Ring
import Hailing.Proofs.Doubles

/-!
# Sums of doubles

What a double is worth is its mantissa times a power of two, and a sum of two of
them is that of their values, rounded. Positive doubles are followed here through
the addition: the mantissas are added at the smaller exponent, the sum is cut to
53 places, and what was cut off decides whether the rest is rounded up.

Of a sum `x + s` only its place beside `x` is of interest. It is never below `x`,
as rounding down leaves the mantissa of `x` whole (`Holds.rung_add`), so a step
either leads on from `x` or is lost beside it altogether (`lt_add_or_add_eq`). It
is not lost if it is worth more than half of the last place of `x`, and for that
it is enough that a double above `x` is at most 2 ^ 53 times the step (`lt_add`).

The places that are cut off are known to the rounding by two bits only. They say
all that is needed, that is, whether less than half, half, or more was cut off
(`Cut`).
-/

namespace Hailing.Decimal

open Float.Model (Format UnpackedFloat totalExponent)
open Float.Model.UnpackedFloat (Accuracy ExtendedMantissa Sign pack packComponents unpack
  unpackExponent unpackMantissa)

/-! ## Mantissas cut short -/

/-- What two bits keep of the places that are cut off: whether these are worth one half at
least, and whether they are worth anything beside that. -/
structure Cut (m n : Nat) (em : ExtendedMantissa) : Prop where
  mantissa : em.mantissa = m / 2 ^ n
  half : em.roundBit = true ↔ 2 ^ n ≤ 2 * (m % 2 ^ n)
  rest : em.stickyBit = true ↔ 2 * (m % 2 ^ n) % 2 ^ n ≠ 0

theorem Cut.shiftRightOne {m n : Nat} {em : ExtendedMantissa} (h : Cut m n em) :
    Cut m (n + 1) em.shiftRightOne := by
  have hparts : m % 2 ^ (n + 1) = m % 2 ^ n + 2 ^ n * (m / 2 ^ n % 2) := Nat.mod_pow_succ
  have hlow : m % 2 ^ n < 2 ^ n := Nat.mod_lt _ (Nat.two_pow_pos n)
  refine ⟨?_, ?_, ?_⟩
  · show em.mantissa / 2 = _
    rw [h.mantissa, Nat.div_div_eq_div_mul, Nat.pow_succ]
  · show (em.mantissa % 2 != 0) = true ↔ _
    rw [h.mantissa, hparts, Nat.pow_succ, bne_iff_ne]
    rcases Nat.mod_two_eq_zero_or_one (m / 2 ^ n) with hbit | hbit <;> rw [hbit] <;> omega
  · show (em.roundBit || em.stickyBit) = true ↔ _
    rw [Bool.or_eq_true, h.half, h.rest, hparts, Nat.pow_succ]
    have hany : 2 ^ n ≤ 2 * (m % 2 ^ n) ∨ 2 * (m % 2 ^ n) % 2 ^ n ≠ 0 ↔ m % 2 ^ n ≠ 0 := by
      rcases Nat.lt_or_ge (2 * (m % 2 ^ n)) (2 ^ n) with hlt | hge
      · rw [Nat.mod_eq_of_lt hlt]
        omega
      · exact ⟨fun _ => by omega, fun _ => .inl hge⟩
    have hdouble : 2 * (m % 2 ^ n + 2 ^ n * (m / 2 ^ n % 2)) % (2 ^ n * 2) = 2 * (m % 2 ^ n) := by
      rw [show 2 * (m % 2 ^ n + 2 ^ n * (m / 2 ^ n % 2)) =
        2 * (m % 2 ^ n) + 2 ^ n * 2 * (m / 2 ^ n % 2) by ring, Nat.add_mul_mod_self_left]
      exact Nat.mod_eq_of_lt (by omega)
    rw [hany, hdouble]
    omega

theorem cut_shiftRight (m n : Nat) :
    Cut m n (ExtendedMantissa.ofMantissaAndAccuracy m .exact >>> n) := by
  show Cut m n (Nat.repeat ExtendedMantissa.shiftRightOne n _)
  induction n with
  | zero => exact ⟨by simp [Nat.repeat, ExtendedMantissa.ofMantissaAndAccuracy],
      by simp [Nat.repeat, ExtendedMantissa.ofMantissaAndAccuracy, Nat.mod_one],
      by simp [Nat.repeat, ExtendedMantissa.ofMantissaAndAccuracy, Nat.mod_one]⟩
  | succ n ih => exact ih.shiftRightOne

/-- A mantissa is rounded down or up, and up if more than half is cut off. -/
theorem Cut.roundedMantissa {m n : Nat} {em : ExtendedMantissa} (h : Cut m n em) :
    m / 2 ^ n ≤ em.roundedMantissa ∧ em.roundedMantissa ≤ m / 2 ^ n + 1 ∧
      (2 ^ n < 2 * (m % 2 ^ n) → em.roundedMantissa = m / 2 ^ n + 1) := by
  have hlow : m % 2 ^ n < 2 ^ n := Nat.mod_lt _ (Nat.two_pow_pos n)
  have hmore : 2 ^ n < 2 * (m % 2 ^ n) → em.roundBit = true ∧ em.stickyBit = true := by
    intro hgt
    have hover : 2 * (m % 2 ^ n) % 2 ^ n = 2 * (m % 2 ^ n) - 2 ^ n :=
      (Nat.mod_eq_sub_mod hgt.le).trans (Nat.mod_eq_of_lt (by omega))
    exact ⟨h.half.2 hgt.le, h.rest.2 (by omega)⟩
  obtain ⟨mantissa, half, rest⟩ := em
  obtain rfl : mantissa = m / 2 ^ n := h.mantissa
  have hparity := Nat.mod_lt (m / 2 ^ n) Nat.zero_lt_two
  show _ ≤ Accuracy.roundToNearestEven _ (ExtendedMantissa.accuracy _) ∧ _
  cases half with
  | true =>
      cases rest with
      | true => exact ⟨Nat.le_succ _, Nat.le_refl _, fun _ => rfl⟩
      | false =>
          refine ⟨Nat.le_add_right _ _, Nat.add_le_add_left (Nat.le_of_lt_succ hparity) _,
            fun hgt => ?_⟩
          cases (hmore hgt).2
  | false =>
      have hdown : Accuracy.roundToNearestEven (m / 2 ^ n)
          (ExtendedMantissa.accuracy ⟨m / 2 ^ n, false, rest⟩) = m / 2 ^ n := by
        cases rest <;> rfl
      exact ⟨hdown.ge, hdown.le.trans (Nat.le_succ _), fun hgt => by cases (hmore hgt).1⟩

/-! ## Rounding -/

/-- The exponent at which a number of the size of `m * 2 ^ e` is kept. -/
def keptExponent (m : Nat) (e : Int) : Int := max (m.log2 + 1 + e - 53) leastExponent

theorem targetExponent_eq (m : Nat) (e : Int) :
    Format.binary64.targetExponent (totalExponent m e) = keptExponent m e := rfl

/-- What is left of a mantissa at the exponent at which it is kept is a mantissa in shape. -/
theorem kept_shaped {m : Nat} {e : Int} (hm : 0 < m) (he : e ≤ keptExponent m e) :
    m / 2 ^ (keptExponent m e - e).toNat < 2 * normalMantissa ∧
      (keptExponent m e = leastExponent ∨
        normalMantissa ≤ m / 2 ^ (keptExponent m e - e).toNat) := by
  obtain ⟨n, hn⟩ : ∃ n : Nat, keptExponent m e = e + n := ⟨(keptExponent m e - e).toNat, by omega⟩
  have hshift : (keptExponent m e - e).toNat = n := by omega
  have hmost : m < 2 ^ (m.log2 + 1) := Nat.lt_log2_self
  have hleast : 2 ^ m.log2 ≤ m := Nat.log2_self_le (Nat.ne_of_gt hm)
  rw [hshift]
  unfold keptExponent leastExponent at hn
  constructor
  · have hbits : m.log2 + 1 ≤ 53 + n := by omega
    rw [Nat.div_lt_iff_lt_mul (Nat.two_pow_pos n)]
    calc m < 2 ^ (m.log2 + 1) := hmost
      _ ≤ 2 ^ (53 + n) := Nat.pow_le_pow_right Nat.zero_lt_two hbits
      _ = 2 * normalMantissa * 2 ^ n := Nat.pow_add 2 53 n
  · rcases Int.le_total (m.log2 + 1 + e - 53) leastExponent with hlow | hhigh
    · exact .inl (max_eq_right hlow)
    · refine .inr ((Nat.le_div_iff_mul_le (Nat.two_pow_pos n)).2 ?_)
      have hbits : m.log2 = 52 + n := by
        unfold leastExponent at hhigh
        omega
      calc normalMantissa * 2 ^ n = 2 ^ (52 + n) := (Nat.pow_add 2 52 n).symm
        _ ≤ m := hbits ▸ hleast

/-- A mantissa and its exponent after the places are cut off that are not kept. -/
def shifted (m : Nat) (e : Int) : ExtendedMantissa × Int :=
  (ExtendedMantissa.ofMantissaAndAccuracy m .exact >>> (keptExponent m e - e).toNat,
    e + (keptExponent m e - e).toNat)

theorem cut_shifted (m : Nat) (e : Int) : Cut m (keptExponent m e - e).toNat (shifted m e).1 :=
  cut_shiftRight m _

theorem round_eq {m : Nat} {e : Int} (he : e ≤ keptExponent m e) :
    UnpackedFloat.round .binary64 .positive m e =
      let r := (shifted m e).1.roundedMantissa
      let final := shifted r (shifted m e).2
      if h : final.1.mantissa = 0 then .zero .positive
      else .finite .positive final.1.mantissa final.2 (Nat.pos_of_ne_zero h) := by
  have hnone : (e - keptExponent m e).toNat = 0 := by omega
  unfold UnpackedFloat.round
  rw [targetExponent_eq]
  unfold UnpackedFloat.decreaseExponent
  dsimp only
  rw [hnone, Nat.shiftLeft_zero, Int.ofNat_zero, Int.sub_zero]
  rfl

/-- A mantissa in shape is kept as it is, and one that has grown out of its shape by rounding
goes over to the next exponent. The place in the order of doubles is the same. -/
theorem shifted_rounded {r : Nat} {t : Int} (ht : leastExponent ≤ t) (hr : 0 < r)
    (hmost : r ≤ 2 * normalMantissa) (hfit : t = leastExponent ∨ normalMantissa ≤ r) :
    ∃ m e, (shifted r t).1.mantissa = m ∧ (shifted r t).2 = e ∧
      0 < m ∧ m < 2 * normalMantissa ∧ leastExponent ≤ e ∧
      (e = leastExponent ∨ normalMantissa ≤ m) ∧
      (e + 1074) * normalMantissa + m = (t + 1074) * normalMantissa + r := by
  have hcut := (cut_shiftRight r (keptExponent r t - t).toNat).mantissa
  rcases Nat.lt_or_eq_of_le hmost with hlt | rfl
  · have hlog : r.log2 < 53 := (Nat.log2_lt (Nat.ne_of_gt hr)).2 hlt
    have hnone : (keptExponent r t - t).toNat = 0 := by
      unfold keptExponent
      omega
    rw [hnone, Nat.pow_zero, Nat.div_one] at hcut
    refine ⟨r, t, ?_, ?_, hr, hlt, ht, hfit, rfl⟩
    · rw [shifted, hnone]
      exact hcut
    · rw [shifted, hnone]
      exact Int.add_zero t
  -- Rounding up has carried through the whole mantissa, which is now one place too long.
  · have hone : (keptExponent (2 * normalMantissa) t - t).toNat = 1 := by
      have hlog : (2 * normalMantissa).log2 = 53 := by decide
      unfold keptExponent
      rw [hlog]
      unfold leastExponent at ht ⊢
      omega
    rw [hone, Nat.pow_one] at hcut
    refine ⟨normalMantissa, t + 1, ?_, ?_, by decide, by decide, ?_, .inr (Nat.le_refl _), ?_⟩
    · rw [shifted, hone]
      exact hcut
    · rw [shifted, hone]
      rfl
    · omega
    · push_cast
      ring

/-! ## Packing -/

theorem toNat_packComponents (exponent : BitVec 11) (mantissa : BitVec 52) :
    (packComponents .binary64 .positive exponent mantissa).toNat =
      exponent.toNat * normalMantissa + mantissa.toNat := by
  show ((0#1 ++ exponent) ++ mantissa).toNat = _
  rw [BitVec.toNat_append, ← Nat.shiftLeft_add_eq_or_of_lt mantissa.isLt, BitVec.toNat_append,
    ← Nat.shiftLeft_add_eq_or_of_lt exponent.isLt, Nat.shiftLeft_eq, Nat.shiftLeft_eq]
  show (0 * 2 ^ 11 + exponent.toNat) * 2 ^ 52 + _ = _
  rw [Nat.zero_mul, Nat.zero_add]
  rfl

/-- A positive double in shape is packed at its place, and as infinity if it is too large. -/
theorem toNat_pack {m : Nat} {e : Int} {h : 0 < m} (hm : m < 2 * normalMantissa)
    (he : leastExponent ≤ e) (hfit : e = leastExponent ∨ normalMantissa ≤ m) :
    ((pack .binary64 (.finite .positive m e h)).toNat : Int) =
      min ((e + 1074) * normalMantissa + m) (2047 * normalMantissa) := by
  unfold pack
  dsimp only
  have hbias : (e + Format.binary64.exponentBias + Format.binary64.mantissaBitsWithoutImplicit) =
      e + 1075 := by
    show e + (1023 : Nat) + (52 : Nat) = _
    omega
  rw [hbias]
  unfold leastExponent at he hfit
  split
  · next hlarge =>
      have hlarge : 2048 ≤ (e + 1075).toNat + 1 := hlarge
      show ((packComponents .binary64 .positive (-1#11) 0#52).toNat : Int) = _
      rw [toNat_packComponents]
      have hones : (-1#11).toNat = 2047 := by decide
      simp only [normalMantissa] at hfit ⊢
      rw [hones]
      show ((2047 * 0x10000000000000 + 0 : Nat) : Int) = _
      omega
  · next hsmall =>
      have hsmall : ¬ 2048 ≤ (e + 1075).toNat + 1 := hsmall
      have hlow : (BitVec.ofNat 52 m).toNat = m % normalMantissa := BitVec.toNat_ofNat m 52
      split
      · next hlog =>
          have hlog : m.log2 + 1 = 53 := hlog
          have hnormal : normalMantissa ≤ m := by
            have hleast := Nat.log2_self_le (Nat.ne_of_gt h)
            have hbits : m.log2 = 52 := by omega
            rw [hbits] at hleast
            exact hleast
          have hexp : (BitVec.ofNat 11 (e + 1075).toNat).toNat = (e + 1075).toNat := by
            rw [BitVec.toNat_ofNat]
            exact Nat.mod_eq_of_lt (by omega)
          refine (congrArg Nat.cast
            (toNat_packComponents (BitVec.ofNat 11 _) (BitVec.ofNat 52 m))).trans ?_
          rw [hexp, hlow]
          simp only [normalMantissa] at hm hnormal ⊢
          omega
      · next hlog =>
          have hlog : m.log2 + 1 ≠ 53 := hlog
          have hless : m < normalMantissa := by
            have hbits : m.log2 < 53 := (Nat.log2_lt (Nat.ne_of_gt h)).2 hm
            exact (Nat.log2_lt (Nat.ne_of_gt h)).1 (by omega : m.log2 < 52)
          refine (congrArg Nat.cast (toNat_packComponents 0#11 (BitVec.ofNat 52 m))).trans ?_
          have hzero : (0#11).toNat = 0 := rfl
          rw [hzero, hlow]
          simp only [normalMantissa] at hm hfit hless ⊢
          omega

/-- A positive number is rounded and packed at the place of its rounded mantissa, and as
infinity if it is too large. -/
theorem toNat_pack_round {m : Nat} {e : Int} (he : e ≤ keptExponent m e) (hm : 0 < m)
    (hkept : 0 < m / 2 ^ (keptExponent m e - e).toNat) :
    ((pack .binary64 (UnpackedFloat.round .binary64 .positive m e)).toNat : Int) =
      min ((keptExponent m e + 1074) * normalMantissa + (shifted m e).1.roundedMantissa)
        (2047 * normalMantissa) := by
  obtain ⟨hlt, hfit⟩ := kept_shaped hm he
  obtain ⟨hdown, hup, -⟩ := (cut_shifted m e).roundedMantissa
  have hleast : leastExponent ≤ keptExponent m e := le_max_right _ _
  have hexp : (shifted m e).2 = keptExponent m e := by
    show e + ((keptExponent m e - e).toNat : Int) = _
    omega
  obtain ⟨m', e', hm', he', hpos, hmost, hleast', hfit', hplace⟩ :=
    shifted_rounded hleast (Nat.lt_of_lt_of_le hkept hdown) (Nat.le_trans hup hlt)
      (hfit.imp_right fun h => h.trans hdown)
  rw [← hplace, round_eq he]
  dsimp only
  rw [hexp, dif_neg (by rw [hm']; exact Nat.ne_of_gt hpos)]
  subst hm' he'
  exact toNat_pack hmost hleast' hfit'

/-! ## Positive doubles -/

/-- The double is the positive number `m * 2 ^ e`. -/
def Holds (x : Float) (m : Nat) (e : Int) : Prop :=
  ∃ h : 0 < m, x.toModel.unpack = .finite .positive m e h

theorem rung_zero : rung 0.0 = 0 := by decide +kernel

theorem rung_of_pos {x : Float} (h : 0 < rung x) :
    x.toBits.toNat < signBit ∧ rung x = x.toBits.toNat := by
  rw [rung] at h ⊢
  split at h
  · next hlow => exact ⟨hlow, if_pos hlow⟩
  · omega

theorem ne_infinity_of_isFinite {x : Float} (h : x.isFinite = true) :
    x.toModel.unpack ≠ .infinity .positive := by
  intro hx
  have hfin : x.toModel.unpack.isFinite = true := h
  rw [hx] at hfin
  cases hfin

theorem ne_infinity_of_lt {x y : Float} (h : x < y) : x.toModel.unpack ≠ .infinity .positive := by
  intro hx
  rw [lt_iff_compare, hx] at h
  cases hy : y.toModel.unpack with
  | infinity sign =>
      rw [hy] at h
      cases sign <;> cases h
  | notANumber | zero | finite =>
      rw [hy] at h
      cases h

theorem exists_holds {x : Float} (hp : 0.0 < x) (hfin : x.toModel.unpack ≠ .infinity .positive) :
    ∃ m e, Holds x m e := by
  obtain ⟨hzero, hnan⟩ := isNaN_of_lt hp
  have hnan' : x.toModel.unpack.isNaN = false := hnan
  have hshape : Shaped x.toModel.unpack := (unpack_spec x.toModel.toBits.toBitVec).1
  rw [lt_iff hzero hnan, rung_zero, ← rungOf_unpack hnan] at hp
  cases hx : x.toModel.unpack with
  | notANumber =>
      rw [hx] at hnan'
      cases hnan'
  | zero =>
      rw [hx] at hp
      exact absurd hp (Int.lt_irrefl 0)
  | infinity sign =>
      rw [hx] at hp hfin
      cases sign with
      | positive => exact absurd rfl hfin
      | negative => exact absurd hp (by decide)
  | finite sign m e h =>
      rw [hx] at hp hshape
      cases sign with
      | positive => exact ⟨m, e, h, hx⟩
      | negative => exact absurd hshape.bounds.2 (Int.not_lt.2 (Int.le_of_lt hp))

namespace Holds

variable {x s : Float} {m m₁ m₂ : Nat} {e e₁ e₂ : Int}

theorem shaped (h : Holds x m e) :
    m < 2 * normalMantissa ∧ leastExponent ≤ e ∧ e ≤ 971 ∧
      (e = leastExponent ∨ normalMantissa ≤ m) := by
  obtain ⟨hpos, hx⟩ := h
  have hshape := (unpack_spec x.toModel.toBits.toBitVec).1
  rw [show UnpackedFloat.unpack .binary64 x.toModel.toBits.toBitVec = _ from hx]
    at hshape
  exact hshape

theorem isNaN (h : Holds x m e) : x.isNaN = false := by
  obtain ⟨hpos, hx⟩ := h
  show x.toModel.unpack.isNaN = false
  rw [hx]
  rfl

theorem rung_eq (h : Holds x m e) : rung x = (e + 1074) * normalMantissa + m := by
  rw [← rungOf_unpack h.isNaN]
  obtain ⟨hpos, hx⟩ := h
  rw [hx]
  rfl

theorem rung_pos (h : Holds x m e) : 0 < rung x := by
  have hpos : 0 < m := h.1
  obtain ⟨-, hleast, -, -⟩ := h.shaped
  rw [h.rung_eq]
  simp only [leastExponent, normalMantissa] at *
  omega

end Holds

/-- The mantissa of a sum before it is rounded, at the smaller exponent. -/
def sumMantissa (m₁ : Nat) (e₁ : Int) (m₂ : Nat) (e₂ : Int) : Nat :=
  2 ^ (e₁ - min e₁ e₂).toNat * m₁ + m₂ * 2 ^ (e₂ - min e₁ e₂).toNat

theorem Holds.add_eq {x s : Float} {m₁ m₂ : Nat} {e₁ e₂ : Int} (hx : Holds x m₁ e₁)
    (hs : Holds s m₂ e₂) :
    (x + s).toModel = .pack (UnpackedFloat.round .binary64 .positive
      (sumMantissa m₁ e₁ m₂ e₂) (min e₁ e₂)) := by
  obtain ⟨hpos₁, hx⟩ := hx
  obtain ⟨hpos₂, hs⟩ := hs
  show Float.Model.pack (UnpackedFloat.add .binary64 x.toModel.unpack
    s.toModel.unpack) = _
  rw [hx, hs]
  have hsum : 0 < sumMantissa m₁ e₁ m₂ e₂ :=
    Nat.add_pos_left (Nat.mul_pos (Nat.two_pow_pos _) hpos₁) _
  have hexact : ((m₁ <<< (e₁ - min e₁ e₂).toNat : Nat) : Int) +
      ((m₂ <<< (e₂ - min e₁ e₂).toNat : Nat) : Int) = sumMantissa m₁ e₁ m₂ e₂ := by
    rw [Nat.shiftLeft_eq, Nat.shiftLeft_eq, Nat.mul_comm m₁]
    exact (Int.natCast_add _ _).symm
  show Float.Model.pack (UnpackedFloat.normalize .binary64
    (((m₁ <<< (e₁ - min e₁ e₂).toNat : Nat) : Int) +
      ((m₂ <<< (e₂ - min e₁ e₂).toNat : Nat) : Int)) (min e₁ e₂) .positive) = _
  rw [hexact, UnpackedFloat.normalize, Int.compare_eq_gt.2 (Int.natCast_pos.2 hsum)]
  rfl

/-- What is not a number lies beyond infinity. -/
theorem isNaN_unpack_of_le {b : BitVec Format.binary64.numBits}
    (h : b.toNat ≤ 2047 * normalMantissa) : (unpack .binary64 b).isNaN = false := by
  have hexp := toNat_unpackExponent b
  have hman := toNat_unpackMantissa b
  delta unpack
  dsimp only
  by_cases hones : unpackExponent b = -1#11
  · have hfull : b.toNat / normalMantissa % 2048 = 2047 := by rw [← hexp, hones]; rfl
    have hnil : unpackMantissa b = 0#52 := by
      refine BitVec.eq_of_toNat_eq (hman.trans ?_)
      show _ = 0
      simp only [normalMantissa] at h hfull ⊢
      omega
    rw [if_pos hones, if_pos hnil]
    rfl
  · rw [if_neg hones]
    by_cases hleast : unpackExponent b = 0#11
    · rw [if_pos hleast]
      by_cases hnil : unpackMantissa b = 0#52
      · rw [dif_pos hnil]
        rfl
      · rw [dif_neg hnil]
        rfl
    · rw [if_neg hleast]
      rfl

theorem isNaN_of_toBits_le {x : Float} (h : x.toBits.toNat ≤ 2047 * normalMantissa) :
    x.isNaN = false :=
  isNaN_unpack_of_le h

/-- The first number does not lie above the exponent of the sum. -/
theorem Holds.le_keptExponent {x : Float} {m₁ m₂ : Nat} {e₁ e₂ : Int} (hx : Holds x m₁ e₁) :
    e₁ ≤ keptExponent (sumMantissa m₁ e₁ m₂ e₂) (min e₁ e₂) := by
  obtain ⟨-, -, -, hfit⟩ := hx.shaped
  unfold keptExponent
  rcases hfit with hleast | hnormal
  · exact hleast ▸ le_max_right _ _
  · refine Int.le_trans ?_ (le_max_left _ _)
    have hsum : 2 ^ ((e₁ - min e₁ e₂).toNat + 52) ≤ sumMantissa m₁ e₁ m₂ e₂ := by
      rw [Nat.pow_add]
      exact (Nat.mul_le_mul_left _ hnormal).trans (Nat.le_add_right _ _)
    have hpos : sumMantissa m₁ e₁ m₂ e₂ ≠ 0 :=
      Nat.ne_of_gt (Nat.lt_of_lt_of_le (Nat.two_pow_pos _) hsum)
    have hlog := (Nat.le_log2 hpos).2 hsum
    omega

/-- Something is added to a mantissa. Either the sum is kept at a larger exponent, or what is
kept of it is the mantissa and what is kept of the addend. -/
theorem cut_sum {m₁ added m : Nat} {e₁ e : Int} (hm : m = 2 ^ (e₁ - e).toNat * m₁ + added)
    (hm₁ : 0 < m₁) (hleast : leastExponent ≤ e₁) (he : e ≤ e₁) (ht : e₁ ≤ keptExponent m e) :
    e₁ < keptExponent m e ∧ normalMantissa ≤ m / 2 ^ (keptExponent m e - e).toNat ∨
      keptExponent m e = e₁ ∧ m / 2 ^ (e₁ - e).toNat = m₁ + added / 2 ^ (e₁ - e).toNat ∧
        m % 2 ^ (e₁ - e).toNat = added % 2 ^ (e₁ - e).toNat := by
  have hpos : 0 < m := hm ▸ Nat.add_pos_left (Nat.mul_pos (Nat.two_pow_pos _) hm₁) _
  rcases Int.lt_or_eq_of_le ht with hlt | heq
  · exact .inl ⟨hlt, (kept_shaped hpos (Int.le_trans he ht)).2.resolve_left fun hkept =>
      absurd (hkept ▸ hlt) (Int.not_lt.2 hleast)⟩
  · refine .inr ⟨heq.symm, ?_, ?_⟩
    · rw [hm]
      exact Nat.mul_add_div (Nat.two_pow_pos _) m₁ added
    · rw [hm]
      exact Nat.mul_add_mod _ m₁ added

/-- Then the sum, rounded to `r`, is not below the mantissa, and above it if more than half a
step is added. -/
theorem rounded_ge {m₁ added m r : Nat} {e₁ e : Int} (hm : m = 2 ^ (e₁ - e).toNat * m₁ + added)
    (hm₁ : 0 < m₁) (hmost : m₁ < 2 * normalMantissa) (hleast : leastExponent ≤ e₁) (he : e ≤ e₁)
    (ht : e₁ ≤ keptExponent m e) (hdown : m / 2 ^ (keptExponent m e - e).toNat ≤ r)
    (hup : 2 ^ (keptExponent m e - e).toNat < 2 * (m % 2 ^ (keptExponent m e - e).toNat) →
      r = m / 2 ^ (keptExponent m e - e).toNat + 1) :
    (e₁ + 1074) * normalMantissa + m₁ ≤ (keptExponent m e + 1074) * normalMantissa + r ∧
      (2 ^ (e₁ - e).toNat < 2 * added →
        (e₁ + 1074) * normalMantissa + m₁ < (keptExponent m e + 1074) * normalMantissa + r) := by
  rcases cut_sum hm hm₁ hleast he ht with ⟨hlarger, hnormal⟩ | ⟨hsame, hdiv, hmod⟩
  -- One exponent further up, even the least mantissa in shape is beyond all of this one's.
  · have hr : normalMantissa ≤ r := hnormal.trans hdown
    have hmore : (e₁ + 1074) * normalMantissa + m₁ <
        (keptExponent m e + 1074) * normalMantissa + r := by
      simp only [normalMantissa] at hmost hr ⊢
      omega
    exact ⟨Int.le_of_lt hmore, fun _ => hmore⟩
  · rw [hsame, hdiv] at hdown hup
    rw [hmod] at hup
    rw [hsame]
    have hleast : m₁ ≤ r := (Nat.le_add_right _ _).trans hdown
    refine ⟨by omega, fun hhalf => ?_⟩
    -- Less than a whole step counts only by being rounded up, which more than half is.
    have hr : m₁ < r := by
      rcases Nat.lt_or_ge added (2 ^ (e₁ - e).toNat) with hless | hmany
      · rw [Nat.mod_eq_of_lt hless] at hup
        exact (hup hhalf) ▸ Nat.lt_succ_of_le (Nat.le_add_right _ _)
      · have hone : 1 ≤ added / 2 ^ (e₁ - e).toNat :=
          (Nat.one_le_div_iff (Nat.two_pow_pos _)).2 hmany
        exact Nat.lt_of_lt_of_le (Nat.lt_add_of_pos_right hone) hdown
    omega

/-- A sum of positive doubles is not less than the first one, and it is more if the second
one is more than half a step of the first one's mantissa. -/
theorem Holds.rung_add {x s : Float} {m₁ m₂ : Nat} {e₁ e₂ : Int} (hx : Holds x m₁ e₁)
    (hs : Holds s m₂ e₂) :
    (x + s).isNaN = false ∧ rung x ≤ rung (x + s) ∧
      (2 ^ (e₁ - min e₁ e₂).toNat < 2 * (m₂ * 2 ^ (e₂ - min e₁ e₂).toNat) →
        rung x < rung (x + s)) := by
  have hbound : e₁ ≤ keptExponent (sumMantissa m₁ e₁ m₂ e₂) (min e₁ e₂) := hx.le_keptExponent
  have hsum : sumMantissa m₁ e₁ m₂ e₂ =
    2 ^ (e₁ - min e₁ e₂).toNat * m₁ + m₂ * 2 ^ (e₂ - min e₁ e₂).toNat := rfl
  have hlow : min e₁ e₂ ≤ e₁ := min_le_left _ _
  have hm₁ : 0 < m₁ := hx.1
  obtain ⟨hmost, hleast, hlargest, hfit⟩ := hx.shaped
  have hpos : 0 < sumMantissa m₁ e₁ m₂ e₂ :=
    Nat.add_pos_left (Nat.mul_pos (Nat.two_pow_pos _) hm₁) _
  have hkept : 0 < sumMantissa m₁ e₁ m₂ e₂ /
      2 ^ (keptExponent (sumMantissa m₁ e₁ m₂ e₂) (min e₁ e₂) - min e₁ e₂).toNat := by
    rcases cut_sum hsum hm₁ hleast hlow hbound with ⟨-, hnormal⟩ | ⟨hsame, hdiv, -⟩
    · exact Nat.lt_of_lt_of_le (by decide) hnormal
    · rw [hsame, hdiv]
      exact Nat.add_pos_left hm₁ _
  obtain ⟨hdown, -, hup⟩ := (cut_shifted (sumMantissa m₁ e₁ m₂ e₂) (min e₁ e₂)).roundedMantissa
  obtain ⟨hge, hgt⟩ := rounded_ge hsum hm₁ hmost hleast hlow hbound hdown hup
  have hbits := (congrArg (fun f : Float.Model => (f.toBits.toNat : Int)) (hx.add_eq hs)).trans
    (toNat_pack_round (Int.le_trans hlow hbound) hpos hkept)
  change ((x + s).toBits.toNat : Int) = _ at hbits
  have hrung : rung (x + s) = (x + s).toBits.toNat := by
    rw [rung]
    exact if_pos (by simp only [signBit, normalMantissa] at hbits ⊢; omega)
  have hinfinite : rung x < 2047 * normalMantissa := by
    rw [hx.rung_eq]
    simp only [normalMantissa] at hmost ⊢
    omega
  rw [hrung, hbits]
  rw [hx.rung_eq] at hinfinite ⊢
  refine ⟨isNaN_of_toBits_le (by omega), le_min hge (Int.le_of_lt hinfinite), fun hhalf => ?_⟩
  exact lt_min (hgt hhalf) hinfinite

/-! ## Values -/

/-- The number that a finite double stands for. -/
def Parts.value : Parts → ℚ
  | .finite negative m e => (if negative then -1 else 1) * (m * 2 ^ e)
  | _ => 0

def value (x : Float) : ℚ := (parts x).value

namespace Holds

variable {x y s : Float} {m m₁ m₂ : Nat} {e e₁ e₂ : Int}

theorem toBits_eq (h : Holds x m e) : (x.toBits.toNat : Int) = (e + 1074) * normalMantissa + m :=
  (rung_of_pos h.rung_pos).2.symm.trans h.rung_eq

theorem parts_eq (h : Holds x m e) : parts x = .finite false m e := by
  have hbits := h.toBits_eq
  obtain ⟨hmost, hleast, hlargest, hfit⟩ := h.shaped
  have hscale : (e = leastExponent ∧ m < normalMantissa ∧
        x.toBits.toNat / normalMantissa % 2048 = 0) ∨
      (normalMantissa ≤ m ∧ ((x.toBits.toNat / normalMantissa % 2048 : Nat) : Int) = e + 1075 ∧
        x.toBits.toNat / normalMantissa % 2048 ≠ 0 ∧
        x.toBits.toNat / normalMantissa % 2048 ≠ 2047) := by
    simp only [leastExponent, normalMantissa] at *
    omega
  have hfraction : x.toBits.toNat % normalMantissa = m % normalMantissa := by
    simp only [leastExponent, normalMantissa] at *
    omega
  have hpositive : ((x.toBits.toNat / signBit) == 1) = false := by
    simp only [leastExponent, normalMantissa, signBit] at *
    rw [beq_eq_false_iff_ne]
    omega
  rw [parts]
  simp only [hpositive, beq_iff_eq]
  rcases hscale with ⟨rfl, hless, hscale⟩ | ⟨hnormal, hscale, hne, hne'⟩
  · rw [if_neg (by omega), if_pos hscale, hfraction, Nat.mod_eq_of_lt hless]
  · rw [if_neg hne', if_neg hne, hscale, hfraction, Nat.mod_eq_sub_mod hnormal,
      Nat.mod_eq_of_lt (by omega), Nat.sub_add_cancel hnormal]
    congr 1
    omega

theorem value_eq (h : Holds x m e) : value x = m * 2 ^ e := by
  rw [value, h.parts_eq]
  exact one_mul _

/-- Positive doubles are in the order of their values. -/
theorem value_lt (hx : Holds x m₁ e₁) (hy : Holds y m₂ e₂) (h : x < y) : value x < value y := by
  rw [lt_iff hx.isNaN hy.isNaN, hx.rung_eq, hy.rung_eq] at h
  obtain ⟨hmost, hleast, -, hfit⟩ := hx.shaped
  obtain ⟨hmost', hleast', -, hfit'⟩ := hy.shaped
  rw [hx.value_eq, hy.value_eq]
  rcases Int.lt_trichotomy e₁ e₂ with hlt | rfl | hgt
  · have hnormal : normalMantissa ≤ m₂ := hfit'.resolve_left (by omega)
    calc (m₁ : ℚ) * 2 ^ e₁ < ((2 * normalMantissa : Nat) : ℚ) * 2 ^ e₁ :=
          mul_lt_mul_of_pos_right (Nat.cast_lt.2 hmost) (zpow_pos two_pos _)
      _ = normalMantissa * 2 ^ (e₁ + 1) := by
          rw [zpow_add_one₀ two_ne_zero]
          push_cast
          ring
      _ ≤ normalMantissa * 2 ^ e₂ :=
          mul_le_mul_of_nonneg_left (zpow_le_zpow_right₀ one_le_two hlt) (Nat.cast_nonneg _)
      _ ≤ m₂ * 2 ^ e₂ :=
          mul_le_mul_of_nonneg_right (Nat.cast_le.2 hnormal) (zpow_nonneg two_pos.le _)
  · exact mul_lt_mul_of_pos_right (Nat.cast_lt.2 (by omega)) (zpow_pos two_pos _)
  · simp only [normalMantissa] at *
    omega

/-- A step that is not lost beside a larger double is more than half of what the last place
of a mantissa is worth. -/
theorem lt_two_mul_value (hx : Holds x m₁ e₁) (hy : Holds y m₂ e₂) (hs : Holds s m e) (h : x < y)
    (hstep : value y ≤ 2 ^ 53 * value s) : 2 ^ e₁ < 2 * value s := by
  obtain ⟨-, -, -, hfit⟩ := hx.shaped
  rcases hfit with rfl | hnormal
  · obtain ⟨-, hleast, -, -⟩ := hs.shaped
    have hm : (1 : ℚ) ≤ m := Nat.one_le_cast.2 hs.1
    calc (2 : ℚ) ^ leastExponent ≤ 2 ^ e := zpow_le_zpow_right₀ one_le_two hleast
      _ < 2 * 2 ^ e := lt_two_mul_self (zpow_pos two_pos _)
      _ ≤ 2 * (m * 2 ^ e) :=
          mul_le_mul_of_nonneg_left (le_mul_of_one_le_left (zpow_nonneg two_pos.le _) hm) two_pos.le
      _ = 2 * value s := by rw [hs.value_eq]
  · have hlow : (2 : ℚ) ^ 52 * 2 ^ e₁ ≤ value x := by
      rw [hx.value_eq]
      exact mul_le_mul_of_nonneg_right (by exact_mod_cast hnormal) (zpow_nonneg two_pos.le _)
    have hlt : (2 : ℚ) ^ 52 * 2 ^ e₁ < 2 ^ 52 * (2 * value s) := calc
      (2 : ℚ) ^ 52 * 2 ^ e₁ ≤ value x := hlow
      _ < value y := hx.value_lt hy h
      _ ≤ 2 ^ 53 * value s := hstep
      _ = 2 ^ 52 * (2 * value s) := by ring
    exact lt_of_mul_lt_mul_left hlt (by positivity)

/-- A number times a power of two, in units of a smaller power. -/
theorem cast_mul_two_pow {a : Nat} {e low : Int} (h : low ≤ e) :
    ((a * 2 ^ (e - low).toNat : Nat) : ℚ) * 2 ^ low = a * 2 ^ e := by
  push_cast
  rw [mul_assoc, ← zpow_natCast, ← zpow_add₀ two_ne_zero, Int.toNat_of_nonneg (by omega)]
  congr 2
  omega

end Holds

/-! ## Steps -/

variable {x y s : Float}

theorem eq_of_rung (h : rung x = rung y) (hp : 0 < rung x) : x = y := by
  obtain ⟨hx, hrung⟩ := rung_of_pos hp
  obtain ⟨hy, hrung'⟩ := rung_of_pos (h ▸ hp)
  refine orderKey_injective ?_
  rw [orderKey, orderKey, if_pos hx, if_pos hy]
  omega

/-- Of two positive doubles one is less, or they are the same. -/
theorem eq_of_not_lt (hx : 0.0 < x) (hy : 0.0 < y) (hxy : ¬ x < y) (hyx : ¬ y < x) : x = y := by
  obtain ⟨hzero, hx'⟩ := isNaN_of_lt hx
  obtain ⟨-, hy'⟩ := isNaN_of_lt hy
  rw [lt_iff hzero hx', rung_zero] at hx
  rw [lt_iff hx' hy'] at hxy
  rw [lt_iff hy' hx'] at hyx
  exact eq_of_rung (by omega) hx

/-- A positive step leads on from a positive double, or is lost beside it. -/
theorem lt_add_or_add_eq (hx : 0.0 < x) (hxy : x < y) (hs : 0.0 < s) (hs' : s.isFinite = true) :
    x < x + s ∨ x + s = x := by
  obtain ⟨m₁, e₁, hx⟩ := exists_holds hx (ne_infinity_of_lt hxy)
  obtain ⟨m₂, e₂, hs⟩ := exists_holds hs (ne_infinity_of_isFinite hs')
  obtain ⟨hnan, hge, -⟩ := hx.rung_add hs
  rcases Int.lt_or_eq_of_le hge with hlt | heq
  · exact .inl ((lt_iff hx.isNaN hnan).2 hlt)
  · exact .inr (eq_of_rung heq.symm (heq ▸ hx.rung_pos))

/-- Where a step is not lost beside the larger double, it leads on from the smaller one. -/
theorem lt_add (hx : 0.0 < x) (hxy : x < y) (hy : y.isFinite = true) (hs : 0.0 < s)
    (hs' : s.isFinite = true) (hstep : value y ≤ 2 ^ 53 * value s) : x < x + s := by
  obtain ⟨m, e, hy⟩ := exists_holds (lt_of_le_of_lt (le_of_lt hx) hxy) (ne_infinity_of_isFinite hy)
  obtain ⟨m₁, e₁, hx⟩ := exists_holds hx (ne_infinity_of_lt hxy)
  obtain ⟨m₂, e₂, hs⟩ := exists_holds hs (ne_infinity_of_isFinite hs')
  obtain ⟨hnan, -, hgt⟩ := hx.rung_add hs
  rw [lt_iff hx.isNaN hnan]
  refine hgt ?_
  have hhalf := hx.lt_two_mul_value hy hs hxy hstep
  have hunit : ((2 ^ (e₁ - min e₁ e₂).toNat : Nat) : ℚ) * 2 ^ min e₁ e₂ = 2 ^ e₁ := by
    rw [← one_mul (2 ^ _ : Nat), Holds.cast_mul_two_pow (min_le_left e₁ e₂), Nat.cast_one, one_mul]
  rw [hs.value_eq, ← Holds.cast_mul_two_pow (min_le_right e₁ e₂), ← hunit, ← mul_assoc] at hhalf
  have hscaled := lt_of_mul_lt_mul_right hhalf (zpow_nonneg two_pos.le _)
  exact_mod_cast hscaled

end Hailing.Decimal
