import Mathlib.Logic.Function.Iterate
import Hailing.Proofs.Sums
import Hailing.Proofs.Widening

/-!
# Whether the radii come to an end

The radii of a search are reached by adding the step again and again, and each of
these sums is rounded. With settings that are in order the next radius is larger, or
else it is the same one: the step is lost beside it. Then it is lost every time
after, and the largest radius is never reached. This is the only way in which the
radii can fail to end (`Settings.radiiFrom_eq_none`), and where they do end they grow
strictly and end at the largest radius (`Settings.radiiFrom_eq_some`).

That settings are in order does not exclude a step that is lost, and nothing short of
the precision of a double does: from 2 ^ 53 a step of 1 does not lead to
2 ^ 53 + 2. It takes a largest radius of more than 2 ^ 53 times the step
(`Settings.radii_end_at_largest`).
-/

namespace Hailing

namespace Settings

open Decimal (value)

/-! ## Settings in order -/

theorem check_eq_ok {s : Settings} :
    s.check = .ok () ↔ (∀ entry ∈ s.positives, isPositive entry.2 = true) ∧
      ¬ s.largestRadius < s.firstRadius ∧ s.sweepInterval ≠ 0 := by
  unfold check
  split
  · next hsome =>
      have hrefused := List.find?_some hsome
      refine ⟨nofun, fun h => ?_⟩
      have hpositive := h.1 _ (List.mem_of_find?_eq_some hsome)
      simp [hpositive] at hrefused
  · next hnone =>
      have hpositive : ∀ entry ∈ s.positives, isPositive entry.2 = true := fun entry hmem => by
        simpa using List.find?_eq_none.1 hnone entry hmem
      split_ifs with horder hsweep
      · simp [horder]
      · simp [hsweep]
      · exact ⟨fun _ => ⟨hpositive, horder, hsweep⟩, fun _ => rfl⟩

theorem isPositive_iff {x : Float} : isPositive x = true ↔ x.isFinite = true ∧ 0.0 < x := by
  rw [isPositive, Bool.and_eq_true, decide_eq_true_iff]

/-- What settings in order say of the radii. -/
structure Graded (s : Settings) : Prop where
  first : 0.0 < s.firstRadius
  firstFinite : s.firstRadius.isFinite = true
  step : 0.0 < s.radiusStep
  stepFinite : s.radiusStep.isFinite = true
  largest : 0.0 < s.largestRadius
  largestFinite : s.largestRadius.isFinite = true
  ordered : ¬ s.largestRadius < s.firstRadius

theorem graded_of_check {s : Settings} (h : s.check = .ok ()) : s.Graded := by
  obtain ⟨hpositive, hordered, -⟩ := check_eq_ok.1 h
  simp only [positives, List.forall_mem_cons, isPositive_iff] at hpositive
  obtain ⟨⟨hfirst', hfirst⟩, ⟨hstep', hstep⟩, ⟨hlargest', hlargest⟩, -⟩ := hpositive
  exact ⟨hfirst, hfirst', hstep, hstep', hlargest, hlargest', hordered⟩

/-! ## From one radius on -/

section From

variable {step largest radius : Float}

theorem lt_next (hs : 0.0 < step) (hs' : step.isFinite = true) (hr : 0.0 < radius)
    (hbelow : radius < largest)
    (hgrows : Decimal.orderKey radius < Decimal.orderKey (radius + step)) :
    radius < radius + step := by
  refine (Decimal.lt_add_or_add_eq hr hbelow hs hs').resolve_right fun hsame => ?_
  rw [hsame] at hgrows
  exact Nat.lt_irrefl _ hgrows

/-- As long as the radii grow they are the sums, one after the other, and the first sum
that is not below the largest radius is replaced by that. -/
theorem radiiFrom_eq_some (hs : 0.0 < step) (hs' : step.isFinite = true) {radii : Radii}
    (hr : 0.0 < radius) (h : radiiFrom step largest radius = some radii) :
    radii.toList.Pairwise (· < ·) ∧ ∃ n,
      radii.toList = (List.range n).map (fun k => (· + step)^[k] radius) ++ [largest] ∧
      (∀ k < n, (· + step)^[k] radius < largest) ∧ ¬ (· + step)^[n] radius < largest := by
  induction radius using radiiFrom.induct step largest generalizing radii with
  | case1 radius hbelow hgrows ih =>
      rw [radiiFrom, if_pos hbelow, if_pos hgrows] at h
      obtain ⟨rest, hrest, rfl⟩ := Option.map_eq_some_iff.1 h
      rw [Bool.and_eq_true, decide_eq_true_eq] at hbelow
      have hnext := lt_next hs hs' hr hbelow.1 hgrows
      obtain ⟨hstrict, n, heq, hless, hover⟩ :=
        ih (Decimal.lt_of_le_of_lt (Decimal.le_of_lt hr) hnext) hrest
      refine ⟨List.pairwise_cons.2 ⟨fun r hr => ?_, hstrict⟩, n + 1, ?_, ?_, hover⟩
      · rcases (radiiFrom_increase _ _ _ hrest).2 r hr with rfl | hle
        · exact hbelow.1
        · exact Decimal.lt_of_lt_of_le hnext hle
      · show radius :: rest.toList = _
        rw [heq, List.range_succ_eq_map, List.map_cons, List.map_map]
        rfl
      · rintro (_ | k) hk
        · exact hbelow.1
        · exact hless k (Nat.lt_of_succ_lt_succ hk)
  | case2 radius hbelow hstuck =>
      rw [radiiFrom, if_pos hbelow, if_neg hstuck] at h
      cases h
  | case3 radius hover =>
      rw [radiiFrom, if_neg hover] at h
      cases h
      have hover : ¬ radius < largest := by simpa [hs] using hover
      exact ⟨List.pairwise_singleton _ _, 0, rfl, fun k hk => absurd hk (Nat.not_lt_zero k), hover⟩

/-- Without an end a step is lost below the largest radius. -/
theorem radiiFrom_eq_none (hs : 0.0 < step) (hs' : step.isFinite = true) (hr : 0.0 < radius)
    (h : radiiFrom step largest radius = none) :
    ∃ n, (∀ k ≤ n, (· + step)^[k] radius < largest) ∧
      (· + step)^[n + 1] radius = (· + step)^[n] radius := by
  induction radius using radiiFrom.induct step largest with
  | case1 radius hbelow hgrows ih =>
      rw [radiiFrom, if_pos hbelow, if_pos hgrows, Option.map_eq_none_iff] at h
      rw [Bool.and_eq_true, decide_eq_true_eq] at hbelow
      have hnext := lt_next hs hs' hr hbelow.1 hgrows
      obtain ⟨n, hless, hsame⟩ := ih (Decimal.lt_of_le_of_lt (Decimal.le_of_lt hr) hnext) h
      refine ⟨n + 1, ?_, hsame⟩
      rintro (_ | k) hk
      · exact hbelow.1
      · exact hless k (Nat.le_of_succ_le_succ hk)
  | case2 radius hbelow hstuck =>
      rw [Bool.and_eq_true, decide_eq_true_eq] at hbelow
      refine ⟨0, fun k hk => Nat.le_zero.1 hk ▸ hbelow.1, ?_⟩
      exact (Decimal.lt_add_or_add_eq hr hbelow.1 hs hs').resolve_left fun hnext =>
        hstuck (Decimal.orderKey_lt_of_lt hnext)
  | case3 radius hover =>
      rw [radiiFrom, if_neg hover] at h
      cases h

end From

/-! ## The radii of a search -/

/-- The radius after that many steps, on the way to the largest one or beyond it. -/
def reached (s : Settings) (k : Nat) : Float := (· + s.radiusStep)^[k] s.firstRadius

theorem reached_succ (s : Settings) (k : Nat) : s.reached (k + 1) = s.reached k + s.radiusStep :=
  Function.iterate_succ_apply' _ _ _

/-- A step that is lost once is lost ever after. -/
theorem reached_of_lost {s : Settings} {n k : Nat} (hlost : s.reached (n + 1) = s.reached n)
    (hk : n ≤ k) : s.reached k = s.reached n := by
  induction k, hk using Nat.le_induction with
  | base => rfl
  | succ k hk ih => rw [reached_succ, ih, ← reached_succ, hlost]

theorem lt_of_lost {s : Settings} {n : Nat} (hless : ∀ k ≤ n, s.reached k < s.largestRadius)
    (hlost : s.reached (n + 1) = s.reached n) (k : Nat) : s.reached k < s.largestRadius := by
  rcases Nat.le_total k n with hk | hk
  · exact hless k hk
  · rw [reached_of_lost hlost hk]
    exact hless n (Nat.le_refl n)

namespace Graded

variable {settings : Settings}

theorem radii_eq_some (h : settings.Graded) {radii : Radii} (hradii : settings.radii = some radii) :
    radii.toList.Pairwise (· < ·) ∧ ∃ n,
      radii.toList = (List.range n).map settings.reached ++ [settings.largestRadius] ∧
      (∀ k < n, settings.reached k < settings.largestRadius) ∧
      ¬ settings.reached n < settings.largestRadius :=
  radiiFrom_eq_some h.step h.stepFinite h.first hradii

theorem radii_eq_none (h : settings.Graded) (hnone : settings.radii = none) :
    ∃ n, (∀ k ≤ n, settings.reached k < settings.largestRadius) ∧
      settings.reached (n + 1) = settings.reached n :=
  radiiFrom_eq_none h.step h.stepFinite h.first hnone

/-- The radii end unless the largest one is never reached. -/
theorem radii_eq_none_iff (h : settings.Graded) :
    settings.radii = none ↔ ∀ k, settings.reached k < settings.largestRadius := by
  constructor
  · intro hnone
    obtain ⟨n, hless, hlost⟩ := h.radii_eq_none hnone
    exact lt_of_lost hless hlost
  · intro hless
    by_contra hsome
    obtain ⟨radii, hradii⟩ := Option.ne_none_iff_exists'.1 hsome
    obtain ⟨-, n, -, -, hover⟩ := h.radii_eq_some hradii
    exact hover (hless n)

/-- The radii end unless a step is lost on the way. -/
theorem radii_eq_none_iff_lost (h : settings.Graded) :
    settings.radii = none ↔ ∃ n, (∀ k ≤ n, settings.reached k < settings.largestRadius) ∧
      settings.reached (n + 1) = settings.reached n :=
  ⟨h.radii_eq_none, fun ⟨_, hless, hlost⟩ => h.radii_eq_none_iff.2 (lt_of_lost hless hlost)⟩

/-- No step is lost below 2 ^ 53 times the step. -/
theorem radii_isSome (h : settings.Graded)
    (hstep : value settings.largestRadius ≤ 2 ^ 53 * value settings.radiusStep) :
    settings.radii.isSome = true := by
  rw [Option.isSome_iff_ne_none]
  intro hnone
  obtain ⟨n, hless, hlost⟩ := h.radii_eq_none hnone
  -- No step before the lost one is lost either, so the sums grow from the first radius on.
  have hpositive : ∀ k ≤ n, 0.0 < settings.reached k := by
    intro k hk
    induction k with
    | zero => exact h.first
    | succ k ih =>
        have hpos := ih (Nat.le_of_succ_le hk)
        rw [reached_succ]
        exact Decimal.lt_of_le_of_lt (Decimal.le_of_lt hpos)
          (Decimal.lt_add hpos (hless k (Nat.le_of_succ_le hk)) h.largestFinite h.step
            h.stepFinite hstep)
  have hnext := Decimal.lt_add (hpositive n (Nat.le_refl n)) (hless n (Nat.le_refl n))
    h.largestFinite h.step h.stepFinite hstep
  rw [← reached_succ, hlost] at hnext
  exact Decimal.lt_irrefl _ hnext

/-- A search starts at the first radius, also if that is the largest one. -/
theorem first_eq (h : settings.Graded) {radii : Radii} (hradii : settings.radii = some radii) :
    radii.first = settings.firstRadius := by
  obtain ⟨-, n, hlist, -, hover⟩ := h.radii_eq_some hradii
  cases n with
  | zero =>
      -- No step is made, so the first radius is not below the largest; nor is it above.
      obtain ⟨hfirst, -⟩ := List.cons.inj hlist
      have hsame := Decimal.eq_of_not_lt h.first h.largest hover h.ordered
      exact hfirst.trans hsame.symm
  | succ n =>
      rw [List.range_succ_eq_map] at hlist
      exact (List.cons.inj hlist).1

end Graded

/-- With settings that are in order there are radii unless the sums never reach the largest
radius, and then the reason is a step that is lost. There are radii if the largest one is
at most 2 ^ 53 times the step. They begin with the first radius, grow, and end with the
largest one. -/
theorem radii_end_at_largest (settings : Settings) (h : settings.check = .ok ()) :
    (settings.radii = none ↔ ∀ k, settings.reached k < settings.largestRadius) ∧
      (settings.radii = none ↔ ∃ n, (∀ k ≤ n, settings.reached k < settings.largestRadius) ∧
        settings.reached (n + 1) = settings.reached n) ∧
      (value settings.largestRadius ≤ 2 ^ 53 * value settings.radiusStep →
        settings.radii.isSome = true) ∧
      ∀ radii, settings.radii = some radii →
        radii.toList.head? = some settings.firstRadius ∧
        radii.toList.getLast? = some settings.largestRadius ∧
        radii.toList.Pairwise (· < ·) ∧
        ∃ n, radii.toList = (List.range n).map settings.reached ++ [settings.largestRadius] ∧
          (∀ k < n, settings.reached k < settings.largestRadius) ∧
          ¬ settings.reached n < settings.largestRadius := by
  have hgraded := graded_of_check h
  refine ⟨hgraded.radii_eq_none_iff, hgraded.radii_eq_none_iff_lost, hgraded.radii_isSome, ?_⟩
  intro radii hradii
  obtain ⟨hstrict, n, hlist, hbelow⟩ := hgraded.radii_eq_some hradii
  refine ⟨congrArg some (hgraded.first_eq hradii), ?_, hstrict, n, hlist, hbelow⟩
  rw [hlist, List.getLast?_concat]

theorem radii_end_at_largest_trial :
    ({} : Settings).check = .ok () ∧ value 20.0 ≤ 2 ^ 53 * value 5.0 ∧
      ∃ radii, ({} : Settings).radii = some radii ∧ radii.toList.head? = some 5.0 ∧
        radii.toList.getLast? = some 20.0 ∧ radii.toList.Pairwise (· < ·) := by
  have hcheck : ({} : Settings).check = .ok () := check_eq_ok.2 (by decide +kernel)
  have hstep : value 20.0 ≤ 2 ^ 53 * value 5.0 := by decide +kernel
  obtain ⟨-, -, hsome, hradii⟩ := radii_end_at_largest {} hcheck
  obtain ⟨radii, heq⟩ := Option.isSome_iff_exists.1 (hsome hstep)
  obtain ⟨hfirst, hlast, hstrict, -⟩ := hradii radii heq
  exact ⟨hcheck, hstep, radii, heq, hfirst, hlast, hstrict⟩

/-- Settings in order whose radii do not end: from 2 ^ 53 a step of 1 leads nowhere, as the
next double is 2 ^ 53 + 2. -/
def endless : Settings :=
  { firstRadius := 9007199254740992.0, radiusStep := 1.0, largestRadius := 9007199254740994.0 }

theorem endless_check : endless.check = .ok () := check_eq_ok.2 (by decide +kernel)

theorem endless_radii : endless.radii = none := by
  have hlost : endless.reached 1 = endless.reached 0 :=
    Decimal.orderKey_injective (by decide +kernel)
  refine (graded_of_check endless_check).radii_eq_none_iff_lost.2 ⟨0, fun k hk => ?_, hlost⟩
  obtain rfl := Nat.le_zero.1 hk
  show (9007199254740992.0 : Float) < 9007199254740994.0
  decide +kernel

theorem lost_step_has_no_radii :
    endless.check = .ok () ∧ endless.radii = none ∧
      ∀ k, endless.reached k < endless.largestRadius :=
  ⟨endless_check, endless_radii, (graded_of_check endless_check).radii_eq_none_iff.1 endless_radii⟩

end Settings

end Hailing
