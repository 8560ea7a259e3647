import Hailing.Proofs.Ranking

/-!
# A wider radius asks more drivers, and nobody else

The radii of a search never become smaller on the way (`Settings.radii_increase`).
So the question is what a larger radius does to a ranking. It does nothing to the
busy drivers, as the radius does not matter for them. A free driver who comes into
question at the smaller radius still does at the larger one, and one who is added
was too far away before: not farther than the driver's own limit, as that has not
changed, so farther than the smaller radius (`Driver.asFree?_widen`). All those who
are added come behind those who were there, whatever the limits of the drivers are
(`Fleet.freeCandidates_widen`).
-/

namespace Hailing

open Geo (Point)
open Time (Instant)

/-! ## The radii of a search -/

namespace Settings

/-- The radii do not become smaller, and each of them is the largest one or at
least the one they start from. -/
theorem radiiFrom_increase (step largest radius : Float) {radii : Radii}
    (h : radiiFrom step largest radius = some radii) :
    radii.toList.Pairwise (· ≤ ·) ∧ ∀ r ∈ radii.toList, r = largest ∨ radius ≤ r := by
  induction radius using radiiFrom.induct step largest generalizing radii with
  | case1 radius hbelow hgrows ih =>
      rw [radiiFrom, if_pos hbelow, if_pos hgrows] at h
      obtain ⟨rest, hrest, rfl⟩ := Option.map_eq_some_iff.1 h
      obtain ⟨hordered, hfrom⟩ := ih hrest
      rw [Bool.and_eq_true, decide_eq_true_eq] at hbelow
      have hnumber := (Decimal.isNaN_of_lt hbelow.1).1
      -- What comes after the first radius is not smaller than it.
      have hlater : ∀ r ∈ rest.toList, radius ≤ r := by
        intro r hr
        rcases hfrom r hr with rfl | hle
        · exact Decimal.le_of_lt hbelow.1
        · refine Decimal.le_trans ?_ hle
          by_contra hnot
          have hback := Decimal.lt_of_not_le hnumber (Decimal.isNaN_of_le hle).1 hnot
          exact Nat.lt_asymm hgrows (Decimal.orderKey_lt_of_lt hback)
      have hself : radius ≤ radius := (Decimal.le_iff hnumber hnumber).2 (Int.le_refl _)
      refine ⟨List.pairwise_cons.2 ⟨hlater, hordered⟩, fun r hr => .inr ?_⟩
      rcases List.mem_cons.1 hr with rfl | hr
      · exact hself
      · exact hlater r hr
  | case2 radius hbelow hstuck =>
      rw [radiiFrom, if_pos hbelow, if_neg hstuck] at h
      cases h
  | case3 radius hover =>
      rw [radiiFrom, if_neg hover] at h
      cases h
      exact ⟨List.pairwise_singleton _ _, fun r hr => .inl (List.mem_singleton.1 hr)⟩

/-- The radii of a search do not become smaller. -/
theorem radii_increase {settings : Settings} {radii : Radii} (h : settings.radii = some radii) :
    radii.toList.Pairwise (· ≤ ·) :=
  (radiiFrom_increase _ _ _ h).1

/-- If the largest radius is a number all radii are. -/
theorem isNaN_of_mem_radii {settings : Settings} {radii : Radii}
    (h : settings.radii = some radii) (hl : settings.largestRadius.isNaN = false)
    {r : Float} (hr : r ∈ radii.toList) : r.isNaN = false := by
  rcases (radiiFrom_increase _ _ _ h).2 r hr with rfl | hle
  · exact hl
  · exact (Decimal.isNaN_of_le hle).2

end Settings

/-! ## A driver at two radii -/

namespace Driver

/-- To be within reach is to be within the radius, and within the driver's own
limit if there is one. -/
theorem le_reach_iff {d : Driver} {radius : Float} (hr : radius.isNaN = false) (x : Float) :
    x ≤ d.reach radius ↔
      x ≤ radius ∧ ∀ limit, d.maxPickup? = some limit → limit.isNaN = false → x ≤ limit := by
  unfold reach
  cases d.maxPickup? with
  | none => simp
  | some limit =>
      show x ≤ lesser limit radius ↔ _
      cases hl : limit.isNaN with
      | true =>
          rw [lesser, if_pos hl]
          refine ⟨fun hle => ⟨hle, fun found hf hn => ?_⟩, And.left⟩
          rw [← Option.some.inj hf, hl] at hn
          cases hn
      | false =>
          rw [le_lesser hl hr]
          constructor
          · rintro ⟨hle, hradius⟩
            exact ⟨hradius, fun found hf _ => Option.some.inj hf ▸ hle⟩
          · rintro ⟨hradius, hlimit⟩
            exact ⟨hlimit limit rfl hl, hradius⟩

variable {pickup : Point} {cutoff : Instant} {d : Driver} {candidate : Candidate}

/-- A free driver is within a smaller radius if within a larger one and as near as
that. -/
theorem asFree?_widen {r₁ r₂ : Float} (hle : r₁ ≤ r₂) :
    d.asFree? pickup r₁ cutoff = some candidate ↔
      d.asFree? pickup r₂ cutoff = some candidate ∧ candidate.distance ≤ r₁ := by
  obtain ⟨h₁, h₂⟩ := Decimal.isNaN_of_le hle
  rw [asFree?_eq_some, asFree?_eq_some]
  constructor
  · rintro ⟨position, ht, hp, hseen, hnear, rfl⟩
    obtain ⟨hradius, hlimit⟩ := (le_reach_iff h₁ _).1 hnear
    exact ⟨⟨position, ht, hp, hseen,
      (le_reach_iff h₂ _).2 ⟨Decimal.le_trans hradius hle, hlimit⟩, rfl⟩, hradius⟩
  · rintro ⟨⟨position, ht, hp, hseen, hnear, rfl⟩, hradius⟩
    have hlimit := ((le_reach_iff h₂ _).1 hnear).2
    exact ⟨position, ht, hp, hseen, (le_reach_iff h₁ _).2 ⟨hradius, hlimit⟩, rfl⟩

end Driver

namespace Fleet

section Widened

variable {settings : Settings} {fleet : Fleet} {pickup : Point} {excluded : List Uuid}
  {cutoff : Instant}

theorem mem_freeCandidates_widen {r₁ r₂ : Float} (hle : r₁ ≤ r₂) {c : Candidate} :
    c ∈ fleet.freeCandidates pickup r₁ excluded cutoff ↔
      c ∈ fleet.freeCandidates pickup r₂ excluded cutoff ∧ c.distance ≤ r₁ := by
  simp only [mem_freeCandidates, Driver.asFree?_widen hle]
  constructor
  · rintro ⟨d, hd, hc, hnear⟩
    exact ⟨⟨d, hd, hc⟩, hnear⟩
  · rintro ⟨⟨d, hd, hc⟩, hnear⟩
    exact ⟨d, hd, hc, hnear⟩

theorem isNaN_of_free {radius : Float} {c : Candidate}
    (h : c ∈ fleet.freeCandidates pickup radius excluded cutoff) :
    c.distance.isNaN = false := by
  obtain ⟨d, -, hc⟩ := mem_freeCandidates.1 h
  obtain ⟨_, -, -, -, hnear, rfl⟩ := Driver.asFree?_eq_some.1 hc
  exact (Decimal.isNaN_of_le hnear).1

theorem pairwise_freeCandidates (radius : Float) :
    (fleet.freeCandidates pickup radius excluded cutoff).Pairwise Candidate.Before := by
  have hranked : (ranked {} fleet pickup radius excluded cutoff).Pairwise Candidate.Before :=
    pairwise_ranked
  exact (List.pairwise_append.1 hranked).1

/-- The free candidates at a larger radius are those at the smaller one, and behind
them those who are farther away than that. -/
theorem freeCandidates_widen {r₁ r₂ : Float} (hle : r₁ ≤ r₂) :
    fleet.freeCandidates pickup r₂ excluded cutoff =
      fleet.freeCandidates pickup r₁ excluded cutoff ++
        (fleet.freeCandidates pickup r₂ excluded cutoff).filter (r₁ < ·.distance) := by
  have hsorted : ∀ radius, (fleet.freeCandidates pickup radius excluded cutoff).Pairwise
      Candidate.Before := pairwise_freeCandidates
  refine (hsorted r₂).eq_of_mem_iff (List.pairwise_append.2
    ⟨hsorted r₁, (hsorted r₂).filter _, fun a ha b hb => ?_⟩) fun c => ?_
  · -- Who is added is farther away than anybody who was there.
    obtain ⟨hb, hfar⟩ := List.mem_filter.1 hb
    have hnear := ((mem_freeCandidates_widen hle).1 ha).2
    refine .inr ⟨?_, .inl ?_⟩
    · rw [destinationMatch_of_free ha, destinationMatch_of_free hb]
    · exact Decimal.orderKey_lt_of_lt
        (Decimal.lt_of_le_of_lt hnear (of_decide_eq_true hfar))
  · rw [List.mem_append, mem_freeCandidates_widen hle, List.mem_filter, decide_eq_true_eq,
      ← and_or_left]
    refine (and_iff_left_of_imp fun hc => ?_).symm
    by_cases hnear : c.distance ≤ r₁
    · exact .inl hnear
    · exact .inr (Decimal.lt_of_not_le (isNaN_of_free hc) (Decimal.isNaN_of_le hle).1 hnear)

/-- How a ranking goes on at a radius that is larger than `radius`: more free
drivers, all of them farther away than that, and the same busy ones. -/
def WidensTo (radius : Float) (ranked wider : List Candidate) : Prop :=
  ∃ near added busy, ranked = near ++ busy ∧ wider = near ++ added ++ busy ∧
    (∀ c ∈ near ++ added, c.destinationMatch = false) ∧
    (∀ c ∈ busy, c.destinationMatch = true) ∧
    ∀ c ∈ added, radius < c.distance

theorem ranked_widensTo {r₁ r₂ : Float} (hle : r₁ ≤ r₂) :
    WidensTo r₁ (ranked settings fleet pickup r₁ excluded cutoff)
      (ranked settings fleet pickup r₂ excluded cutoff) := by
  refine ⟨fleet.freeCandidates pickup r₁ excluded cutoff,
    (fleet.freeCandidates pickup r₂ excluded cutoff).filter (r₁ < ·.distance),
    fleet.busyCandidates pickup settings.destinationRadius excluded, rfl, ?_, fun c hc => ?_,
    fun c hc => destinationMatch_of_busy hc, fun c hc => ?_⟩
  · rw [← freeCandidates_widen hle]
    rfl
  · rw [← freeCandidates_widen hle] at hc
    exact destinationMatch_of_free hc
  · exact of_decide_eq_true (List.mem_filter.1 hc).2

/-- A free driver who is best stays best. -/
theorem WidensTo.head?_free {radius : Float} {ranked wider : List Candidate}
    (h : WidensTo radius ranked wider) {best : Candidate} (hb : ranked.head? = some best)
    (hf : best.destinationMatch = false) : wider.head? = some best := by
  obtain ⟨near, added, busy, rfl, rfl, -, hbusy, -⟩ := h
  cases near with
  | cons c rest => exact hb
  | nil =>
      have hm := hbusy best (List.mem_of_head? hb)
      rw [hf] at hm
      cases hm

/-- A busy driver comes into question at the smaller radius too. -/
theorem WidensTo.mem_busy {radius : Float} {ranked wider : List Candidate}
    (h : WidensTo radius ranked wider) {c : Candidate} (hc : c ∈ wider)
    (hb : c.destinationMatch = true) : c ∈ ranked := by
  obtain ⟨near, added, busy, rfl, rfl, hfree, -, -⟩ := h
  rcases List.mem_append.1 hc with hc | hc
  · rw [hfree c hc] at hb
    cases hb
  · exact List.mem_append_right near hc

/-- A ranking breaks down at every radius or at none. -/
theorem candidates_widen (settings : Settings) (fleet : Fleet) (pickup : Point)
    (excluded : List Uuid) (now : Instant) {r₁ r₂ : Float} (hle : r₁ ≤ r₂) :
    (∃ breakdown, candidates settings fleet pickup r₁ excluded now = .error breakdown ∧
        candidates settings fleet pickup r₂ excluded now = .error breakdown) ∨
      ∃ ranked wider, candidates settings fleet pickup r₁ excluded now = .ok ranked ∧
        candidates settings fleet pickup r₂ excluded now = .ok wider ∧
        WidensTo r₁ ranked wider := by
  cases hc : now.add? settings.freshSpan.neg with
  | some cutoff => exact .inr ⟨_, _, candidates_eq hc, candidates_eq hc, ranked_widensTo hle⟩
  | none =>
      refine .inl ⟨.cutoffOutOfRange, ?_, ?_⟩
      · rw [candidates, Fleet.cutoff, hc]
        rfl
      · rw [candidates, Fleet.cutoff, hc]
        rfl

end Widened

/-- At a larger radius the free candidates are those at the smaller one, and behind
them others who are all farther away than that; the busy ones are the same. So a
free driver who is best at one of the radii of a search is best at every later one,
and if there is a busy candidate at any of them, the first one has a candidate
already. -/
theorem wider_radius_extends_ranking (settings : Settings) (fleet : Fleet) (pickup : Point)
    (excluded : List Uuid) (now : Instant) :
    (∀ r₁ r₂ : Float, r₁ ≤ r₂ →
      (∃ breakdown, candidates settings fleet pickup r₁ excluded now = .error breakdown ∧
        candidates settings fleet pickup r₂ excluded now = .error breakdown) ∨
      ∃ ranked wider, candidates settings fleet pickup r₁ excluded now = .ok ranked ∧
        candidates settings fleet pickup r₂ excluded now = .ok wider ∧
        WidensTo r₁ ranked wider) ∧
    ∀ radii, settings.radii = some radii →
      (radii.toList.Pairwise fun r₁ r₂ => ∀ ranked best,
        candidates settings fleet pickup r₁ excluded now = .ok ranked →
        ranked.head? = some best → best.destinationMatch = false →
        ∃ wider, candidates settings fleet pickup r₂ excluded now = .ok wider ∧
          wider.head? = some best) ∧
      ∀ r ∈ radii.toList, ∀ ranked,
        candidates settings fleet pickup r excluded now = .ok ranked →
        (∃ c ∈ ranked, c.destinationMatch = true) →
        ∃ best first, candidates settings fleet pickup radii.first excluded now = .ok first ∧
          first.head? = some best := by
  have hwiden := fun (r₁ r₂ : Float) (hle : r₁ ≤ r₂) =>
    candidates_widen settings fleet pickup excluded now hle
  refine ⟨hwiden, fun radii hradii => ⟨?_, fun r hr ranked hok hmatch => ?_⟩⟩
  · refine (Settings.radii_increase hradii).imp fun {r₁ r₂} hle ranked best hok hb hf => ?_
    rcases hwiden r₁ r₂ hle with ⟨_, herror, -⟩ | ⟨found, wider, hfound, hwider, hext⟩
    · rw [hok] at herror
      cases herror
    · rw [hok] at hfound
      cases hfound
      exact ⟨wider, hwider, hext.head?_free hb hf⟩
  · obtain ⟨c, hc, hbusy⟩ := hmatch
    -- The first radius is this one, or it is not larger.
    have hfirst : ∃ first, candidates settings fleet pickup radii.first excluded now = .ok first ∧
        c ∈ first := by
      rcases List.mem_cons.1 hr with rfl | hr
      · exact ⟨ranked, hok, hc⟩
      · have hle := (List.pairwise_cons.1 (Settings.radii_increase hradii)).1 r hr
        rcases hwiden _ r hle with ⟨_, -, herror⟩ | ⟨first, wider, hfirst, hwider, hext⟩
        · rw [hok] at herror
          cases herror
        · rw [hok] at hwider
          cases hwider
          exact ⟨first, hfirst, hext.mem_busy hc hbusy⟩
    obtain ⟨first, hok₁, hmem⟩ := hfirst
    cases first with
    | nil => cases hmem
    | cons best rest => exact ⟨best, best :: rest, hok₁, rfl⟩

/-- The first two radii of a usual search. -/
theorem wider_radius_extends_ranking_trial :
    (5.0 : Float) ≤ 10.0 ∧ (∃ ranked wider,
      candidates {} trialFleet ⟨41.3, 69.24⟩ 5.0 [] Desk.trialStart = .ok ranked ∧
      candidates {} trialFleet ⟨41.3, 69.24⟩ 10.0 [] Desk.trialStart = .ok wider ∧
      WidensTo 5.0 ranked wider) ∧
    ∃ radii, Settings.radii {} = some radii ∧ ∀ r ∈ radii.toList, ∀ ranked,
      candidates {} trialFleet ⟨41.3, 69.24⟩ r [] Desk.trialStart = .ok ranked →
      (∃ c ∈ ranked, c.destinationMatch = true) →
      ∃ best first, candidates {} trialFleet ⟨41.3, 69.24⟩ radii.first [] Desk.trialStart =
        .ok first ∧ first.head? = some best := by
  obtain ⟨hwiden, hradii⟩ :=
    wider_radius_extends_ranking {} trialFleet ⟨41.3, 69.24⟩ [] Desk.trialStart
  have hle : (5.0 : Float) ≤ 10.0 := by decide +kernel
  have hreaches : (Desk.trialStart.add? ({} : Settings).freshSpan.neg).isSome = true := by
    decide +kernel
  obtain ⟨cutoff, hc⟩ := Option.isSome_iff_exists.1 hreaches
  obtain ⟨radii, hr⟩ := Option.isSome_iff_exists.1
    (show (Settings.radii {}).isSome = true by decide +kernel)
  refine ⟨hle, ?_, radii, hr, (hradii radii hr).2⟩
  rcases hwiden 5.0 10.0 hle with ⟨_, herror, -⟩ | hfound
  · rw [candidates_eq hc] at herror
    cases herror
  · exact hfound

end Fleet

end Hailing
