import Mathlib.Data.List.Sort
import Hailing.Proofs.Doubles
import Hailing.Proofs.Runs

/-!
# The ranking is what it should be

A driver is a candidate in one of two ways, and the ranking lists exactly the
candidates (`Eligible`), each driver at most once. Since no two entries are of
the same driver, sorting leaves no two in an arbitrary order: what precedes comes
strictly before (`Candidate.Before`). And a list that is strictly sorted is known
once its members are, so nothing is left of the order in which the fleet was
gone through.
-/

namespace Hailing

open Geo (Point)
open Time (Instant)

/-! ## How far a driver may be away -/

/-- The smaller of two numbers is at least what both of them are. -/
theorem le_lesser {x y z : Float} (hy : y.isNaN = false) (hz : z.isNaN = false) :
    x ≤ lesser y z ↔ x ≤ y ∧ x ≤ z := by
  have hlesser : lesser y z = if y < z then y else z := by
    rw [lesser, if_neg (ne_true_of_eq_false hy), if_neg (ne_true_of_eq_false hz)]
  rw [hlesser]
  cases hx : x.isNaN with
  | true =>
      have hno : ∀ w, ¬ x ≤ w := fun w => Decimal.not_le_of_nan (.inl hx)
      exact iff_of_false (hno _) fun h => hno y h.1
  | false =>
      split
      · next h =>
          rw [Decimal.lt_iff hy hz] at h
          rw [Decimal.le_iff hx hy, Decimal.le_iff hx hz]
          omega
      · next h =>
          rw [Decimal.lt_iff hy hz] at h
          rw [Decimal.le_iff hx hy, Decimal.le_iff hx hz]
          omega

namespace Driver

theorem le_reach {d : Driver} {radius : Float} (hr : radius.isNaN = false)
    (hl : ∀ limit, d.maxPickup? = some limit → limit.isNaN = false) (x : Float) :
    x ≤ d.reach radius ↔ x ≤ radius ∧ ∀ limit, d.maxPickup? = some limit → x ≤ limit := by
  unfold reach
  cases h : d.maxPickup? with
  | none => simp
  | some limit =>
      rw [le_lesser (hl limit h) hr]
      simp [and_comm]

/-- A driver can be asked: free, seen at the cutoff or later and near enough, or
with the end of the first trip near the pickup. -/
inductive Eligible (pickup : Point) (radius destinationRadius : Float) (cutoff : Instant)
    (d : Driver) : Candidate → Prop
  | free {position : Position} (ht : d.trips = []) (hp : d.position? = some position)
      (hseen : cutoff ≤ position.updatedAt)
      (hnear : position.point.distance pickup ≤ d.reach radius) :
      Eligible pickup radius destinationRadius cutoff d
        ⟨d.id, position.point.distance pickup, false⟩
  | busy {trip : Trip} {later : List Trip} (ht : d.trips = trip :: later)
      (hnear : trip.destination.distance pickup < destinationRadius) :
      Eligible pickup radius destinationRadius cutoff d
        ⟨d.id, trip.destination.distance pickup, true⟩

variable {pickup : Point} {radius destinationRadius : Float} {cutoff : Instant} {d : Driver}
  {candidate : Candidate}

theorem Eligible.driver_eq (h : d.Eligible pickup radius destinationRadius cutoff candidate) :
    candidate.driver = d.id := by
  cases h <;> rfl

theorem Eligible.unique {other : Candidate}
    (h : d.Eligible pickup radius destinationRadius cutoff candidate)
    (h' : d.Eligible pickup radius destinationRadius cutoff other) : candidate = other := by
  cases h with
  | free ht hp =>
      cases h' with
      | free _ hp' => rw [Option.some.inj (hp.symm.trans hp')]
      | busy ht' => rw [ht] at ht'; cases ht'
  | busy ht =>
      cases h' with
      | free ht' => rw [ht] at ht'; cases ht'
      | busy ht' => rw [(List.cons.inj (ht.symm.trans ht')).1]

theorem asFree?_eq_some : d.asFree? pickup radius cutoff = some candidate ↔
    ∃ position, d.trips = [] ∧ d.position? = some position ∧ cutoff ≤ position.updatedAt ∧
      position.point.distance pickup ≤ d.reach radius ∧
      candidate = ⟨d.id, position.point.distance pickup, false⟩ := by
  unfold asFree? isFree
  cases ht : d.trips with
  | cons => simp
  | nil =>
      cases hp : d.position? with
      | none => simp
      | some position =>
          simp only [List.isEmpty_nil, if_true, Bool.and_eq_true, decide_eq_true_eq,
            Option.ite_none_right_eq_some, Option.some.injEq, true_and, and_assoc]
          constructor
          · rintro ⟨hseen, hnear, rfl⟩
            exact ⟨position, rfl, hseen, hnear, rfl⟩
          · rintro ⟨_, rfl, hseen, hnear, rfl⟩
            exact ⟨hseen, hnear, rfl⟩

theorem asBusy?_eq_some : d.asBusy? pickup destinationRadius = some candidate ↔
    ∃ trip later, d.trips = trip :: later ∧
      trip.destination.distance pickup < destinationRadius ∧
      candidate = ⟨d.id, trip.destination.distance pickup, true⟩ := by
  unfold asBusy? destinationMatch? currentTrip?
  cases ht : d.trips with
  | nil => simp
  | cons trip later => simp [eq_comm, Option.map_if]

theorem eligible_iff : d.Eligible pickup radius destinationRadius cutoff candidate ↔
    d.asFree? pickup radius cutoff = some candidate ∨
      d.asBusy? pickup destinationRadius = some candidate := by
  rw [asFree?_eq_some, asBusy?_eq_some]
  constructor
  · intro h
    cases h with
    | free ht hp hseen hnear => exact .inl ⟨_, ht, hp, hseen, hnear, rfl⟩
    | busy ht hnear => exact .inr ⟨_, _, ht, hnear, rfl⟩
  · rintro (⟨_, ht, hp, hseen, hnear, rfl⟩ | ⟨_, _, ht, hnear, rfl⟩)
    · exact .free ht hp hseen hnear
    · exact .busy ht hnear

end Driver

namespace Candidate

open Decimal (orderKey)

/-- A free driver comes before a busy one; of two of a kind the nearer one does,
and of two that are as near as each other the one with the smaller identifier. -/
def Before (a b : Candidate) : Prop :=
  a.destinationMatch = false ∧ b.destinationMatch = true ∨
    a.destinationMatch = b.destinationMatch ∧
      (orderKey a.distance < orderKey b.distance ∨
        a.distance = b.distance ∧ a.driver.toNat < b.driver.toNat)

theorem precedes_iff {a b : Candidate} : a.precedes b = true ↔
    orderKey a.distance < orderKey b.distance ∨
      orderKey a.distance = orderKey b.distance ∧ a.driver.toNat ≤ b.driver.toNat := by
  simp only [precedes, Bool.or_eq_true, Bool.and_eq_true, decide_eq_true_eq]
  exact .rfl

theorem precedes_trans (a b c : Candidate) (hab : a.precedes b = true)
    (hbc : b.precedes c = true) : a.precedes c = true := by
  rw [precedes_iff] at *
  omega

theorem precedes_total (a b : Candidate) : (a.precedes b || b.precedes a) = true := by
  rw [Bool.or_eq_true, precedes_iff, precedes_iff]
  omega

/-- Nothing precedes another driver of its kind without coming before. -/
theorem Before.of_precedes {a b : Candidate} (h : a.precedes b = true)
    (hd : a.driver ≠ b.driver) (hm : a.destinationMatch = b.destinationMatch) : Before a b := by
  refine .inr ⟨hm, ?_⟩
  rcases precedes_iff.1 h with hlt | ⟨heq, hle⟩
  · exact .inl hlt
  · refine .inr ⟨Decimal.orderKey_injective heq, Nat.lt_of_le_of_ne hle fun hn => ?_⟩
    exact hd (Uuid.toNat_injective hn)

theorem Before.asymm {a b : Candidate} (h : Before a b) : ¬ Before b a := by
  rintro (⟨hb, ha⟩ | ⟨hm, hba⟩)
  · rcases h with ⟨ha', -⟩ | ⟨hm, -⟩
    · rw [ha'] at ha
      cases ha
    · rw [hm, hb] at ha
      cases ha
  · rcases h with ⟨ha', hb'⟩ | ⟨-, hab⟩
    · rw [ha', hb'] at hm
      cases hm
    · rcases hab with hlt | ⟨he, hd⟩ <;> rcases hba with hlt' | ⟨he', hd'⟩
      · omega
      · rw [he'] at hlt
        omega
      · rw [he] at hlt'
        omega
      · omega

instance : Std.Irrefl Before := ⟨fun _ h => h.asymm h⟩

instance : Std.Antisymm Before := ⟨fun _ _ h h' => absurd h' h.asymm⟩

/-- Of two of a kind the later one is not nearer. -/
theorem Before.not_nearer {a b : Candidate} (h : Before a b)
    (hm : a.destinationMatch = b.destinationMatch) : ¬ b.distance < a.distance := by
  intro hlt
  have hkey := Decimal.orderKey_lt_of_lt hlt
  rcases h with ⟨ha, hb⟩ | ⟨-, hnear | ⟨he, -⟩⟩
  · rw [ha, hb] at hm
    cases hm
  · omega
  · rw [he] at hkey
    omega

/-- Candidates of a kind, no two of one driver, are sorted strictly. -/
theorem pairwise_mergeSort_before (kind : Bool) {cs : List Candidate}
    (hm : ∀ c ∈ cs, c.destinationMatch = kind) (hd : (cs.map (·.driver)).Nodup) :
    (cs.mergeSort precedes).Pairwise Before := by
  have hperm := cs.mergeSort_perm precedes
  have hsorted := List.pairwise_mergeSort precedes_trans precedes_total cs
  have hdistinct := List.pairwise_map.1 ((hperm.map (·.driver)).nodup_iff.2 hd)
  refine (hsorted.and hdistinct).imp_of_mem fun ha hb h => ?_
  refine .of_precedes h.1 h.2 ?_
  rw [hm _ (hperm.mem_iff.1 ha), hm _ (hperm.mem_iff.1 hb)]

end Candidate

namespace Fleet

/-- Drivers with different identifiers are different candidates. -/
theorem nodup_filterMap {f : Driver → Option Candidate}
    (hf : ∀ {d c}, f d = some c → c.driver = d.id) {drivers : List Driver}
    (hn : (drivers.map Driver.id).Nodup) :
    ((drivers.filterMap f).map (·.driver)).Nodup := by
  refine List.pairwise_map.2 (List.Pairwise.filterMap f ?_ (List.pairwise_map.1 hn))
  intro d d' hne c hc c' hc'
  rw [hf hc, hf hc']
  exact hne

section Ranked

variable (settings : Settings) (fleet : Fleet) (pickup : Point) (radius : Float)
  (excluded : List Uuid) (cutoff : Instant)

/-- The free ones, and behind them the busy ones. -/
def ranked : List Candidate :=
  fleet.freeCandidates pickup radius excluded cutoff ++
    fleet.busyCandidates pickup settings.destinationRadius excluded

variable {settings fleet pickup radius excluded cutoff}

theorem candidates_eq {now : Instant} (hc : now.add? settings.freshSpan.neg = some cutoff) :
    candidates settings fleet pickup radius excluded now =
      .ok (ranked settings fleet pickup radius excluded cutoff) := by
  rw [candidates, Fleet.cutoff, hc]
  rfl

theorem mem_freeCandidates {c : Candidate} :
    c ∈ fleet.freeCandidates pickup radius excluded cutoff ↔
      ∃ d ∈ fleet.available excluded, d.asFree? pickup radius cutoff = some c := by
  rw [freeCandidates, List.mem_mergeSort, List.mem_filterMap]

theorem mem_busyCandidates {destinationRadius : Float} {c : Candidate} :
    c ∈ fleet.busyCandidates pickup destinationRadius excluded ↔
      ∃ d ∈ fleet.available excluded, d.asBusy? pickup destinationRadius = some c := by
  rw [busyCandidates, List.mem_mergeSort, List.mem_filterMap]

/-- The candidates are those who can be asked. -/
theorem mem_ranked {c : Candidate} :
    c ∈ ranked settings fleet pickup radius excluded cutoff ↔
      ∃ d ∈ fleet.items, d.online = true ∧ d.id ∉ excluded ∧
        d.Eligible pickup radius settings.destinationRadius cutoff c := by
  simp only [ranked, List.mem_append, mem_freeCandidates, mem_busyCandidates, mem_available,
    Driver.eligible_iff]
  constructor
  · rintro (⟨d, ⟨hd, ho, he⟩, hc⟩ | ⟨d, ⟨hd, ho, he⟩, hc⟩)
    · exact ⟨d, hd, ho, he, .inl hc⟩
    · exact ⟨d, hd, ho, he, .inr hc⟩
  · rintro ⟨d, hd, ho, he, hc | hc⟩
    · exact .inl ⟨d, ⟨hd, ho, he⟩, hc⟩
    · exact .inr ⟨d, ⟨hd, ho, he⟩, hc⟩

theorem destinationMatch_of_free {c : Candidate}
    (h : c ∈ fleet.freeCandidates pickup radius excluded cutoff) : c.destinationMatch = false := by
  obtain ⟨_, -, hc⟩ := mem_freeCandidates.1 h
  obtain ⟨_, -, -, -, -, rfl⟩ := Driver.asFree?_eq_some.1 hc
  rfl

theorem destinationMatch_of_busy {destinationRadius : Float} {c : Candidate}
    (h : c ∈ fleet.busyCandidates pickup destinationRadius excluded) :
    c.destinationMatch = true := by
  obtain ⟨_, -, hc⟩ := mem_busyCandidates.1 h
  obtain ⟨_, _, -, -, rfl⟩ := Driver.asBusy?_eq_some.1 hc
  rfl

theorem nodup_available : ((fleet.available excluded).map Driver.id).Nodup :=
  (List.filter_sublist.map Driver.id).nodup fleet.nodup

theorem pairwise_ranked :
    (ranked settings fleet pickup radius excluded cutoff).Pairwise Candidate.Before := by
  refine List.pairwise_append.2 ⟨?_, ?_, fun a ha b hb => ?_⟩
  · refine Candidate.pairwise_mergeSort_before false (fun c hc => ?_) ?_
    · exact destinationMatch_of_free (List.mem_mergeSort.2 hc)
    · exact nodup_filterMap (fun h => (asFree?_spec h).1) nodup_available
  · refine Candidate.pairwise_mergeSort_before true (fun c hc => ?_) ?_
    · exact destinationMatch_of_busy (List.mem_mergeSort.2 hc)
    · exact nodup_filterMap (fun h => (asBusy?_spec h).1) nodup_available
  · exact .inl ⟨destinationMatch_of_free ha, destinationMatch_of_busy hb⟩

theorem nodup_ranked :
    ((ranked settings fleet pickup radius excluded cutoff).map (·.driver)).Nodup := by
  refine List.Nodup.map_on (fun c hc c' hc' he => ?_) pairwise_ranked.nodup
  obtain ⟨d, hd, -, -, h⟩ := mem_ranked.1 hc
  obtain ⟨d', hd', -, -, h'⟩ := mem_ranked.1 hc'
  have hid : d.id = d'.id := by rw [← h.driver_eq, ← h'.driver_eq, he]
  obtain rfl := List.inj_on_of_nodup_map fleet.nodup hd hd' hid
  exact h.unique h'

theorem ranked_of_perm {fleet' : Fleet} (h : fleet'.items.Perm fleet.items) :
    ranked settings fleet' pickup radius excluded cutoff =
      ranked settings fleet pickup radius excluded cutoff := by
  refine pairwise_ranked.eq_of_mem_iff pairwise_ranked fun c => ?_
  simp only [mem_ranked, h.mem_iff]

end Ranked

/-- If the cutoff lies within the calendar, the ranking lists exactly the drivers
who can be asked, as candidates with their distance and kind, none of them twice,
the free ones first and each kind from the nearest on, with the identifiers to
decide between drivers as near as each other. No other list of these candidates
is in this order, and it does not matter in which order the fleet is gone
through. The reach of a driver is the radius, or the driver's own limit where
that is smaller. -/
theorem candidates_are_ranked (settings : Settings) (fleet : Fleet) (pickup : Point)
    (radius : Float) (excluded : List Uuid) (now cutoff : Instant)
    (hc : now.add? settings.freshSpan.neg = some cutoff) :
    ∃ ranked, candidates settings fleet pickup radius excluded now = .ok ranked ∧
      (∀ candidate, candidate ∈ ranked ↔ ∃ d ∈ fleet.items,
        d.online = true ∧ d.id ∉ excluded ∧
          d.Eligible pickup radius settings.destinationRadius cutoff candidate) ∧
      (ranked.map (·.driver)).Nodup ∧
      ranked.Pairwise Candidate.Before ∧
      (ranked.Pairwise fun a b =>
        a.destinationMatch = b.destinationMatch → ¬ b.distance < a.distance) ∧
      (∀ other : List Candidate, other.Pairwise Candidate.Before →
        (∀ candidate, candidate ∈ other ↔ candidate ∈ ranked) → other = ranked) ∧
      (∀ fleet' : Fleet, fleet'.items.Perm fleet.items →
        candidates settings fleet' pickup radius excluded now = .ok ranked) ∧
      ∀ d ∈ fleet.items, radius.isNaN = false →
        (∀ limit, d.maxPickup? = some limit → limit.isNaN = false) →
        ∀ x, x ≤ d.reach radius ↔
          x ≤ radius ∧ ∀ limit, d.maxPickup? = some limit → x ≤ limit := by
  refine ⟨ranked settings fleet pickup radius excluded cutoff, candidates_eq hc,
    fun _ => mem_ranked, nodup_ranked, pairwise_ranked, ?_, ?_, ?_, ?_⟩
  · exact pairwise_ranked.imp fun h hm => h.not_nearer hm
  · exact fun other ho hm => ho.eq_of_mem_iff pairwise_ranked hm
  · intro fleet' hperm
    rw [candidates_eq hc, ranked_of_perm hperm]
  · exact fun d _ hr hl x => Driver.le_reach hr hl x

/-- Of these two drivers the second one is not online. -/
def trialFleet : Fleet :=
  ⟨[ { Driver.new (.ofNat 7) with position? := some ⟨⟨41.3, 69.24⟩, Desk.trialStart⟩ },
     { Driver.new (.ofNat 8) with online := false } ], by decide⟩

theorem candidates_are_ranked_trial :
    ∃ cutoff, Desk.trialStart.add? ({} : Settings).freshSpan.neg = some cutoff ∧
      ∃ ranked, candidates {} trialFleet ⟨41.3, 69.24⟩ 5.0 [] Desk.trialStart = .ok ranked ∧
        ∀ candidate ∈ ranked, candidate.driver = .ofNat 7 := by
  obtain ⟨cutoff, hc⟩ := Option.isSome_iff_exists.1
    (show (Desk.trialStart.add? ({} : Settings).freshSpan.neg).isSome = true by decide +kernel)
  obtain ⟨ranked, hr, hm, -⟩ :=
    candidates_are_ranked {} trialFleet ⟨41.3, 69.24⟩ 5.0 [] Desk.trialStart cutoff hc
  refine ⟨cutoff, hc, ranked, hr, fun candidate h => ?_⟩
  obtain ⟨d, hd, ho, -, he⟩ := (hm candidate).1 h
  rw [he.driver_eq]
  rcases List.mem_cons.1 hd with rfl | hd
  · rfl
  · obtain rfl := List.mem_singleton.1 hd
    cases ho

end Fleet

end Hailing
