import Hailing.Proofs.Exclusion
import Hailing.Proofs.OneSearch
import Hailing.Proofs.Radii

/-!
# Offers are in range

An offer says at which radius its driver was found and how far away. Both are as the
settings have it: the radius is one of those of a search, and the driver was within it,
or else on a trip that ends near enough to the pickup (`Offer.InRange`). For the radius
one has to look at the searches asleep too. The radii that they have left are the last
ones of those they began with (`Search.InRange`), as one is taken away at a time.
-/

namespace Hailing

open Geo (Point)
open Time (Instant)

/-- The radii that are left are the last ones of a search. -/
def Search.InRange (settings : Settings) (s : Search) : Prop :=
  ∃ radii, settings.radii = some radii ∧ s.radii.toList <:+ radii.toList

/-- The offer was made at one of the radii, to a driver who was near enough. Nothing can
be said of the distance if the largest radius is not a number; where settings are in order
it is above zero (`Settings.graded_of_check`), and so it is one. -/
structure Offer.InRange (settings : Settings) (o : Offer) : Prop where
  radius : ∃ radii, settings.radii = some radii ∧ o.radius ∈ radii.toList
  busy : o.destinationMatch = true → o.distance < settings.destinationRadius
  free : o.destinationMatch = false → settings.largestRadius.isNaN = false →
    o.distance ≤ o.radius

structure Docket.InRange (d : Docket) (f : Floor) : Prop where
  searches : ∀ s ∈ f.asleep d.id, s.InRange f.settings
  offers : ∀ o ∈ d.offers, o.InRange f.settings

/-- The outcome of an offer does not matter. -/
theorem Offer.InRange.closed {settings : Settings} {o : Offer} (h : o.InRange settings)
    (status : Offer.Status) (moment : Instant) : (o.closed status moment).InRange settings :=
  ⟨h.radius, h.busy, h.free⟩

/-- Whoever comes into question is near enough. -/
theorem Fleet.near_of_mem_candidates {settings : Settings} {fleet : Fleet} {pickup : Point}
    {radius : Float} {excluded : List Uuid} {now : Instant} {found : List Candidate}
    (h : fleet.candidates settings pickup radius excluded now = .ok found) {c : Candidate}
    (hc : c ∈ found) :
    (c.destinationMatch = true → c.distance < settings.destinationRadius) ∧
      (c.destinationMatch = false → radius.isNaN = false → c.distance ≤ radius) := by
  cases hcut : now.add? settings.freshSpan.neg with
  | none =>
      rw [candidates, Fleet.cutoff, hcut] at h
      cases h
  | some cutoff =>
      obtain rfl := Except.ok.inj ((candidates_eq hcut).symm.trans h)
      rcases List.mem_append.1 hc with hfree | hbusy
      · obtain ⟨d, -, hd⟩ := mem_freeCandidates.1 hfree
        obtain ⟨position, -, -, -, hnear, rfl⟩ := Driver.asFree?_eq_some.1 hd
        refine ⟨fun hbusy => ?_, fun _ hr => ((Driver.le_reach_iff hr _).1 hnear).1⟩
        cases hbusy
      · obtain ⟨d, -, hd⟩ := mem_busyCandidates.1 hbusy
        obtain ⟨trip, _, -, hnear, rfl⟩ := Driver.asBusy?_eq_some.1 hd
        refine ⟨fun _ => hnear, fun hfree => ?_⟩
        cases hfree

theorem Docket.InRange.congr {d d' : Docket} {f f' : Floor} (h : d.InRange f)
    (hs : f'.settings = f.settings)
    (hasleep : ∀ s ∈ f'.asleep d'.id, s ∈ f.asleep d.id ∨ s.InRange f.settings)
    (hoffers : ∀ o ∈ d'.offers, o ∈ d.offers ∨ o.InRange f.settings) : d'.InRange f' := by
  refine ⟨fun s hm => ?_, fun o hm => ?_⟩
  · rw [hs]
    exact (hasleep s hm).elim (h.searches s) fun hs => hs
  · rw [hs]
    exact (hoffers o hm).elim (h.offers o) fun ho => ho

namespace Case

variable {c c' : Case}

/-- An offer to the best candidate at one of the radii. -/
theorem draftOffer_inRange {radii : Radii} (hr : c.floor.settings.radii = some radii)
    {radius : Float} (hm : radius ∈ radii.toList) {candidate : Candidate}
    (hb : c.best? radius = .ok (some candidate)) :
    (c.draftOffer candidate radius).InRange c.floor.settings := by
  unfold best? at hb
  split at hb
  · cases hb
  · next pickup _ =>
    cases hc : Fleet.candidates c.floor.settings c.floor.fleet pickup radius c.docket.excluded
      c.floor.now with
    | error =>
        rw [hc] at hb
        cases hb
    | ok found =>
        rw [hc] at hb
        obtain ⟨rest, rfl⟩ := List.head?_eq_some_iff.1 (Except.ok.inj hb)
        obtain ⟨hbusy, hfree⟩ := Fleet.near_of_mem_candidates hc List.mem_cons_self
        refine ⟨⟨radii, hr, hm⟩, hbusy, fun hd hl => ?_⟩
        exact hfree hd (Settings.isNaN_of_mem_radii hr hl hm)

/-- The last offer is answered. -/
theorem answered_inRange {offer : Offer} {status : Offer.Status} {moment : Instant}
    {settings : Settings} (hl : c.docket.offers.getLast? = some offer)
    (h : ∀ o ∈ c.docket.offers, o.InRange settings) :
    ∀ o ∈ (c.docket.answered offer status moment).offers,
      o ∈ c.docket.offers ∨ o.InRange settings := by
  intro o hm
  rcases List.mem_append.1 hm with hm | hm
  · exact .inl (List.dropLast_subset _ hm)
  · rw [List.mem_singleton.1 hm]
    exact .inr ((h offer (List.mem_of_getLast? hl)).closed status moment)

theorem Dispatched.inRange {outcome : Outcome} (h : Dispatched c outcome c')
    (hc : c.docket.InRange c.floor) : c'.docket.InRange c'.floor := by
  cases h with
  | skipped => exact hc
  | @offered radius wider _ _ hr hb =>
      refine hc.congr rfl (fun _ hm => .inl hm) fun o hm => ?_
      rcases List.mem_append.1 hm with hm | hm
      · exact .inl hm
      · rw [List.mem_singleton.1 hm]
        exact .inr (draftOffer_inRange hr List.mem_cons_self hb)
  | @searching radius next rest _ hr =>
      refine hc.congr rfl (fun s hm => ?_) fun _ hm => .inl hm
      have hm' : s ∈ ((c.floor.sleep c.docket.id ⟨next, rest⟩).asleep c.docket.id) := hm
      rw [Floor.asleep_sleep] at hm'
      rcases List.mem_append.1 hm' with hm | hm
      · exact .inl hm
      · rw [List.mem_singleton.1 hm]
        exact .inr ⟨⟨radius, next :: rest⟩, hr, List.suffix_cons _ _⟩
  | exhausted => exact hc.congr rfl (fun _ hm => .inl hm) fun _ hm => .inl hm

theorem inRange_rule : Rule Docket.InRange where
  fewer h hs ha := h.congr hs (fun _ hm => .inl (ha.subset hm)) fun _ hm => .inl hm
  new := by
    intro record f h
    refine ⟨fun s hm => ?_, fun _ hm => by cases hm⟩
    have hm' : s ∈ f.asleep record.id := hm
    rw [h] at hm'
    cases hm'
  moved := by
    intro c c' hm hc
    cases hm with
    | dispatched hd => exact hd.inRange hc
    | excluded driver =>
        have hid : (c.docket.exclude driver).id = c.docket.id :=
          congrArg Order.id (Docket.exclude_order _ _)
        refine hc.congr rfl (fun s hm => .inl (hid ▸ hm)) fun o hm => .inl ?_
        exact Docket.exclude_offers driver c.docket ▸ hm
    | @closed offer status hl =>
        have hid : (c.drop offer status).docket.id = c.docket.id :=
          congrArg Order.id (Docket.exclude_order _ _)
        refine hc.congr (Floor.Steady.settle _ (c.drop offer status).floor).settings
          (fun s hm => .inl ?_) fun o hm => ?_
        · have hm' : s ∈ (Floor.settle _ (c.drop offer status).floor).asleep
            (c.drop offer status).docket.id := hm
          rwa [Floor.asleep_congr (Floor.settle_sleeping _ _), hid] at hm'
        · have hm' : o ∈ ((c.docket.answered offer status c.floor.now).exclude
              offer.driver).offers := hm
          rw [Docket.exclude_offers] at hm'
          exact answered_inRange hl hc.offers o hm'
    | settled =>
        refine hc.congr (Floor.Steady.settle _ _).settings (fun s hm => .inl ?_) fun _ hm => .inl hm
        have hm' : s ∈ (Floor.settle _ c.floor).asleep c.docket.id := hm
        rwa [Floor.asleep_congr (Floor.settle_sleeping _ _)] at hm'
  decided := by
    intro c c' cmd hd hc
    have hasleep : ∀ s ∈ c'.floor.asleep c'.docket.id, s ∈ c.floor.asleep c.docket.id := by
      rw [hd.id_eq, Floor.asleep_congr hd.sleeping_eq]
      exact fun _ hm => hm
    refine hc.congr hd.steady.settings (fun s hm => .inl (hasleep s hm)) fun o hm => ?_
    cases hd with
    | taken _ hl _ hclaim =>
        rw [← claim_docket hclaim] at hl hc ⊢
        exact answered_inRange hl hc.offers o hm
    | withdrawn => exact .inl hm
    | recalled =>
        have hm' : o ∈ (releaseDriver _).docket.offers := hm
        rw [releaseDriver_docket] at hm'
        exact .inl hm'
    | completed =>
        rw [completed_docket] at hm
        exact .inl hm
  resumed := by
    intro c c' f search hr hc hs hmem ha _
    obtain ⟨radii, hradii, hsuffix⟩ := hc.searches search hmem
    have hfewer : ∀ s ∈ c.floor.asleep c.docket.id, s ∈ f.asleep c.docket.id :=
      fun s hm => ha.subset hm
    cases hr with
    | abandoned | exhausted =>
        exact hc.congr hs (fun s hm => .inl (hfewer s hm)) fun _ hm => .inl hm
    | offered _ _ hb =>
        refine hc.congr hs (fun s hm => .inl (hfewer s hm)) fun o hm => ?_
        rcases List.mem_append.1 hm with hm | hm
        · exact .inl hm
        · rw [List.mem_singleton.1 hm, ← hs]
          exact .inr (draftOffer_inRange (hs ▸ hradii) (hsuffix.subset List.mem_cons_self) hb)
    | @widened next rest _ _ _ hw =>
        refine hc.congr hs (fun s hm => ?_) fun _ hm => .inl hm
        have hm' : s ∈ (c.floor.sleep c.docket.id ⟨next, rest⟩).asleep c.docket.id := hm
        rw [Floor.asleep_sleep] at hm'
        rcases List.mem_append.1 hm' with hm | hm
        · exact .inl (hfewer s hm)
        · rw [List.mem_singleton.1 hm]
          refine .inr ⟨radii, hradii, List.IsSuffix.trans ?_ hsuffix⟩
          rw [Radii.toList, Radii.toList, hw]
          exact List.suffix_cons _ _

end Case

end Hailing
