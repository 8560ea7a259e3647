import Hailing.Proofs.Outcomes
import Hailing.Proofs.Radii

/-!
# From a request to its order

A request is refused for its first fault: the legs are looked at one after the other, and
of a leg the pickup, the dropoff and the price (`NewOrder.Fault`). A request that is not in
order has a fault, and each fault is told by the check (`NewOrder.inOrder_or_fault` and
`NewOrder.Fault.check_eq`), so there is a single one that comes first.

The legs of the order stand where those of the request do (`getElem?_buildLegs`). The flag
of the final stop is set by comparing places when an order is built, and looked for from
the front when it is asked where the order ends. Both mean the last leg, as no other one has
the flag.

Nothing is left to fail once a request is in order, except for the search that starts with
it. That ends if the radii do and the calendar goes back far enough; otherwise the order is
entered and there is no answer (`Desk.requests_become_orders`).
-/

namespace Hailing

open Geo (Point)
open Time (Instant)

/-! ## What is wrong with a request -/

namespace Geo.Point

def OnGlobe (p : Point) : Prop :=
  (-90.0 ≤ p.lat ∧ p.lat ≤ 90.0) ∧ -180.0 ≤ p.lng ∧ p.lng ≤ 180.0

instance (p : Point) : Decidable p.OnGlobe :=
  inferInstanceAs (Decidable ((-90.0 ≤ p.lat ∧ p.lat ≤ 90.0) ∧ -180.0 ≤ p.lng ∧ p.lng ≤ 180.0))

/-- What is said of a point that is not on the globe. -/
def refusal (p : Point) : Refusal :=
  if -90.0 ≤ p.lat ∧ p.lat ≤ 90.0 then .longitude p.lng else .latitude p.lat

theorem check_eq (p : Point) : p.check = if p.OnGlobe then .ok () else .error p.refusal := by
  unfold check OnGlobe refusal latInRange lngInRange
  simp only [← Bool.decide_and, Bool.not_eq_true', decide_eq_false_iff_not]
  by_cases hlat : -90.0 ≤ p.lat ∧ p.lat ≤ 90.0 <;>
    by_cases hlng : -180.0 ≤ p.lng ∧ p.lng ≤ 180.0 <;> simp only [hlat, hlng, not_true_eq_false,
      not_false_eq_true, and_true, and_false, if_true, if_false]

end Geo.Point

namespace Order

structure NewLeg.InOrder (leg : NewLeg) : Prop where
  pickup : leg.pickup.OnGlobe
  dropoff : leg.dropoff.OnGlobe
  price : ∀ price, leg.price = some price → price.isFinite = true ∧ 0.0 ≤ price

/-- The first thing that is wrong with a leg. -/
inductive NewLeg.Fault (leg : NewLeg) : Refusal → Prop
  | pickup (h : ¬ leg.pickup.OnGlobe) : Fault leg leg.pickup.refusal
  | dropoff (hp : leg.pickup.OnGlobe) (h : ¬ leg.dropoff.OnGlobe) :
      Fault leg leg.dropoff.refusal
  | price (hp : leg.pickup.OnGlobe) (hd : leg.dropoff.OnGlobe) {price : Float}
      (hprice : leg.price = some price) (h : ¬ (price.isFinite = true ∧ 0.0 ≤ price)) :
      Fault leg (.price price)

structure NewOrder.InOrder (request : NewOrder) : Prop where
  legs : request.legs ≠ []
  each : ∀ leg ∈ request.legs, leg.InOrder

/-- The first thing that is wrong with a request. -/
inductive NewOrder.Fault (request : NewOrder) : Refusal → Prop
  | noLegs (h : request.legs = []) : Fault request .noLegs
  | leg {before after : List NewLeg} {leg : NewLeg} {refusal : Refusal}
      (hlegs : request.legs = before ++ leg :: after) (hbefore : ∀ l ∈ before, l.InOrder)
      (h : leg.Fault refusal) : Fault request refusal

theorem checkPrice_eq (price : Float) :
    checkPrice (some price) =
      if price.isFinite = true ∧ 0.0 ≤ price then .ok () else .error (.price price) := by
  unfold checkPrice
  simp only [Bool.and_eq_true, decide_eq_true_eq]

namespace NewLeg

variable {leg : NewLeg} {refusal : Refusal}

theorem InOrder.check_eq (h : leg.InOrder) : leg.check = .ok () := by
  rw [check, Point.check_eq, Point.check_eq, if_pos h.pickup, if_pos h.dropoff]
  cases hprice : leg.price with
  | none => rfl
  | some price =>
      rw [checkPrice_eq, if_pos (h.price price hprice)]
      rfl

theorem Fault.check_eq (h : leg.Fault refusal) : leg.check = .error refusal := by
  rw [check, Point.check_eq, Point.check_eq]
  cases h with
  | pickup h =>
      rw [if_neg h]
      rfl
  | dropoff hp h =>
      rw [if_pos hp, if_neg h]
      rfl
  | price hp hd hprice h =>
      rw [if_pos hp, if_pos hd, hprice, checkPrice_eq, if_neg h]
      rfl

theorem inOrder_or_fault (leg : NewLeg) : leg.InOrder ∨ ∃ refusal, leg.Fault refusal := by
  by_cases hp : leg.pickup.OnGlobe
  · by_cases hd : leg.dropoff.OnGlobe
    · by_cases hprice : ∀ price, leg.price = some price → price.isFinite = true ∧ 0.0 ≤ price
      · exact .inl ⟨hp, hd, hprice⟩
      · push Not at hprice
        obtain ⟨price, hsome, hwrong⟩ := hprice
        exact .inr ⟨_, .price hp hd hsome fun h => hwrong h.1 h.2⟩
    · exact .inr ⟨_, .dropoff hp hd⟩
  · exact .inr ⟨_, .pickup hp⟩

end NewLeg

/-- Legs in order are passed over, and the first one that is not in order decides. -/
theorem forM_check_append {before : List NewLeg} (h : ∀ leg ∈ before, leg.InOrder)
    (rest : List NewLeg) : (before ++ rest).forM NewLeg.check = rest.forM NewLeg.check := by
  induction before with
  | nil => rfl
  | cons leg before ih =>
      obtain ⟨hleg, hbefore⟩ := List.forall_mem_cons.1 h
      show (leg.check >>= fun _ => (before ++ rest).forM NewLeg.check) = _
      rw [hleg.check_eq, ← ih hbefore]
      rfl

theorem exists_first_fault (legs : List NewLeg) :
    (∀ leg ∈ legs, leg.InOrder) ∨ ∃ before leg after refusal, legs = before ++ leg :: after ∧
      (∀ l ∈ before, l.InOrder) ∧ leg.Fault refusal := by
  induction legs with
  | nil => exact .inl (List.forall_mem_nil _)
  | cons leg rest ih =>
      rcases leg.inOrder_or_fault with hleg | ⟨refusal, hfault⟩
      · rcases ih with hrest | ⟨before, other, after, refusal, rfl, hbefore, hfault⟩
        · exact .inl (List.forall_mem_cons.2 ⟨hleg, hrest⟩)
        · exact .inr ⟨leg :: before, other, after, refusal, rfl,
            List.forall_mem_cons.2 ⟨hleg, hbefore⟩, hfault⟩
      · exact .inr ⟨[], leg, rest, refusal, rfl, List.forall_mem_nil _, hfault⟩

namespace NewOrder

variable {request : NewOrder} {refusal : Refusal}

theorem check_of_legs (h : request.legs ≠ []) :
    request.check = request.legs.forM NewLeg.check := by
  rw [check, if_neg (by simpa using h)]

theorem InOrder.check_eq (h : request.InOrder) : request.check = .ok () := by
  have hall := forM_check_append h.each []
  rw [List.append_nil] at hall
  exact (check_of_legs h.legs).trans hall

theorem Fault.check_eq (h : request.Fault refusal) : request.check = .error refusal := by
  cases h with
  | noLegs h => rw [check, if_pos (by simpa using h)]
  | leg hlegs hbefore h =>
      rw [check_of_legs (by rw [hlegs]; simp), hlegs, forM_check_append hbefore]
      show (NewLeg.check _ >>= _) = _
      rw [h.check_eq]
      rfl

theorem inOrder_or_fault (request : NewOrder) :
    request.InOrder ∨ ∃ refusal, request.Fault refusal := by
  by_cases hlegs : request.legs = []
  · exact .inr ⟨_, .noLegs hlegs⟩
  · rcases exists_first_fault request.legs with h | ⟨_, _, _, refusal, heq, hbefore, hfault⟩
    · exact .inl ⟨hlegs, h⟩
    · exact .inr ⟨refusal, .leg heq hbefore hfault⟩

theorem Fault.not_inOrder (h : request.Fault refusal) : ¬ request.InOrder := by
  intro ho
  cases ho.check_eq.symm.trans h.check_eq

end NewOrder

/-! ## The legs of an order -/

theorem length_buildLegs (speed : Float) (legs : List NewLeg) :
    (buildLegs speed legs).length = legs.length := by
  fun_induction buildLegs speed legs with
  | case1 => rfl
  | case2 leg => rfl
  | case3 leg rest hrest ih => simp [ih]

/-- Each leg stands where it was requested, and the last one is the final stop. -/
theorem getElem?_buildLegs (speed : Float) (legs : List NewLeg) (i : Nat) :
    (buildLegs speed legs)[i]? = legs[i]?.map (·.build speed (decide (i + 1 = legs.length))) := by
  fun_induction buildLegs speed legs generalizing i with
  | case1 => rfl
  | case2 leg => cases i <;> simp
  | case3 leg rest hrest ih =>
      have hpos : 0 < rest.length := List.length_pos_iff.2 fun hnil => hrest hnil
      cases i with
      | zero =>
          -- Another leg follows, so that this one is not where the request ends.
          have hlast : decide (0 + 1 = (leg :: rest).length) = false := by
            rw [decide_eq_false_iff_not, List.length_cons]
            omega
          rw [hlast]
          rfl
      | succ i => simpa using ih i

/-- The name of a category is taken as it was typed in, without the blanks around it. -/
theorem category_eq (text : Option String) :
    (entered? text).getD defaultCategory =
      match text with
      | none => "standard"
      | some name => if Text.trim name = "" then "standard" else Text.trim name := by
  cases text with
  | none => rfl
  | some name =>
      by_cases h : Text.trim name = "" <;> simp [entered?, Option.filter, h, defaultCategory]

/-- The order is the one that was asked for. -/
structure Fulfils (request : NewOrder) (o : Order) : Prop where
  rider : o.rider = request.rider
  kind : o.kind = request.kind
  status : o.status = .pending
  length : o.legs.length = request.legs.length
  leg : ∀ (i : Nat) (asked : NewLeg), request.legs[i]? = some asked → ∃ leg, o.legs[i]? = some leg ∧
    leg.pickup = asked.pickup ∧ leg.dropoff = asked.dropoff ∧ leg.price = asked.price ∧
    (leg.category = match asked.category with
      | none => "standard"
      | some name => if Text.trim name = "" then "standard" else Text.trim name) ∧
    (leg.finalStop = true ↔ i + 1 = request.legs.length)
  pickup : o.pickup? = request.legs.head?.map (·.pickup)
  destination : o.destination? = request.legs.getLast?.map (·.dropoff)

theorem fulfils_of_built {request : NewOrder} {o : Order} {speed : Float}
    (hr : o.rider = request.rider) (hk : o.kind = request.kind) (hs : o.status = .pending)
    (hl : o.legs = buildLegs speed request.legs) : o.Fulfils request where
  rider := hr
  kind := hk
  status := hs
  length := by rw [hl, length_buildLegs]
  leg := by
    intro i asked hasked
    refine ⟨asked.build speed (decide (i + 1 = request.legs.length)), ?_, rfl, rfl, rfl,
      category_eq _, decide_eq_true_iff⟩
    rw [hl, getElem?_buildLegs, hasked]
    rfl
  pickup := by
    rw [pickup?, hl, List.head?_eq_getElem?, getElem?_buildLegs, List.head?_eq_getElem?,
      Option.map_map]
    rfl
  destination := by
    rw [destination?_of_built hl, hl, List.getLast?_eq_getElem?, getElem?_buildLegs,
      length_buildLegs, List.getLast?_eq_getElem?, Option.map_map]
    rfl

end Order

namespace Desk

variable {request : Order.NewOrder} {refusal : Refusal} {desk : Desk}

theorem createOrder_of_fault (h : request.Fault refusal) :
    desk.createOrder request = (.refused refusal, desk) := by
  rw [createOrder, h.check_eq]

theorem createOrder_refused_iff :
    (desk.createOrder request).1 = .refused refusal ↔ request.Fault refusal := by
  refine ⟨fun h => ?_, fun h => congrArg Prod.fst (createOrder_of_fault h)⟩
  rcases request.inOrder_or_fault with ho | ⟨_, hfault⟩
  · rw [createOrder_eq ho.check_eq] at h
    cases hd : (desk.newCase request).dispatch.1 with
    | ok outcome => rw [hd] at h; cases h
    | error breakdown => rw [hd] at h; cases h
  · rw [createOrder_of_fault hfault] at h
    cases h
    exact hfault

/-- An order that is answered is the one that was asked for, and it is new. -/
theorem createOrder_fulfils (hu : desk.docket? desk.floor.nextId = none) {created : Created}
    (h : (desk.createOrder request).1 = .done created) :
    created.order.Fulfils request ∧ desk.docket? created.order.id = none ∧
      ∀ other, other ≠ created.order.id →
        (desk.createOrder request).2.docket? other = desk.docket? other := by
  obtain ⟨horder, -, hdesk⟩ := createOrder_done h
  rw [hdesk, horder]
  refine ⟨Order.fulfils_of_built rfl rfl rfl rfl, hu, fun other hne => ?_⟩
  rw [docket?_enter_putBack desk (newCase_id request desk)]
  exact if_neg hne.symm

/-- An order is created if and only if the request is in order, the radii end, and the
calendar goes back far enough; a request that is not in order is refused for its first fault,
and nothing changes. The order that is created is the one that was asked for, and all other
orders are as they were. -/
theorem requests_become_orders (settings : Settings) (start : Instant) (cmds : List Command)
    (hi : ((opening settings start).run cmds).floor.issued < Uuid.capacity)
    (request : Order.NewOrder) :
    let desk := (opening settings start).run cmds
    let result := desk.createOrder request
    (result.1.isDone = true ↔ request.InOrder ∧ settings.radii.isSome = true ∧
      settings.freshSpan.nanos ≤ desk.now.age) ∧
    (∀ refusal, result.1 = .refused refusal ↔ request.Fault refusal) ∧
    (¬ request.InOrder → ∃ refusal, request.Fault refusal ∧ result = (.refused refusal, desk)) ∧
    ∀ created, result.1 = .done created →
      created.order.Fulfils request ∧ desk.docket? created.order.id = none ∧
      (∃ docket, result.2.docket? created.order.id = some docket ∧
        docket.order = created.order) ∧
      ∀ other, other ≠ created.order.id → result.2.docket? other = desk.docket? other := by
  intro desk result
  have hsettings : desk.settings = settings := run_settings (opening_sound settings start) cmds
  have hunused : desk.docket? desk.floor.nextId = none :=
    (run_sound (opening_sound settings start) cmds).nextId_unused hi
  refine ⟨?_, fun refusal => createOrder_refused_iff, fun hnot => ?_, fun created h => ?_⟩
  · rcases request.inOrder_or_fault with ho | ⟨refusal, hfault⟩
    · have hends := createOrder_isDone_iff ho.check_eq desk
      rw [hsettings] at hends
      exact hends.trans (and_iff_right ho).symm
    · have hrefused : result = (.refused refusal, desk) := createOrder_of_fault hfault
      rw [hrefused]
      exact ⟨fun h => (by cases h), fun h => absurd h.1 hfault.not_inOrder⟩
  · obtain ⟨refusal, hfault⟩ := request.inOrder_or_fault.resolve_left hnot
    exact ⟨refusal, hfault, createOrder_of_fault hfault⟩
  · obtain ⟨hfulfils, hnew, hothers⟩ := createOrder_fulfils hunused h
    exact ⟨hfulfils, hnew, (createOrder_reports h).2.2, hothers⟩

theorem requests_become_orders_trial :
    let desk := (opening {} trialStart).run trialRun
    desk.floor.issued < Uuid.capacity ∧ trialRequest.InOrder ∧
      ∃ created, (desk.createOrder trialRequest).1 = .done created ∧
        created.order.Fulfils trialRequest := by
  intro desk
  have hi : desk.floor.issued < Uuid.capacity := by decide +kernel
  have hdone : (desk.createOrder trialRequest).1.isDone = true := by decide +kernel
  obtain ⟨hends, -, -, hcreated⟩ :=
    requests_become_orders {} trialStart trialRun hi trialRequest
  refine ⟨hi, (hends.1 hdone).1, ?_⟩
  cases h : (desk.createOrder trialRequest).1 with
  | done created => exact ⟨created, rfl, (hcreated created h).1⟩
  | refused | broken =>
      rw [h] at hdone
      cases hdone

/-- Where the radii do not end an order can be entered that nobody is told of. -/
theorem request_without_answer :
    let desk := opening Settings.endless trialStart
    Settings.endless.check = .ok () ∧ trialRequest.InOrder ∧
      Settings.endless.freshSpan.nanos ≤ desk.now.age ∧
      (desk.createOrder trialRequest).1 = .broken .endlessWidening := by
  intro desk
  have hinOrder : trialRequest.InOrder := by
    refine ⟨List.cons_ne_nil _ _, List.forall_mem_cons.2 ⟨?_, List.forall_mem_singleton.2 ?_⟩⟩ <;>
      exact ⟨by decide +kernel, by decide +kernel, fun _ h => by cases h⟩
  have hbreaks : (desk.newCase trialRequest).Breaks .endlessWidening :=
    ⟨rfl, .inl ⟨Settings.endless_radii, rfl⟩⟩
  refine ⟨Settings.endless_check, hinOrder, by decide +kernel, ?_⟩
  rw [createOrder_eq hinOrder.check_eq, hbreaks.dispatch_eq]
  rfl

end Desk

end Hailing
