import Mathlib.Data.List.Basic
import Hailing.Desk.Command

/-!
# The last offer decides

Everything that is true of the offers of an order comes from one fact about
how they are entered: no offer is made while another one is out, and none
after one was accepted. So every offer but the last has been turned down, by
the driver or by the time running out, and only the last one can be
outstanding or accepted. `Orderly` says this, and beside it how the last
offer goes with the stage of the order.

Under this fact the searches through the list find their way by themselves:
the outstanding offer to a driver is the last one (`offerTo?_eq_last`),
resolving it replaces the last one (`resolve_eq`), and a sweep, which goes
over all offers, does the same to at most that one (`late_cases`).
-/

namespace Hailing

open Time (Instant Span)

namespace Offer

/-- The driver has said no, or has said nothing for too long. -/
def TurnedDown (o : Offer) : Prop := o.status = .rejected ∨ o.status = .timeout

/-- The offer with its outcome. -/
def closed (status : Status) (moment : Instant) (o : Offer) : Offer :=
  { o with status := status, respondedAt? := some moment }

theorem isOutstanding_iff {o : Offer} : o.isOutstanding = true ↔ o.status = .requested := by
  simp [isOutstanding]

theorem TurnedDown.not_outstanding {o : Offer} (h : o.TurnedDown) :
    o.isOutstanding = false := by
  rcases h with h | h <;> simp [isOutstanding, h]

theorem TurnedDown.not_accepted {o : Offer} (h : o.TurnedDown) :
    o.status ≠ .accepted := by
  rcases h with h | h <;> simp [h]

theorem turnedDown_of_not {o : Offer} (ho : o.isOutstanding = false)
    (ha : o.status ≠ .accepted) : o.TurnedDown := by
  cases hs : o.status with
  | requested => simp [isOutstanding, hs] at ho
  | accepted => exact absurd hs ha
  | rejected => exact .inl hs
  | timeout => exact .inr hs

theorem resolve?_eq_closed {o : Offer} {status : Status} {moment : Instant}
    (ho : o.isOutstanding = true) (hs : status ≠ .requested) :
    o.resolve? status moment = some (o.closed status moment) := by
  simp [resolve?, ho, hs, closed]

theorem isExpired_outstanding {window : Span} {now : Instant} {o : Offer}
    (h : o.isExpired window now = true) : o.isOutstanding = true := by
  rw [isExpired, Bool.and_eq_true] at h
  exact h.1

end Offer

namespace Docket

/-! ## Drivers who are not asked again -/

@[simp] theorem exclude_order (driver : Uuid) (d : Docket) :
    (d.exclude driver).order = d.order := by
  unfold exclude; split <;> rfl

@[simp] theorem exclude_offers (driver : Uuid) (d : Docket) :
    (d.exclude driver).offers = d.offers := by
  unfold exclude; split <;> rfl

@[simp] theorem exclude_searching (driver : Uuid) (d : Docket) :
    (d.exclude driver).searching = d.searching := by
  unfold exclude; split <;> rfl

@[simp] theorem mem_exclude {driver other : Uuid} {d : Docket} :
    other ∈ (d.exclude driver).excluded ↔ other ∈ d.excluded ∨ other = driver := by
  unfold exclude
  split
  · next h =>
      have hmem : driver ∈ d.excluded := by simpa using h
      exact ⟨.inl, fun h => h.elim (fun h => h) fun he => he ▸ hmem⟩
  · simp

/-! ## The last offer -/

/-- The docket with its last offer answered. -/
def answered (offer : Offer) (status : Offer.Status) (moment : Instant) (d : Docket) :
    Docket :=
  { d with offers := d.offers.dropLast ++ [offer.closed status moment] }

/-- Only the last offer can be outstanding. -/
def OneOpen (d : Docket) : Prop := ∀ o ∈ d.offers.dropLast, o.isOutstanding = false

theorem offers_eq_of_last {d : Docket} {offer : Offer}
    (h : d.offers.getLast? = some offer) : d.offers = d.offers.dropLast ++ [offer] :=
  (List.dropLast_append_getLast? offer h).symm

theorem hasOutstanding_of_last {d : Docket} {offer : Offer}
    (h : d.offers.getLast? = some offer) (ho : offer.isOutstanding = true) :
    d.hasOutstanding = true :=
  List.any_eq_true.2 ⟨offer, List.mem_of_getLast? h, ho⟩

theorem earlier_or_last {d : Docket} {offer : Offer} (h : offer ∈ d.offers) :
    offer ∈ d.offers.dropLast ∨ d.offers.getLast? = some offer := by
  cases hl : d.offers.getLast? with
  | none => rw [List.getLast?_eq_none_iff.1 hl] at h; cases h
  | some last =>
      rw [offers_eq_of_last hl, List.mem_append, List.mem_singleton] at h
      exact h.imp_right fun he => congrArg some he.symm

/-- The outstanding offer to a driver is the last one. -/
theorem OneOpen.offerTo?_eq_last {d : Docket} (h : d.OneOpen) {driver : Uuid}
    {offer : Offer} (ho : d.offerTo? driver = some offer) :
    d.offers.getLast? = some offer ∧ offer.isOutstanding = true ∧
      offer.driver = driver := by
  have hfor : offer.isOutstanding = true ∧ offer.driver = driver := by
    simpa [Offer.isOutstandingFor] using List.find?_some ho
  refine ⟨?_, hfor⟩
  rcases earlier_or_last (List.mem_of_find?_eq_some ho) with hmem | hl
  · rw [h offer hmem] at hfor
    cases hfor.1
  · exact hl

theorem OneOpen.offerTo?_of_last {d : Docket} (h : d.OneOpen) {offer : Offer}
    (hl : d.offers.getLast? = some offer) (ho : offer.isOutstanding = true) :
    d.offerTo? offer.driver = some offer := by
  have hearlier : d.offers.dropLast.find? (·.isOutstandingFor offer.driver) = none :=
    List.find?_eq_none.2 fun o hm => by simp [Offer.isOutstandingFor, h o hm]
  rw [offerTo?, offers_eq_of_last hl, List.find?_append, hearlier]
  simp [Offer.isOutstandingFor, ho]

theorem replaceOffer_concat {driver : Uuid} {old : Offer} {earlier : List Offer}
    (new : Offer) (h : ∀ o ∈ earlier, o.isOutstanding = false)
    (hold : old.isOutstandingFor driver = true) :
    replaceOffer driver new (earlier ++ [old]) = earlier ++ [new] := by
  induction earlier with
  | nil => simp [replaceOffer, hold]
  | cons o rest ih =>
      have ho : o.isOutstandingFor driver = false := by
        simp [Offer.isOutstandingFor, h o List.mem_cons_self]
      rw [List.cons_append, replaceOffer, ho,
        ih fun o ho => h o (List.mem_cons_of_mem _ ho)]
      rfl

/-- Resolving an outstanding offer answers the last one. -/
theorem OneOpen.resolve_eq {d : Docket} (h : d.OneOpen) (moment : Instant)
    {offer : Offer} {status : Offer.Status}
    (hl : d.offers.getLast? = some offer) (ho : offer.isOutstanding = true)
    (hs : status ≠ .requested) :
    d.resolve offer status moment =
      (offer.closed status moment, d.answered offer status moment) := by
  have hfor : offer.isOutstandingFor offer.driver = true := by
    simp [Offer.isOutstandingFor, ho]
  have hreplace := replaceOffer_concat (offer.closed status moment) h hfor
  rw [← offers_eq_of_last hl] at hreplace
  simp only [resolve, Offer.resolve?_eq_closed ho hs, Option.getD_some, hreplace, answered]

/-! ## What a sweep finds -/

theorem map_expire_eq (window : Span) (now : Instant) {offers : List Offer}
    (h : ∀ o ∈ offers, o.isOutstanding = false) :
    offers.map (fun o =>
      if o.isExpired window now then (o.resolve? .timeout now).getD o else o) = offers := by
  refine (List.map_congr_left fun o hmem => ?_).trans (List.map_id offers)
  simp [Offer.isExpired, h o hmem]

theorem filter_isExpired_eq (window : Span) (now : Instant) {offers : List Offer}
    (h : ∀ o ∈ offers, o.isOutstanding = false) :
    offers.filter (·.isExpired window now) = [] :=
  List.filter_eq_nil_iff.2 fun o hmem => by simp [Offer.isExpired, h o hmem]

/-- A sweep finds nothing late, or it finds the last offer late and answers it. -/
theorem OneOpen.late_cases {d : Docket} (h : d.OneOpen) (window : Span) (now : Instant) :
    (d.lateDrivers window now = [] ∧ d.expire window now = d) ∨
      ∃ offer, d.offers.getLast? = some offer ∧ offer.isExpired window now = true ∧
        d.lateDrivers window now = [offer.driver] ∧
        d.expire window now = d.answered offer .timeout now := by
  have hearlier := map_expire_eq window now h
  have hfilter := filter_isExpired_eq window now h
  cases hl : d.offers.getLast? with
  | none =>
      have hnil := List.getLast?_eq_none_iff.1 hl
      left
      simp only [lateDrivers, expire, hnil]
      exact ⟨rfl, by cases d; simp_all⟩
  | some offer =>
      have heq := offers_eq_of_last hl
      cases he : offer.isExpired window now with
      | false =>
          left
          constructor
          · rw [lateDrivers, heq, List.filter_append, hfilter]
            simp [he]
          · have hsame : d.offers.map (fun o => if o.isExpired window now then
                (o.resolve? .timeout now).getD o else o) = d.offers := by
              rw [heq, List.map_append, hearlier]
              simp [he]
            rw [expire, hsame]
      | true =>
          have ho := Offer.isExpired_outstanding he
          refine .inr ⟨offer, rfl, he, ?_, ?_⟩
          · rw [lateDrivers, heq, List.filter_append, hfilter]
            simp [he]
          · have hlast : d.offers.map (fun o => if o.isExpired window now then
                (o.resolve? .timeout now).getD o else o) =
                d.offers.dropLast ++ [offer.closed .timeout now] := by
              conv_lhs => rw [heq]
              rw [List.map_append, hearlier]
              simp [he, Offer.resolve?_eq_closed ho]
            rw [expire, hlast, answered]

/-! ## Orderly dockets -/

/-- The driver who accepted the last offer. -/
def takenBy? (d : Docket) : Option Uuid :=
  d.offers.getLast?.bind fun o => if o.status = .accepted then some o.driver else none

/-- How the offers of an order go with its stage. -/
structure Orderly (d : Docket) : Prop where
  earlier : ∀ o ∈ d.offers.dropLast, o.TurnedDown
  driver_eq : d.order.driver? = d.takenBy?
  waits : d.order.status = .pending → d.takenBy? = none
  driven : d.order.status = .confirmed ∨ d.order.status = .completed →
    d.takenBy?.isSome = true

namespace Orderly

variable {d : Docket}

theorem oneOpen (h : d.Orderly) : d.OneOpen :=
  fun o ho => (h.earlier o ho).not_outstanding

theorem new (order : Order) (hs : order.status = .pending) (hd : order.driver? = none) :
    (Docket.new order).Orderly where
  earlier := by intro o ho; cases ho
  driver_eq := hd
  waits := fun _ => rfl
  driven := by rintro (h | h) <;> simp [Docket.new, hs] at h

theorem exists_driver (h : d.Orderly)
    (hs : d.order.status = .confirmed ∨ d.order.status = .completed) :
    ∃ driver, d.order.driver? = some driver := by
  rw [h.driver_eq]
  exact Option.isSome_iff_exists.1 (h.driven hs)

/-- Only the offers and the order count. -/
theorem congr {d' : Docket} (h : d.Orderly) (ho : d'.order = d.order)
    (hf : d'.offers = d.offers) : d'.Orderly := by
  have ht : d'.takenBy? = d.takenBy? := by rw [takenBy?, hf, takenBy?]
  exact ⟨hf ▸ h.earlier, by rw [ho, ht, h.driver_eq], by rw [ho, ht]; exact h.waits,
    by rw [ho, ht]; exact h.driven⟩

theorem takenBy?_of_outstanding {offer : Offer} (hl : d.offers.getLast? = some offer)
    (ho : offer.isOutstanding = true) : d.takenBy? = none := by
  rw [Offer.isOutstanding_iff] at ho
  simp [takenBy?, hl, ho]

/-- The last offer of an order that waits is turned down, unless it is out. -/
theorem turnedDown_of_waiting (h : d.Orderly) (hp : d.order.status = .pending)
    (hn : d.hasOutstanding = false) : ∀ o ∈ d.offers, o.TurnedDown := by
  intro o hmem
  rcases earlier_or_last hmem with hmem | hl
  · exact h.earlier o hmem
  · have hout : o.isOutstanding = false := by
      cases ho : o.isOutstanding with
      | false => rfl
      | true => rw [hasOutstanding_of_last hl ho] at hn; cases hn
    refine Offer.turnedDown_of_not hout fun ha => ?_
    have hnone := h.waits hp
    simp [takenBy?, hl, ha] at hnone

/-- A new offer may be entered while the order waits and none is out. -/
theorem offered (h : d.Orderly) (hp : d.order.status = .pending)
    (hn : d.hasOutstanding = false) {offer : Offer} (ho : offer.isOutstanding = true) :
    Orderly { d with offers := d.offers ++ [offer] } := by
  have ht : takenBy? { d with offers := d.offers ++ [offer] } = none :=
    takenBy?_of_outstanding (by simp) ho
  refine ⟨?_, ?_, fun _ => ht, ?_⟩
  · simpa using h.turnedDown_of_waiting hp hn
  · rw [ht, ← h.waits hp]
    exact h.driver_eq
  · rintro (hc | hc) <;> simp [hp] at hc

/-- An outstanding offer may be turned down at any stage. -/
theorem turnedDown (h : d.Orderly) {offer : Offer} {status : Offer.Status}
    {moment : Instant} (hl : d.offers.getLast? = some offer)
    (ho : offer.isOutstanding = true) (hs : status = .rejected ∨ status = .timeout) :
    (d.answered offer status moment).Orderly := by
  have hbefore := takenBy?_of_outstanding hl ho
  have hafter : (d.answered offer status moment).takenBy? = none := by
    rcases hs with rfl | rfl <;> simp [answered, takenBy?, Offer.closed]
  refine ⟨?_, ?_, fun _ => hafter, fun hc => ?_⟩
  · simpa [answered] using h.earlier
  · rw [hafter, ← hbefore]
    exact h.driver_eq
  · have := h.driven hc
    rw [hbefore] at this
    cases this

/-- The order goes to the driver of the last offer. -/
theorem confirmed (h : d.Orderly) {offer : Offer} {moment : Instant} {order : Order}
    (hs : order.status = .confirmed) (hd : order.driver? = some offer.driver) :
    Orderly { d.answered offer .accepted moment with order := order } := by
  have ht : takenBy? { d.answered offer .accepted moment with order := order } =
      some offer.driver := by
    simp [answered, takenBy?, Offer.closed]
  refine ⟨?_, by rw [ht]; exact hd, fun hc => ?_, fun _ => by rw [ht]; rfl⟩
  · simpa [answered] using h.earlier
  · simp [hs] at hc

/-- An order that nobody drives on may stand beside any offers. -/
theorem closed (h : d.Orderly) (order : Order) (hd : order.driver? = d.order.driver?)
    (hp : order.status ≠ .pending)
    (hc : order.status = .confirmed ∨ order.status = .completed →
      d.order.status = .confirmed ∨ d.order.status = .completed) :
    Orderly { d with order := order } :=
  ⟨h.earlier, hd.trans h.driver_eq, fun hs => absurd hs hp, fun hs => h.driven (hc hs)⟩

/-- Of a kind of offer that is none of those turned down there is at most the
last one. -/
theorem countP_eq {p : Offer → Bool} (h : d.Orderly)
    (hp : ∀ o, o.TurnedDown → p o = false) :
    d.offers.countP p = d.offers.getLast?.toList.countP p := by
  cases hl : d.offers.getLast? with
  | none => simp [List.getLast?_eq_none_iff.1 hl]
  | some offer =>
      have hzero : d.offers.dropLast.countP p = 0 :=
        List.countP_eq_zero.2 fun o ho => by simp [hp o (h.earlier o ho)]
      rw [offers_eq_of_last hl, List.countP_append, hzero, Nat.zero_add]
      rfl

theorem countP_status (h : d.Orderly) {status : Offer.Status}
    (hr : status ≠ .rejected) (ht : status ≠ .timeout) :
    d.offers.countP (·.status = status) =
      d.offers.getLast?.toList.countP (·.status = status) := by
  refine h.countP_eq fun o ho => ?_
  rcases ho with ho | ho
  · simpa [ho] using hr.symm
  · simpa [ho] using ht.symm

theorem countP_toList_le_one (o : Option Offer) (p : Offer → Bool) :
    o.toList.countP p ≤ 1 :=
  Nat.le_trans List.countP_le_length (by cases o <;> simp)

/-- Of the offers of an order one is outstanding, or none. -/
theorem countP_requested (h : d.Orderly) :
    d.offers.countP (·.status = .requested) = if d.hasOutstanding then 1 else 0 := by
  have hle : d.offers.countP (·.status = .requested) ≤ 1 := by
    rw [h.countP_status (by decide) (by decide)]
    exact countP_toList_le_one _ _
  split
  · next ho =>
      have hpos : 0 < d.offers.countP (·.status = .requested) := by
        obtain ⟨o, hmem, hs⟩ := List.any_eq_true.1 ho
        exact List.countP_pos_iff.2 ⟨o, hmem, hs⟩
      omega
  · next ho =>
      refine List.countP_eq_zero.2 fun o hmem hs => ho ?_
      exact List.any_eq_true.2 ⟨o, hmem, hs⟩

end Orderly

end Docket

end Hailing
