import Hailing.Proofs.NoticeHistory
import Hailing.Proofs.Renaming

/-!
# Identifiers that were drawn

Every offer on a docket has an identifier that was drawn before, and a notice
of an offer has that of an offer on the docket of its order. So what a desk
holds does not change when identifiers that are drawn later get other names
(`Docket.Drawn.renamed_eq`, `Desk.Drawn.notice_eq`).

An offer keeps its identifier when it is answered. The only new one on a docket
is that of a new offer, which is drawn in the same step.
-/

namespace Hailing

open Time (Instant)

namespace Uuid

/-- One of the first identifiers. -/
def Drawn (issued : Nat) (id : Uuid) : Prop := ∃ n < issued, id = .issue n

theorem Drawn.mono {issued issued' : Nat} {id : Uuid} (h : id.Drawn issued)
    (hle : issued ≤ issued') : id.Drawn issued' := by
  obtain ⟨n, hn, rfl⟩ := h
  exact ⟨n, Nat.lt_of_lt_of_le hn hle, rfl⟩

theorem Drawn.apply_eq {π : Renaming} {first last : Nat} {id : Uuid} (h : id.Drawn first)
    (hπ : Renames π first last) (hf : first ≤ last) (hl : last ≤ capacity) : π id = id := by
  obtain ⟨n, hn, rfl⟩ := h
  exact hπ.apply_issue hl (Nat.lt_of_lt_of_le hn (Nat.le_trans hf hl)) (.inl hn)

end Uuid

namespace Docket

/-- The identifiers of the offers. -/
def offerIds (d : Docket) : List Uuid := d.offers.map (·.id)

theorem answered_offerIds {d : Docket} {offer : Offer} (hl : d.offers.getLast? = some offer)
    (status : Offer.Status) (moment : Instant) :
    (d.answered offer status moment).offerIds = d.offerIds := by
  rw [offerIds, offerIds, offers_eq_of_last hl]
  simp [answered, Offer.closed]

theorem exclude_offerIds (driver : Uuid) (d : Docket) :
    (d.exclude driver).offerIds = d.offerIds := by
  rw [offerIds, exclude_offers, offerIds]

/-- Only offers are told as offers. -/
theorem mem_offerIds_of_messages {settings : Settings} {d : Docket} {recipient : Uuid}
    {order : Uuid} {code : String} {offer : Uuid} {seconds : UInt64}
    (h : (recipient, .offerCreated order code offer seconds) ∈ d.messages settings) :
    offer ∈ d.offerIds := by
  simp only [messages, List.mem_append] at h
  rcases h with (h | h) | h
  · obtain ⟨o, hm, he⟩ := List.mem_map.1 h
    cases he
    exact List.mem_map_of_mem hm
  · obtain ⟨driver, -, he⟩ := List.mem_map.1 h
    cases he
  · unfold endMessages at h
    split at h
    · cases List.mem_singleton.1 h
    · cases List.mem_singleton.1 h
    · cases h

def Drawn (issued : Nat) (d : Docket) : Prop := ∀ id ∈ d.offerIds, id.Drawn issued

variable {issued issued' : Nat} {d d' : Docket}

theorem Drawn.congr (h : d.Drawn issued) (hle : issued ≤ issued')
    (hids : d'.offerIds = d.offerIds) : d'.Drawn issued' :=
  fun id hm => (h id (hids ▸ hm)).mono hle

theorem Drawn.renamed_eq {π : Renaming} {first last : Nat} (h : d.Drawn first)
    (hπ : Uuid.Renames π first last) (hf : first ≤ last) (hl : last ≤ Uuid.capacity) :
    d.renamed π = d := by
  have hsame : d.offers.map (·.renamed π) = d.offers := by
    refine (List.map_congr_left fun o hm => ?_).trans (List.map_id _)
    rw [Offer.renamed, (h o.id (List.mem_map_of_mem hm)).apply_eq hπ hf hl]
    rfl
  rw [renamed, hsame]

end Docket

namespace Case

/-! ## Steps draw what they need -/

theorem makeOffer_drawn {c : Case} (h : c.docket.Drawn c.floor.issued) (candidate : Candidate)
    (radius : Float) :
    (c.makeOffer (c.draftOffer candidate radius)).docket.Drawn
      (c.makeOffer (c.draftOffer candidate radius)).floor.issued := by
  intro id hm
  rw [Docket.offerIds, makeOffer, List.map_append, List.mem_append] at hm
  rcases hm with hm | hm
  · exact (h id hm).mono (Nat.le_succ _)
  · obtain rfl := List.mem_singleton.1 hm
    exact ⟨c.floor.issued, Nat.lt_succ_self _, rfl⟩

theorem Move.drawn {c c' : Case} (hm : Move c c') (h : c.docket.Drawn c.floor.issued) :
    c'.docket.Drawn c'.floor.issued := by
  cases hm with
  | dispatched hd =>
      cases hd with
      | skipped => exact h
      | offered => exact makeOffer_drawn h _ _
      | searching | exhausted => exact h.congr (Nat.le_refl _) rfl
  | excluded driver => exact h.congr (Nat.le_refl _) (Docket.exclude_offerIds _ _)
  | @closed offer status hl =>
      refine h.congr (Nat.le_of_eq (Floor.settle_issued _ (c.drop offer status).floor).symm) ?_
      rw [← Docket.answered_offerIds hl status c.floor.now]
      exact Docket.exclude_offerIds _ _
  | settled => exact h.congr (Nat.le_of_eq (Floor.settle_issued _ c.floor).symm) rfl

theorem Moves.drawn {c c' : Case} (hm : Moves c c') (h : c.docket.Drawn c.floor.issued) :
    c'.docket.Drawn c'.floor.issued := by
  induction hm with
  | refl => exact h
  | tail _ hm ih => exact hm.drawn ih

theorem Resumed.drawn {radii : Radii} {c c' : Case} (hr : Resumed radii c c')
    (h : c.docket.Drawn c.floor.issued) : c'.docket.Drawn c'.floor.issued := by
  cases hr with
  | @offered candidate => exact (makeOffer_drawn h candidate radii.first).congr (Nat.le_refl _) rfl
  | abandoned | exhausted | widened => exact h.congr (Nat.le_refl _) rfl

theorem Decided.offerIds_eq {c c' : Case} {cmd : Command} (h : Decided c cmd c') :
    c'.docket.offerIds = c.docket.offerIds := by
  cases h with
  | taken _ hl _ hc =>
      rw [← claim_docket hc] at hl ⊢
      exact Docket.answered_offerIds hl _ _
  | withdrawn => rfl
  | recalled =>
      show (releaseDriver _).docket.offerIds = _
      rw [releaseDriver_docket]
      rfl
  | completed =>
      rw [completed_docket]
      rfl

/-! ## A piece of work draws one identifier at most -/

theorem Dispatched.issued_le {c c' : Case} {outcome : Outcome} (h : Dispatched c outcome c') :
    c'.floor.issued ≤ c.floor.issued + 1 := by
  cases h with
  | skipped | searching | exhausted => exact Nat.le_succ _
  | offered => exact Nat.le_refl _

/-- A dispatch that makes an offer leaves the order with one. -/
theorem Dispatched.hasOutstanding {c c' : Case} {outcome : Outcome} (h : Dispatched c outcome c')
    (hi : c'.floor.issued ≠ c.floor.issued) : c'.docket.hasOutstanding = true := by
  cases h with
  | skipped | searching | exhausted => exact absurd rfl hi
  | offered =>
      exact List.any_eq_true.2 ⟨_, List.mem_append_right _ (List.mem_singleton.2 rfl), rfl⟩

theorem dispatch_issued_le (c : Case) : c.dispatch.2.floor.issued ≤ c.floor.issued + 1 := by
  rcases dispatch_cases c with ⟨_, h⟩ | ⟨_, _, h, hd⟩
  · rw [h]
    exact Nat.le_succ _
  · rw [h]
    exact hd.issued_le

theorem resume_issued_le (radii : Radii) (c : Case) :
    (c.resume radii).2.floor.issued ≤ c.floor.issued + 1 := by
  rcases resume_cases radii c with ⟨_, h⟩ | ⟨_, h, hr⟩
  · rw [h]
    exact Nat.le_succ _
  · rw [h]
    cases hr with
    | abandoned | exhausted | widened => exact Nat.le_succ _
    | offered => exact Nat.le_refl _

theorem retry_issued_le (c : Case) : c.retry.2.floor.issued ≤ c.floor.issued + 1 := by
  unfold retry
  split
  · exact Nat.le_succ _
  · exact dispatch_issued_le c

theorem reject_issued_le {c : Case} (h : c.docket.OneOpen) (driver : Uuid) :
    (c.respond driver .reject).2.floor.issued ≤ c.floor.issued + 1 := by
  rcases reject_cases h driver with ⟨_, hr⟩ | ⟨offer, -, -, -, ⟨-, _, hr⟩ | ⟨-, _, hr⟩⟩
  · rw [hr]
    exact Nat.le_succ _
  · rw [hr]
    exact dispatch_issued_le (c.drop offer .rejected)
  · rw [hr]
    exact (Floor.settle_issued _ _).trans_le (Nat.le_succ _)

theorem Expired.issued_le {report : SweepReport} {c c₁ : Case}
    {result : Except Breakdown SweepReport} (h : Expired report c result c₁) :
    c₁.floor.issued = c.floor.issued ∨
      c₁.floor.issued = c.floor.issued + 1 ∧ c₁.docket.hasOutstanding = true := by
  cases h with
  | none | kept | broken => exact .inl rfl
  | @reassigned offer _ _ _ _ _ hd =>
      have hle : c₁.floor.issued ≤ c.floor.issued + 1 := hd.issued_le
      by_cases hi : c₁.floor.issued = c.floor.issued
      · exact .inl hi
      · have hge : c.floor.issued ≤ c₁.floor.issued := hd.later.issued_le
        exact .inr ⟨by omega, hd.hasOutstanding hi⟩

/-- An offer that replaces a late one is the only one that a sweep makes. -/
theorem sweep_issued_le {c : Case} (h : c.docket.OneOpen) (report : SweepReport) :
    (c.sweep report).2.floor.issued ≤ c.floor.issued + 1 := by
  rcases sweep_cases h report with ⟨_, c', hs, he⟩ | ⟨report₁, c₁, he, hrest⟩
  · rw [hs]
    rcases he.issued_le with hi | ⟨hi, -⟩
    · exact hi.trans_le (Nat.le_succ _)
    · exact Nat.le_of_eq hi
  · have hretried : ∀ {result c₂}, Retried report₁ c₁ result c₂ →
        c₂.floor.issued ≤ c.floor.issued + 1 := by
      intro result c₂ hr
      rcases he.issued_le with hi | ⟨hi, ho⟩
      · cases hr with
        | none | broken => omega
        | redispatched _ _ hd =>
            have := hd.issued_le
            omega
      · cases hr with
        | none | broken => omega
        | redispatched hidle => simp [Docket.isIdle, ho] at hidle
    rcases hrest with ⟨_, c', hs, hr⟩ | ⟨_, c₂, hr, hs⟩
    · rw [hs]
      exact hretried hr
    · rw [hs]
      exact (Floor.settle_issued _ c₂.floor).trans_le (hretried hr)

end Case

namespace Desk

/-! ## On the desk -/

/-- Every offer that is on a docket or was told of has an identifier that was
drawn. -/
structure Drawn (desk : Desk) : Prop where
  sound : desk.Sound
  offers : ∀ {order docket}, desk.docket? order = some docket →
    docket.Drawn desk.floor.issued
  told : desk.Told

variable {desk desk' : Desk}

theorem offers_drawn_putBack
    (h : ∀ {order docket}, desk.docket? order = some docket → docket.Drawn desk.floor.issued)
    {c : Case} (hle : desk.floor.issued ≤ c.floor.issued)
    (hc : c.docket.Drawn c.floor.issued) {order : Uuid} {docket : Docket}
    (hd : (desk.putBack c).docket? order = some docket) :
    docket.Drawn (desk.putBack c).floor.issued := by
  rcases docket?_putBack_cases hd with ⟨-, rfl⟩ | ⟨-, hd⟩
  · exact hc
  · exact (h hd).congr hle rfl

theorem Move.drawn (hm : Move desk desk') (hi : desk'.floor.issued ≤ Uuid.capacity)
    (h : desk.Drawn) : desk'.Drawn where
  sound := hm.sound h.sound
  told := hm.told h.sound hi h.told
  offers := by
    intro order docket hd
    cases hm with
    | worked hf hm =>
        exact offers_drawn_putBack h.offers hm.later.issued_le (hm.drawn (h.offers hf)) hd
    | entered =>
        rw [docket?_enter] at hd
        rw [enter_issued]
        split at hd
        · obtain rfl := Option.some.inj hd
          intro id hm
          cases hm
        · exact (h.offers hd).congr (Nat.le_succ _) rfl
    | reported | madeAvailable | sweepCounted => exact h.offers hd

theorem Moves.drawn (hm : Moves desk desk') (hi : desk'.floor.issued ≤ Uuid.capacity)
    (h : desk.Drawn) : desk'.Drawn := by
  induction hm with
  | refl => exact h
  | tail _ hm ih => exact hm.drawn hi (ih (Nat.le_trans hm.issued_le hi))

theorem Turn.drawn {cmd : Command} (ht : Turn desk cmd desk')
    (hi : desk'.floor.issued ≤ Uuid.capacity) (h : desk.Drawn) : desk'.Drawn := by
  have hsound := ht.sound h.sound
  have htold := ht.told h.sound hi h.told
  cases ht with
  | passed _ hm => exact Moves.drawn hm.moves hi h
  | decided hd _ hc =>
      exact ⟨hsound, offers_drawn_putBack h.offers hc.later.issued_le
        ((h.offers hd).congr hc.later.issued_le hc.offerIds_eq), htold⟩
  | woken _ hd hr =>
      have htaken := hr.drawn (h.offers hd)
      exact ⟨hsound, offers_drawn_putBack h.offers hr.later.issued_le htaken, htold⟩
  | lost | claimed | freed | clockSet => exact ⟨hsound, h.offers, htold⟩

theorem run_drawn {settings : Settings} {start : Instant} {cmds : List Command}
    (hi : ((opening settings start).run cmds).floor.issued ≤ Uuid.capacity) :
    ((opening settings start).run cmds).Drawn := by
  have hopen := opening_sound settings start
  refine run_induction (P := fun _ desk => desk.Drawn) hopen ⟨hopen, ?_, fun _ => rfl⟩
    (fun _ _ _ ht hi h => ht.drawn hi h) hi
  intro order docket hd
  cases hd

/-! ## Later identifiers make no difference -/

section Renamed

variable {π : Renaming} {last : Nat}

theorem Drawn.docket_eq (h : desk.Drawn) (hπ : Uuid.Renames π desk.floor.issued last)
    (hf : desk.floor.issued ≤ last) (hl : last ≤ Uuid.capacity) {order : Uuid} {docket : Docket}
    (hd : desk.docket? order = some docket) : docket.renamed π = docket :=
  (h.offers hd).renamed_eq hπ hf hl

/-- A notice of an offer is about an offer on a docket. -/
theorem Drawn.notice_eq (h : desk.Drawn) (hπ : Uuid.Renames π desk.floor.issued last)
    (hf : desk.floor.issued ≤ last) (hl : last ≤ Uuid.capacity) {notice : Notice}
    (hm : notice ∈ desk.floor.sent) : notice.renamed π = notice := by
  obtain ⟨recipient, event, sentAt⟩ := notice
  cases event with
  | offerCreated order code offer seconds =>
      have hsent : (recipient, .offerCreated order code offer seconds) ∈
          desk.messagesAbout order :=
        List.mem_map.2 ⟨_, List.mem_filter.2 ⟨hm, decide_eq_true rfl⟩, rfl⟩
      rw [h.told order] at hsent
      cases hd : desk.docket? order with
      | none => simp [messagesDue, hd] at hsent
      | some docket =>
          rw [messagesDue_of_docket? hd] at hsent
          have hid : offer ∈ docket.offerIds := Docket.mem_offerIds_of_messages hsent
          have hsame := (h.offers hd offer hid).apply_eq hπ hf hl
          rw [Notice.renamed, Event.renamed, hsame]
  | driverFound | orderCancelled | orderCompleted => rfl

end Renamed

end Desk

end Hailing
