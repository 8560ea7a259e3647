import Mathlib.GroupTheory.Perm.ViaEmbedding
import Mathlib.Logic.Equiv.Fin.Basic
import Hailing.Proofs.Runs

/-!
# The identifiers of offers

An offer gets the identifier that is drawn next, so which one it gets depends on
what else was done before. Nothing else depends on it: no step of a case looks
at the identifier of an offer, it only carries it along to the docket, to the
notice and to the answer. Two desks on which the same was done in another order
are therefore the same up to a renaming (`Desk.SameUpTo`), which permutes the
identifiers that were drawn on the way and leaves the others alone.

When two pieces of work change places, so do the identifiers that they draw:
those of the first move up behind those of the second (`exists_exchange`).
-/

namespace Hailing

open Time (Instant Span)

/-- Every identifier under another name. -/
abbrev Renaming := Equiv.Perm Uuid

namespace Uuid

/-- Only what is drawn as of one number and before another one is renamed. -/
def Renames (π : Renaming) (first last : Nat) : Prop :=
  ∀ id, π id ≠ id → ∃ n, first ≤ n ∧ n < last ∧ id = .issue n

theorem Renames.one (first last : Nat) : Renames 1 first last := fun _ h => absurd rfl h

theorem Renames.mono {π : Renaming} {first last first' last' : Nat}
    (h : Renames π first last) (hf : first' ≤ first) (hl : last ≤ last') :
    Renames π first' last' := by
  intro id hid
  obtain ⟨n, hn, hn', rfl⟩ := h id hid
  exact ⟨n, Nat.le_trans hf hn, Nat.lt_of_lt_of_le hn' hl, rfl⟩

theorem Renames.mul {π ρ : Renaming} {first last : Nat} (hπ : Renames π first last)
    (hρ : Renames ρ first last) : Renames (ρ * π) first last := by
  intro id hid
  by_cases h : π id = id
  · exact hρ id fun hr => hid (by rw [Equiv.Perm.mul_apply, h, hr])
  · exact hπ id h

theorem Renames.inv {π : Renaming} {first last : Nat} (h : Renames π first last) :
    Renames π⁻¹ first last := by
  intro id hid
  refine h id fun hr => hid ?_
  rw [Equiv.Perm.inv_eq_iff_eq, hr]

/-- What is drawn before or afterwards keeps its name. -/
theorem Renames.apply_issue {π : Renaming} {first last m : Nat} (h : Renames π first last)
    (hl : last ≤ capacity) (hm : m < capacity) (hout : m < first ∨ last ≤ m) :
    π (.issue m) = .issue m := by
  by_contra hne
  obtain ⟨n, hn, hn', heq⟩ := h _ hne
  have := issue_injective hm (Nat.lt_of_lt_of_le hn' hl) heq
  omega

/-- Two blocks of identifiers that are drawn one after the other change places. -/
theorem exists_exchange {n p q : Nat} (h : n + p + q ≤ capacity) :
    ∃ π : Renaming, Renames π n (n + p + q) ∧
      (∀ i < q, π (.issue (n + i)) = .issue (n + p + i)) ∧
      ∀ i < p, π (.issue (n + q + i)) = .issue (n + i) := by
  let places : Fin (q + p) ↪ Uuid :=
    ⟨fun i => .issue (n + i), fun i j hij => Fin.ext (by
      have := issue_injective (by omega) (by omega) hij
      omega)⟩
  let flip : Equiv.Perm (Fin (q + p)) := finAddFlip.trans (finCongr (Nat.add_comm p q))
  refine ⟨flip.viaEmbedding places, fun id hid => ?_, fun i hi => ?_, fun i hi => ?_⟩
  · by_cases hmem : id ∈ Set.range places
    · obtain ⟨i, rfl⟩ := hmem
      exact ⟨n + i, by omega, by omega, rfl⟩
    · exact absurd (Equiv.Perm.viaEmbedding_apply_of_notMem flip places id hmem) hid
  · have hflip : flip ⟨i, by omega⟩ = ⟨p + i, by omega⟩ := by
      simp [flip, finAddFlip_apply_mk_left hi]
    have happly := Equiv.Perm.viaEmbedding_apply flip places ⟨i, by omega⟩
    rw [hflip] at happly
    rw [Nat.add_assoc]
    exact happly
  · have hflip : flip ⟨q + i, by omega⟩ = ⟨i, by omega⟩ := by
      simp [flip, finAddFlip_apply_mk_right (Nat.le_add_right q i)]
    have happly := Equiv.Perm.viaEmbedding_apply flip places ⟨q + i, by omega⟩
    rw [hflip] at happly
    rw [Nat.add_assoc]
    exact happly

end Uuid

/-! ## What carries identifiers along -/

def Offer.renamed (π : Renaming) (o : Offer) : Offer := { o with id := π o.id }

def Docket.renamed (π : Renaming) (d : Docket) : Docket :=
  { d with offers := d.offers.map (·.renamed π) }

def Event.renamed (π : Renaming) : Event → Event
  | .offerCreated order code offer seconds => .offerCreated order code (π offer) seconds
  | .driverFound order code driver => .driverFound order code driver
  | .orderCancelled order code => .orderCancelled order code
  | .orderCompleted order code => .orderCompleted order code

def Notice.renamed (π : Renaming) (n : Notice) : Notice :=
  { n with event := n.event.renamed π }

def Outcome.renamed (π : Renaming) : Outcome → Outcome
  | .offered offer driver radius => .offered (π offer) driver radius
  | .searching next => .searching next
  | .exhausted => .exhausted
  | .skipped reason => .skipped reason

def Reaction.renamed (π : Renaming) (r : Reaction) : Reaction :=
  { r with offer := r.offer.renamed π, next? := r.next?.map (·.renamed π) }

section Renamed

variable (π ρ : Renaming)

@[simp] theorem Offer.renamed_one (o : Offer) : o.renamed 1 = o := rfl

@[simp] theorem Offer.renamed_mul (o : Offer) :
    (o.renamed π).renamed ρ = o.renamed (ρ * π) := rfl

@[simp] theorem Docket.renamed_one (d : Docket) : d.renamed 1 = d := by
  have hsame : d.offers.map (·.renamed 1) = d.offers := List.map_id _
  rw [renamed, hsame]

@[simp] theorem Docket.renamed_mul (d : Docket) :
    (d.renamed π).renamed ρ = d.renamed (ρ * π) := by
  simp [renamed]

@[simp] theorem Notice.renamed_one (n : Notice) : n.renamed 1 = n := by
  obtain ⟨recipient, event, sentAt⟩ := n
  cases event <;> rfl

@[simp] theorem Notice.renamed_mul (n : Notice) :
    (n.renamed π).renamed ρ = n.renamed (ρ * π) := by
  obtain ⟨recipient, event, sentAt⟩ := n
  cases event <;> rfl

@[simp] theorem Outcome.renamed_one (o : Outcome) : o.renamed 1 = o := by
  cases o <;> rfl

@[simp] theorem Outcome.renamed_mul (o : Outcome) :
    (o.renamed π).renamed ρ = o.renamed (ρ * π) := by
  cases o <;> rfl

@[simp] theorem Outcome.renamed_isOffered (o : Outcome) :
    (o.renamed π).isOffered = o.isOffered := by
  cases o <;> rfl

@[simp] theorem Reaction.renamed_one (r : Reaction) : r.renamed 1 = r := by
  obtain ⟨offer, status, next?⟩ := r
  cases next? <;> simp [renamed]

@[simp] theorem Reaction.renamed_mul (r : Reaction) :
    (r.renamed π).renamed ρ = r.renamed (ρ * π) := by
  simp [renamed, Function.comp_def]

end Renamed

/-! ## No step looks at the identifier of an offer -/

namespace Docket

variable (π : Renaming) (d : Docket)

@[simp] theorem renamed_id : (d.renamed π).id = d.id := rfl

@[simp] theorem renamed_order : (d.renamed π).order = d.order := rfl

@[simp] theorem renamed_excluded : (d.renamed π).excluded = d.excluded := rfl

@[simp] theorem renamed_isPending : (d.renamed π).isPending = d.isPending := rfl

@[simp] theorem renamed_isRested (rest : Span) (now : Instant) :
    (d.renamed π).isRested rest now = d.isRested rest now := rfl

@[simp] theorem renamed_hasOutstanding : (d.renamed π).hasOutstanding = d.hasOutstanding := by
  simp [hasOutstanding, renamed, Function.comp_def, Offer.renamed, Offer.isOutstanding]

@[simp] theorem renamed_isSettled : (d.renamed π).isSettled = d.isSettled := by
  simp [isSettled]

@[simp] theorem renamed_isIdle : (d.renamed π).isIdle = d.isIdle := by
  simp [isIdle, renamed, isPending, hasOutstanding, Function.comp_def, Offer.renamed,
    Offer.isOutstanding]

@[simp] theorem renamed_skipReason? : (d.renamed π).skipReason? = d.skipReason? := by
  unfold skipReason?
  rw [renamed_isPending, renamed_hasOutstanding]
  rfl

@[simp] theorem renamed_exclude (driver : Uuid) :
    (d.renamed π).exclude driver = (d.exclude driver).renamed π := by
  unfold exclude
  rw [renamed_excluded]
  split <;> rfl

@[simp] theorem renamed_lateDrivers (window : Span) (now : Instant) :
    (d.renamed π).lateDrivers window now = d.lateDrivers window now := by
  simp [lateDrivers, renamed, List.filter_map, Function.comp_def, Offer.renamed,
    Offer.isExpired, Offer.isOutstanding]

theorem renamed_resolve? (o : Offer) (status : Offer.Status) (moment : Instant) :
    (o.renamed π).resolve? status moment = (o.resolve? status moment).map (·.renamed π) := by
  have hsame : (o.renamed π).isOutstanding = o.isOutstanding := rfl
  rw [Offer.resolve?, Offer.resolve?, hsame]
  split <;> rfl

@[simp] theorem renamed_expire (window : Span) (now : Instant) :
    (d.renamed π).expire window now = (d.expire window now).renamed π := by
  unfold expire renamed
  dsimp only
  rw [List.map_map, List.map_map]
  congr 1
  refine List.map_congr_left fun o _ => ?_
  have hsame : (o.renamed π).isExpired window now = o.isExpired window now := rfl
  simp only [Function.comp_apply, hsame, renamed_resolve?]
  split
  · cases o.resolve? .timeout now <;> rfl
  · rfl

theorem renamed_offerTo? (driver : Uuid) :
    (d.renamed π).offerTo? driver = (d.offerTo? driver).map (·.renamed π) := by
  rw [offerTo?, renamed, List.find?_map]
  rfl

theorem renamed_replaceOffer (driver : Uuid) (offer : Offer) (offers : List Offer) :
    replaceOffer driver (offer.renamed π) (offers.map (·.renamed π)) =
      (replaceOffer driver offer offers).map (·.renamed π) := by
  induction offers with
  | nil => rfl
  | cons o rest ih =>
      have hsame : (o.renamed π).isOutstandingFor driver = o.isOutstandingFor driver := rfl
      rw [List.map_cons, replaceOffer, replaceOffer, hsame, ih]
      split <;> rfl

theorem renamed_resolve (offer : Offer) (status : Offer.Status) (moment : Instant) :
    (d.renamed π).resolve (offer.renamed π) status moment =
      ((d.resolve offer status moment).1.renamed π,
        (d.resolve offer status moment).2.renamed π) := by
  have hresolved : (((offer.renamed π).resolve? status moment).getD (offer.renamed π)) =
      ((offer.resolve? status moment).getD offer).renamed π := by
    rw [renamed_resolve?]
    cases offer.resolve? status moment <;> rfl
  unfold resolve
  dsimp only
  rw [hresolved]
  simp only [renamed, ← renamed_replaceOffer]
  rfl

end Docket

/-! ## Desks that are the same -/

namespace Desk

/-- The second desk is the first one under other names of offers. In which order
searches were put to sleep and notices were sent does not matter. -/
structure SameUpTo (π : Renaming) (a b : Desk) : Prop where
  dockets : b.dockets.items = a.dockets.items.map (·.renamed π)
  settings : b.floor.settings = a.floor.settings
  clock : b.floor.clock = a.floor.clock
  openOrders : b.floor.openOrders = a.floor.openOrders
  fleet : b.floor.fleet = a.floor.fleet
  ledger : b.floor.ledger = a.floor.ledger
  lastNumber : b.floor.lastNumber = a.floor.lastNumber
  issued : b.floor.issued = a.floor.issued
  sleeping : a.floor.sleeping.Perm b.floor.sleeping
  sent : (a.floor.sent.map (·.renamed π)).Perm b.floor.sent

namespace SameUpTo

variable {π ρ : Renaming} {a b c : Desk}

theorem refl (desk : Desk) : desk.SameUpTo 1 desk := by
  constructor <;> simp

theorem trans (hab : a.SameUpTo π b) (hbc : b.SameUpTo ρ c) : a.SameUpTo (ρ * π) c where
  dockets := by
    rw [hbc.dockets, hab.dockets, List.map_map]
    exact List.map_congr_left fun d _ => Docket.renamed_mul π ρ d
  settings := hbc.settings.trans hab.settings
  clock := hbc.clock.trans hab.clock
  openOrders := hbc.openOrders.trans hab.openOrders
  fleet := hbc.fleet.trans hab.fleet
  ledger := hbc.ledger.trans hab.ledger
  lastNumber := hbc.lastNumber.trans hab.lastNumber
  issued := hbc.issued.trans hab.issued
  sleeping := hab.sleeping.trans hbc.sleeping
  sent := by
    refine .trans ?_ ((hab.sent.map (·.renamed ρ)).trans hbc.sent)
    rw [List.map_map]
    exact .of_eq (List.map_congr_left fun n _ => (Notice.renamed_mul π ρ n).symm)

theorem docket?_eq (h : a.SameUpTo π b) (order : Uuid) :
    b.docket? order = (a.docket? order).map (·.renamed π) := by
  rw [docket?, docket?, Register.find?, Register.find?, h.dockets, List.find?_map]
  rfl

end SameUpTo

end Desk

end Hailing
