import Hailing.Proofs.Renaming

/-!
# What work leaves on the floor

Whatever is done to an order, on the floor it only adds to what is there, or
takes away what belongs to that order: it counts, sends notices, puts searches
to sleep and draws identifiers, and it may take the order off the open ones,
wake its search up, or change the entry of its driver. So the floor after some
work is the floor before and a trace of the work (`Floor.leave`).

The other half is what work sees of the floor. A search looks at the settings,
the clock and the fleet, and at nothing that other orders leave behind. On a
floor that looks the same (`Floor.Alike`) it does the same and leaves the same
trace, except that an offer gets whichever identifier is next there
(`Case.Traced`). Both halves together make the work on different orders
independent of each other.
-/

namespace Hailing

open Time (Instant Span)

namespace Ledger

/-- Counts are added up, each to its own. -/
instance : Add Ledger where
  add a b :=
    { requested := a.requested + b.requested
      accepted := a.accepted + b.accepted
      rejected := a.rejected + b.rejected
      timeouts := a.timeouts + b.timeouts
      abandoned := a.abandoned + b.abandoned
      exhausted := a.exhausted + b.exhausted
      offered := a.offered + b.offered
      pending := a.pending + b.pending
      sweeps := a.sweeps + b.sweeps }

theorem add_def (a b : Ledger) :
    a + b =
      { requested := a.requested + b.requested
        accepted := a.accepted + b.accepted
        rejected := a.rejected + b.rejected
        timeouts := a.timeouts + b.timeouts
        abandoned := a.abandoned + b.abandoned
        exhausted := a.exhausted + b.exhausted
        offered := a.offered + b.offered
        pending := a.pending + b.pending
        sweeps := a.sweeps + b.sweeps } := rfl

@[simp] theorem add_nothing (a : Ledger) : a + {} = a := by
  simp [add_def]

protected theorem add_assoc (a b c : Ledger) : a + b + c = a + (b + c) := by
  simp [add_def, Nat.add_assoc, Int.add_assoc]

protected theorem add_right_comm (a b c : Ledger) : a + b + c = a + c + b := by
  simp [add_def, Nat.add_right_comm, Int.add_right_comm]

end Ledger

/-- What the work on an order leaves on the floor. -/
structure Trace where
  /-- The order is no longer open. -/
  closes : Bool := false
  /-- The entry of its driver has changed. -/
  changed? : Option Driver := none
  counted : Ledger := {}
  /-- Which one of its searches has been woken up. -/
  wakes? : Option Nat := none
  /-- The radii that are left, and when the search goes on with them. -/
  slept : List (Radii × Nat) := []
  told : List Notice := []
  /-- How many identifiers were drawn. -/
  drawn : Nat := 0

namespace Trace

def renamed (π : Renaming) (t : Trace) : Trace := { t with told := t.told.map (·.renamed π) }

/-- The trace of a search: it wakes no search up and changes no driver. -/
structure Plain (t : Trace) : Prop where
  entry : t.changed? = none
  wakes : t.wakes? = none

def andThen (t u : Trace) : Trace :=
  { closes := t.closes || u.closes
    changed? := t.changed?
    counted := t.counted + u.counted
    wakes? := t.wakes?
    slept := t.slept ++ u.slept
    told := t.told ++ u.told
    drawn := t.drawn + u.drawn }

@[simp] theorem renamed_one (t : Trace) : t.renamed 1 = t := by
  have hsame : t.told.map (·.renamed 1) = t.told :=
    (List.map_congr_left fun n _ => n.renamed_one).trans (List.map_id _)
  rw [renamed, hsame]

@[simp] theorem renamed_mul (π ρ : Renaming) (t : Trace) :
    (t.renamed π).renamed ρ = t.renamed (ρ * π) := by
  simp [renamed]

@[simp] theorem renamed_andThen (π : Renaming) (t u : Trace) :
    (t.andThen u).renamed π = (t.renamed π).andThen (u.renamed π) := by
  simp [renamed, andThen]

theorem Plain.renamed {t : Trace} (h : t.Plain) (π : Renaming) : (t.renamed π).Plain :=
  ⟨h.entry, h.wakes⟩

theorem Plain.andThen {t u : Trace} (h : t.Plain) : (t.andThen u).Plain := ⟨h.entry, h.wakes⟩

/-- The identifiers that are drawn from one number are renamed to those that are
drawn from another one. -/
def Draws (t : Trace) (π : Renaming) (m n : Nat) : Prop :=
  ∀ i < t.drawn, π (.issue (m + i)) = .issue (n + i)

end Trace

namespace Search

/-- Where one of an order's searches is, which are counted from the first one. -/
def place (order : Uuid) : Nat → List Search → Nat
  | _, [] => 0
  | n, search :: rest =>
    if search.order = order then
      match n with
      | 0 => 0
      | n + 1 => place order n rest + 1
    else place order n rest + 1

/-- The searches without that one. -/
def without (order : Uuid) (n : Nat) (sleeping : List Search) : List Search :=
  sleeping.eraseIdx (place order n sleeping)

variable {order other : Uuid} {search : Search} {rest : List Search}

theorem without_head (h : search.order = order) : without order 0 (search :: rest) = rest := by
  simp [without, place, h]

theorem without_cons (h : search.order = order) (n : Nat) :
    without order (n + 1) (search :: rest) = search :: without order n rest := by
  simp [without, place, h]

theorem without_cons_of_ne (h : search.order ≠ order) (n : Nat) :
    without order n (search :: rest) = search :: without order n rest := by
  simp [without, place, h]

/-- Nothing is taken out if the order has no search. -/
theorem without_of_forall {sleeping : List Search} (h : ∀ s ∈ sleeping, s.order ≠ order)
    (n : Nat) : without order n sleeping = sleeping := by
  induction sleeping with
  | nil => rfl
  | cons search rest ih =>
      obtain ⟨hs, hrest⟩ := List.forall_mem_cons.1 h
      rw [without_cons_of_ne hs, ih hrest]

theorem without_append {slept : List Search} (h : ∀ s ∈ slept, s.order ≠ order) (n : Nat)
    (sleeping : List Search) :
    without order n (sleeping ++ slept) = without order n sleeping ++ slept := by
  induction sleeping generalizing n with
  | nil => exact without_of_forall h n
  | cons search rest ih =>
      rw [List.cons_append]
      by_cases hs : search.order = order
      · cases n with
        | zero => rw [without_head hs, without_head hs]
        | succ n => rw [without_cons hs, without_cons hs, ih, List.cons_append]
      · rw [without_cons_of_ne hs, without_cons_of_ne hs, ih, List.cons_append]

/-- The searches of two orders are taken out independently. -/
theorem without_comm (hne : order ≠ other) (m n : Nat) (sleeping : List Search) :
    without order m (without other n sleeping) = without other n (without order m sleeping) := by
  induction sleeping generalizing m n with
  | nil => rfl
  | cons search rest ih =>
      by_cases hs : search.order = order
      · have hs' : search.order ≠ other := hs ▸ hne
        rw [without_cons_of_ne hs']
        cases m with
        | zero => rw [without_head hs, without_head hs]
        | succ m => rw [without_cons hs, without_cons hs, without_cons_of_ne hs', ih]
      · rw [without_cons_of_ne hs]
        by_cases hs' : search.order = other
        · cases n with
          | zero => rw [without_head hs', without_head hs']
          | succ n => rw [without_cons hs', without_cons hs', without_cons_of_ne hs, ih]
        · rw [without_cons_of_ne hs', without_cons_of_ne hs', without_cons_of_ne hs, ih]

theorem filter_without_of_ne (hne : order ≠ other) (n : Nat) (sleeping : List Search) :
    (without other n sleeping).filter (·.order = order) =
      sleeping.filter (·.order = order) := by
  induction sleeping generalizing n with
  | nil => rfl
  | cons search rest ih =>
      by_cases hs : search.order = other
      · have hs' : ¬ search.order = order := fun h => hne (h.symm.trans hs)
        cases n with
        | zero => rw [without_head hs, List.filter_cons_of_neg (by simpa using hs')]
        | succ n =>
            rw [without_cons hs, List.filter_cons_of_neg (by simpa using hs'),
              List.filter_cons_of_neg (by simpa using hs'), ih]
      · rw [without_cons_of_ne hs, List.filter_cons, List.filter_cons, ih]

theorem getElem?_place (order : Uuid) (n : Nat) (sleeping : List Search) :
    sleeping[place order n sleeping]? = (sleeping.filter (·.order = order))[n]? := by
  induction sleeping generalizing n with
  | nil => rfl
  | cons search rest ih =>
      by_cases hs : search.order = order
      · cases n <;> simp [place, hs, ih]
      · simp [place, hs, ih]

end Search

namespace Floor

/-- The floor with the trace of some work on an order. -/
def leave (order : Uuid) (t : Trace) (f : Floor) : Floor :=
  { f with
    openOrders := if t.closes then f.openOrders.filter (· ≠ order) else f.openOrders
    fleet := t.changed?.elim f.fleet f.fleet.put
    ledger := f.ledger + t.counted
    sleeping := t.wakes?.elim f.sleeping (Search.without order · f.sleeping) ++
      t.slept.map fun (radii, wakeAt) => ⟨order, radii, wakeAt⟩
    sent := f.sent ++ t.told
    issued := f.issued + t.drawn }

/-- A search sees no difference. -/
structure Alike (f g : Floor) : Prop where
  settings : g.settings = f.settings
  clock : g.clock = f.clock
  fleet : g.fleet = f.fleet

variable {f g : Floor}

theorem Alike.refl (f : Floor) : f.Alike f := ⟨rfl, rfl, rfl⟩

theorem Alike.trans {h : Floor} (hfg : f.Alike g) (hgh : g.Alike h) : f.Alike h :=
  ⟨hgh.settings.trans hfg.settings, hgh.clock.trans hfg.clock, hgh.fleet.trans hfg.fleet⟩

theorem Alike.now_eq (h : f.Alike g) : g.now = f.now := congrArg Clock.wall h.clock

theorem leave_fleet {t : Trace} (h : t.Plain) (order : Uuid) :
    (f.leave order t).fleet = f.fleet := by
  rw [leave, h.entry]
  rfl

theorem leave_alike {t : Trace} (h : t.Plain) (order : Uuid) : f.Alike (f.leave order t) :=
  ⟨rfl, rfl, leave_fleet h order⟩

theorem Alike.leave {t u : Trace} (h : f.Alike g) (ht : t.Plain) (hu : u.Plain)
    (order other : Uuid) : (f.leave order t).Alike (g.leave other u) :=
  ⟨h.settings, h.clock, (leave_fleet hu other).trans (h.fleet.trans (leave_fleet ht order).symm)⟩

/-- An order may be taken off the open ones twice. -/
theorem closed_twice (order : Uuid) (openOrders : List Uuid) (first second : Bool) :
    (if second then (if first then openOrders.filter (· ≠ order) else openOrders).filter (· ≠ order)
      else if first then openOrders.filter (· ≠ order) else openOrders) =
      if first || second then openOrders.filter (· ≠ order) else openOrders := by
  cases first <;> cases second <;> simp

/-- Two traces one after the other are one. -/
theorem leave_leave {u : Trace} (hu : u.Plain) (t : Trace) (order : Uuid) :
    (f.leave order t).leave order u = f.leave order (t.andThen u) := by
  simp only [leave, Trace.andThen, closed_twice, hu.entry, hu.wakes, Option.elim_none,
    Ledger.add_assoc, List.map_append, List.append_assoc, Nat.add_assoc]
  rfl

@[simp] theorem leave_nothing (order : Uuid) (f : Floor) : f.leave order {} = f := by
  simp [leave]

theorem count_eq_leave {step : Ledger → Ledger} {counted : Ledger}
    (h : ∀ l, step l = l + counted) (order : Uuid) (f : Floor) :
    f.count step = f.leave order { counted := counted } := by
  simp [leave, count, h]

theorem settle_eq_leave (d : Docket) (f : Floor) :
    f.settle d = f.leave d.id { closes := d.isSettled } := by
  unfold settle
  split
  · next h => simp [leave, closeOrder, h]
  · next h => simp [leave, h]

end Floor

namespace Case

/-- The case of the same order under other names, on another floor. -/
def onto (π : Renaming) (g : Floor) (c : Case) : Case := ⟨c.docket.renamed π, g⟩

@[simp] theorem onto_docket (π : Renaming) (g : Floor) (c : Case) :
    (c.onto π g).docket = c.docket.renamed π := rfl

@[simp] theorem onto_floor (π : Renaming) (g : Floor) (c : Case) : (c.onto π g).floor = g := rfl

@[simp] theorem onto_one (c : Case) : c.onto 1 c.floor = c := by
  rw [onto, Docket.renamed_one]

/-- What comes after work that may break down. -/
def following {α β : Type} (next : α → Case → Except Breakdown β × Case) :
    Except Breakdown α × Case → Except Breakdown β × Case
  | (.error breakdown, c) => (.error breakdown, c)
  | (.ok a, c) => next a c

/-- The work leaves this trace. On any floor on which it sees no difference it
answers the same and makes the same of the docket, up to the identifiers that are
drawn. -/
structure Leaves {α : Type} (sees : Floor → Floor → Prop) (act : Renaming → α → α)
    (work : Case → α × Case) (c : Case) (t : Trace) : Prop where
  id_eq : (work c).2.docket.id = c.docket.id
  elsewhere : ∀ {π g}, sees c.floor g → t.Draws π c.floor.issued g.issued →
    work (c.onto π g) =
      (act π (work c).1, (work c).2.onto π (g.leave c.docket.id (t.renamed π)))

section Leaves

variable {α : Type} {sees sees' : Floor → Floor → Prop} {act : Renaming → α → α}
  {work : Case → α × Case} {c : Case} {t : Trace}

theorem Leaves.floor_eq (h : Leaves sees act work c t) (hs : sees c.floor c.floor) :
    (work c).2.floor = c.floor.leave c.docket.id t := by
  have hdraws : t.Draws 1 c.floor.issued c.floor.issued := fun _ _ => rfl
  have hsame := h.elsewhere hs hdraws
  rw [onto_one, Trace.renamed_one] at hsame
  exact congrArg (fun r : α × Case => r.2.floor) hsame

/-- It is enough to know what is made of the docket everywhere. -/
theorem Leaves.of_onto {a : α} {d : Docket} (hs : sees c.floor c.floor) (hone : act 1 a = a)
    (hid : d.id = c.docket.id)
    (h : ∀ {π g}, sees c.floor g → t.Draws π c.floor.issued g.issued →
      work (c.onto π g) = (act π a, ⟨d.renamed π, g.leave c.docket.id (t.renamed π)⟩)) :
    Leaves sees act work c t := by
  have hw : work c = (a, ⟨d, c.floor.leave c.docket.id t⟩) := by
    have hdraws : t.Draws 1 c.floor.issued c.floor.issued := fun _ _ => rfl
    have hsame := h hs hdraws
    rwa [onto_one, hone, Docket.renamed_one, Trace.renamed_one] at hsame
  constructor
  · rw [hw]
    exact hid
  · rw [hw]
    exact h

/-- Work that comes to nothing. -/
theorem Leaves.still {a : α} (hs : sees c.floor c.floor) (hone : act 1 a = a)
    (h : ∀ {π g}, sees c.floor g → work (c.onto π g) = (act π a, c.onto π g)) :
    Leaves sees act work c {} :=
  .of_onto hs hone rfl fun {π g} hg _ => by
    show _ = (act π a, c.onto π (g.leave c.docket.id {}))
    rw [h hg, Floor.leave_nothing]

theorem Leaves.mono (h : Leaves sees act work c t)
    (hs : ∀ {g}, sees' c.floor g → sees c.floor g) : Leaves sees' act work c t :=
  ⟨h.id_eq, fun hg hd => h.elsewhere (hs hg) hd⟩

end Leaves

/-- The trace of a search. -/
structure Traced {α : Type} (act : Renaming → α → α) (work : Case → α × Case) (c : Case)
    (t : Trace) : Prop extends Leaves Floor.Alike act work c t where
  plain : t.Plain

namespace Traced

variable {α β : Type} {act : Renaming → α → α} {act' : Renaming → β → β}
  {work : Case → α × Case} {c : Case} {t u : Trace}

/-- The work is known where it is done. -/
theorem intro {a : α} {c' : Case} (hw : work c = (a, c')) (hid : c'.docket.id = c.docket.id)
    (ht : t.Plain)
    (h : ∀ {π g}, c.floor.Alike g → t.Draws π c.floor.issued g.issued →
      work (c.onto π g) = (act π a, c'.onto π (g.leave c.docket.id (t.renamed π)))) :
    Traced act work c t where
  id_eq := by
    rw [hw]
    exact hid
  elsewhere := by
    rw [hw]
    exact h
  plain := ht

/-- Work that comes to nothing. -/
theorem still {a : α} (hw : work c = (a, c))
    (h : ∀ {π g}, c.floor.Alike g → work (c.onto π g) = (act π a, c.onto π g)) :
    Traced act work c {} :=
  .intro hw rfl ⟨rfl, rfl⟩ fun {π g} hg _ => by
    show _ = (act π a, c.onto π (g.leave c.docket.id {}))
    rw [h hg, Floor.leave_nothing]

theorem idle {a : α} (h : ∀ π, act π a = a) : Traced act (fun c => (a, c)) c {} :=
  .still rfl fun _ => by rw [h]

/-- Only what is done to this docket counts. -/
theorem congr {work' : Case → α × Case} (h : Traced act work c t)
    (hw : ∀ {g}, c.floor.Alike g → ∀ π, work' (c.onto π g) = work (c.onto π g)) :
    Traced act work' c t := by
  have hc : work' c = work c := by
    have hone := hw (.refl c.floor) 1
    rwa [onto_one] at hone
  refine .intro hc h.id_eq h.plain fun {π g} hg hd => ?_
  rw [hw hg]
  exact h.elsewhere hg hd

/-- Another answer to the same work. -/
theorem map (h : Traced act work c t) (act' : Renaming → β → β) (f : α → β)
    (hf : ∀ π a, act' π (f a) = f (act π a)) :
    Traced act' (fun c => (f (work c).1, (work c).2)) c t where
  id_eq := h.id_eq
  plain := h.plain
  elsewhere := by
    intro π g hg hd
    rw [h.elsewhere hg hd, hf]

/-- One piece of work after the other. What comes next may depend on the answer
to the first, but not on the names in it. -/
theorem bind (h : Traced act work c t) (next : α → Case → β × Case)
    (hnext : Traced act' (next (work c).1) (work c).2 u)
    (hn : ∀ π, next (act π (work c).1) = next (work c).1) :
    Traced act' (fun c => next (work c).1 (work c).2) c (t.andThen u) where
  id_eq := hnext.id_eq.trans h.id_eq
  plain := h.plain.andThen
  elsewhere := by
    intro π g hg hd
    have hfloor := h.floor_eq (.refl c.floor)
    have hfirst := h.elsewhere hg fun i hi => hd i (Nat.lt_add_right _ hi)
    have hlook : (work c).2.floor.Alike (g.leave c.docket.id (t.renamed π)) := by
      rw [hfloor]
      exact hg.leave h.plain (h.plain.renamed π) _ _
    have hdraws : u.Draws π (work c).2.floor.issued
        (g.leave c.docket.id (t.renamed π)).issued := by
      intro i hi
      rw [hfloor]
      show π (.issue (c.floor.issued + t.drawn + i)) = .issue (g.issued + t.drawn + i)
      rw [Nat.add_assoc, Nat.add_assoc]
      exact hd _ (Nat.add_lt_add_left hi _)
    rw [hfirst]
    dsimp only
    rw [hn, hnext.elsewhere hlook hdraws, h.id_eq,
      Floor.leave_leave (hnext.plain.renamed π), Trace.renamed_andThen]

/-- Work that may break down, and what comes after it if it does not. -/
theorem proceed {first : Case → Except Breakdown α × Case}
    (h : Traced (fun π => Except.map (act π)) first c t) (act' : Renaming → β → β)
    (next : α → Case → Except Breakdown β × Case)
    (hnext : ∀ a, (first c).1 = .ok a →
      ∃ u, Traced (fun π => Except.map (act' π)) (next a) (first c).2 u)
    (hn : ∀ π a, next (act π a) = next a) :
    ∃ u, Traced (fun π => Except.map (act' π))
      (fun c => following next (first c)) c u := by
  let go : Except Breakdown α → Case → Except Breakdown β × Case := fun r c => following next (r, c)
  show ∃ u, Traced _ (fun c => go (first c).1 (first c).2) c u
  cases hr : (first c).1 with
  | error breakdown =>
      refine ⟨_, h.bind (u := {}) go ?_ fun π => ?_⟩
      · rw [hr]
        exact .idle fun _ => rfl
      · rw [hr]
        rfl
  | ok a =>
      obtain ⟨u, hu⟩ := hnext a hr
      refine ⟨_, h.bind (u := u) go ?_ fun π => ?_⟩
      · rw [hr]
        exact hu
      · rw [hr]
        exact hn π a

end Traced

/-! ## Steps -/

section Steps

variable {c : Case}

theorem onDocket_traced {step : Docket → Docket} (hid : (step c.docket).id = c.docket.id)
    (h : ∀ π, step (c.docket.renamed π) = (step c.docket).renamed π) :
    Traced (fun _ a => a) (fun c => ((), c.onDocket step)) c {} :=
  .intro rfl hid ⟨rfl, rfl⟩ fun {π g} _ _ => by
    show ((), Case.mk (step (c.docket.renamed π)) g) =
      ((), Case.mk ((step c.docket).renamed π) (g.leave c.docket.id {}))
    rw [h, Floor.leave_nothing]

theorem count_traced {step : Ledger → Ledger} {counted : Ledger}
    (h : ∀ l, step l = l + counted) :
    Traced (fun _ a => a) (fun c => ((), c.count step)) c { counted := counted } :=
  .intro rfl rfl ⟨rfl, rfl⟩ fun {π g} _ _ => by
    show ((), Case.mk (c.docket.renamed π) (g.count step)) = _
    rw [Floor.count_eq_leave h c.docket.id]
    rfl

theorem settle_traced :
    Traced (fun _ a => a) (fun c => ((), c.settle)) c { closes := c.docket.isSettled } :=
  .intro rfl rfl ⟨rfl, rfl⟩ fun {π g} _ _ => by
    show ((), Case.mk (c.docket.renamed π) (g.settle (c.docket.renamed π))) = _
    rw [Floor.settle_eq_leave, Docket.renamed_isSettled]
    rfl

theorem exclude_traced (driver : Uuid) :
    Traced (fun _ a => a) (fun c => ((), c.onDocket (·.exclude driver))) c {} :=
  onDocket_traced (congrArg Order.id (Docket.exclude_order driver c.docket))
    fun π => c.docket.renamed_exclude π driver

end Steps

/-! ## Searches -/

section Searches

variable {c : Case} {π : Renaming} {g : Floor}

/-- Whoever is best is best wherever the fleet is the same. -/
theorem best?_onto (hg : c.floor.Alike g) (π : Renaming) (radius : Float) :
    (c.onto π g).best? radius = c.best? radius := by
  simp only [best?, onto, Docket.renamed_order, Docket.renamed_excluded, hg.settings, hg.fleet,
    hg.now_eq]

/-- The trace of an offer. -/
def offerTrace (offer : Offer) (c : Case) : Trace :=
  { counted := { requested := 1, offered := 1 }
    told := [⟨offer.driver, .offerCreated c.docket.id c.docket.order.code offer.id
      (UInt64.ofNat (c.floor.settings.offerWindow / 1000)), c.floor.now⟩]
    drawn := 1 }

theorem makeOffer_floor (offer : Offer) (c : Case) :
    (c.makeOffer offer).floor = c.floor.leave c.docket.id (c.offerTrace offer) := by
  simp [makeOffer, offerTrace, Floor.leave, Floor.issue, Floor.notify, Floor.count, Floor.now,
    Ledger.countSearch, Ledger.add_def]

theorem makeOffer_onto (hg : c.floor.Alike g) (hid : π c.floor.nextId = g.nextId)
    (candidate : Candidate) (radius : Float) :
    (c.onto π g).makeOffer ((c.onto π g).draftOffer candidate radius) =
      (c.makeOffer (c.draftOffer candidate radius)).onto π
        (g.leave c.docket.id ((c.offerTrace (c.draftOffer candidate radius)).renamed π)) := by
  have hdraft : (c.onto π g).draftOffer candidate radius =
      (c.draftOffer candidate radius).renamed π := by
    simp [draftOffer, Offer.renamed, hid, hg.now_eq]
  have hfloor := makeOffer_floor ((c.onto π g).draftOffer candidate radius) (c.onto π g)
  have htrace : (c.onto π g).offerTrace ((c.onto π g).draftOffer candidate radius) =
      (c.offerTrace (c.draftOffer candidate radius)).renamed π := by
    rw [hdraft]
    simp [offerTrace, Trace.renamed, Notice.renamed, Event.renamed, Offer.renamed, hg.now_eq,
      hg.settings]
  have hdocket : ((c.onto π g).makeOffer ((c.onto π g).draftOffer candidate radius)).docket =
      (c.makeOffer (c.draftOffer candidate radius)).docket.renamed π := by
    rw [hdraft]
    simp [makeOffer, Docket.renamed]
  rw [htrace] at hfloor
  exact congrArg₂ Case.mk hdocket hfloor

theorem sleep_eq_leave (order : Uuid) (radii : Radii) (f : Floor) :
    f.sleep order radii =
      f.leave order { slept := [(radii, f.clock.ticks + f.settings.radiusWait)] } := by
  simp [Floor.sleep, Floor.leave]

theorem sleep_onto (hg : c.floor.Alike g) (radii : Radii) (π : Renaming) :
    (c.onto π g).onFloor (·.sleep c.docket.id radii) =
      (c.onFloor (·.sleep c.docket.id radii)).onto π (g.leave c.docket.id
        { slept := [(radii, c.floor.clock.ticks + c.floor.settings.radiusWait)] }) := by
  show Case.mk _ (g.sleep c.docket.id radii) = _
  rw [sleep_eq_leave, hg.clock, hg.settings]
  rfl

theorem endSearch_onto (hg : c.floor.Alike g) (how : SearchEnd) (π : Renaming) :
    (c.onto π g).endSearch how = (c.endSearch how).onto π
      (g.leave c.docket.id { counted := Ledger.countSearch how {} }) := by
  have hcount : ∀ l : Ledger, l.countSearch how = l + Ledger.countSearch how {} := by
    intro l
    cases how <;> simp [Ledger.countSearch, Ledger.add_def]
  simp only [endSearch, onto_floor, onto_docket, hg.now_eq, Floor.count_eq_leave hcount c.docket.id]
  rfl

theorem Dispatched.traced {outcome : Outcome} {c' : Case} (h : Dispatched c outcome c') :
    ∃ t, Traced (fun π => Except.map (Outcome.renamed π)) dispatch c t := by
  have hc := h.dispatch_eq
  have hskip : ∀ π g, (c.onto π g).docket.skipReason? = c.docket.skipReason? :=
    fun π _ => c.docket.renamed_skipReason? π
  cases h with
  | skipped hs =>
      refine ⟨{}, .still hc fun {π g} _ => ?_⟩
      have hd : Dispatched (c.onto π g) _ _ := .skipped ((hskip π g).trans hs)
      exact hd.dispatch_eq
  | @offered radius _ candidate hs hr hb =>
      refine ⟨c.offerTrace (c.draftOffer candidate radius), .intro hc rfl ⟨rfl, rfl⟩
        fun {π g} hg hdraws => ?_⟩
      have hid : π c.floor.nextId = g.nextId := hdraws 0 Nat.one_pos
      have hd : Dispatched (c.onto π g) _ _ := .offered ((hskip π g).trans hs)
        ((congrArg Settings.radii hg.settings).trans hr) ((best?_onto hg π radius).trans hb)
      rw [hd.dispatch_eq, makeOffer_onto hg hid]
      show (Except.ok (Outcome.offered g.nextId _ _), _) =
        (Except.ok (Outcome.offered (π _) _ _), _)
      rw [hid]
  | @searching radius next rest hs hr hb =>
      let wakeAt := c.floor.clock.ticks + c.floor.settings.radiusWait
      refine ⟨{ slept := [(⟨next, rest⟩, wakeAt)] }, .intro hc rfl ⟨rfl, rfl⟩ fun {π g} hg _ => ?_⟩
      have hd : Dispatched (c.onto π g) _ _ := .searching ((hskip π g).trans hs)
        ((congrArg Settings.radii hg.settings).trans hr) ((best?_onto hg π radius).trans hb)
      rw [hd.dispatch_eq]
      exact congrArg (Prod.mk _) (sleep_onto (c := c.startSearch) hg ⟨next, rest⟩ π)
  | @exhausted radius hs hr hb =>
      refine ⟨{ counted := Ledger.countSearch .exhausted {} }, .intro hc rfl ⟨rfl, rfl⟩
        fun {π g} hg _ => ?_⟩
      have hd : Dispatched (c.onto π g) _ _ := .exhausted ((hskip π g).trans hs)
        ((congrArg Settings.radii hg.settings).trans hr) ((best?_onto hg π radius).trans hb)
      rw [hd.dispatch_eq]
      exact congrArg (Prod.mk _) (endSearch_onto hg .exhausted π)

/-- Why a dispatch breaks down: there are no radii, or nobody can be looked for. -/
def Breaks (c : Case) (breakdown : Breakdown) : Prop :=
  c.docket.skipReason? = none ∧
    (c.floor.settings.radii = none ∧ breakdown = .endlessWidening ∨
      ∃ radii, c.floor.settings.radii = some radii ∧ c.best? radii.first = .error breakdown)

theorem Breaks.dispatch_eq {breakdown : Breakdown} (h : c.Breaks breakdown) :
    c.dispatch = (.error breakdown, c) := by
  obtain ⟨hs, ⟨hr, rfl⟩ | ⟨⟨_, _⟩, hr, hb⟩⟩ := h
  · simp only [dispatch, hs, hr]
  · simp only [dispatch, hs, hr, hb]

theorem breaks_of_dispatch {breakdown : Breakdown} {c' : Case}
    (h : c.dispatch = (.error breakdown, c')) : c.Breaks breakdown := by
  unfold dispatch at h
  split at h
  · cases h
  · next hs =>
    refine ⟨hs, ?_⟩
    split at h
    · next hr =>
      cases h
      exact .inl ⟨hr, rfl⟩
    · next radius wider hr =>
      refine .inr ⟨⟨radius, wider⟩, hr, ?_⟩
      split at h
      · next hb =>
        cases h
        exact hb
      all_goals cases h

theorem Breaks.onto {breakdown : Breakdown} (h : c.Breaks breakdown) (hg : c.floor.Alike g)
    (π : Renaming) : (c.onto π g).Breaks breakdown := by
  obtain ⟨hs, hwhy⟩ := h
  refine ⟨(c.docket.renamed_skipReason? π).trans hs, ?_⟩
  simp only [onto_floor, hg.settings, best?_onto hg]
  exact hwhy

theorem dispatch_traced (c : Case) :
    ∃ t, Traced (fun π => Except.map (Outcome.renamed π)) dispatch c t := by
  rcases dispatch_cases c with ⟨breakdown, hc⟩ | ⟨_, _, -, hd⟩
  · exact ⟨{}, .still hc fun {π g} hg => ((breaks_of_dispatch hc).onto hg π).dispatch_eq⟩
  · exact hd.traced

theorem Resumed.resume_eq {radii : Radii} {c' : Case} (h : Resumed radii c c') :
    c.resume radii = (.ok (), c') := by
  cases h with
  | abandoned h =>
      have hover : (!c.docket.isPending || c.docket.hasOutstanding) = true := by
        rcases h with h | h <;> simp [h]
      rw [resume, if_pos hover]
  | offered hp hn hb => simp [resume, hp, hn, hb]
  | exhausted hp hn hb hw | widened hp hn hb hw => simp [resume, hp, hn, hb, hw]

theorem Resumed.traced {radii : Radii} {c' : Case} (h : Resumed radii c c') :
    ∃ t, Traced (fun _ r => r) (·.resume radii) c t := by
  have hc := h.resume_eq
  cases h with
  | abandoned h =>
      refine ⟨{ counted := Ledger.countSearch .abandoned {} }, .intro hc rfl ⟨rfl, rfl⟩
        fun {π g} hg _ => ?_⟩
      have hr : Resumed radii (c.onto π g) _ :=
        .abandoned (h.imp_right ((c.docket.renamed_hasOutstanding π).trans ·))
      rw [hr.resume_eq, endSearch_onto hg]
      rfl
  | @offered candidate hp hn hb =>
      refine ⟨c.offerTrace (c.draftOffer candidate radii.first), .intro hc rfl ⟨rfl, rfl⟩
        fun {π g} hg hdraws => ?_⟩
      have hid : π c.floor.nextId = g.nextId := hdraws 0 Nat.one_pos
      have hr : Resumed radii (c.onto π g) _ := .offered hp
        ((c.docket.renamed_hasOutstanding π).trans hn) ((best?_onto hg π radii.first).trans hb)
      rw [hr.resume_eq, makeOffer_onto hg hid]
      rfl
  | exhausted hp hn hb hw =>
      refine ⟨{ counted := Ledger.countSearch .exhausted {} }, .intro hc rfl ⟨rfl, rfl⟩
        fun {π g} hg _ => ?_⟩
      have hr : Resumed radii (c.onto π g) _ := .exhausted hp
        ((c.docket.renamed_hasOutstanding π).trans hn) ((best?_onto hg π radii.first).trans hb) hw
      rw [hr.resume_eq, endSearch_onto hg]
      rfl
  | @widened next rest hp hn hb hw =>
      let wakeAt := c.floor.clock.ticks + c.floor.settings.radiusWait
      refine ⟨{ slept := [(⟨next, rest⟩, wakeAt)] }, .intro hc rfl ⟨rfl, rfl⟩ fun {π g} hg _ => ?_⟩
      have hr : Resumed radii (c.onto π g) _ := .widened hp
        ((c.docket.renamed_hasOutstanding π).trans hn) ((best?_onto hg π radii.first).trans hb) hw
      rw [hr.resume_eq]
      exact congrArg (Prod.mk _) (sleep_onto hg ⟨next, rest⟩ π)

theorem resume_traced (radii : Radii) (c : Case) :
    ∃ t, Traced (fun _ r => r) (·.resume radii) c t := by
  rcases resume_cases radii c with ⟨breakdown, hc⟩ | ⟨_, -, hr⟩
  · have hwhy : ∀ {c : Case} {π g}, c.floor.Alike g → c.resume radii = (.error breakdown, c) →
        (c.onto π g).resume radii = (.error breakdown, c.onto π g) := by
      intro c π g hg h
      simp only [resume, onto_docket, Docket.renamed_isPending, Docket.renamed_hasOutstanding,
        best?_onto hg] at h ⊢
      split at h
      · cases h
      · next hover =>
        rw [if_neg hover]
        split at h
        · cases h
          rfl
        all_goals cases h
    exact ⟨{}, .still hc fun hg => hwhy hg hc⟩
  · exact hr.traced

theorem reassign_traced (driver : Uuid) (c : Case) :
    ∃ t, Traced (fun π => Except.map (Outcome.renamed π)) (·.reassign driver) c t := by
  obtain ⟨t, ht⟩ := dispatch_traced (c.onDocket (·.exclude driver))
  exact ⟨_, (exclude_traced driver).bind (fun _ => dispatch) ht fun _ => rfl⟩

theorem retry_traced (c : Case) :
    ∃ t, Traced (fun π => Answer.map (Outcome.renamed π)) retry c t := by
  by_cases hp : (!c.docket.isPending) = true
  · exact ⟨{}, .still (if_pos hp) fun _ => if_pos hp⟩
  · obtain ⟨t, ht⟩ := dispatch_traced c
    refine ⟨t, (ht.map _ Answer.ofExcept fun π r => ?_).congr fun _ π => if_neg hp⟩
    cases r <;> rfl

end Searches

/-! ## Rejections and sweeps -/

/-- What follows when an offer has been rejected. -/
def turnDown (driver : Uuid) (c : Case) : Except Breakdown (Option Outcome) × Case :=
  let c := c.count fun l => { l with rejected := l.rejected + 1 }
  if c.docket.isPending then
    let (outcome, c) := c.reassign driver
    (outcome.map some, c)
  else (.ok none, (c.onDocket (·.exclude driver)).settle)

theorem turnDown_traced (driver : Uuid) (c : Case) :
    ∃ t, Traced (fun π => Except.map (Option.map (Outcome.renamed π))) (turnDown driver) c t := by
  have hcount : Traced (fun _ a => a)
      (fun c => ((), c.count fun l => { l with rejected := l.rejected + 1 })) c
      { counted := { rejected := 1 } } := count_traced fun l => by simp [Ledger.add_def]
  by_cases hp : c.docket.isPending = true
  · obtain ⟨t, ht⟩ := reassign_traced driver
      (c.count fun l => { l with rejected := l.rejected + 1 })
    have hsome := ht.map (fun π => Except.map (Option.map (Outcome.renamed π))) (Except.map some)
      fun π r => by cases r <;> rfl
    refine ⟨_, (hcount.bind (fun _ c => ((c.reassign driver).1.map some, (c.reassign driver).2))
      hsome fun _ => rfl).congr fun _ π => ?_⟩
    exact if_pos hp
  · have hexclude := exclude_traced (c := c.count fun l => { l with rejected := l.rejected + 1 })
      driver
    have hover := (hexclude.bind (fun _ c => ((), c.settle)) settle_traced fun _ => rfl).map
      (fun π => Except.map (Option.map (Outcome.renamed π)))
      (fun _ => (.ok none : Except Breakdown (Option Outcome))) fun _ _ => rfl
    refine ⟨_, (hcount.bind (fun _ c => (.ok none, (c.onDocket (·.exclude driver)).settle))
      hover fun _ => rfl).congr fun _ π => ?_⟩
    exact if_neg hp

theorem reject_eq {offer resolved : Offer} {c c₁ : Case}
    (h : c.resolve offer .rejected = (resolved, c₁)) :
    c.reject offer = ((Answer.ofExcept (c₁.turnDown offer.driver).1).map fun next? =>
        ⟨resolved, (c₁.turnDown offer.driver).2.docket.order.status, next?⟩,
      (c₁.turnDown offer.driver).2) := by
  unfold reject turnDown
  rw [h]
  dsimp only
  split
  · rcases reassign _ _ with ⟨_ | _, _⟩ <;> rfl
  · rfl

theorem resolve_onto {c : Case} {π : Renaming} {g : Floor} (hg : g.now = c.floor.now)
    (offer : Offer) (status : Offer.Status) :
    (c.onto π g).resolve (offer.renamed π) status =
      ((c.resolve offer status).1.renamed π, (c.resolve offer status).2.onto π g) := by
  simp only [resolve, onto_docket, onto_floor, hg, Docket.renamed_resolve]
  rfl

theorem reject_traced (driver : Uuid) (c : Case) :
    ∃ t, Traced (fun π => Answer.map (Reaction.renamed π)) (·.respond driver .reject) c t := by
  cases hf : c.docket.offerTo? driver with
  | none =>
      have hc : c.respond driver .reject = (.refused (.noOffer c.docket.id driver), c) := by
        simp only [respond, hf]
        rfl
      refine ⟨{}, .still hc fun {π g} _ => ?_⟩
      simp only [respond, onto_docket, Docket.renamed_offerTo?, hf]
      rfl
  | some offer =>
      have hc : c.respond driver .reject = c.reject offer := by
        simp only [respond, hf]
        rfl
      have honto : ∀ π g, (c.onto π g).respond driver .reject =
          (c.onto π g).reject (offer.renamed π) := by
        intro π g
        simp only [respond, onto_docket, Docket.renamed_offerTo?, hf]
        rfl
      rcases hres : c.resolve offer .rejected with ⟨resolved, c₁⟩
      obtain rfl : (c.resolve offer .rejected).2 = c₁ := by rw [hres]
      obtain ⟨t, ht⟩ := turnDown_traced offer.driver (c.resolve offer .rejected).2
      refine ⟨t, .intro (hc.trans (reject_eq hres)) ht.id_eq ht.plain fun {π g} hg hd => ?_⟩
      have hresolve := resolve_onto (π := π) hg.now_eq offer .rejected
      have hrest : turnDown (offer.renamed π).driver _ = _ := ht.elsewhere hg hd
      rw [honto, reject_eq hresolve, hrest, hres]
      refine congrArg (Prod.mk · _) ?_
      cases (turnDown offer.driver (c.resolve offer .rejected).2).1 <;> rfl

theorem dropLate_traced (late : List Uuid) (report : SweepReport) (c : Case) :
    ∃ t, Traced (fun _ => Except.map id) (dropLate late report) c t := by
  induction late generalizing report c with
  | nil => exact ⟨{}, .idle fun _ => rfl⟩
  | cons driver rest ih =>
      have hcount : Traced (fun _ a => a)
          (fun c => ((), c.count fun l => { l with timeouts := l.timeouts + 1 })) c
          { counted := { timeouts := 1 } } := count_traced fun l => by simp [Ledger.add_def]
      by_cases hp : (!c.docket.isPending) = true
      · obtain ⟨u, hu⟩ := ih { report with timeouts := report.timeouts + 1 }
          ((c.count fun l => { l with timeouts := l.timeouts + 1 }).onDocket (·.exclude driver))
        have hnext := (exclude_traced driver).bind (fun _ => dropLate rest _) hu fun _ => rfl
        exact ⟨_, (hcount.bind (fun _ => _) hnext fun _ => rfl).congr fun _ π => if_pos hp⟩
      · obtain ⟨t, ht⟩ := reassign_traced driver
          (c.count fun l => { l with timeouts := l.timeouts + 1 })
        obtain ⟨u, hu⟩ := ht.proceed (fun _ r => r) (fun outcome => dropLate rest
          { report with
            timeouts := report.timeouts + 1
            reassigned := report.reassigned + if outcome.isOffered then 1 else 0 })
          (fun outcome _ => ih _ _) (fun π outcome => by rw [Outcome.renamed_isOffered])
        refine ⟨_, (hcount.bind (fun _ => _) hu fun _ => rfl).congr fun _ π => ?_⟩
        refine (if_neg hp).trans ?_
        rcases reassign _ _ with ⟨_ | _, _⟩ <;> rfl

theorem retryIdle_traced (report : SweepReport) (c : Case) :
    ∃ t, Traced (fun _ => Except.map id) (·.retryIdle report) c t := by
  have hsame : ∀ {g}, c.floor.Alike g → ∀ π,
      ((c.onto π g).docket.isIdle &&
        (c.onto π g).docket.isRested g.settings.retrySpan g.now) =
      (c.docket.isIdle && c.docket.isRested c.floor.settings.retrySpan c.floor.now) := by
    intro g hg π
    rw [hg.settings, hg.now_eq, onto_docket, Docket.renamed_isIdle, Docket.renamed_isRested]
  by_cases h : (c.docket.isIdle &&
      c.docket.isRested c.floor.settings.retrySpan c.floor.now) = true
  · obtain ⟨t, ht⟩ := dispatch_traced c
    obtain ⟨u, hu⟩ := ht.proceed (fun _ r => r)
      (fun _ c => (.ok { report with retried := report.retried + 1 }, c))
      (fun _ _ => ⟨{}, .idle fun _ => rfl⟩) fun _ _ => rfl
    refine ⟨u, hu.congr fun hg π => (if_pos ((hsame hg π).trans h)).trans ?_⟩
    rcases dispatch _ with ⟨_ | _, _⟩ <;> rfl
  · refine ⟨{}, .still (if_neg h) fun {π g} hg => ?_⟩
    exact if_neg fun hr => h ((hsame hg π).symm.trans hr)

theorem sweep_eq (report : SweepReport) (c : Case) :
    c.sweep report =
      following (fun report c =>
          following (fun report c => (.ok report, c.settle)) (c.retryIdle report))
        (dropLate (c.docket.lateDrivers c.floor.settings.offerSpan c.floor.now) report
          (c.onDocket (·.expire c.floor.settings.offerSpan c.floor.now))) := by
  unfold sweep
  dsimp only
  rcases dropLate _ _ _ with ⟨_ | report₁, c₁⟩
  · rfl
  · dsimp only [following]
    rcases c₁.retryIdle report₁ with ⟨_ | _, _⟩ <;> rfl

/-- A sweep of an order leaves the trace of the searches that it starts. -/
theorem sweep_traced (report : SweepReport) (c : Case) :
    ∃ t, Traced (fun _ => Except.map id) (·.sweep report) c t := by
  let window := c.floor.settings.offerSpan
  let now := c.floor.now
  let late := c.docket.lateDrivers window now
  have hexpire : Traced (fun _ a => a) (fun c => ((), c.onDocket (·.expire window now))) c {} :=
    onDocket_traced rfl fun π => c.docket.renamed_expire π window now
  have hend : ∀ (report : SweepReport) (c : Case), ∃ u, Traced (fun _ => Except.map id)
      (fun c => following (fun report c => (.ok report, c.settle)) (c.retryIdle report)) c u := by
    intro report c
    obtain ⟨t, ht⟩ := retryIdle_traced report c
    refine ht.proceed (fun _ r => r) _ (fun report _ => ?_) fun _ _ => rfl
    exact ⟨_, settle_traced.map _ (fun _ => Except.ok report) fun _ _ => rfl⟩
  obtain ⟨t, ht⟩ := dropLate_traced late report (c.onDocket (·.expire window now))
  obtain ⟨u, hu⟩ := ht.proceed (fun _ r => r) _ (fun report _ => hend report _) fun _ _ => rfl
  refine ⟨_, (hexpire.bind (fun _ => _) hu fun _ => rfl).congr fun {g} hg π => ?_⟩
  rw [sweep_eq]
  simp only [onto_floor, onto_docket, hg.settings, hg.now_eq, Docket.renamed_lateDrivers]
  rfl

end Case

end Hailing
