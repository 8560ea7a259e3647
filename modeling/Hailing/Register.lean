import Hailing.Uuid

/-!
# Registers

A register holds items that are known by an identifier, at most one under
each. A new item is put at the end, and an item under an identifier that is
taken replaces the one that was there. `find?` is the view through which
everything else is said.
-/

namespace Hailing

/-- Items with different keys. -/
structure Register (α : Type) (key : α → Uuid) where
  items : List α
  nodup : (items.map key).Nodup

namespace Register

variable {α : Type} {key : α → Uuid}

def empty : Register α key := ⟨[], List.Pairwise.nil⟩

instance : Inhabited (Register α key) := ⟨empty⟩

def size (r : Register α key) : Nat := r.items.length

def find? (r : Register α key) (id : Uuid) : Option α :=
  r.items.find? fun a => key a = id

/-- The items with `a` in place of the one that has its key. -/
def replaceOrAppend (key : α → Uuid) (a : α) : List α → List α
  | [] => [a]
  | b :: rest => if key b = key a then a :: rest else b :: replaceOrAppend key a rest

theorem mem_map_replaceOrAppend {a : α} {id : Uuid} {items : List α} :
    id ∈ (replaceOrAppend key a items).map key ↔ id = key a ∨ id ∈ items.map key := by
  induction items with
  | nil => simp [replaceOrAppend]
  | cons b rest ih =>
    by_cases h : key b = key a
    · simp [replaceOrAppend, h]
    · simp only [replaceOrAppend, h, if_false, List.map_cons, List.mem_cons, ih]
      exact ⟨fun h => by rcases h with h | h | h <;> simp [h],
        fun h => by rcases h with h | h | h <;> simp [h]⟩

theorem nodup_replaceOrAppend {a : α} {items : List α} (h : (items.map key).Nodup) :
    ((replaceOrAppend key a items).map key).Nodup := by
  induction items with
  | nil => simp [replaceOrAppend]
  | cons b rest ih =>
    rw [List.map_cons, List.nodup_cons] at h
    by_cases hb : key b = key a
    · simpa [replaceOrAppend, hb] using ⟨by simpa [hb] using h.1, h.2⟩
    · simp only [replaceOrAppend, hb, if_false, List.map_cons, List.nodup_cons]
      refine ⟨fun hm => ?_, ih h.2⟩
      rcases mem_map_replaceOrAppend.1 hm with hm | hm
      · exact hb hm
      · exact h.1 hm

def put (r : Register α key) (a : α) : Register α key :=
  ⟨replaceOrAppend key a r.items, nodup_replaceOrAppend r.nodup⟩

def remove (r : Register α key) (id : Uuid) : Register α key :=
  ⟨r.items.filter fun a => key a ≠ id, (List.filter_sublist.map key).nodup r.nodup⟩

def contains (r : Register α key) (id : Uuid) : Bool := (r.find? id).isSome

/-! ## What is found -/

theorem key_of_find? {r : Register α key} {id : Uuid} {a : α} (h : r.find? id = some a) :
    key a = id := by
  simpa using List.find?_some h

theorem find?_replaceOrAppend {a : α} {id : Uuid} {items : List α} :
    (replaceOrAppend key a items).find? (fun b => key b = id) =
      if key a = id then some a else items.find? fun b => key b = id := by
  induction items with
  | nil => by_cases h : key a = id <;> simp [replaceOrAppend, h]
  | cons b rest ih =>
    by_cases hb : key b = key a
    · by_cases h : key a = id
      · simp [replaceOrAppend, hb, h]
      · simp [replaceOrAppend, hb, h]
    · simp only [replaceOrAppend, hb, if_false, List.find?_cons, ih]
      by_cases h : key a = id
      · simp [← h, hb]
      · simp [h]

/-- What was put is found under its key, and nothing else changed. -/
theorem find?_put (r : Register α key) (a : α) (id : Uuid) :
    (r.put a).find? id = if key a = id then some a else r.find? id :=
  find?_replaceOrAppend

theorem find?_put_of_ne {r : Register α key} {a : α} {id : Uuid} (h : key a ≠ id) :
    (r.put a).find? id = r.find? id := by
  simp [find?_put, h]

theorem find?_put_isSome {r : Register α key} {a : α} {id : Uuid}
    (h : (r.find? id).isSome = true) : ((r.put a).find? id).isSome = true := by
  rw [find?_put]
  split
  · rfl
  · exact h

theorem replaceOrAppend_of_find? {a : α} {items : List α}
    (h : items.find? (fun b => key b = key a) = some a) :
    replaceOrAppend key a items = items := by
  induction items with
  | nil => simp at h
  | cons b rest ih =>
      by_cases hb : key b = key a
      · have hab : b = a := by simpa [List.find?_cons, hb] using h
        simp [replaceOrAppend, hab]
      · have hrest : rest.find? (fun b => key b = key a) = some a := by
          simpa [List.find?_cons, hb] using h
        simp [replaceOrAppend, hb, ih hrest]

/-- Putting an item back where it was changes nothing. -/
theorem put_of_find? {r : Register α key} {id : Uuid} {a : α}
    (h : r.find? id = some a) : r.put a = r := by
  obtain rfl := key_of_find? h
  have hitems : (r.put a).items = r.items := replaceOrAppend_of_find? h
  cases r
  simpa [put] using hitems

theorem mem_keys {r : Register α key} {id : Uuid} :
    id ∈ r.items.map key ↔ (r.find? id).isSome := by
  simp [find?, List.find?_isSome]

theorem find?_eq_of_mem {a : α} {items : List α} (hn : (items.map key).Nodup)
    (h : a ∈ items) : items.find? (fun b => key b = key a) = some a := by
  induction items with
  | nil => cases h
  | cons b rest ih =>
      rw [List.map_cons, List.nodup_cons] at hn
      rcases List.mem_cons.1 h with rfl | h
      · simp
      · have hb : key b ≠ key a := fun he => hn.1 (he ▸ List.mem_map_of_mem h)
        simpa [List.find?_cons, hb] using ih hn.2 h

/-- The items are what is found under their own keys. -/
theorem mem_items {r : Register α key} {a : α} :
    a ∈ r.items ↔ r.find? (key a) = some a :=
  ⟨find?_eq_of_mem r.nodup, List.mem_of_find?_eq_some⟩

/-- Of two items that were put under the same key the later one counts. -/
theorem replaceOrAppend_replaceOrAppend {a b : α} (h : key a = key b) (items : List α) :
    replaceOrAppend key b (replaceOrAppend key a items) = replaceOrAppend key b items := by
  induction items with
  | nil => simp [replaceOrAppend, h]
  | cons x rest ih =>
      by_cases hx : key x = key b
      · simp [replaceOrAppend, h, hx]
      · simp [replaceOrAppend, h, hx, ih]

theorem map_replaceOrAppend {f : α → α} (hf : ∀ a, key (f a) = key a) (a : α)
    (items : List α) :
    (replaceOrAppend key a items).map f = replaceOrAppend key (f a) (items.map f) := by
  induction items with
  | nil => rfl
  | cons b rest ih =>
      rw [List.map_cons, replaceOrAppend, replaceOrAppend, hf, hf, ← ih]
      split <;> rfl

/-- Items that have their places already may be replaced in either order. -/
theorem replaceOrAppend_comm {a b : α} (hne : key a ≠ key b) {items : List α}
    (ha : key a ∈ items.map key) (hb : key b ∈ items.map key) :
    replaceOrAppend key a (replaceOrAppend key b items) =
      replaceOrAppend key b (replaceOrAppend key a items) := by
  induction items with
  | nil => cases ha
  | cons x rest ih =>
      rw [List.map_cons, List.mem_cons] at ha hb
      by_cases hxa : key x = key a
      · simp [replaceOrAppend, hxa, hne]
      · by_cases hxb : key x = key b
        · simp [replaceOrAppend, hxb, Ne.symm hne]
        · have hrest := ih (ha.resolve_left fun h => hxa h.symm)
            (hb.resolve_left fun h => hxb h.symm)
          simp [replaceOrAppend, hxa, hxb, hrest]

theorem ext_items {r r' : Register α key} (h : r.items = r'.items) : r = r' := by
  cases r
  cases r'
  cases h
  rfl

/-- Items that are found already may be put in either order. -/
theorem put_comm {r : Register α key} {a b : α} (hne : key a ≠ key b)
    (ha : (r.find? (key a)).isSome = true) (hb : (r.find? (key b)).isSome = true) :
    (r.put b).put a = (r.put a).put b :=
  ext_items (replaceOrAppend_comm hne (mem_keys.2 ha) (mem_keys.2 hb))

theorem put_put {r : Register α key} {a b : α} (h : key a = key b) :
    (r.put a).put b = r.put b :=
  ext_items (replaceOrAppend_replaceOrAppend h r.items)

/-- An item that is put back undoes what was put in its place. -/
theorem put_put_of_find? {r : Register α key} {id : Uuid} {a b : α} (h : key a = key b)
    (hb : r.find? id = some b) : (r.put a).put b = r := by
  rw [put_put h, put_of_find? hb]

end Register

end Hailing
