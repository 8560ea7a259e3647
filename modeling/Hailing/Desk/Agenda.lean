/-!
# What comes first

Of things that are due at times, the one that is due first, and the others
in their order; of two that are due at the same time the one that was entered
first. Nothing is lost on the way, as every sum over the things says, and
what comes first is taken out from its place.
-/

namespace Hailing.Agenda

variable {α : Type}

def earliest? (due : α → Nat) : List α → Option (α × List α)
  | [] => none
  | a :: rest =>
    match earliest? due rest with
    | none => some (a, rest)
    | some (b, others) => if due b < due a then some (b, a :: others) else some (a, rest)

/-- The sum of a weight over things. -/
def total (weight : α → Nat) : List α → Nat
  | [] => 0
  | a :: rest => weight a + total weight rest

theorem total_append (weight : α → Nat) (as bs : List α) :
    total weight (as ++ bs) = total weight as + total weight bs := by
  induction as with
  | nil => simp [total]
  | cons a rest ih => simp only [List.cons_append, total, ih]; omega

theorem total_earliest? {due : α → Nat} {entries others : List α} {a : α}
    (h : earliest? due entries = some (a, others)) (weight : α → Nat) :
    total weight entries = weight a + total weight others := by
  induction entries generalizing a others with
  | nil => simp [earliest?] at h
  | cons b rest ih =>
    rw [earliest?] at h
    split at h
    · obtain ⟨rfl, rfl⟩ : b = a ∧ rest = others := by simpa using h
      rfl
    · next c others' he =>
      split at h
      · obtain ⟨rfl, rfl⟩ : c = a ∧ b :: others' = others := by simpa using h
        simp only [total, ih he]
        omega
      · obtain ⟨rfl, rfl⟩ : b = a ∧ rest = others := by simpa using h
        rfl

theorem earliest?_eraseIdx {due : α → Nat} {entries others : List α} {a : α}
    (h : earliest? due entries = some (a, others)) :
    ∃ place : Nat, entries[place]? = some a ∧ others = entries.eraseIdx place := by
  induction entries generalizing a others with
  | nil => simp [earliest?] at h
  | cons b rest ih =>
    rw [earliest?] at h
    split at h
    · obtain ⟨rfl, rfl⟩ : b = a ∧ rest = others := by simpa using h
      exact ⟨0, rfl, rfl⟩
    · next c others' he =>
      split at h
      · obtain ⟨rfl, rfl⟩ : c = a ∧ b :: others' = others := by simpa using h
        obtain ⟨place, hat, rfl⟩ := ih he
        exact ⟨place + 1, hat, rfl⟩
      · obtain ⟨rfl, rfl⟩ : b = a ∧ rest = others := by simpa using h
        exact ⟨0, rfl, rfl⟩

end Hailing.Agenda
