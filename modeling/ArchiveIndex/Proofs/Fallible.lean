import Mathlib.Data.List.Forall2

/-!
# Computations that may fail

What the success of a whole says of its steps. The readers of the library fail by returning an
error; each lemma opens one way in which they are put together.
-/

namespace ArchiveIndex

variable {ε ε' α β : Type}

theorem bind_eq_ok_iff {x : Except ε α} {f : α → Except ε β} {b : β} :
    x >>= f = .ok b ↔ ∃ a, x = .ok a ∧ f a = .ok b := by
  cases x with
  | error e => simp [bind, Except.bind]
  | ok a => simp [bind, Except.bind]

theorem bind_eq_error_iff {x : Except ε α} {f : α → Except ε β} {e : ε} :
    x >>= f = .error e ↔ x = .error e ∨ ∃ a, x = .ok a ∧ f a = .error e := by
  cases x with
  | error e' => simp [bind, Except.bind]
  | ok a => simp [bind, Except.bind]

/-- Where the last step cannot fail, the step before it did. -/
theorem eq_error_of_bind {x : Except ε α} {f : α → Except ε β} {e : ε} (h : x >>= f = .error e)
    (hf : ∀ a, ∃ b, f a = .ok b) : x = .error e := by
  rcases bind_eq_error_iff.1 h with h | ⟨a, -, h⟩
  · exact h
  · obtain ⟨b, hb⟩ := hf a
    exact absurd (hb.symm.trans h) (by simp)

theorem map_eq_ok_iff {x : Except ε α} {f : α → β} {b : β} :
    x.map f = .ok b ↔ ∃ a, x = .ok a ∧ f a = b := by
  cases x with
  | error e => simp [Except.map]
  | ok a => simp [Except.map]

theorem mapError_eq_ok_iff {x : Except ε α} {f : ε → ε'} {a : α} :
    x.mapError f = .ok a ↔ x = .ok a := by
  cases x with
  | error e => simp [Except.mapError]
  | ok a => simp [Except.mapError]

/-- A list is gone through if every item is, and the results stand in the same order. -/
theorem mapM_eq_ok_iff {f : α → Except ε β} {items : List α} {results : List β} :
    items.mapM f = .ok results ↔ List.Forall₂ (fun a b => f a = .ok b) items results := by
  induction items generalizing results with
  | nil =>
    rw [List.mapM_nil, List.forall₂_nil_left_iff]
    exact ⟨fun h => (Except.ok.inj h).symm, fun h => congrArg Except.ok h.symm⟩
  | cons a items ih =>
    rw [List.mapM_cons, bind_eq_ok_iff, List.forall₂_cons_left_iff]
    constructor
    · rintro ⟨b, ha, h⟩
      obtain ⟨later, hlater, h⟩ := bind_eq_ok_iff.1 h
      exact ⟨b, later, ha, ih.1 hlater, (Except.ok.inj h).symm⟩
    · rintro ⟨b, later, ha, hlater, rfl⟩
      exact ⟨b, ha, bind_eq_ok_iff.2 ⟨later, ih.2 hlater, rfl⟩⟩

/-- Lists whose items fare alike fare alike. -/
theorem mapM_eq_of_forall₂ {f : α → Except ε β} {items items' : List α}
    (h : List.Forall₂ (fun a a' => f a = f a') items items') : items.mapM f = items'.mapM f := by
  induction h with
  | nil => rfl
  | cons ha _ ih => rw [List.mapM_cons, List.mapM_cons, ha, ih]

end ArchiveIndex
