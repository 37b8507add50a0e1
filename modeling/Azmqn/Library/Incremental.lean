import Mathlib.Data.List.Basic

/-!
# Incremental readers

A reader that takes its input as it arrives either has a result or has to wait
for more. It is incremental when a result depends only on the cells that it
takes, and none of them can be spared.
-/

universe u v

/-- A reader of cells: what it makes of the front of its input, if that is enough. -/
structure Incremental (α : Type u) (ρ : Type v) where
  next : List α → Option (ρ × List α)
  taken : ∀ {xs r rest}, next xs = some (r, rest) → ∃ used, used ≠ [] ∧ xs = used ++ rest ∧
    (∀ ys, next (used ++ ys) = some (r, ys)) ∧ ∀ pre, pre <+: used → pre ≠ used → next pre = none

namespace Incremental

/-- What is missing from a part that is not the whole. -/
theorem missing_ne_nil {α : Type u} {pre missing used : List α} (h : pre ++ missing = used)
    (hne : pre ≠ used) : missing ≠ [] := by
  rintro rfl
  rw [List.append_nil] at h
  exact hne h

variable {α : Type u} {ρ : Type v} (d : Incremental α ρ) {xs rest : List α} {r : ρ}

theorem next_append (h : d.next xs = some (r, rest)) (ys : List α) :
    d.next (xs ++ ys) = some (r, rest ++ ys) := by
  obtain ⟨used, -, rfl, hused, -⟩ := d.taken h
  rw [List.append_assoc]
  exact hused (rest ++ ys)

end Incremental
