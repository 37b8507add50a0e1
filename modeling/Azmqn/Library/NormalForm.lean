import Azmqn.Library.PrefixCode

/-!
# Normal forms of encoded items

Rewriting each item of an encoded sequence to its normal form, or leaving it
out, never makes the sequence longer and changes nothing the second time. It
changes nothing the first time exactly when every item is normal already.
-/

universe u v

/-- How items are rewritten; `none` are the items that are left out. -/
structure NormalForm {α : Type u} {β : Type v} (c : ExactCode α β) where
  rewrite : α → Option α
  rewrite_again : ∀ {a b}, rewrite a = some b → rewrite b = some b
  length_le : ∀ {a b}, rewrite a = some b → (c.encode b).length ≤ (c.encode a).length

namespace NormalForm

variable {α : Type u} {β : Type v} {c : ExactCode α β} (f : NormalForm c)

def rewriteAll (as : List α) : List α := as.filterMap f.rewrite

theorem rewriteAll_cons_some {a b : α} (h : f.rewrite a = some b) (as : List α) :
    f.rewriteAll (a :: as) = b :: f.rewriteAll as :=
  List.filterMap_cons_some h

theorem rewriteAll_cons_none {a : α} (h : f.rewrite a = none) (as : List α) :
    f.rewriteAll (a :: as) = f.rewriteAll as :=
  List.filterMap_cons_none h

theorem length_encodeAll_le (as : List α) :
    (c.encodeAll (f.rewriteAll as)).length ≤ (c.encodeAll as).length := by
  induction as with
  | nil => exact Nat.le_refl _
  | cons a as ih =>
    rw [PrefixCode.encodeAll_cons, List.length_append]
    cases h : f.rewrite a with
    | none =>
      rw [f.rewriteAll_cons_none h]
      exact Nat.le_trans ih (Nat.le_add_left _ _)
    | some b =>
      rw [f.rewriteAll_cons_some h, PrefixCode.encodeAll_cons, List.length_append]
      exact Nat.add_le_add (f.length_le h) ih

theorem rewriteAll_again (as : List α) : f.rewriteAll (f.rewriteAll as) = f.rewriteAll as := by
  induction as with
  | nil => rfl
  | cons a as ih =>
    cases h : f.rewrite a with
    | none =>
      rw [f.rewriteAll_cons_none h]
      exact ih
    | some b => rw [f.rewriteAll_cons_some h, f.rewriteAll_cons_some (f.rewrite_again h), ih]

theorem rewriteAll_eq_self_iff (as : List α) :
    f.rewriteAll as = as ↔ ∀ a ∈ as, f.rewrite a = some a := by
  induction as with
  | nil => simp [rewriteAll]
  | cons a as ih =>
    rw [List.forall_mem_cons, ← ih]
    cases h : f.rewrite a with
    | none =>
      rw [f.rewriteAll_cons_none h]
      constructor
      · intro heq
        have hle : (f.rewriteAll as).length ≤ as.length := List.length_filterMap_le _ _
        rw [heq, List.length_cons] at hle
        omega
      · rintro ⟨hne, -⟩
        cases hne
    | some b => rw [f.rewriteAll_cons_some h, List.cons.injEq, Option.some.injEq]

/-- The encoding is left alone exactly where every item is normal. -/
theorem encodeAll_eq_iff (as : List α) :
    c.encodeAll (f.rewriteAll as) = c.encodeAll as ↔ ∀ a ∈ as, f.rewrite a = some a := by
  rw [← f.rewriteAll_eq_self_iff]
  exact c.encodeAll_injective.eq_iff

end NormalForm
