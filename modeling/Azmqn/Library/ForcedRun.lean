import Mathlib.Logic.Relation

/-!
# Forced runs

A run is forced when each of its states leaves no choice: it has exactly one
successor, up to a last state that has none. Everything that can be reached from
the first state of a forced run lies on it, and there is no infinite run.
-/

open Relation

variable {α : Type*} {r : α → α → Prop} {a b c : α}

/-- The run from `a` to `b` is the only one from `a`, and it ends there. -/
inductive ForcedRun (r : α → α → Prop) : α → α → Prop
  | done {b : α} (final : ∀ c, ¬ r b c) : ForcedRun r b b
  | step {a a' b : α} (next : r a a') (only : ∀ c, r a c → c = a') (tail : ForcedRun r a' b) :
      ForcedRun r a b

namespace ForcedRun

theorem reflTransGen (h : ForcedRun r a b) : ReflTransGen r a b := by
  induction h with
  | done _ => exact .refl
  | step next _ _ ih => exact .head next ih

/-- No infinite run starts where a forced one does. -/
theorem acc (h : ForcedRun r a b) : Acc (fun x y => r y x) a := by
  induction h with
  | done final =>
    constructor
    intro c hc
    exact absurd hc (final c)
  | step _ only _ ih =>
    constructor
    intro c hc
    rw [only c hc]
    exact ih

theorem of_step (h : ForcedRun r a b) (hs : r a c) : ForcedRun r c b := by
  cases h with
  | done final => exact absurd hs (final c)
  | step _ only tail =>
    rw [only c hs]
    exact tail

/-- What can be reached lies on the run. -/
theorem of_reflTransGen (h : ForcedRun r a b) (hc : ReflTransGen r a c) : ForcedRun r c b := by
  induction hc with
  | refl => exact h
  | tail _ hs ih => exact ih.of_step hs

theorem eq_of_final (h : ForcedRun r a b) (ha : ∀ c, ¬ r a c) : a = b := by
  cases h with
  | done _ => rfl
  | step next _ _ => exact absurd next (ha _)

end ForcedRun
