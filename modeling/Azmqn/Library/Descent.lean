import Azmqn.Library.ForcedRun
import Mathlib.Data.Finset.Piecewise
import Mathlib.Data.Fintype.EquivFin

/-!
# Runs with a choice that does not matter

When two different next steps can always be completed to a square, all runs from
a state have the same length and the same end, if one of them has an end at all.
Steps of independent components have this property: a family of components, each
of which must end somewhere, ends there in whatever order the components move.
-/

open Relation

universe u v

section Relation

variable {α : Type u} {r : α → α → Prop} {a b c : α}

/-- In the states of a kind that no step leaves, two next steps are the same one, or one more
step each joins them. -/
structure DiamondOn (P : α → Prop) (r : α → α → Prop) : Prop where
  closed : ∀ ⦃a b⦄, P a → r a b → P b
  square : ∀ ⦃a b c⦄, P a → r a b → r a c → b = c ∨ ∃ d, r b d ∧ r c d

/-- Every run from the state ends, and it ends in `b`. -/
inductive Inevitable (r : α → α → Prop) (b : α) : α → Prop
  | done (final : ∀ c, ¬ r b c) : Inevitable r b b
  | step {a a' : α} (next : r a a') (all : ∀ c, r a c → Inevitable r b c) : Inevitable r b a

namespace Inevitable

theorem reflTransGen (h : Inevitable r b a) : ReflTransGen r a b := by
  induction h with
  | done _ => exact .refl
  | step next _ ih => exact .head next (ih _ next)

theorem final (h : Inevitable r b a) : ∀ c, ¬ r b c := by
  induction h with
  | done final => exact final
  | step next _ ih => exact ih _ next

/-- No infinite run starts there. -/
theorem acc (h : Inevitable r b a) : Acc (fun x y => r y x) a := by
  induction h with
  | done final =>
    constructor
    intro c hc
    exact absurd hc (final c)
  | step _ _ ih =>
    constructor
    intro c hc
    exact ih c hc

theorem of_step (h : Inevitable r b a) (hs : r a c) : Inevitable r b c := by
  cases h with
  | done final => exact absurd hs (final c)
  | step _ all => exact all c hs

theorem of_reflTransGen (h : Inevitable r b a) (hc : ReflTransGen r a c) : Inevitable r b c := by
  induction hc with
  | refl => exact h
  | tail _ hs ih => exact ih.of_step hs

theorem eq_of_final (h : Inevitable r b a) (ha : ∀ c, ¬ r a c) : a = b := by
  cases h with
  | done _ => rfl
  | step next _ => exact absurd next (ha _)

end Inevitable

theorem ForcedRun.inevitable (h : ForcedRun r a b) : Inevitable r b a := by
  induction h with
  | done final => exact .done final
  | step next only _ ih =>
    refine .step next ?_
    intro c hc
    rw [only c hc]
    exact ih

/-- A run with the number of its steps. -/
inductive StepsTo (r : α → α → Prop) (b : α) : ℕ → α → Prop
  | refl : StepsTo r b 0 b
  | head {a a' : α} {n : ℕ} (next : r a a') (tail : StepsTo r b n a') : StepsTo r b (n + 1) a

theorem StepsTo.of_reflTransGen (h : ReflTransGen r a b) : ∃ n, StepsTo r b n a := by
  induction h using ReflTransGen.head_induction_on with
  | refl => exact ⟨0, .refl⟩
  | head hs _ ih =>
    obtain ⟨n, hn⟩ := ih
    exact ⟨n + 1, .head hs hn⟩

namespace DiamondOn

variable {P : α → Prop}

/-- The first step may be any: the rest of the run can be made up for. -/
theorem stepsTo (hd : DiamondOn P r) (ha : P a) (hb : ∀ c, ¬ r b c) {n : ℕ}
    (h : StepsTo r b (n + 1) a) (hc : r a c) : StepsTo r b n c := by
  induction n generalizing a c with
  | zero =>
    cases h with
    | head next tail =>
      cases tail
      rcases hd.square ha next hc with rfl | ⟨d, hbd, -⟩
      · exact .refl
      · exact absurd hbd (hb d)
  | succ n ih =>
    cases h with
    | head next tail =>
      rcases hd.square ha next hc with rfl | ⟨d, hd₁, hd₂⟩
      · exact tail
      · exact .head hd₂ (ih (hd.closed ha next) tail hd₁)

/-- One run that ends decides how all runs end. -/
theorem inevitable (hd : DiamondOn P r) (ha : P a) (h : ReflTransGen r a b)
    (hb : ∀ c, ¬ r b c) : Inevitable r b a := by
  obtain ⟨n, hn⟩ := StepsTo.of_reflTransGen h
  clear h
  induction n generalizing a with
  | zero =>
    cases hn
    exact .done hb
  | succ n ih =>
    cases hn with
    | head next tail =>
      refine .step next ?_
      intro c hc
      exact ih (hd.closed ha hc) (hd.stepsTo ha hb (.head next tail) hc)

/-- Whatever two runs did, they can still meet. -/
theorem join (hd : DiamondOn (fun _ => True) r) (hb : ReflTransGen r a b)
    (hc : ReflTransGen r a c) : Join (ReflTransGen r) b c := by
  refine church_rosser ?_ hb hc
  intro a b c hab hac
  rcases hd.square trivial hab hac with rfl | ⟨d, hbd, hcd⟩
  · exact ⟨b, .refl, .refl⟩
  · exact ⟨d, .single hbd, .single hcd⟩

end DiamondOn

/-- The states of a forced run have one successor at most. -/
theorem ForcedRun.diamondOn (r : α → α → Prop) (b : α) :
    DiamondOn (fun a => ForcedRun r a b) r := by
  constructor
  · intro a c ha hc
    exact ha.of_step hc
  · intro a c c' ha hc hc'
    cases ha with
    | done final => exact absurd hc (final c)
    | step _ only _ =>
      rw [only c hc, only c' hc']
      exact Or.inl rfl

end Relation

section Interleave

variable {ι : Type u} [DecidableEq ι] {α : ι → Type v} {r : ∀ i, α i → α i → Prop}

/-- One component moves and the others stay. -/
inductive Interleave (r : ∀ i, α i → α i → Prop) (a : ∀ i, α i) : (∀ i, α i) → Prop
  | moves {i : ι} {x : α i} (step : r i (a i) x) : Interleave r a (Function.update a i x)

namespace Interleave

variable {P : ∀ i, α i → Prop}

/-- What every component preserves is preserved. -/
theorem invariant (hP : ∀ i x y, P i x → r i x y → P i y) {a b : ∀ i, α i}
    (ha : ∀ i, P i (a i)) (h : ReflTransGen (Interleave r) a b) : ∀ i, P i (b i) := by
  induction h with
  | refl => exact ha
  | tail _ hs ih =>
    rcases hs with @⟨j, x, hx⟩
    intro i
    by_cases hij : i = j
    · subst hij
      rw [Function.update_self]
      exact hP i _ _ (ih i) hx
    · rw [Function.update_of_ne hij]
      exact ih i

theorem diamondOn (hd : ∀ i, DiamondOn (P i) (r i)) :
    DiamondOn (fun a => ∀ i, P i (a i)) (Interleave r) := by
  constructor
  · intro a b ha hs
    exact invariant (P := P) (r := r) (fun i x y hx hxy => (hd i).closed hx hxy) ha (.single hs)
  · rintro a _ _ ha ⟨hi⟩ ⟨hj⟩
    rename_i i x j y
    by_cases hij : i = j
    · subst hij
      rcases (hd i).square (ha i) hi hj with rfl | ⟨z, hxz, hyz⟩
      · exact Or.inl rfl
      · refine Or.inr ⟨Function.update a i z, ?_, ?_⟩
        · rw [← Function.update_idem x z a]
          exact .moves (by rwa [Function.update_self])
        · rw [← Function.update_idem y z a]
          exact .moves (by rwa [Function.update_self])
    · refine Or.inr ⟨Function.update (Function.update a i x) j y, ?_, ?_⟩
      · exact .moves (by rwa [Function.update_of_ne (Ne.symm hij)])
      · rw [Function.update_comm hij]
        exact .moves (by rwa [Function.update_of_ne hij])

/-- A run of one component, with the others at rest. -/
theorem of_component {a : ∀ i, α i} {i : ι} {x y : α i} (h : ReflTransGen (r i) x y) :
    ReflTransGen (Interleave r) (Function.update a i x) (Function.update a i y) := by
  induction h with
  | refl => exact .refl
  | @tail y z _ hs ih =>
    have h : Interleave r (Function.update a i y) (Function.update (Function.update a i y) i z) :=
      .moves (by rwa [Function.update_self])
    rw [Function.update_idem] at h
    exact ih.tail h

variable [Finite ι]

/-- The components may run one after another. -/
theorem reflTransGen {a b : ∀ i, α i} (h : ∀ i, ReflTransGen (r i) (a i) (b i)) :
    ReflTransGen (Interleave r) a b := by
  cases nonempty_fintype ι
  suffices hs : ∀ s : Finset ι, ReflTransGen (Interleave r) a (s.piecewise b a) by
    simpa using hs Finset.univ
  intro s
  induction s using Finset.induction_on with
  | empty => simpa using ReflTransGen.refl
  | insert i s hi ih =>
    have hstep := of_component (a := s.piecewise b a) (h i)
    rw [← Finset.piecewise_insert, Function.update_eq_self_iff.mpr] at hstep
    · exact ih.trans hstep
    · rw [Finset.piecewise_eq_of_notMem _ _ _ hi]

/-- Components that must each end somewhere end there together. -/
theorem inevitable (hd : ∀ i, DiamondOn (P i) (r i)) {a b : ∀ i, α i} (ha : ∀ i, P i (a i))
    (h : ∀ i, Inevitable (r i) (b i) (a i)) : Inevitable (Interleave r) b a := by
  apply (diamondOn hd).inevitable ha (reflTransGen fun i => (h i).reflTransGen)
  rintro _ ⟨hs⟩
  exact (h _).final _ hs

end Interleave

end Interleave
