import Azmqn.Utility.ExpectedLifetimes

/-!
# Assignment from an lvalue

The two overloads of `operator=` for an lvalue of the class, and for one of
`unexpected<E>`, take a reference to const and copy. An lvalue that is not const
goes to the unconstrained template instead, whose parameter binds it without
adding const, and whose body moves from it.
-/

namespace Azmqn.ExpectedDetail

open Objects Overload

variable {T E : Type} [ValueAndError T E]

/-- Assigning from an lvalue moves from it unless it is const or a move is a copy. -/
theorem assignMoves_lvalue (n : Named T E) (isConst : Bool) :
    assignMoves T E n.type isConst .lvalue = (!isConst && selectsBase T E) := by
  cases n <;> cases isConst <;> rfl

theorem Named.content_leave (moves : Bool) (n : Named T E) :
    (n.leave moves).content = ExpectedDetail.leave moves n.content := by
  cases n <;> cases moves <;> rfl

theorem leave_eq_self_iff (moves : Bool) (c : Expected T E) :
    leave moves c = c ↔ moves = false ∨ movedFrom c = c := by
  cases moves <;> simp [leave]

/-- What an assignment from a named object does to the two objects. -/
theorem Values.get_assign {m : Values T E} {a b : ℕ} {n k : Named T E} (hab : a ≠ b)
    (ha : m.get a = some k) (hb : m.get b = some n) (isConst : Bool) (category : Category) :
    (m.step (.assign a (.object b) isConst category)).get a = some (.expected n.content) ∧
    (m.step (.assign a (.object b) isConst category)).get b =
      some (n.leave (assignMoves T E n.type isConst category)) := by
  have hstep : m.step (.assign a (.object b) isConst category) =
      (m.set b (some (n.leave (assignMoves T E n.type isConst category)))).set a
        (some (.expected n.content)) := by
    simp [Values.step, Values.operand, Values.leaveOperand, hb]
  rw [hstep]
  constructor
  · have hk : get (m.set b (some (n.leave (assignMoves T E n.type isConst category)))) a =
        some k := by
      rw [get_set_ne hab.symm, ha]
    exact get_set_self hk _
  · rw [get_set_ne hab, get_set_self hb]

namespace World

/-- `a = b`, for an lvalue `b`, makes `a` equal to the old `b` and leaves `b` as it was: a value
stays that value and an error that error. -/
def AssignCopies (w : World T E) (a b : ℕ) (isConst : Bool) : Prop :=
  ∃ w', w.step (.assign a (.object b) isConst .lvalue) = some w' ∧
    w'.contents? a = w.contents? b ∧ w'.contents? b = w.contents? b

/-- In any state of a program `a = b` copies, for a live `expected` `a` and another live object
`b` that is an `expected` or a named `T`, `E` or `unexpected<E>`, if and only if `b` is const, or
`T` and `E` are trivially destructible, or moving from the contents of `b` does not change them. -/
theorem assignCopies_iff {w : World T E} (hr : w.Reachable) {a b : ℕ} (hab : a ≠ b)
    (ha : (w.expected? a).isSome) (hb : (w.entity? b).isSome) (isConst : Bool) :
    w.AssignCopies a b isConst ↔
      isConst = true ∨ selectsBase T E = false ∨
        ∀ c, w.contents? b = some c → movedFrom c = c := by
  obtain ⟨m, hw⟩ := hr.refines
  have henabled : w.Enabled (.assign a (.object b) isConst .lvalue) := ⟨ha, hb⟩
  obtain ⟨w', hs, hw'⟩ := step_refines hw henabled
  obtain ⟨-, d, -, hma, -⟩ := hw.expected ha
  obtain ⟨n, hmb⟩ := hw.exists_get hb
  obtain ⟨hma', hmb'⟩ := Values.get_assign hab hma hmb isConst .lvalue
  have htarget : w'.contents? a = some n.content := by
    rw [hw'.contents, hma']
    rfl
  have hsource : w'.contents? b =
      some (leave (assignMoves T E n.type isConst .lvalue) n.content) := by
    rw [hw'.contents, hmb', ← Named.content_leave]
    rfl
  have hold : w.contents? b = some n.content := by
    rw [hw.contents, hmb]
    rfl
  have hcopies : w.AssignCopies a b isConst ↔
      leave (assignMoves T E n.type isConst .lvalue) n.content = n.content := by
    constructor
    · rintro ⟨w'', hs', -, hkept⟩
      obtain rfl : w' = w'' := Option.some.inj (hs.symm.trans hs')
      rw [hsource, hold] at hkept
      exact Option.some.inj hkept
    · intro hleave
      exact ⟨w', hs, htarget.trans hold.symm, by rw [hsource, hleave, hold]⟩
  rw [hcopies, leave_eq_self_iff, assignMoves_lvalue, hold]
  cases isConst <;> simp

/-- From the const lvalue the octets are copied, to an object that held an error. -/
theorem assignCopies_const_octets : octetsAndError.AssignCopies 3 2 true :=
  (assignCopies_iff octetsAndError_reachable (by decide) rfl rfl true).mpr (Or.inl rfl)

/-- Without the const, `a = b` and `a = v` leave an empty vector behind. -/
theorem octets_lost_by_assignment :
    octetsAndError.Reachable ∧ octetsAndError.contents? 2 = some (.value [1, 2]) ∧
      octetsAndError.contents? 0 = some (.value [1, 2]) ∧
      ¬ octetsAndError.AssignCopies 3 2 false ∧ ¬ octetsAndError.AssignCopies 3 0 false := by
  refine ⟨octetsAndError_reachable, rfl, rfl, ?_, ?_⟩
  · rintro ⟨w', hs, -, hkept⟩
    obtain rfl := Option.some.inj hs
    revert hkept
    decide
  · rintro ⟨w', hs, -, hkept⟩
    obtain rfl := Option.some.inj hs
    revert hkept
    decide

end World

end Azmqn.ExpectedDetail
