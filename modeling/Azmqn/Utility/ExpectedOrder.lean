import Mathlib.Data.Sum.Order
import Azmqn.Utility.ExpectedAnswers

/-!
# The order of `expected` objects

The six operators are written with `==` and `<` of the contents. Where these are
the operators of linear orders, an `expected` is ordered as the sum of the two
orders, values in front of errors, and each operator, mixed or not, is the one of
that order. `>` is written as neither equal nor less; whether it is `<` with its
sides exchanged depends on the two types alone, and of two incomparable objects
each is greater than the other.
-/

namespace Azmqn.ExpectedDetail

variable {T E : Type}

/-- Contents in the sum of the two orders. -/
def inOrder : Expected T E → T ⊕ₗ E
  | .value v => toLex (Sum.inl v)
  | .error e => toLex (Sum.inr e)

def Comparison.Holds {α : Type} [LinearOrder α] (op : Comparison) (x y : α) : Prop :=
  match op with
  | eq => x = y
  | ne => x ≠ y
  | lt => x < y
  | gt => x > y
  | le => x ≤ y
  | ge => x ≥ y

/-- `==` and `<` of a type are those of a linear order. -/
structure FollowsOrder (α : Type) [LinearOrder α] [Operators α] : Prop where
  eq : ∀ v w : α, Operators.eq v w = true ↔ v = w
  lt : ∀ v w : α, Operators.lt v w = true ↔ v < w

/-- Of two objects that are not equal and not less the other one is less. -/
def Trichotomous (α : Type) [Operators α] : Prop :=
  ∀ v w : α, (!Operators.eq v w && !Operators.lt v w) = Operators.lt w v

/-- Two objects that are neither equal nor less, whichever stands on the left. -/
def Incomparable {α : Type} [Operators α] (v w : α) : Prop :=
  (Operators.eq v w = false ∧ Operators.lt v w = false) ∧
    Operators.eq w v = false ∧ Operators.lt w v = false

variable [Operators T] [Operators E]

section Order

variable [LinearOrder T] [LinearOrder E]

theorem contentsEq_iff (hT : FollowsOrder T) (hE : FollowsOrder E) (c d : Expected T E) :
    contentsEq c d = true ↔ inOrder c = inOrder d := by
  cases c with
  | value v =>
    cases d with
    | value w => simp [contentsEq, inOrder, hT.eq]
    | error f => simp [contentsEq, inOrder]
  | error e =>
    cases d with
    | value w => simp [contentsEq, inOrder]
    | error f => simp [contentsEq, inOrder, hE.eq]

theorem contentsLt_iff (hT : FollowsOrder T) (hE : FollowsOrder E) (c d : Expected T E) :
    contentsLt c d = true ↔ inOrder c < inOrder d := by
  cases c with
  | value v =>
    cases d with
    | value w => simp [contentsLt, inOrder, hT.lt]
    | error f => simp [contentsLt, inOrder]
  | error e =>
    cases d with
    | value w => simp [contentsLt, inOrder]
    | error f => simp [contentsLt, inOrder, hE.lt]

/-- Each operator is the one of the order. -/
theorem Comparison.contents_iff (hT : FollowsOrder T) (hE : FollowsOrder E) (op : Comparison)
    (c d : Expected T E) : op.contents c d = true ↔ op.Holds (inOrder c) (inOrder d) := by
  have heq := contentsEq_iff hT hE c d
  have hlt := contentsLt_iff hT hE c d
  have hgt : (!contentsEq c d && !contentsLt c d) = true ↔ inOrder c > inOrder d := by
    rw [Bool.and_eq_true, Bool.not_eq_true', Bool.not_eq_true', ← Bool.not_eq_true,
      ← Bool.not_eq_true, heq, hlt]
    constructor
    · rintro ⟨hne, hnlt⟩
      exact lt_of_le_of_ne (not_lt.mp hnlt) (Ne.symm hne)
    · intro h
      exact ⟨h.ne', not_lt_of_gt h⟩
  cases op with
  | eq => exact heq
  | ne => simp [contents, Holds, ← heq]
  | lt => exact hlt
  | gt => exact hgt
  | le =>
    rw [contents, Bool.or_eq_true, heq, hlt, Holds, le_iff_eq_or_lt]
  | ge =>
    rw [contents, Bool.or_eq_true, heq, hgt, Holds, ge_iff_le, le_iff_eq_or_lt, eq_comm]

end Order

namespace World

variable [ValueAndError T E] {w : World T E} {m : Values T E} {b : Build}
  {us : List (Use T E)} {rs : List (Result T E)}

theorem refines_of_run (hm : Values.run b us [] = some (rs, m))
    (hw : start.run b us = some (rs, w)) : w.Refines m := by
  obtain ⟨w', hw', href⟩ := run_refines ⟨[], intact_start, rfl⟩ hm
  rw [hw] at hw'
  cases hw'
  exact href

/-- In every state that a program reaches any two objects of which one is an `expected`, or the
contents of one, compare as the sum of the two orders has them, by each of the six operators; the
comparison returns, and changes no object. -/
theorem comparisons_ordered [LinearOrder T] [LinearOrder E] (hT : FollowsOrder T)
    (hE : FollowsOrder E) (hm : Values.run b us [] = some (rs, m))
    (hw : start.run b us = some (rs, w)) {lhs rhs : Operand E} {c d : Expected T E}
    {s t : ArgumentType} (hl : m.Live lhs) (hr : m.Live rhs)
    (hc : m.operand lhs = some (c, s)) (hd : m.operand rhs = some (d, t))
    (ht : Comparable s t = true) (op : Comparison) :
    ∃ r w', w.use b (.compare op lhs rhs) = some (.ok (.truth r), w') ∧
      (r = true ↔ op.Holds (inOrder c) (inOrder d)) ∧
      ∀ a, w'.contents? a = w.contents? a := by
  have href := refines_of_run hm hw
  have huse : m.use b (.compare op lhs rhs) = some (.ok (.truth (op.contents c d)), m) := by
    simp [Values.use, hc, hd, hl, hr, ht]
  obtain ⟨w', hw', href'⟩ := use_refines href huse
  refine ⟨_, w', hw', op.contents_iff hT hE c d, ?_⟩
  intro a
  rw [href.contents, href'.contents]

end World

section Flip

/-- The operator `>` of contents is `<` with its sides exchanged. -/
def FlipsContents (T E : Type) [Operators T] [Operators E] : Prop :=
  ∀ c d : Expected T E, Comparison.gt.contents c d = Comparison.lt.contents d c

theorem flipsContents_iff : FlipsContents T E ↔ Trichotomous T ∧ Trichotomous E := by
  constructor
  · intro h
    constructor
    · intro v w
      exact h (.value v) (.value w)
    · intro e f
      exact h (.error e) (.error f)
  · rintro ⟨hT, hE⟩ c d
    cases c with
    | value v =>
      cases d with
      | value w => exact hT v w
      | error f => rfl
    | error e =>
      cases d with
      | value w => rfl
      | error f => exact hE e f

/-- Two contents of one kind that are incomparable. -/
def IncomparableContents : Expected T E → Expected T E → Prop
  | .value v, .value w => Incomparable v w
  | .error e, .error f => Incomparable e f
  | _, _ => False

theorem greater_both_iff (c d : Expected T E) :
    Comparison.gt.contents c d = true ∧ Comparison.gt.contents d c = true ↔
      IncomparableContents c d := by
  cases c with
  | value v =>
    cases d with
    | value w =>
      simp [Comparison.contents, contentsEq, contentsLt, IncomparableContents, Incomparable]
    | error f => simp [Comparison.contents, contentsEq, contentsLt, IncomparableContents]
  | error e =>
    cases d with
    | value w => simp [Comparison.contents, contentsEq, contentsLt, IncomparableContents]
    | error f =>
      simp [Comparison.contents, contentsEq, contentsLt, IncomparableContents, Incomparable]

theorem exists_incomparableContents :
    (∃ c d : Expected T E, IncomparableContents c d) ↔
      (∃ v w : T, Incomparable v w) ∨ ∃ e f : E, Incomparable e f := by
  constructor
  · rintro ⟨c, d, h⟩
    cases c with
    | value v =>
      cases d with
      | value w => exact Or.inl ⟨v, w, h⟩
      | error f => exact h.elim
    | error e =>
      cases d with
      | value w => exact h.elim
      | error f => exact Or.inr ⟨e, f, h⟩
  · rintro (⟨v, w, h⟩ | ⟨e, f, h⟩)
    · exact ⟨.value v, .value w, h⟩
    · exact ⟨.error e, .error f, h⟩

variable [ValueAndError T E]

omit [Operators T] [Operators E] [ValueAndError T E] in
theorem Values.get_of_expected? {m : Values T E} {a : ℕ} {c : Expected T E}
    (h : m.expected? a = some c) : m.get a = some (.expected c) := by
  unfold expected? at h
  split at h
  · next d hd =>
    cases h
    exact hd
  · cases h

theorem Values.use_compare {b : Build} {m : Values T E} {a a' : ℕ} {c d : Expected T E}
    (op : Comparison) (hc : m.expected? a = some c) (hd : m.expected? a' = some d) :
    m.use b (.compare op (.object a) (.object a')) =
      some (.ok (.truth (op.contents c d)), m) := by
  have hga := get_of_expected? hc
  have hgd := get_of_expected? hd
  simp [use, operand, Live, hga, hgd, Named.content, Named.type, Comparable]

/-- A program that makes an `expected` of given contents. -/
def makeExpected (a : ℕ) : Expected T E → List (Use T E)
  | .value v =>
    [.operation (.newValue v), .operation (.construct (.object a) true .lvalue)]
  | .error e =>
    [.operation (.newError e), .operation (.construct (.object a) true .lvalue)]

namespace World

/-- Both `a > a'` and `a' > a` are true. -/
def GreaterBothWays (b : Build) (w : World T E) (a a' : ℕ) : Prop :=
  (∃ w', w.use b (.compare .gt (.object a) (.object a')) = some (.ok (.truth true), w')) ∧
    ∃ w', w.use b (.compare .gt (.object a') (.object a)) = some (.ok (.truth true), w')

variable {w : World T E} {b : Build} {us : List (Use T E)} {rs : List (Result T E)}

/-- Two `expected` objects in any program, and what their comparisons answer. -/
theorem use_compare (hw : start.run b us = some (rs, w)) {a a' : ℕ}
    (ha : (w.expected? a).isSome) (ha' : (w.expected? a').isSome) :
    ∃ c d, w.contents? a = some c ∧ w.contents? a' = some d ∧
      (∀ op, ∃ w', w.use b (.compare op (.object a) (.object a')) =
        some (.ok (.truth (op.contents c d)), w')) ∧
      ∀ op, ∃ w', w.use b (.compare op (.object a') (.object a)) =
        some (.ok (.truth (op.contents d c)), w') := by
  cases hm : Values.run b us [] with
  | none =>
    rw [run_none ⟨[], intact_start, rfl⟩ hm] at hw
    cases hw
  | some p =>
    obtain ⟨rs', m⟩ := p
    obtain ⟨w', hw', href⟩ := run_refines ⟨[], intact_start, rfl⟩ hm
    rw [hw] at hw'
    cases hw'
    obtain ⟨i, c, -, hc, -⟩ := href.expected ha
    obtain ⟨j, d, -, hd, -⟩ := href.expected ha'
    have hc' : m.expected? a = some c := by rw [Values.expected?, hc]
    have hd' : m.expected? a' = some d := by rw [Values.expected?, hd]
    refine ⟨c, d, by rw [href.contents, hc]; rfl, by rw [href.contents, hd]; rfl, ?_, ?_⟩
    · intro op
      obtain ⟨w', h, -⟩ := use_refines href (Values.use_compare (b := b) op hc' hd')
      exact ⟨w', h⟩
    · intro op
      obtain ⟨w', h, -⟩ := use_refines href (Values.use_compare (b := b) op hd' hc')
      exact ⟨w', h⟩

/-- Some program has two `expected` objects of given contents. -/
theorem exists_run_contents (b : Build) (c d : Expected T E) :
    ∃ us rs, ∃ w : World T E, ∃ a a', start.run b us = some (rs, w) ∧
      (w.expected? a).isSome ∧ (w.expected? a').isSome ∧
      w.contents? a = some c ∧ w.contents? a' = some d := by
  have hrun : ∃ rs m, Values.run b (makeExpected 0 c ++ makeExpected 2 d) [] = some (rs, m) ∧
      m.expected? 1 = some c ∧ m.expected? 3 = some d := by
    cases c <;> cases d <;> exact ⟨_, _, rfl, rfl, rfl⟩
  obtain ⟨rs, m, hm, hc, hd⟩ := hrun
  obtain ⟨w, hw, href⟩ := run_refines ⟨[], intact_start, rfl⟩ hm
  have hga := Values.get_of_expected? hc
  have hgd := Values.get_of_expected? hd
  obtain ⟨i, hx⟩ := href.exists_expected hga
  obtain ⟨j, hy⟩ := href.exists_expected hgd
  refine ⟨_, rs, w, 1, 3, hw, by rw [hx]; rfl, by rw [hy]; rfl, ?_, ?_⟩
  · rw [href.contents, hga]
    rfl
  · rw [href.contents, hgd]
    rfl

theorem greaterBothWays_iff (hw : start.run b us = some (rs, w)) {a a' : ℕ}
    (ha : (w.expected? a).isSome) (ha' : (w.expected? a').isSome) :
    w.GreaterBothWays b a a' ↔
      ∃ c d, w.contents? a = some c ∧ w.contents? a' = some d ∧ IncomparableContents c d := by
  obtain ⟨c, d, hc, hd, hcd, hdc⟩ := use_compare hw ha ha'
  obtain ⟨w₁, h₁⟩ := hcd .gt
  obtain ⟨w₂, h₂⟩ := hdc .gt
  have hboth : w.GreaterBothWays b a a' ↔
      Comparison.gt.contents c d = true ∧ Comparison.gt.contents d c = true := by
    simp [GreaterBothWays, h₁, h₂]
  rw [hboth, greater_both_iff]
  constructor
  · intro h
    exact ⟨c, d, hc, hd, h⟩
  · rintro ⟨c', d', hc', hd', h⟩
    rw [hc] at hc'
    rw [hd] at hd'
    cases hc'
    cases hd'
    exact h

end World

/-- In any program and between any two objects, `a > b` has the answer of `b < a` exactly when
the operators of `T` and of `E` know of no two objects that are neither equal nor ordered. Of two
objects each is greater than the other exactly when they hold incomparable objects, and where `T`
or `E` has incomparable objects that comes to pass. -/
theorem greater_flips_iff (b : Build) :
    ((∀ us rs (w : World T E), World.start.run b us = some (rs, w) →
      ∀ a a', (w.expected? a).isSome → (w.expected? a').isSome →
        (w.use b (.compare .gt (.object a) (.object a'))).map Prod.fst =
          (w.use b (.compare .lt (.object a') (.object a))).map Prod.fst) ↔
      Trichotomous T ∧ Trichotomous E) ∧
    (∀ us rs (w : World T E), World.start.run b us = some (rs, w) →
      ∀ a a', (w.expected? a).isSome → (w.expected? a').isSome →
        (w.GreaterBothWays b a a' ↔
          ∃ c d, w.contents? a = some c ∧ w.contents? a' = some d ∧ IncomparableContents c d)) ∧
    ((∃ us rs, ∃ w : World T E, ∃ a a', World.start.run b us = some (rs, w) ∧
        (w.expected? a).isSome ∧ (w.expected? a').isSome ∧ w.GreaterBothWays b a a') ↔
      (∃ v w : T, Incomparable v w) ∨ ∃ e f : E, Incomparable e f) := by
  refine ⟨?_, fun us rs w hw a a' ha ha' => World.greaterBothWays_iff hw ha ha', ?_⟩
  · rw [← flipsContents_iff]
    constructor
    · intro h c d
      obtain ⟨us, rs, w, a, a', hw, ha, ha', hc, hd⟩ := World.exists_run_contents b c d
      have hanswers := h us rs w hw a a' ha ha'
      obtain ⟨c', d', hc', hd', hcd, hdc⟩ := World.use_compare hw ha ha'
      rw [hc] at hc'
      rw [hd] at hd'
      cases hc'
      cases hd'
      obtain ⟨w₁, hgt⟩ := hcd .gt
      obtain ⟨w₂, hlt⟩ := hdc .lt
      rw [hgt, hlt] at hanswers
      simpa using hanswers
    · intro h us rs w hw a a' ha ha'
      obtain ⟨c, d, -, -, hcd, hdc⟩ := World.use_compare hw ha ha'
      obtain ⟨w₁, hgt⟩ := hcd .gt
      obtain ⟨w₂, hlt⟩ := hdc .lt
      rw [hgt, hlt, h c d]
      rfl
  · rw [← exists_incomparableContents]
    constructor
    · rintro ⟨us, rs, w, a, a', hw, ha, ha', h⟩
      obtain ⟨c, d, -, -, hinc⟩ := (World.greaterBothWays_iff hw ha ha').mp h
      exact ⟨c, d, hinc⟩
    · rintro ⟨c, d, hinc⟩
      obtain ⟨us, rs, w, a, a', hw, ha, ha', hc, hd⟩ := World.exists_run_contents b c d
      exact ⟨us, rs, w, a, a', hw, ha, ha',
        (World.greaterBothWays_iff hw ha ha').mpr ⟨c, d, hc, hd, hinc⟩⟩

end Flip

section Example

instance flagOperators : Operators Bool where
  eq v w := v == w
  lt v w := decide (v < w)
  hash v := sizeT v.toNat

/-- `expected<bool, int>`. -/
instance flagAndErrorCode : ValueAndError Bool ℕ where
  valueInit := false
  valueMoved v := v
  errorMoved e := e
  valueAssigned v := v
  errorAssigned e := e
  trivialValue := true
  trivialError := true
  converts s t := (s == .value && t == .error) || (s == .error && t == .value)

theorem followsOrder_flag : FollowsOrder Bool where
  eq _ _ := beq_iff_eq
  lt _ _ := decide_eq_true_iff

theorem followsOrder_errorCode : FollowsOrder ℕ where
  eq _ _ := beq_iff_eq
  lt _ _ := decide_eq_true_iff

theorem World.comparisons_ordered_flag :
    ∃ r w w', World.start.run .ndebug (makeExpected 0 (.value true : Expected Bool ℕ)) =
        some ([.ok .done, .ok .done], w) ∧
      w.use .ndebug (.compare .le (.object 1) (.object 0)) = some (.ok (.truth r), w') ∧
      r = true := by
  have hm : Values.run .ndebug (makeExpected 0 (.value true : Expected Bool ℕ)) [] =
      some ([.ok .done, .ok .done], [some (.value true), some (.expected (.value true))]) := rfl
  obtain ⟨w, hw, -⟩ := run_refines ⟨[], intact_start, rfl⟩ hm
  have hlhs : Values.Live [some (.value true), some (Named.expected (.value true))]
      (.object 1 : Operand ℕ) := rfl
  have hrhs : Values.Live [some (.value true), some (Named.expected (.value true))]
      (.object 0 : Operand ℕ) := rfl
  obtain ⟨r, w', hr, hiff, -⟩ := comparisons_ordered followsOrder_flag followsOrder_errorCode hm hw
    hlhs hrhs rfl rfl rfl .le
  exact ⟨r, w, w', hw, hr, hiff.mpr (le_refl _)⟩

end Example

end Azmqn.ExpectedDetail
