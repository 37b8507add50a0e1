import Azmqn.Utility.ExpectedSession

/-!
# The answers of `expected` objects

A program that asks its objects is defined over unions exactly where it is
defined over plain values. Both give the same answers in the same order, whether
returned or thrown, and stop at the same place; the temporaries of comparisons
and the exceptions on the way are gone when the program goes on.
-/

namespace Azmqn.ExpectedDetail

open Objects Overload

section Refinement

variable {T E : Type} {w : World T E} {m : Values T E} {cells : Cells T E} {a : ℕ}
  {c : Expected T E}

theorem Cells.exists_expected (h : cells.values.expected? a = some c) :
    ∃ i, cells[a]? = some (some ⟨i, .expected c⟩) := by
  unfold Values.expected? at h
  rw [get_values] at h
  cases hj : cells[a]?.join with
  | none => simp [hj] at h
  | some x =>
    rcases x with ⟨i, n⟩
    cases n with
    | expected d =>
      obtain rfl : d = c := by simpa [hj] using h
      exact ⟨i, getElem?_of_join hj⟩
    | value v => simp [hj] at h
    | error e => simp [hj] at h
    | unexpected e => simp [hj] at h

theorem Values.exists_operand {arg : Operand E} (hl : m.Live arg) :
    ∃ p, m.operand arg = some p := by
  cases arg with
  | object a =>
    obtain ⟨n, hn⟩ := Option.isSome_iff_exists.mp hl
    exact ⟨_, by rw [operand, hn]; rfl⟩
  | content a =>
    obtain ⟨c, hc⟩ := Option.isSome_iff_exists.mp hl
    cases hn : m.get a with
    | none => simp [expected?, hn] at hc
    | some n => exact ⟨_, by rw [operand, hn]; rfl⟩
  | unexpectedOf e => exact ⟨_, rfl⟩

namespace World

theorem expected?_of_cell {i : ℕ} (he : w.entities = cells.entities)
    (h : cells[a]? = some (some ⟨i, .expected c⟩)) : w.expected? a = some (Base.holding i c) := by
  have hentity : w.entity? a = some (.expected (Base.holding i c)) := by
    rw [entity?_eq he, h]
    rfl
  rw [expected?, hentity]

theorem Intact.live {arg : Operand E} (hw : w.Intact cells) (hl : cells.values.Live arg) :
    w.Live arg := by
  cases arg with
  | object a =>
    have hget : (cells.values.get a).isSome := hl
    rw [Cells.get_values, Option.isSome_map] at hget
    rw [Live, entity?_eq hw.entities, Option.isSome_map]
    exact hget
  | content a =>
    obtain ⟨c, hc⟩ := Option.isSome_iff_exists.mp hl
    obtain ⟨i, hi⟩ := Cells.exists_expected hc
    rw [Live, expected?_of_cell hw.entities hi]
    rfl
  | unexpectedOf e => trivial

theorem Intact.expected?_isSome (hw : w.Intact cells) (h : (cells.values.expected? a).isSome) :
    (w.expected? a).isSome := by
  have hl : cells.values.Live (.content a : Operand E) := h
  exact hw.live hl

theorem Intact.enabled {op : Operation T E} (hw : w.Intact cells)
    (he : cells.values.Enabled op) : w.Enabled op := by
  cases op with
  | newValue val => trivial
  | newError err => trivial
  | newUnexpected err => trivial
  | defaultConstruct => trivial
  | construct arg isConst category => exact hw.live he
  | assign this arg isConst category => exact ⟨hw.expected?_isSome he.1, hw.live he.2⟩
  | swap a b => exact ⟨hw.expected?_isSome he.1, hw.expected?_isSome he.2⟩
  | destroy a =>
    have hl : cells.values.Live (.object a : Operand E) := he
    exact hw.live hl

theorem Intact.entity?_none (hw : w.Intact cells) (h : cells.values.get a = none) :
    w.entity? a = none := by
  rw [Cells.get_values] at h
  rw [entity?_eq hw.entities, Option.map_eq_none_iff.mp h]
  rfl

theorem Intact.expected?_none (hw : w.Intact cells) (h : cells.values.expected? a = none) :
    w.expected? a = none := by
  by_contra hne
  obtain ⟨i, c, hi, -⟩ := exists_expected hw.entities (Option.isSome_iff_ne_none.mpr hne)
  rw [Values.expected?, Cells.get_of_getElem? hi] at h
  cases h

theorem Intact.argument?_none {arg : Operand E} (hw : w.Intact cells)
    (hl : ¬ cells.values.Live arg) : w.argument? arg = none := by
  cases arg with
  | object a =>
    rw [argument?, hw.entity?_none (Option.not_isSome_iff_eq_none.mp hl)]
    rfl
  | content a =>
    rw [argument?, hw.expected?_none (Option.not_isSome_iff_eq_none.mp hl)]
    rfl
  | unexpectedOf e => exact absurd trivial hl

theorem Intact.step_none [ValueAndError T E] {op : Operation T E} (hw : w.Intact cells)
    (he : ¬ cells.values.Enabled op) : w.step op = none := by
  cases op with
  | newValue val => exact absurd trivial he
  | newError err => exact absurd trivial he
  | newUnexpected err => exact absurd trivial he
  | defaultConstruct => exact absurd trivial he
  | construct arg isConst category => simp [step, hw.argument?_none he]
  | assign this arg isConst category =>
    by_cases ht : (cells.values.expected? this).isSome
    · have harg : ¬ cells.values.Live arg := fun hl => he ⟨ht, hl⟩
      simp [step, hw.argument?_none harg]
    · simp [step, hw.expected?_none (Option.not_isSome_iff_eq_none.mp ht)]
  | swap a b =>
    by_cases ha : (cells.values.expected? a).isSome
    · have hb : ¬ (cells.values.expected? b).isSome := fun hb => he ⟨ha, hb⟩
      simp [step, hw.expected?_none (Option.not_isSome_iff_eq_none.mp hb)]
    · simp [step, hw.expected?_none (Option.not_isSome_iff_eq_none.mp ha)]
  | destroy a => simp [step, hw.entity?_none (Option.not_isSome_iff_eq_none.mp he)]

end World

variable [ValueAndError T E] [Operators T] [Operators E]

/-- An object that is alive answers as its contents do. -/
theorem Question.apply_spec {q : Question} {b : Build} {r : Result T E} {h : ObjectHeap T E}
    {own : List (ℕ × Expected T E)} {i : ℕ} (hq : q.answer b c = some r)
    (ho : Owns h ((i, c) :: own)) :
    ∃ h', q.apply b (Base.holding i c) h = some (r, h') ∧ Owns h' ((i, c) :: own) := by
  have hread := ho.read
  cases q with
  | hasValue =>
    refine ⟨h, ?_, ho⟩
    cases c <;> (cases hq; rfl)
  | value =>
    cases c with
    | value v =>
      cases hq
      exact ⟨h, Access.bind_ok (Base.value_holding hread), ho⟩
    | error e =>
      cases hq
      obtain ⟨h', hv, ho'⟩ := Base.value_of_error ho
      exact ⟨h', Access.bind_stop hv, ho'⟩
  | deref =>
    cases c with
    | value v =>
      cases hq
      exact ⟨h, Access.bind_ok (Base.deref_holding hread), ho⟩
    | error e => cases hq
  | error =>
    cases c with
    | value v =>
      cases hq
      have hv := Base.error_of_value (i := i) (v := v) (h := h) b
      refine ⟨h, ?_, ho⟩
      cases b <;> exact Access.bind_stop hv
    | error e =>
      cases hq
      exact ⟨h, Access.bind_ok (Base.error_holding b hread), ho⟩
  | hash =>
    cases hq
    exact ⟨h, Access.bind_ok (Base.hash_holding b hread), ho⟩

/-- `*` reads a member that is not alive where there is an error. -/
theorem Question.apply_none {q : Question} {b : Build} {h : ObjectHeap T E} {i : ℕ}
    (hq : q.answer b c = none) : q.apply b (Base.holding i c) h = none := by
  cases q with
  | deref =>
    cases c with
    | value v => cases hq
    | error e => rfl
  | hasValue => cases c <;> cases hq
  | value => cases c <;> cases hq
  | error => cases c <;> cases hq
  | hash => cases hq

namespace World

omit [ValueAndError T E] [Operators T] [Operators E] in
theorem Intact.ask {x : Access T E (Answer T E)} {r : Result T E} {h : ObjectHeap T E}
    (hw : w.Intact cells) (hx : x w.heap = some (r, h)) (ho : Owns h cells.owned) :
    ∃ w', w.ask x = some (r, w') ∧ w'.Refines cells.values := by
  have hintact : ({ w with heap := h } : World T E).Intact cells := ⟨hw.entities, ho⟩
  exact ⟨_, by simp [World.ask, hx], cells, hintact, rfl⟩

omit [ValueAndError T E] [Operators T] [Operators E] in
/-- What the objects own, with what one of them owns in front. -/
theorem Intact.front {i : ℕ} (hw : w.Intact cells)
    (ha : cells[a]? = some (some ⟨i, .expected c⟩)) :
    Owns w.heap ((i, c) :: Cells.owned (cells.set a none)) :=
  hw.owns.perm (Cells.owned_of_getElem? ha)

omit [ValueAndError T E] [Operators T] [Operators E] in
/-- An argument that may be named is in memory, with its contents and its type. -/
theorem Intact.argument {arg : Operand E} {s : ArgumentType} (hw : w.Intact cells)
    (hl : cells.values.Live arg) (hc : cells.values.operand arg = some (c, s))
    (hs : s ≠ .unexpectedOf) :
    ∃ i x, w.argument? arg = some x ∧ x.Refers i c ∧ x.type = s ∧ (i, c) ∈ cells.owned := by
  rcases argument_spec hw.entities (hw.live hl) with
    ⟨e, rfl⟩ | ⟨a, y, x, hy, hx, hr, ho, -⟩
  · cases hc
    exact absurd rfl hs
  · obtain ⟨rfl, rfl⟩ : y.named.content = c ∧ x.type = s := by simpa using ho.symm.trans hc
    exact ⟨y.obj, x, hx, hr, rfl,
      (Cells.owned_of_getElem? hy).mem_iff.mpr List.mem_cons_self⟩

theorem compare_refines {op : Comparison} {b : Build} {lhs rhs : Operand E} {r : Result T E}
    {m' : Values T E} (hw : w.Intact cells)
    (hu : cells.values.use b (.compare op lhs rhs) = some (r, m')) :
    ∃ w', w.use b (.compare op lhs rhs) = some (r, w') ∧ w'.Refines m' := by
  simp only [Values.use, Option.bind_eq_bind, Option.bind_eq_some_iff] at hu
  obtain ⟨⟨c, s⟩, hc, ⟨d, t⟩, hd, hu⟩ := hu
  split at hu
  · next hlive =>
    cases hu
    obtain ⟨hl, hr, ht⟩ := hlive
    -- an `unexpected<U>` is compared with nothing
    have hs : s ≠ .unexpectedOf := by
      rintro rfl
      cases t <;> cases ht
    have ht' : t ≠ .unexpectedOf := by
      rintro rfl
      cases s <;> cases ht
    obtain ⟨i, x, hx, hxr, rfl, hxo⟩ := hw.argument hl hc hs
    obtain ⟨j, y, hy, hyr, rfl, hyo⟩ := hw.argument hr hd ht'
    obtain ⟨h', hcompare, ho⟩ := compare_spec op b hxr hyr ht hw.owns hxo hyo
    have hanswer : (do return .truth (← ExpectedDetail.compare op b x y) :
        Access T E (Answer T E)) w.heap = some (.ok (.truth (op.contents c d)), h') :=
      Access.bind_ok hcompare
    obtain ⟨w', hask, hw'⟩ := hw.ask hanswer ho
    exact ⟨w', by simp only [use, hx, hy]; exact hask, hw'⟩
  · cases hu

theorem valueOr_refines {b : Build} {moves : Bool} {u : T} {r : Result T E} {m' : Values T E}
    (hw : w.Intact cells) (hu : cells.values.use b (.valueOr a moves u) = some (r, m')) :
    ∃ w', w.use b (.valueOr a moves u) = some (r, w') ∧ w'.Refines m' := by
  simp only [Values.use, Option.bind_eq_bind, Option.bind_eq_some_iff] at hu
  obtain ⟨c, hc, hu⟩ := hu
  obtain ⟨i, hi⟩ := Cells.exists_expected hc
  have hx := expected?_of_cell hw.entities hi
  cases c with
  | value v =>
    cases hu
    obtain ⟨k, h', hv, ho⟩ := Base.valueOr_of_value moves u (hw.front hi)
    have ho' := owned_leave_operand (x := ⟨i, .expected (.value v)⟩) hi ho
    have hentities := hw.entities.trans (Cells.entities_leave moves hi).symm
    refine ⟨_, ?_, _, intact_add (x := ⟨k, .value v⟩) hentities ho', ?_⟩
    · simp [use, hx, create, hv, Cell.entity]
    · simp [Cells.values, List.map_set, Cell.leave, Named.leave]
  | error e =>
    cases hu
    obtain ⟨k, h', hv, ho⟩ := Base.valueOr_of_error (i := i) (e := e) moves u hw.owns
    refine ⟨_, ?_, _, intact_add (x := ⟨k, .value u⟩) hw.entities ho, ?_⟩
    · simp [use, hx, create, hv, Cell.entity]
    · simp [Cells.values]

theorem getUnexpected_refines {b : Build} {r : Result T E} {m' : Values T E}
    (hw : w.Intact cells) (hu : cells.values.use b (.getUnexpected a) = some (r, m')) :
    ∃ w', w.use b (.getUnexpected a) = some (r, w') ∧ w'.Refines m' := by
  simp only [Values.use, Option.bind_eq_bind, Option.bind_eq_some_iff] at hu
  obtain ⟨c, hc, hu⟩ := hu
  obtain ⟨i, hi⟩ := Cells.exists_expected hc
  have hx := expected?_of_cell hw.entities hi
  cases c with
  | value v =>
    cases hu
    have hv := Base.getUnexpected_of_value (i := i) (v := v) (h := w.heap) b
    refine ⟨_, ?_, cells, hw, rfl⟩
    cases b <;> simp [use, hx, create, hv, noError]
  | error e =>
    cases hu
    obtain ⟨k, h', hv, ho⟩ := Base.getUnexpected_spec b (hw.front hi)
    have ho' := ho.perm ((Cells.owned_of_getElem? hi).symm.cons (k, .error e))
    refine ⟨_, ?_, _, intact_add (x := ⟨k, .unexpected e⟩) hw.entities ho', ?_⟩
    · simp [use, hx, create, hv, Cell.entity]
    · simp [Cells.values]

/-- Whatever is defined over plain values is so over unions, with the same answer. -/
theorem use_refines {b : Build} {u : Use T E} {r : Result T E} {m' : Values T E}
    (hw : w.Refines m) (hu : m.use b u = some (r, m')) :
    ∃ w', w.use b u = some (r, w') ∧ w'.Refines m' := by
  rcases hw with ⟨cells, hw, rfl⟩
  cases u with
  | operation op =>
    simp only [Values.use] at hu
    split at hu
    · next he =>
      cases hu
      obtain ⟨w', hs, hw'⟩ := step_refines ⟨cells, hw, rfl⟩ (hw.enabled he)
      exact ⟨w', by simp [use, hs], hw'⟩
    · cases hu
  | compare op lhs rhs => exact compare_refines hw hu
  | ask q a =>
    simp only [Values.use, Option.bind_eq_bind, Option.bind_eq_some_iff] at hu
    obtain ⟨c, hc, r', hq, hu⟩ := hu
    cases hu
    obtain ⟨i, hi⟩ := Cells.exists_expected hc
    obtain ⟨h', hx, ho⟩ := Question.apply_spec hq (hw.front hi)
    obtain ⟨w', hask, hw'⟩ := hw.ask hx (ho.perm (Cells.owned_of_getElem? hi).symm)
    refine ⟨w', ?_, hw'⟩
    simp only [use, expected?_of_cell hw.entities hi]
    exact hask
  | valueOr a moves u => exact valueOr_refines hw hu
  | getUnexpected a => exact getUnexpected_refines hw hu

omit [ValueAndError T E] [Operators T] [Operators E] in
theorem ask_none {x : Access T E (Answer T E)} (hx : x w.heap = none) : w.ask x = none := by
  simp [ask, hx]

omit [ValueAndError T E] [Operators T] [Operators E] in
theorem Intact.argument_type {arg : Operand E} {s : ArgumentType} (hw : w.Intact cells)
    (hl : cells.values.Live arg) (hc : cells.values.operand arg = some (c, s)) :
    ∃ x, w.argument? arg = some x ∧ x.type = s := by
  by_cases hs : s = .unexpectedOf
  · subst hs
    rcases argument_spec hw.entities (hw.live hl) with
      ⟨e, rfl⟩ | ⟨a, y, x, hy, hx, hr, ho, -⟩
    · exact ⟨.unexpectedOf e, rfl, rfl⟩
    · exact ⟨x, hx, congrArg Prod.snd (Option.some.inj (ho.symm.trans hc))⟩
  · obtain ⟨i, x, hx, -, ht, -⟩ := hw.argument hl hc hs
    exact ⟨x, hx, ht⟩

theorem compare_none {op : Comparison} {b : Build} {lhs rhs : Operand E} (hw : w.Intact cells)
    (hu : cells.values.use b (.compare op lhs rhs) = none) :
    w.use b (.compare op lhs rhs) = none := by
  by_cases hl : cells.values.Live lhs
  · by_cases hr : cells.values.Live rhs
    · obtain ⟨⟨c, s⟩, hc⟩ := Values.exists_operand hl
      obtain ⟨⟨d, t⟩, hd⟩ := Values.exists_operand hr
      obtain ⟨x, hx, rfl⟩ := hw.argument_type hl hc
      obtain ⟨y, hy, rfl⟩ := hw.argument_type hr hd
      have ht : Comparable x.type y.type = false := by
        by_contra ht
        simp [Values.use, hc, hd, hl, hr, ht] at hu
      have hcompare := compare_eq_none (T := T) (h := w.heap) op b ht
      have hanswer : (do return .truth (← ExpectedDetail.compare op b x y) :
          Access T E (Answer T E)) w.heap = none := Access.bind_none hcompare
      simp only [use, hx, hy, Option.bind_eq_bind, Option.bind_some]
      exact ask_none hanswer
    · simp [use, hw.argument?_none hr]
  · simp [use, hw.argument?_none hl]

theorem use_none {b : Build} {u : Use T E} (hw : w.Refines m) (hu : m.use b u = none) :
    w.use b u = none := by
  rcases hw with ⟨cells, hw, rfl⟩
  cases u with
  | operation op =>
    have he : ¬ cells.values.Enabled op := by
      intro he
      simp [Values.use, he] at hu
    simp [use, hw.step_none he]
  | compare op lhs rhs => exact compare_none hw hu
  | ask q a =>
    cases hc : cells.values.expected? a with
    | none => simp [use, hw.expected?_none hc]
    | some c =>
      obtain ⟨i, hi⟩ := Cells.exists_expected hc
      have hq : q.answer b c = none := by
        by_contra hq
        obtain ⟨r, hr⟩ := Option.ne_none_iff_exists'.mp hq
        simp [Values.use, hc, hr] at hu
      simp only [use, expected?_of_cell hw.entities hi, Option.bind_eq_bind, Option.bind_some]
      exact ask_none (Question.apply_none hq)
  | valueOr a moves u =>
    cases hc : cells.values.expected? a with
    | none => simp [use, hw.expected?_none hc]
    | some c => cases c <;> simp [Values.use, hc] at hu
  | getUnexpected a =>
    cases hc : cells.values.expected? a with
    | none => simp [use, hw.expected?_none hc]
    | some c => cases c <;> simp [Values.use, hc] at hu

theorem run_refines {b : Build} {us : List (Use T E)} {rs : List (Result T E)}
    {m' : Values T E} (hw : w.Refines m) (hu : m.run b us = some (rs, m')) :
    ∃ w', w.run b us = some (rs, w') ∧ w'.Refines m' := by
  induction us generalizing w m rs with
  | nil =>
    cases hu
    exact ⟨w, rfl, hw⟩
  | cons u us ih =>
    simp only [Values.run, Option.bind_eq_bind, Option.bind_eq_some_iff] at hu
    obtain ⟨⟨r, m₁⟩, hfirst, hrest⟩ := hu
    obtain ⟨w₁, hw₁, href⟩ := use_refines hw hfirst
    by_cases hend : r.endsProgram = true
    · simp only [hend, if_true] at hrest
      cases hrest
      exact ⟨w₁, by simp [run, hw₁, hend], href⟩
    · simp only [hend, Bool.false_eq_true, if_false, Option.bind_eq_some_iff] at hrest
      obtain ⟨⟨rs', m₂⟩, hrest, hrs⟩ := hrest
      cases hrs
      obtain ⟨w₂, hw₂, href₂⟩ := ih href hrest
      exact ⟨w₂, by simp [run, hw₁, hend, hw₂], href₂⟩

theorem run_none {b : Build} {us : List (Use T E)} (hw : w.Refines m)
    (hu : m.run b us = none) : w.run b us = none := by
  induction us generalizing w m with
  | nil => cases hu
  | cons u us ih =>
    cases hfirst : m.use b u with
    | none => simp [run, use_none hw hfirst]
    | some p =>
      obtain ⟨r, m₁⟩ := p
      obtain ⟨w₁, hw₁, href⟩ := use_refines hw hfirst
      by_cases hend : r.endsProgram = true
      · simp [Values.run, hfirst, hend] at hu
      · have hrest : m₁.run b us = none := by
          by_contra hrest
          obtain ⟨⟨rs, m₂⟩, hrs⟩ := Option.ne_none_iff_exists'.mp hrest
          simp [Values.run, hfirst, hend, hrs] at hu
        simp [run, hw₁, hend, ih href hrest]

/-- A program is defined over unions exactly where it is over plain values, and has the same
answers. At its end the objects have the same contents, the flag of each names its one live
member, what is alive belongs to one named object, and nothing was destroyed twice; with no named
object left, all that was constructed on the way, temporaries and exceptions included, was
destroyed once. -/
theorem session_answers (b : Build) (us : List (Use T E)) :
    (start.run b us).map Prod.fst = (Values.run b us []).map Prod.fst ∧
    ∀ rs m, Values.run b us [] = some (rs, m) → ∃ w, start.run b us = some (rs, w) ∧
      (∀ a, w.contents? a = (m.get a).map Named.content) ∧
      (∀ a x, w.expected? a = some x → x.FlagNamesMember w.heap) ∧
      (∀ i c, w.heap.read i = some c → ∃! a, (w.entity? a).bind Entity.object? = some i) ∧
      (∀ o ∈ w.heap, o.destructions ≤ 1) ∧
      ((∀ a, w.entity? a = none) → ∀ o ∈ w.heap, o.destructions = 1) := by
  have hstart : (start : World T E).Refines [] := ⟨[], intact_start, rfl⟩
  constructor
  · cases hm : Values.run b us [] with
    | none => rw [run_none hstart hm]; rfl
    | some p =>
      obtain ⟨w, hrun, -⟩ := run_refines hstart hm
      rw [hrun]
      rfl
  · intro rs m hm
    obtain ⟨w, hrun, hw⟩ := run_refines hstart hm
    obtain ⟨cells, hcells, -⟩ := id hw
    refine ⟨w, hrun, hw.contents, ?_, ?_, ?_, ?_⟩
    · intro a x hx
      exact hw.flagNamesMember hx
    · intro i c hread
      exact hcells.existsUnique_owner hread
    · intro o ho
      exact hcells.destructions_le_one ho
    · intro hnone o ho
      exact hcells.destroyed_once hnone ho

end World

end Refinement

section Example

instance octetsOperators : Operators (List Octet) where
  eq v w := v == w
  lt v w := decide (v < w)
  hash v := sizeT v.length

instance errorCodeOperators : Operators ℕ where
  eq e f := e == f
  lt e f := decide (e < f)
  hash e := sizeT e

/-- Some octets and an error code: they are compared, the error is asked for a value and the
value for its error. -/
def octetsOrError : List (Use (List Octet) ℕ) :=
  [.operation (.newValue [1, 2]), .operation (.construct (.object 0) true .lvalue),
    .operation (.newUnexpected 5), .operation (.construct (.object 2) true .lvalue),
    .compare .lt (.object 1) (.object 3), .compare .ge (.object 2) (.object 1),
    .compare .eq (.content 1) (.object 1), .ask .value 3, .getUnexpected 3, .ask .error 1]

def octetsOrErrorAnswers : List (Result (List Octet) ℕ) :=
  [.ok .done, .ok .done, .ok .done, .ok .done, .ok (.truth true), .ok (.truth true),
    .ok (.truth true), .error (.badAccess 5), .ok .done, .error .assertion]

theorem World.session_answers_octetsOrError :
    ∃ w, World.start.run .debug octetsOrError = some (octetsOrErrorAnswers, w) ∧
      ∀ o ∈ w.heap, o.destructions ≤ 1 := by
  have hm : Values.run .debug octetsOrError [] = some (octetsOrErrorAnswers,
      [some (.value [1, 2]), some (.expected (.value [1, 2])), some (.unexpected 5),
        some (.expected (.error 5)), some (.unexpected 5)]) := rfl
  obtain ⟨w, hw, -, -, -, hle, -⟩ := (session_answers .debug octetsOrError).2 _ _ hm
  exact ⟨w, hw, hle⟩

end Example

end Azmqn.ExpectedDetail
