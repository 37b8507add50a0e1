import Azmqn.Utility.ExpectedRefinement

/-!
# The union and its flag over whole programs

In every state that a program over `expected` objects reaches, the member named
by the flag of a live object is alive and the other one is not, and no `T` or
`E` was destroyed twice. When the last object is gone every `T` and `E` was
destroyed exactly once. All of it is read off the ownership that the operations
keep.
-/

namespace Azmqn.ExpectedDetail

open Objects Overload Relation

variable {T E : Type}

/-- `val_` is the member constructed last, and alive. -/
def Base.ValAlive (h : ObjectHeap T E) (x : Base) : Prop :=
  ∃ i val, x.s_ = .val_ i ∧ h.read i = some (.value val)

/-- `err_` is the member constructed last, and alive. -/
def Base.ErrAlive (h : ObjectHeap T E) (x : Base) : Prop :=
  ∃ i err, x.s_ = .err_ i ∧ h.read i = some (.error err)

/-- Exactly one member of the union is alive, and it is the one that `has_` names. -/
def Base.FlagNamesMember (h : ObjectHeap T E) (x : Base) : Prop :=
  (x.ValAlive h ↔ x.has_ = true) ∧ (x.ErrAlive h ↔ x.has_ = false)

theorem Base.flagNamesMember_holding {h : ObjectHeap T E} {i : ℕ} {c : Expected T E}
    (hread : h.read i = some c) : (Base.holding i c).FlagNamesMember h := by
  cases c with
  | value v =>
    have hval : (Base.holding i (.value v : Expected T E)).ValAlive h := ⟨i, v, rfl, hread⟩
    have herr : ¬ (Base.holding i (.value v : Expected T E)).ErrAlive h := by
      rintro ⟨j, e, hs, -⟩
      cases hs
    exact ⟨iff_of_true hval rfl, iff_of_false herr Bool.noConfusion⟩
  | error e =>
    have herr : (Base.holding i (.error e : Expected T E)).ErrAlive h := ⟨i, e, rfl, hread⟩
    have hval : ¬ (Base.holding i (.error e : Expected T E)).ValAlive h := by
      rintro ⟨j, v, hs, -⟩
      cases hs
    exact ⟨iff_of_false hval Bool.noConfusion, iff_of_true herr rfl⟩

/-- The object that a named object is, or that the flag of an `expected` names. -/
def Entity.object? : Entity → Option ℕ
  | .expected x => if x.has_ then x.s_.val? else x.s_.err?
  | .value i => some i
  | .error i => some i
  | .unexpected i => some i

theorem Cell.object?_entity (x : Cell T E) : x.entity.object? = some x.obj := by
  rcases x with ⟨i, n⟩
  cases n with
  | expected c => cases c <;> rfl
  | value v => rfl
  | error e => rfl
  | unexpected e => rfl

/-- What is owned is owned by one named object only. -/
theorem Cells.existsUnique_owner {cells : Cells T E} {i : ℕ} {c : Expected T E}
    (hnodup : (cells.owned.map Prod.fst).Nodup) (hm : (i, c) ∈ cells.owned) :
    ∃! a : ℕ, cells[a]?.join.map Cell.obj = some i := by
  obtain ⟨z, hz, hzc⟩ := List.mem_filterMap.mp hm
  obtain ⟨x, rfl, hx⟩ := Option.map_eq_some_iff.mp hzc
  obtain ⟨a, ha⟩ := List.mem_iff_getElem?.mp hz
  have hxi : x.obj = i := congrArg Prod.fst hx
  have howner : cells[a]?.join.map Cell.obj = some i := by
    rw [ha]
    exact congrArg some hxi
  refine ⟨a, howner, ?_⟩
  intro b hb
  obtain ⟨y, hy, hyi⟩ := Option.map_eq_some_iff.mp hb
  by_contra hab
  have hy' : (cells.set a none)[b]? = some (some y) := by
    rw [List.getElem?_set_ne (Ne.symm hab)]
    exact Cells.getElem?_of_join hy
  have hperm := (Cells.owned_of_getElem? ha).trans
    ((Cells.owned_of_getElem? hy').cons x.owned)
  have hfirst := (List.nodup_cons.mp ((hperm.map Prod.fst).nodup hnodup)).1
  exact hfirst (List.mem_cons.mpr (Or.inl (hxi.trans hyi.symm)))

theorem Cells.owned_eq_nil {cells : Cells T E} (h : ∀ a : ℕ, cells[a]?.join = none) :
    cells.owned = [] := by
  apply List.filterMap_eq_nil_iff.mpr
  intro z hz
  obtain ⟨a, ha⟩ := List.mem_iff_getElem?.mp hz
  have hjoin := h a
  rw [ha] at hjoin
  cases z with
  | none => rfl
  | some x => cases hjoin

namespace Values

variable [ValueAndError T E] {m : Values T E} {a b : ℕ} {n k : Named T E}

theorem get_swap_right (ha : m.get a = some n) (hb : m.get b = some k) :
    (m.step (.swap a b)).get b = some n := by
  have hset : ∃ l, get (m.set a (m.get b)) b = some l := by
    by_cases hab : a = b
    · subst hab
      exact ⟨k, by rw [get_set_self ha, hb]⟩
    · exact ⟨k, by rw [get_set_ne hab, hb]⟩
  obtain ⟨l, hl⟩ := hset
  rw [Values.step, get_set_self hl, ha]

theorem get_swap_left (ha : m.get a = some n) (hb : m.get b = some k) :
    (m.step (.swap a b)).get a = some k := by
  by_cases hab : a = b
  · subst hab
    rw [get_swap_right ha hb, ← ha, hb]
  · rw [Values.step, get_set_ne (Ne.symm hab), get_set_self ha, hb]

theorem get_swap_ne {c : ℕ} (hca : c ≠ a) (hcb : c ≠ b) :
    (m.step (.swap a b)).get c = m.get c := by
  rw [Values.step, get_set_ne hcb.symm, get_set_ne hca.symm]

end Values

namespace World

/-- `a` and `b` have exchanged contents and flags, and no other object changed. -/
structure Exchanged (w w' : World T E) (a b : ℕ) : Prop where
  contents_left : w'.contents? a = w.contents? b
  contents_right : w'.contents? b = w.contents? a
  flag_left : (w'.expected? a).map Base.has_ = (w.expected? b).map Base.has_
  flag_right : (w'.expected? b).map Base.has_ = (w.expected? a).map Base.has_
  rest : ∀ c, c ≠ a → c ≠ b → w'.contents? c = w.contents? c

section Intact

variable {w : World T E} {cells : Cells T E} {m : Values T E}

theorem Refines.flagNamesMember (hw : w.Refines m) {a : ℕ} {x : Base}
    (hx : w.expected? a = some x) : x.FlagNamesMember w.heap := by
  obtain ⟨i, c, hx', -, hread⟩ := hw.expected (by rw [hx]; rfl)
  obtain rfl : x = Base.holding i c := Option.some.inj (hx.symm.trans hx')
  exact Base.flagNamesMember_holding hread

/-- A `T` or `E` that is alive belongs to one named object. -/
theorem Intact.existsUnique_owner (hw : w.Intact cells) {i : ℕ} {c : Expected T E}
    (hread : w.heap.read i = some c) : ∃! a, (w.entity? a).bind Entity.object? = some i := by
  have howner := Cells.existsUnique_owner hw.owns.nodup (hw.owns.mem_of_read hread)
  have hobj : ∀ a : ℕ, (w.entity? a).bind Entity.object? = cells[a]?.join.map Cell.obj := by
    intro a
    rw [entity?_eq hw.entities]
    cases cells[a]?.join with
    | none => rfl
    | some x => exact x.object?_entity
  simp only [hobj]
  exact howner

theorem Intact.destructions_le_one (hw : w.Intact cells) {o : Object (Expected T E)}
    (ho : o ∈ w.heap) : o.destructions ≤ 1 := by
  obtain ⟨i, hi⟩ := List.mem_iff_getElem?.mp ho
  exact hw.owns.destructions_le_one hi

theorem Intact.destroyed_once (hw : w.Intact cells) (hnone : ∀ a, w.entity? a = none)
    {o : Object (Expected T E)} (ho : o ∈ w.heap) : o.destructions = 1 := by
  have hcells : ∀ a : ℕ, cells[a]?.join = none := by
    intro a
    have ha := hnone a
    rw [entity?_eq hw.entities] at ha
    exact Option.map_eq_none_iff.mp ha
  obtain ⟨i, hi⟩ := List.mem_iff_getElem?.mp ho
  have howns := hw.owns
  rw [Cells.owned_eq_nil hcells] at howns
  exact howns.destroyed_once hi

end Intact

section Swap

variable {w : World T E} {m : Values T E} {a b : ℕ}

theorem Refines.exists_expected (hw : w.Refines m) {c : Expected T E}
    (ha : m.get a = some (.expected c)) : ∃ i, w.expected? a = some (Base.holding i c) := by
  rcases hw with ⟨cells, hw, rfl⟩
  rw [Cells.get_values] at ha
  obtain ⟨⟨i, n⟩, hx, hn⟩ := Option.map_eq_some_iff.mp ha
  obtain rfl : n = .expected c := hn
  have hentity : w.entity? a = some (.expected (Base.holding i c)) := by
    rw [entity?_eq hw.entities, hx]
    rfl
  exact ⟨i, by rw [expected?, hentity]⟩

theorem Refines.flag (hw : w.Refines m) {c : Expected T E} (ha : m.get a = some (.expected c)) :
    (w.expected? a).map Base.has_ = some (Base.holding 0 c).has_ := by
  obtain ⟨i, hx⟩ := hw.exists_expected ha
  rw [hx]
  cases c <;> rfl

variable [ValueAndError T E]

/-- `swap` exchanges two objects, whatever each of them holds, and an object with itself. -/
theorem Refines.swap (hw : w.Refines m) (ha : (w.expected? a).isSome)
    (hb : (w.expected? b).isSome) :
    ∃ w', w.step (.swap a b) = some w' ∧ w.Exchanged w' a b := by
  have henabled : w.Enabled (.swap a b) := ⟨ha, hb⟩
  obtain ⟨w', hs, hw'⟩ := step_refines hw henabled
  obtain ⟨i, c, -, hma, -⟩ := hw.expected ha
  obtain ⟨j, d, -, hmb, -⟩ := hw.expected hb
  have hma' := Values.get_swap_left hma hmb
  have hmb' := Values.get_swap_right hma hmb
  refine ⟨w', hs, ⟨?_, ?_, ?_, ?_, ?_⟩⟩
  · rw [hw'.contents, hw.contents, hma', hmb]
  · rw [hw'.contents, hw.contents, hmb', hma]
  · rw [hw'.flag hma', hw.flag hmb]
  · rw [hw'.flag hmb', hw.flag hma]
  · intro k hka hkb
    rw [hw'.contents, hw.contents, Values.get_swap_ne hka hkb]

end Swap

section Lifetimes

variable [ValueAndError T E] {w : World T E}

/-- In every state that a program reaches, whatever `T` and `E` are: the flag of each live object
names its one live member; every live `T` or `E` belongs to one named object; none was destroyed
twice, and once all named objects are gone each was destroyed once; whatever the program may do
next succeeds; and `swap` exchanges any two live objects. -/
theorem lifetimes (hr : w.Reachable) :
    (∀ a x, w.expected? a = some x → x.FlagNamesMember w.heap) ∧
    (∀ i c, w.heap.read i = some c → ∃! a, (w.entity? a).bind Entity.object? = some i) ∧
    (∀ o ∈ w.heap, o.destructions ≤ 1) ∧
    ((∀ a, w.entity? a = none) → ∀ o ∈ w.heap, o.destructions = 1) ∧
    (∀ op, w.Enabled op → ∃ w', w.step op = some w') ∧
    ∀ a b, (w.expected? a).isSome → (w.expected? b).isSome →
      ∃ w', w.step (.swap a b) = some w' ∧ w.Exchanged w' a b := by
  obtain ⟨m, hw⟩ := hr.refines
  obtain ⟨cells, hcells, -⟩ := id hw
  refine ⟨?_, ?_, ?_, ?_, ?_, ?_⟩
  · intro a x hx
    exact hw.flagNamesMember hx
  · intro i c hread
    exact hcells.existsUnique_owner hread
  · intro o ho
    exact hcells.destructions_le_one ho
  · intro hnone o ho
    exact hcells.destroyed_once hnone ho
  · intro op he
    obtain ⟨w', hs, -⟩ := step_refines hw he
    exact ⟨w', hs⟩
  · intro a b ha hb
    exact hw.swap ha hb

/-- `expected<std::vector<octet>, error_code>`: a vector that was moved from is empty, and an
`error_code` is copied. -/
instance octetsAndErrorCode : ValueAndError (List Octet) ℕ where
  valueInit := []
  valueMoved _ := []
  errorMoved err := err
  valueAssigned _ := []
  errorAssigned err := err
  trivialValue := false
  trivialError := true
  converts _ t := t == .expected

/-- Some octets and an error code, and an `expected` copied from each. -/
def octetsAndError : World (List Octet) ℕ where
  heap := [⟨.value [1, 2], 0⟩, ⟨.error 5, 0⟩, ⟨.value [1, 2], 0⟩, ⟨.error 5, 0⟩]
  entities := [some (.value 0), some (.error 1), some (.expected ⟨.val_ 2, true⟩),
    some (.expected ⟨.err_ 3, false⟩)]

theorem octetsAndError_reachable : octetsAndError.Reachable := by
  have hvalue : Reachable (T := List Octet) (E := ℕ) _ :=
    ReflTransGen.refl.tail ⟨.newValue [1, 2], trivial, rfl⟩
  have herror := hvalue.tail ⟨.newError 5, trivial, rfl⟩
  have hfirst := herror.tail ⟨.construct (.object 0) true .lvalue, Eq.refl true, rfl⟩
  exact hfirst.tail ⟨.construct (.object 1) true .lvalue, Eq.refl true, rfl⟩

theorem lifetimes_octetsAndError :
    ∃ w', octetsAndError.step (.swap 2 3) = some w' ∧ octetsAndError.Exchanged w' 2 3 :=
  (lifetimes octetsAndError_reachable).2.2.2.2.2 2 3 rfl rfl

end Lifetimes

end World

end Azmqn.ExpectedDetail
