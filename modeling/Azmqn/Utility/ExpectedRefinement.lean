import Azmqn.Utility.ExpectedProgram

/-!
# Programs over `expected` objects compute with plain values

A state is intact when each named object owns one object of the heap, and these
are all that is alive. Every operation a program may do succeeds, takes intact
states to intact ones and does to the contents what it does to plain values.
-/

namespace Azmqn.ExpectedDetail

open Objects Overload Relation

variable {T E : Type}

/-- A named object with the heap object that it owns. -/
structure Cell (T E : Type) where
  obj : ℕ
  named : Named T E

namespace Cell

def owned (x : Cell T E) : ℕ × Expected T E := (x.obj, x.named.content)

def entity (x : Cell T E) : Entity :=
  match x.named with
  | .expected c => .expected (Base.holding x.obj c)
  | .value _ => .value x.obj
  | .error _ => .error x.obj
  | .unexpected _ => .unexpected x.obj

variable [ValueAndError T E]

def leave (moves : Bool) (x : Cell T E) : Cell T E := ⟨x.obj, x.named.leave moves⟩

theorem entity_leave (moves : Bool) (x : Cell T E) : (x.leave moves).entity = x.entity := by
  rcases x with ⟨i, n⟩
  cases n with
  | expected c => exact congrArg Entity.expected (Base.holding_leave moves i c)
  | value v => rfl
  | error e => rfl
  | unexpected e => rfl

theorem owned_leave (moves : Bool) (x : Cell T E) :
    (x.leave moves).owned = (x.obj, ExpectedDetail.leave moves x.named.content) := by
  rcases x with ⟨i, n⟩
  cases n <;> cases moves <;> rfl

end Cell

abbrev Cells (T E : Type) := List (Option (Cell T E))

namespace Cells

/-- What the named objects own. -/
def owned (cells : Cells T E) : List (ℕ × Expected T E) :=
  cells.filterMap (Option.map Cell.owned)

def entities (cells : Cells T E) : List (Option Entity) := cells.map (Option.map Cell.entity)

def values (cells : Cells T E) : Values T E := cells.map (Option.map Cell.named)

variable {cells : Cells T E} {a b : ℕ} {x y : Cell T E} {z : Option (Cell T E)}

theorem owned_of_getElem? (h : cells[a]? = some (some x)) :
    cells.owned.Perm (x.owned :: owned (cells.set a none)) :=
  filterMap_perm_cons h rfl rfl

theorem owned_set (h : a < cells.length) (x : Cell T E) :
    (owned (cells.set a (some x))).Perm (x.owned :: owned (cells.set a none)) := by
  have hget : (cells.set a (some x))[a]? = some (some x) := List.getElem?_set_self h
  have hperm := owned_of_getElem? hget
  rwa [List.set_set] at hperm

theorem owned_append (cells : Cells T E) (x : Cell T E) :
    (owned (cells ++ [some x])).Perm (x.owned :: cells.owned) := by
  have hsplit : owned (cells ++ [some x]) = cells.owned ++ [x.owned] := by
    simp [owned, List.filterMap_append]
  rw [hsplit]
  exact List.perm_append_singleton _ _

theorem getElem?_entities (cells : Cells T E) (a : ℕ) :
    cells.entities[a]?.join = cells[a]?.join.map Cell.entity := by
  rw [entities, List.getElem?_map]
  cases cells[a]? <;> rfl

theorem get_values (cells : Cells T E) (a : ℕ) :
    cells.values.get a = cells[a]?.join.map Cell.named := by
  rw [values, Values.get, List.getElem?_map]
  cases cells[a]? <;> rfl

/-- What a named object is as a plain value. -/
theorem get_of_getElem? (h : cells[a]? = some (some x)) : cells.values.get a = some x.named := by
  rw [get_values, h]
  rfl

theorem lt_length (h : cells[a]? = some z) : a < cells.length :=
  (List.getElem?_eq_some_iff.mp h).1

theorem entities_leave [ValueAndError T E] (moves : Bool) (h : cells[a]? = some (some x)) :
    entities (cells.set a (some (x.leave moves))) = cells.entities := by
  have hself : cells.entities[a]? = some (some x.entity) := by
    rw [entities, List.getElem?_map, h]
    rfl
  rw [entities, List.map_set]
  apply List.ext_getElem?
  intro k
  by_cases hk : a = k
  · subst hk
    have hlt : a < cells.entities.length := (List.getElem?_eq_some_iff.mp hself).1
    rw [hself]
    exact (List.getElem?_set_self hlt).trans (congrArg (some ∘ some) (x.entity_leave moves))
  · rw [List.getElem?_set_ne hk]
    rfl

theorem getElem?_of_join (h : cells[a]?.join = some x) : cells[a]? = some (some x) :=
  Option.join_eq_some_iff.mp h

end Cells

/-- Each named object owns one object of the heap, and these are what is alive. -/
structure World.Intact (w : World T E) (cells : Cells T E) : Prop where
  entities : w.entities = cells.entities
  owns : Owns w.heap cells.owned

namespace World

section Lookup

variable {w : World T E} {cells : Cells T E} {a : ℕ}

theorem intact_start : (start : World T E).Intact [] := ⟨rfl, Owns.nil⟩

theorem entity?_eq (he : w.entities = cells.entities) (a : ℕ) :
    w.entity? a = cells[a]?.join.map Cell.entity := by
  rw [entity?, he, Cells.getElem?_entities]

theorem exists_cell (he : w.entities = cells.entities) (h : (w.entity? a).isSome) :
    ∃ x, cells[a]? = some (some x) ∧ w.entity? a = some x.entity := by
  rw [entity?_eq he] at h ⊢
  cases hj : cells[a]?.join with
  | none => simp [hj] at h
  | some x => exact ⟨x, Cells.getElem?_of_join hj, rfl⟩

theorem exists_expected (he : w.entities = cells.entities) (h : (w.expected? a).isSome) :
    ∃ i c, cells[a]? = some (some ⟨i, .expected c⟩) ∧
      w.expected? a = some (Base.holding i c) := by
  have hsome : (w.entity? a).isSome := by
    unfold expected? at h
    cases ha : w.entity? a with
    | none => simp [ha] at h
    | some e => rfl
  obtain ⟨⟨i, n⟩, hx, hentity⟩ := exists_cell he hsome
  simp only [expected?, hentity] at h ⊢
  cases n with
  | expected c => exact ⟨i, c, hx, rfl⟩
  | value v => cases h
  | error e => cases h
  | unexpected e => cases h

/-- What an argument expression refers to. -/
theorem argument_spec (he : w.entities = cells.entities) {op : Operand E} (hl : w.Live op) :
    (∃ e, op = .unexpectedOf e) ∨
    ∃ a x arg, cells[a]? = some (some x) ∧ w.argument? op = some arg ∧
      arg.Refers x.obj x.named.content ∧
      cells.values.operand op = some (x.named.content, arg.type) ∧
      (op = .object a ∨ op = .content a) := by
  cases op with
  | object a =>
    obtain ⟨⟨i, n⟩, hx, hentity⟩ := exists_cell he hl
    refine Or.inr ⟨a, ⟨i, n⟩, _, hx, by rw [argument?, hentity]; rfl, ?_, ?_, Or.inl rfl⟩
    · cases n with
      | expected c => exact .expected i c
      | value v => exact .value i v
      | error e => exact .error i e
      | unexpected e => exact .unexpected i e
    · rw [Values.operand, Cells.get_of_getElem? hx]
      cases n <;> rfl
  | content a =>
    obtain ⟨i, c, hx, hexpected⟩ := exists_expected he hl
    cases c with
    | value v =>
      refine Or.inr ⟨a, ⟨i, .expected (.value v)⟩, .value i, hx, ?_, .value i v, ?_, Or.inr rfl⟩
      · simp [argument?, hexpected, Base.holding, Storage.val?]
      · rw [Values.operand, Cells.get_of_getElem? hx]
        rfl
    | error e =>
      refine Or.inr ⟨a, ⟨i, .expected (.error e)⟩, .error i, hx, ?_, .error i e, ?_, Or.inr rfl⟩
      · simp [argument?, hexpected, Base.holding, Storage.err?]
      · rw [Values.operand, Cells.get_of_getElem? hx]
        rfl
  | unexpectedOf e => exact Or.inl ⟨e, rfl⟩

end Lookup

section Update

variable {w : World T E} {cells : Cells T E} {h : ObjectHeap T E} {a : ℕ} {x : Cell T E}

theorem intact_add (he : w.entities = cells.entities) (ho : Owns h (x.owned :: cells.owned)) :
    (w.add x.entity h).Intact (cells ++ [some x]) where
  entities := by simp [add, he, Cells.entities]
  owns := ho.perm (Cells.owned_append cells x).symm

theorem entities_put (he : w.entities = cells.entities) (a : ℕ) (z : Option (Cell T E)) :
    (w.put a (z.map Cell.entity) h).entities = Cells.entities (cells.set a z) := by
  simp [put, he, Cells.entities, List.map_set]

theorem intact_put (he : w.entities = cells.entities) (ha : a < cells.length)
    (ho : Owns h (x.owned :: Cells.owned (cells.set a none))) :
    (w.put a (some x.entity) h).Intact (cells.set a (some x)) where
  entities := entities_put he a (some x)
  owns := ho.perm (Cells.owned_set ha x).symm

theorem intact_addExpected {i : ℕ} {c : Expected T E} (he : w.entities = cells.entities)
    (ho : Owns h ((i, c) :: cells.owned)) :
    (w.add (.expected (Base.holding i c)) h).Intact (cells ++ [some ⟨i, .expected c⟩]) :=
  intact_add (x := ⟨i, .expected c⟩) he ho

theorem intact_putExpected {i : ℕ} {c : Expected T E} (he : w.entities = cells.entities)
    (ha : a < cells.length) (ho : Owns h ((i, c) :: Cells.owned (cells.set a none))) :
    (w.put a (some (.expected (Base.holding i c))) h).Intact
      (cells.set a (some ⟨i, .expected c⟩)) :=
  intact_put (x := ⟨i, .expected c⟩) he ha ho

theorem intact_remove (he : w.entities = cells.entities)
    (ho : Owns h (Cells.owned (cells.set a none))) :
    (w.put a none h).Intact (cells.set a none) where
  entities := entities_put he a none
  owns := ho

end Update

/-- The state computes with the values: its named objects have them as contents. -/
def Refines (w : World T E) (m : Values T E) : Prop := ∃ cells, w.Intact cells ∧ m = cells.values

section Step

variable [ValueAndError T E] {w : World T E} {cells : Cells T E} {a b : ℕ}

theorem leaveOperand_eq {x : Cell T E} {op : Operand E} (moves : Bool)
    (hx : cells[a]? = some (some x)) (hop : op = .object a ∨ op = .content a) :
    cells.values.leaveOperand moves op = Cells.values (cells.set a (some (x.leave moves))) := by
  have hget : (cells.values.get a).map (Named.leave moves) = some (x.leave moves).named := by
    rw [Cells.get_of_getElem? hx]
    rfl
  rcases hop with rfl | rfl
  · rw [Values.leaveOperand, hget, Cells.values, Cells.values, List.map_set]
    rfl
  · rw [Values.leaveOperand, hget, Cells.values, Cells.values, List.map_set]
    rfl

/-- An argument that has been read: what is left of it belongs to the object it is. -/
theorem owned_leave_operand {h : ObjectHeap T E} {x : Cell T E} {moves : Bool}
    {p : ℕ × Expected T E} (ha : cells[a]? = some (some x))
    (ho : Owns h (p :: (x.obj, leave moves x.named.content) :: Cells.owned (cells.set a none))) :
    Owns h (p :: Cells.owned (cells.set a (some (x.leave moves)))) := by
  rw [← x.owned_leave] at ho
  exact ho.perm ((Cells.owned_set (Cells.lt_length ha) (x.leave moves)).symm.cons p)

theorem construct_refines (hw : w.Intact cells) {arg : Operand E} (hl : w.Live arg)
    (isConst : Bool) (category : Category) :
    ∃ w', w.step (.construct arg isConst category) = some w' ∧
      w'.Refines (cells.values.step (.construct arg isConst category)) := by
  rcases argument_spec hw.entities hl with ⟨e, rfl⟩ | ⟨a, x, ar, hx, har, hr, hop, haddr⟩
  · obtain ⟨j, h', hc, ho⟩ := constructOverloaded_unexpectedOf_spec e isConst category hw.owns
    refine ⟨_, ?_, _, intact_addExpected hw.entities ho, ?_⟩
    · simp [step, argument?, hc]
    · simp [Values.step, Values.operand, Values.leaveOperand, Cells.values]
  · have hfront := hw.owns.perm (Cells.owned_of_getElem? hx)
    obtain ⟨j, h', hc, ho⟩ := constructOverloaded_spec hr isConst category hfront
    have hentities := hw.entities.trans (Cells.entities_leave
      ((selectConstructor ar.type isConst category).moves T E) hx).symm
    refine ⟨_, ?_, _, intact_addExpected hentities (owned_leave_operand hx ho), ?_⟩
    · simp [step, har, hc]
    · simp only [Values.step, hop]
      rw [leaveOperand_eq _ hx haddr]
      simp [Cells.values]

/-- The object is assigned from itself or from its own contents. -/
theorem assign_self_refines (hw : w.Intact cells) {i : ℕ} {c : Expected T E} {arg : Operand E}
    {ar : Argument E} (ha : cells[a]? = some (some ⟨i, .expected c⟩))
    (hx : w.expected? a = some (Base.holding i c)) (har : w.argument? arg = some ar)
    (hr : ar.Refers i c) (hop : cells.values.operand arg = some (c, ar.type))
    (haddr : arg = .object a ∨ arg = .content a) (isConst : Bool) (category : Category) :
    ∃ w', w.step (.assign a arg isConst category) = some w' ∧
      w'.Refines (cells.values.step (.assign a arg isConst category)) := by
  have hfront : Owns w.heap ((i, c) :: Cells.owned (cells.set a none)) :=
    hw.owns.perm (Cells.owned_of_getElem? ha)
  obtain ⟨k, h', hc, ho⟩ := assign_self_spec hr isConst category hfront
  have hintact := intact_putExpected hw.entities (Cells.lt_length ha) ho
  refine ⟨_, ?_, _, hintact, ?_⟩
  · simp [step, har, hx, hc]
  · simp only [Values.step, hop]
    rw [leaveOperand_eq _ ha haddr]
    simp [Cells.values, List.map_set]

/-- The object is assigned from another one, which keeps what the assignment leaves of it. -/
theorem assign_other_refines (hw : w.Intact cells) {i : ℕ} {c : Expected T E} {arg : Operand E}
    {ar : Argument E} {y : Cell T E} (hab : a ≠ b)
    (ha : cells[a]? = some (some ⟨i, .expected c⟩)) (hb : cells[b]? = some (some y))
    (hx : w.expected? a = some (Base.holding i c)) (har : w.argument? arg = some ar)
    (hr : ar.Refers y.obj y.named.content)
    (hop : cells.values.operand arg = some (y.named.content, ar.type))
    (haddr : arg = .object b ∨ arg = .content b) (isConst : Bool) (category : Category) :
    ∃ w', w.step (.assign a arg isConst category) = some w' ∧
      w'.Refines (cells.values.step (.assign a arg isConst category)) := by
  have hb' : (cells.set a none)[b]? = some (some y) := by
    rw [List.getElem?_set_ne hab]
    exact hb
  have hfront : Owns w.heap ((i, c) :: y.owned :: Cells.owned ((cells.set a none).set b none)) :=
    hw.owns.perm ((Cells.owned_of_getElem? ha).trans ((Cells.owned_of_getElem? hb').cons (i, c)))
  obtain ⟨k, h', hc, ho⟩ := assign_spec hr isConst category hfront
  have ho' := owned_leave_operand hb' ho
  rw [List.set_comm _ _ hab] at ho'
  have hentities := hw.entities.trans
    (Cells.entities_leave (assignMoves T E ar.type isConst category) hb).symm
  have hlt : a < List.length
      (cells.set b (some (y.leave (assignMoves T E ar.type isConst category)))) := by
    rw [List.length_set]
    exact Cells.lt_length ha
  refine ⟨_, ?_, _, intact_putExpected hentities hlt ho', ?_⟩
  · simp [step, har, hx, hc]
  · simp only [Values.step, hop]
    rw [leaveOperand_eq _ hb haddr]
    simp [Cells.values, List.map_set]

theorem assign_refines (hw : w.Intact cells) {this : ℕ} (ht : (w.expected? this).isSome)
    {arg : Operand E} (hl : w.Live arg) (isConst : Bool) (category : Category) :
    ∃ w', w.step (.assign this arg isConst category) = some w' ∧
      w'.Refines (cells.values.step (.assign this arg isConst category)) := by
  obtain ⟨j, d, hthis, hx⟩ := exists_expected hw.entities ht
  rcases argument_spec hw.entities hl with ⟨e, rfl⟩ | ⟨a, y, ar, hy, har, hr, hop, haddr⟩
  · have hfront : Owns w.heap ((j, d) :: Cells.owned (cells.set this none)) :=
      hw.owns.perm (Cells.owned_of_getElem? hthis)
    obtain ⟨k, h', hc, ho⟩ := assign_unexpectedOf_spec e isConst category hfront
    have hintact := intact_putExpected hw.entities (Cells.lt_length hthis) ho
    refine ⟨_, ?_, _, hintact, ?_⟩
    · simp [step, argument?, hx, hc]
    · simp [Values.step, Values.operand, Values.leaveOperand, Cells.values, List.map_set]
  · by_cases hself : this = a
    · subst hself
      rw [hthis] at hy
      cases hy
      exact assign_self_refines hw hthis hx har hr hop haddr isConst category
    · exact assign_other_refines hw hself hthis hy hx har hr hop haddr isConst category

theorem swap_self_refines (hw : w.Intact cells) {i : ℕ} {c : Expected T E}
    (ha : cells[a]? = some (some ⟨i, .expected c⟩))
    (hx : w.expected? a = some (Base.holding i c)) :
    ∃ w', w.step (.swap a a) = some w' ∧ w'.Refines (cells.values.step (.swap a a)) := by
  have hfront : Owns w.heap ((i, c) :: Cells.owned (cells.set a none)) :=
    hw.owns.perm (Cells.owned_of_getElem? ha)
  obtain ⟨h', hs, ho⟩ := Base.swap_self_spec hfront
  have hentities := entities_put (h := h') hw.entities a (some ⟨i, .expected c⟩)
  have hlt : a < List.length (cells.set a (some ⟨i, .expected c⟩)) := by
    rw [List.length_set]
    exact Cells.lt_length ha
  have ho' : Owns h' ((i, c) ::
      Cells.owned (List.set (cells.set a (some ⟨i, .expected c⟩)) a none)) := by
    rw [List.set_set]
    exact ho
  have hget : cells.values.get a = some (.expected c) := Cells.get_of_getElem? ha
  refine ⟨_, ?_, _, intact_putExpected hentities hlt ho', ?_⟩
  · simp [step, hx, hs, Cell.entity]
  · simp only [Values.step, hget]
    simp [Cells.values, List.map_set]

theorem swap_other_refines (hw : w.Intact cells) {i j : ℕ} {c d : Expected T E} (hab : a ≠ b)
    (ha : cells[a]? = some (some ⟨i, .expected c⟩))
    (hb : cells[b]? = some (some ⟨j, .expected d⟩))
    (hxa : w.expected? a = some (Base.holding i c))
    (hxb : w.expected? b = some (Base.holding j d)) :
    ∃ w', w.step (.swap a b) = some w' ∧ w'.Refines (cells.values.step (.swap a b)) := by
  have hb' : (cells.set a none)[b]? = some (some ⟨j, .expected d⟩) := by
    rw [List.getElem?_set_ne hab]
    exact hb
  have hfront : Owns w.heap ((i, c) :: (j, d) :: Cells.owned ((cells.set a none).set b none)) :=
    hw.owns.perm ((Cells.owned_of_getElem? ha).trans ((Cells.owned_of_getElem? hb').cons (i, c)))
  obtain ⟨i', j', h', hs, ho⟩ := Base.swap_spec hfront
  have hentities := entities_put (h := h') hw.entities a (some ⟨i', .expected d⟩)
  have hlta : a < List.length (cells.set b none) := by
    rw [List.length_set]
    exact Cells.lt_length ha
  have hltb : b < List.length (cells.set a (some ⟨i', .expected d⟩)) := by
    rw [List.length_set]
    exact Cells.lt_length hb
  -- each object takes over the heap object that `swap` left it
  rw [List.set_comm _ _ hab] at ho
  have ho' := ho.swap_front.perm ((Cells.owned_set hlta ⟨i', .expected d⟩).symm.cons (j', c))
  rw [List.set_comm _ _ (Ne.symm hab)] at ho'
  have hgeta : cells.values.get a = some (.expected c) := Cells.get_of_getElem? ha
  have hgetb : cells.values.get b = some (.expected d) := Cells.get_of_getElem? hb
  refine ⟨_, ?_, _, intact_putExpected hentities hltb ho', ?_⟩
  · simp [step, hxa, hxb, hs, Cell.entity]
  · simp only [Values.step, hgeta, hgetb]
    simp [Cells.values, List.map_set]

theorem swap_refines (hw : w.Intact cells) (ha : (w.expected? a).isSome)
    (hb : (w.expected? b).isSome) :
    ∃ w', w.step (.swap a b) = some w' ∧ w'.Refines (cells.values.step (.swap a b)) := by
  obtain ⟨i, c, hca, hxa⟩ := exists_expected hw.entities ha
  obtain ⟨j, d, hcb, hxb⟩ := exists_expected hw.entities hb
  by_cases hself : a = b
  · subst hself
    exact swap_self_refines hw hca hxa
  · exact swap_other_refines hw hself hca hcb hxa hxb

theorem destroy_refines (hw : w.Intact cells) (ha : (w.entity? a).isSome) :
    ∃ w', w.step (.destroy a) = some w' ∧ w'.Refines (cells.values.step (.destroy a)) := by
  obtain ⟨⟨i, n⟩, hx, hentity⟩ := exists_cell hw.entities ha
  have hfront : Owns w.heap ((i, n.content) :: Cells.owned (cells.set a none)) :=
    hw.owns.perm (Cells.owned_of_getElem? hx)
  have hdestroy : ∃ h', destroyEntity w.heap (Cell.entity ⟨i, n⟩) = some h' ∧
      Owns h' (Cells.owned (cells.set a none)) := by
    cases n with
    | expected c => exact Base.destroy_spec hfront
    | value v => exact hfront.destroy
    | error e => exact hfront.destroy
    | unexpected e => exact hfront.destroy
  obtain ⟨h', hd, ho⟩ := hdestroy
  refine ⟨_, ?_, _, intact_remove hw.entities ho, ?_⟩
  · simp [step, hentity, hd]
  · simp [Values.step, Cells.values, List.map_set]

/-- Every operation that a program may do succeeds and does to the contents what it does to
plain values. -/
theorem step_refines {m : Values T E} (hw : w.Refines m) {op : Operation T E}
    (he : w.Enabled op) : ∃ w', w.step op = some w' ∧ w'.Refines (m.step op) := by
  rcases hw with ⟨cells, hw, rfl⟩
  cases op with
  | newValue val =>
    refine ⟨_, rfl, _, intact_add (x := ⟨_, .value val⟩) hw.entities (hw.owns.construct _), ?_⟩
    simp [Values.step, Cells.values]
  | newError err =>
    refine ⟨_, rfl, _, intact_add (x := ⟨_, .error err⟩) hw.entities (hw.owns.construct _), ?_⟩
    simp [Values.step, Cells.values]
  | newUnexpected err =>
    refine ⟨_, rfl, _, intact_add (x := ⟨_, .unexpected err⟩) hw.entities (hw.owns.construct _),
      ?_⟩
    simp [Values.step, Cells.values]
  | defaultConstruct =>
    obtain ⟨k, h', hc, ho⟩ := Base.ofValueTag_spec hw.owns
    refine ⟨_, by simp only [step, hc], _, intact_addExpected hw.entities ho, ?_⟩
    simp [Values.step, Cells.values]
  | construct arg isConst category => exact construct_refines hw he isConst category
  | assign this arg isConst category => exact assign_refines hw he.1 he.2 isConst category
  | swap a b => exact swap_refines hw he.1 he.2
  | destroy a => exact destroy_refines hw he

/-- Whatever a program did, its state computes with plain values. -/
theorem Reachable.refines (hr : w.Reachable) : ∃ m, w.Refines m := by
  induction hr with
  | refl => exact ⟨[], [], intact_start, rfl⟩
  | tail _ hstep ih =>
    rcases ih with ⟨m, hm⟩
    rcases hstep with ⟨op, he, hs⟩
    obtain ⟨w', hs', hm'⟩ := step_refines hm he
    rw [hs] at hs'
    cases hs'
    exact ⟨m.step op, hm'⟩

end Step

section Contents

variable {w : World T E} {m : Values T E} {a : ℕ}

theorem Intact.contents {cells : Cells T E} (hw : w.Intact cells) (a : ℕ) :
    w.contents? a = cells[a]?.join.map fun x => x.named.content := by
  unfold contents?
  rw [entity?_eq hw.entities]
  cases hj : cells[a]?.join with
  | none => rfl
  | some x =>
    have ho := hw.owns.perm (Cells.owned_of_getElem? (Cells.getElem?_of_join hj))
    have hread : w.heap.read x.obj = some x.named.content := ho.read
    rcases x with ⟨i, n⟩
    cases n with
    | expected c =>
      cases c <;> simpa [Cell.entity, Base.holding, Storage.val?, Storage.err?] using hread
    | value v => exact hread
    | error e => exact hread
    | unexpected e => exact hread

theorem Refines.contents (hw : w.Refines m) (a : ℕ) :
    w.contents? a = (m.get a).map Named.content := by
  rcases hw with ⟨cells, hw, rfl⟩
  rw [hw.contents, Cells.get_values, Option.map_map]
  rfl

theorem Refines.expected (hw : w.Refines m) (ha : (w.expected? a).isSome) :
    ∃ i c, w.expected? a = some (Base.holding i c) ∧ m.get a = some (.expected c) ∧
      w.heap.read i = some c := by
  rcases hw with ⟨cells, hw, rfl⟩
  obtain ⟨i, c, hc, hx⟩ := exists_expected hw.entities ha
  have ho := hw.owns.perm (Cells.owned_of_getElem? hc)
  exact ⟨i, c, hx, Cells.get_of_getElem? hc, ho.read⟩

theorem Refines.exists_get (hw : w.Refines m) (ha : (w.entity? a).isSome) :
    ∃ n, m.get a = some n := by
  rcases hw with ⟨cells, hw, rfl⟩
  obtain ⟨x, hx, -⟩ := exists_cell hw.entities ha
  exact ⟨x.named, Cells.get_of_getElem? hx⟩

end Contents

end World

end Azmqn.ExpectedDetail
