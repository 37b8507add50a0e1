import Azmqn.Utility.ExpectedObject

/-!
# What the operations of `expected` do to their objects

An `expected` is intact when the member that the flag names is the one
constructed last. Each operation takes intact objects to intact ones, gives
every object that it constructs an owner or destroys it, and moves contents as a
value of type `Expected` would be copied and exchanged. Which overload a call
goes to is settled once for all pairs of types.
-/

namespace Azmqn.ExpectedDetail

open Objects Overload

variable {T E : Type} [ValueAndError T E]

/-- What is left of an argument's contents. -/
def leave (moves : Bool) (c : Expected T E) : Expected T E := if moves then movedFrom c else c

/-- The intact `expected` with contents `c` in object `i`. -/
def Base.holding (i : ℕ) : Expected T E → Base
  | .value _ => ⟨.val_ i, true⟩
  | .error _ => ⟨.err_ i, false⟩

@[simp] theorem Base.holding_leave (moves : Bool) (i : ℕ) (c : Expected T E) :
    Base.holding i (leave moves c) = Base.holding i c := by
  cases moves <;> cases c <;> rfl

/-- The argument is kept in object `i` and has contents `c`. -/
inductive Argument.Refers : Argument E → ℕ → Expected T E → Prop
  | expected (i : ℕ) (c : Expected T E) : Refers (.expected (Base.holding i c)) i c
  | value (i : ℕ) (v : T) : Refers (.value i) i (.value v)
  | error (i : ℕ) (e : E) : Refers (.error i) i (.error e)
  | unexpected (i : ℕ) (e : E) : Refers (.unexpected i) i (.error e)

/-- The type that a constructor takes by reference. -/
def Constructor.type : Constructor → ArgumentType
  | copy => .expected
  | move => .expected
  | valueCopy => .value
  | valueMove => .value
  | errorCopy => .error
  | errorMove => .error
  | unexpectedCopy => .unexpected
  | unexpectedMove => .unexpected
  | unexpectedOf => .unexpectedOf

section Resolution

/-- The constructor that an argument selects. -/
def selectConstructor : ArgumentType → Bool → Category → Constructor
  | .expected, false, .rvalue => .move
  | .expected, _, _ => .copy
  | .value, false, .rvalue => .valueMove
  | .value, _, _ => .valueCopy
  | .error, false, .rvalue => .errorMove
  | .error, _, _ => .errorCopy
  | .unexpected, false, .rvalue => .unexpectedMove
  | .unexpected, _, _ => .unexpectedCopy
  | .unexpectedOf, _, _ => .unexpectedOf

/-- The `operator=` that an argument selects: for anything but a const lvalue of its own class,
or an rvalue of it that is not const, the template. -/
def selectAssign : ArgumentType → Bool → Category → AssignOperator
  | .expected, true, .lvalue => .copy
  | .expected, false, .rvalue => .move
  | .unexpected, true, .lvalue => .unexpectedCopy
  | .unexpected, false, .rvalue => .unexpectedMove
  | _, _, _ => .forward

theorem resolve_constructors (converts : ArgumentType → ArgumentType → Bool) (t : ArgumentType)
    (isConst : Bool) (category : Category) :
    resolve converts constructors ⟨t, isConst, category⟩ =
      some (selectConstructor t isConst category) := by
  apply resolve_of_binding
  cases t <;> cases isConst <;> cases category <;> decide

theorem resolve_assignOperators (converts : ArgumentType → ArgumentType → Bool)
    (t : ArgumentType) (isConst : Bool) (category : Category) :
    resolve converts assignOperators ⟨t, isConst, category⟩ =
      some (selectAssign t isConst category) := by
  apply resolve_of_binding
  cases t <;> cases isConst <;> cases category <;> decide

theorem type_selectConstructor (t : ArgumentType) (isConst : Bool) (category : Category) :
    (selectConstructor t isConst category).type = t := by
  cases t <;> cases isConst <;> cases category <;> rfl

end Resolution

section Specifications

variable {h : ObjectHeap T E} {own : List (ℕ × Expected T E)} {i j : ℕ} {c d : Expected T E}

theorem constructFrom_spec (moves : Bool) (ho : Owns h ((i, c) :: own)) :
    ∃ k h', constructFrom moves h i = some (k, h') ∧
      Owns h' ((k, c) :: (i, leave moves c) :: own) := by
  cases moves with
  | false => exact ho.copyConstruct
  | true => exact ho.moveConstruct movedFrom

namespace Base

theorem ofValueTag_spec (ho : Owns h own) :
    ∃ k h', ofValueTag h = (holding k (.value (ValueAndError.valueInit E) : Expected T E), h') ∧
      Owns h' ((k, .value (ValueAndError.valueInit E)) :: own) :=
  ⟨_, _, rfl, ho.construct _⟩

theorem ofValue_spec (moves : Bool) {v : T} (ho : Owns h ((i, .value v) :: own)) :
    ∃ k h', ofValue moves h i = some (holding k (.value v : Expected T E), h') ∧
      Owns h' ((k, .value v) :: (i, leave moves (.value v)) :: own) := by
  obtain ⟨k, h', hk, ho'⟩ := constructFrom_spec moves ho
  exact ⟨k, h', by simp [ofValue, hk, holding], ho'⟩

theorem ofError_spec (moves : Bool) {e : E} (ho : Owns h ((i, .error e) :: own)) :
    ∃ k h', ofError moves h i = some (holding k (.error e : Expected T E), h') ∧
      Owns h' ((k, .error e) :: (i, leave moves (.error e)) :: own) := by
  obtain ⟨k, h', hk, ho'⟩ := constructFrom_spec moves ho
  exact ⟨k, h', by simp [ofError, hk, holding], ho'⟩

theorem ofBase_spec (moves : Bool) (ho : Owns h ((i, c) :: own)) :
    ∃ k h', ofBase moves h (holding i c) = some (holding k c, h') ∧
      Owns h' ((k, c) :: (i, leave moves c) :: own) := by
  obtain ⟨k, h', hk, ho'⟩ := constructFrom_spec moves ho
  refine ⟨k, h', ?_, ho'⟩
  cases c <;> simp [ofBase, holding, Storage.val?, Storage.err?, hk]

omit [ValueAndError T E] in
theorem destroy_spec (ho : Owns h ((i, c) :: own)) :
    ∃ h', (holding i c).destroy h = some h' ∧ Owns h' own := by
  obtain ⟨h', hd, ho'⟩ := ho.destroy
  refine ⟨h', ?_, ho'⟩
  cases c <;> simp [destroy, holding, Storage.val?, Storage.err?, hd]

/-- The contents of two objects are exchanged, whichever of the four branches is taken. -/
theorem swap_spec (ho : Owns h ((i, c) :: (j, d) :: own)) :
    ∃ i' j' h', swap (holding i c) (holding j d) h =
        some ((holding i' d, holding j' c), h') ∧ Owns h' ((i', d) :: (j', c) :: own) := by
  cases c with
  | value v =>
    cases d with
    | value w =>
      obtain ⟨h', hs, ho'⟩ := ho.swap movedFrom assignedFrom
      exact ⟨i, j, h', by simp [swap, holding, Storage.val?, hs], ho'⟩
    | error e =>
      obtain ⟨k, h₁, h₂, hm, hd, ho₂⟩ := ho.swap_front.relocate movedFrom
      obtain ⟨val, h₃, h₄, hm', hd', ho₄⟩ := ho₂.swap_front.relocate movedFrom
      obtain ⟨err, h₅, h₆, hm'', hd'', ho₆⟩ := ho₄.swap_front.relocate movedFrom
      refine ⟨err, val, h₆, ?_, ho₆⟩
      simp [swap, holding, Storage.val?, Storage.err?, hm, hd, hm', hd', hm'', hd'']
  | error e =>
    cases d with
    | value w =>
      obtain ⟨k, h₁, h₂, hm, hd, ho₂⟩ := ho.swap_front.relocate movedFrom
      obtain ⟨err, h₃, h₄, hm', hd', ho₄⟩ := ho₂.swap_front.relocate movedFrom
      obtain ⟨val, h₅, h₆, hm'', hd'', ho₆⟩ := ho₄.swap_front.relocate movedFrom
      refine ⟨val, err, h₆, ?_, ho₆⟩
      simp [swap, holding, Storage.val?, Storage.err?, hm, hd, hm', hd', hm'', hd'']
    | error f =>
      obtain ⟨h', hs, ho'⟩ := ho.swap movedFrom assignedFrom
      exact ⟨i, j, h', by simp [swap, holding, Storage.err?, hs], ho'⟩

theorem swap_self_spec (ho : Owns h ((i, c) :: own)) :
    ∃ h', swap (holding i c) (holding i c) h = some ((holding i c, holding i c), h') ∧
      Owns h' ((i, c) :: own) := by
  obtain ⟨h', hs, ho'⟩ := ho.swap_self movedFrom assignedFrom
  refine ⟨h', ?_, ho'⟩
  cases c <;> simp [swap, holding, Storage.val?, Storage.err?, hs]

end Base

/-- A constructor gives the new object the contents of its argument. -/
theorem construct_spec {k : Constructor} {arg : Argument E} (hr : arg.Refers i c)
    (hk : k.type = arg.type) (ho : Owns h ((i, c) :: own)) :
    ∃ j h', construct k arg h = some (Base.holding j c, h') ∧
      Owns h' ((j, c) :: (i, leave (k.moves T E) c) :: own) := by
  cases hr with
  | expected _ _ => cases k <;> first | exact Base.ofBase_spec _ ho | cases hk
  | value _ v => cases k <;> first | exact Base.ofValue_spec _ ho | cases hk
  | error _ e => cases k <;> first | exact Base.ofError_spec _ ho | cases hk
  | unexpected _ e => cases k <;> first | exact Base.ofError_spec _ ho | cases hk

theorem construct_unexpectedOf_spec (e : E) (ho : Owns h own) :
    ∃ j h', construct .unexpectedOf (.unexpectedOf e) h =
        some (Base.holding j (.error e : Expected T E), h') ∧ Owns h' ((j, .error e) :: own) := by
  obtain ⟨j, h₁, hc, ho₁⟩ :=
    Base.ofError_spec (Constructor.unexpectedOf.moves T E) (ho.construct (.error e))
  obtain ⟨h₂, hd, ho₂⟩ := ho₁.swap_front.destroy
  exact ⟨j, h₂, by simp [construct, hc, hd], ho₂⟩

theorem constructOverloaded_spec {arg : Argument E} (hr : arg.Refers i c) (isConst : Bool)
    (category : Category) (ho : Owns h ((i, c) :: own)) :
    ∃ j h', constructOverloaded arg isConst category h = some (Base.holding j c, h') ∧
      Owns h' ((j, c) ::
        (i, leave ((selectConstructor arg.type isConst category).moves T E) c) :: own) := by
  obtain ⟨j, h', hc, ho'⟩ :=
    construct_spec hr (type_selectConstructor arg.type isConst category) ho
  exact ⟨j, h', by simp [constructOverloaded, resolve_constructors, hc], ho'⟩

theorem constructOverloaded_unexpectedOf_spec (e : E) (isConst : Bool) (category : Category)
    (ho : Owns h own) :
    ∃ j h', constructOverloaded (.unexpectedOf e) isConst category h =
        some (Base.holding j (.error e : Expected T E), h') ∧ Owns h' ((j, .error e) :: own) := by
  obtain ⟨j, h', hc, ho'⟩ := construct_unexpectedOf_spec e ho
  refine ⟨j, h', ?_, ho'⟩
  simp [constructOverloaded, resolve_constructors, Argument.type, selectConstructor, hc]

/-- What the selected `operator=` makes its temporary from. -/
def assignTemporary (t : ArgumentType) (isConst : Bool) (category : Category) :
    Overload.Argument ArgumentType :=
  (selectAssign t isConst category).temporaryArgument ⟨t, isConst, category⟩

/-- Whether an assignment moves from its right-hand side. -/
def assignMoves (T E : Type) [ValueAndError T E] (t : ArgumentType) (isConst : Bool)
    (category : Category) : Bool :=
  let lhs := assignTemporary t isConst category
  (selectConstructor t lhs.isConst lhs.category).moves T E

/-- An assignment whose temporary has been made exchanges it with `*this` and destroys it. -/
theorem assign_of_temporary {arg : Argument E} {isConst : Bool} {category : Category}
    {h₁ : ObjectHeap T E}
    (hc : constructOverloaded arg (assignTemporary arg.type isConst category).isConst
      (assignTemporary arg.type isConst category).category h = some (Base.holding i c, h₁))
    (ho : Owns h₁ ((i, c) :: (j, d) :: own)) :
    ∃ k h', assign (Base.holding j d) arg isConst category h = some (Base.holding k c, h') ∧
      Owns h' ((k, c) :: own) := by
  obtain ⟨i', k, h₂, hs, ho₂⟩ := Base.swap_spec ho
  obtain ⟨h₃, hd, ho₃⟩ := Base.destroy_spec ho₂
  unfold assignTemporary at hc
  exact ⟨k, h₃, by simp [assign, resolve_assignOperators, hc, hs, hd], ho₃⟩

theorem assign_spec {arg : Argument E} (hr : arg.Refers i c) (isConst : Bool)
    (category : Category) (ho : Owns h ((j, d) :: (i, c) :: own)) :
    ∃ k h', assign (Base.holding j d) arg isConst category h = some (Base.holding k c, h') ∧
      Owns h' ((k, c) :: (i, leave (assignMoves T E arg.type isConst category) c) :: own) := by
  obtain ⟨t, h₁, hc, ho₁⟩ := constructOverloaded_spec hr
    (assignTemporary arg.type isConst category).isConst
    (assignTemporary arg.type isConst category).category ho.swap_front
  exact assign_of_temporary hc ho₁.swap_second

/-- Assigning from itself, or from its own contents, leaves an object what it was. -/
theorem assign_self_spec {arg : Argument E} (hr : arg.Refers i c) (isConst : Bool)
    (category : Category) (ho : Owns h ((i, c) :: own)) :
    ∃ k h', assign (Base.holding i c) arg isConst category h = some (Base.holding k c, h') ∧
      Owns h' ((k, c) :: own) := by
  obtain ⟨t, h₁, hc, ho₁⟩ := constructOverloaded_spec hr
    (assignTemporary arg.type isConst category).isConst
    (assignTemporary arg.type isConst category).category ho
  have hassign := assign_of_temporary hc ho₁
  rwa [Base.holding_leave] at hassign

theorem assign_unexpectedOf_spec (e : E) (isConst : Bool) (category : Category)
    (ho : Owns h ((j, d) :: own)) :
    ∃ k h', assign (Base.holding j d) (.unexpectedOf e) isConst category h =
        some (Base.holding k (.error e : Expected T E), h') ∧ Owns h' ((k, .error e) :: own) := by
  obtain ⟨t, h₁, hc, ho₁⟩ := constructOverloaded_unexpectedOf_spec e
    (assignTemporary .unexpectedOf isConst category).isConst
    (assignTemporary .unexpectedOf isConst category).category ho
  exact assign_of_temporary hc ho₁

end Specifications

end Azmqn.ExpectedDetail
