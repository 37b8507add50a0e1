import Azmqn.Library.Objects
import Azmqn.Library.Overload
import Azmqn.Utility.Expected

/-!
# The union inside `expected<T, E>`

`base` keeps a `T` and an `E` in one union and a flag that names the live one.
Every `T` and `E` is an object of a heap, so that it can be told how often each
is destroyed, and a member of the union is the object last constructed in it.
Which constructor and which `operator=` an expression selects is left to the
rules of overload resolution.

Members are initialised with braces. It is assumed of `T` and `E` that this copies
or moves an object of the member's own type; a type with a constructor from an
initializer list of what it converts to, such as a vector of `std::any`, would make
a list of one element instead.
-/

namespace Azmqn.ExpectedDetail

open Objects Overload

/-- The type of an argument, as far as `expected<T, E>` tells types apart. -/
inductive ArgumentType
  | expected
  | value
  | error
  | unexpected
  /-- `unexpected<U>` for another `U` -/
  | unexpectedOf
  deriving DecidableEq, Repr

/-- What `expected<T, E>` gets from `T` and `E`: the value-initialised `T`, what a move leaves
in its source, whether they are trivially destructible, and which of the arguments' types
convert to which. `T{ val }` and `E{ err }` are assumed to be copies, or moves from rvalues. -/
class ValueAndError (T E : Type) where
  valueInit : T
  valueMoved : T → T
  errorMoved : E → E
  valueAssigned : T → T
  errorAssigned : E → E
  trivialValue : Bool
  trivialError : Bool
  converts : ArgumentType → ArgumentType → Bool

/-- Which member of the union was constructed last, and as which object. -/
inductive Storage
  | dummy_
  | val_ (obj : ℕ)
  | err_ (obj : ℕ)
  deriving DecidableEq, Repr

namespace Storage

def val? : Storage → Option ℕ
  | val_ i => some i
  | _ => none

def err? : Storage → Option ℕ
  | err_ i => some i
  | _ => none

end Storage

/-- `base<T, E>` and `constexpr_base<T, E>`. -/
structure Base where
  s_ : Storage
  has_ : Bool
  deriving DecidableEq, Repr

/-- An argument in memory: an `expected`, or the object that a `T`, an `E` or the member of an
`unexpected<E>` is; of an `unexpected<U>`, what its value converts to. -/
inductive Argument (E : Type)
  | expected (x : Base)
  | value (obj : ℕ)
  | error (obj : ℕ)
  | unexpected (obj : ℕ)
  | unexpectedOf (err : E)

namespace Argument

def type {E : Type} : Argument E → ArgumentType
  | expected _ => .expected
  | value _ => .value
  | error _ => .error
  | unexpected _ => .unexpected
  | unexpectedOf _ => .unexpectedOf

end Argument

inductive Constructor
  | copy
  | move
  | valueCopy
  | valueMove
  | errorCopy
  | errorMove
  | unexpectedCopy
  | unexpectedMove
  | unexpectedOf
  deriving DecidableEq, Repr

/-- The constructors of `expected` that take an argument. -/
def constructors : List (Constructor × Parameter ArgumentType) :=
  [(.copy, .constRef .expected), (.move, .rvalueRef .expected),
    (.valueCopy, .constRef .value), (.valueMove, .rvalueRef .value),
    (.errorCopy, .constRef .error), (.errorMove, .rvalueRef .error),
    (.unexpectedCopy, .constRef .unexpected), (.unexpectedMove, .rvalueRef .unexpected),
    (.unexpectedOf, .constRefTemplate fun t => t == .unexpected || t == .unexpectedOf)]

inductive AssignOperator
  | copy
  | move
  | forward
  | unexpectedCopy
  | unexpectedMove
  deriving DecidableEq, Repr

/-- The overloads of `operator=`. -/
def assignOperators : List (AssignOperator × Parameter ArgumentType) :=
  [(.copy, .constRef .expected), (.move, .rvalueRef .expected), (.forward, .forwarding),
    (.unexpectedCopy, .constRef .unexpected), (.unexpectedMove, .rvalueRef .unexpected)]

/-- What the body of an `operator=` makes its temporary from: `lhs` where the parameter is a
reference to const, and `std::move(lhs)` elsewhere. -/
def AssignOperator.temporaryArgument (op : AssignOperator) (a : Overload.Argument ArgumentType) :
    Overload.Argument ArgumentType :=
  match op with
  | copy => { a with isConst := true, category := .lvalue }
  | unexpectedCopy => { a with isConst := true, category := .lvalue }
  | move => { a with category := .rvalue }
  | forward => { a with category := .rvalue }
  | unexpectedMove => { a with category := .rvalue }

section Operations

variable (T E : Type) [ValueAndError T E]

/-- `base_select` decides for `base`. The other choice, `constexpr_base`, has no constructor
from an rvalue; it copies what it is given. -/
def selectsBase : Bool :=
  !(ValueAndError.trivialValue T E && ValueAndError.trivialError T E)

variable {T E}

abbrev ObjectHeap (T E : Type) := Heap (Expected T E)

/-- What a move construction leaves. -/
def movedFrom : Expected T E → Expected T E
  | .value v => .value (ValueAndError.valueMoved E v)
  | .error e => .error (ValueAndError.errorMoved T e)

/-- What a move assignment leaves. -/
def assignedFrom : Expected T E → Expected T E
  | .value v => .value (ValueAndError.valueAssigned E v)
  | .error e => .error (ValueAndError.errorAssigned T e)

/-- A new `T` or `E`, copied or moved from another. -/
def constructFrom (moves : Bool) (h : ObjectHeap T E) (i : ℕ) : Option (ℕ × ObjectHeap T E) :=
  if moves then h.moveConstruct movedFrom i else h.copyConstruct i

namespace Base

/-- `base(value_tag_t)`. -/
def ofValueTag (h : ObjectHeap T E) : Base × ObjectHeap T E :=
  let (i, h) := h.construct (.value (ValueAndError.valueInit E))
  (⟨.val_ i, true⟩, h)

/-- `base(value_tag_t, val)`. -/
def ofValue (moves : Bool) (h : ObjectHeap T E) (val : ℕ) : Option (Base × ObjectHeap T E) := do
  let (i, h) ← constructFrom moves h val
  pure (⟨.val_ i, true⟩, h)

/-- `base(error_tag_t, err)`. -/
def ofError (moves : Bool) (h : ObjectHeap T E) (err : ℕ) : Option (Base × ObjectHeap T E) := do
  let (i, h) ← constructFrom moves h err
  pure (⟨.err_ i, false⟩, h)

/-- The copy constructor or the move constructor. -/
def ofBase (moves : Bool) (h : ObjectHeap T E) (other : Base) :
    Option (Base × ObjectHeap T E) := do
  if other.has_ then
    let (i, h) ← constructFrom moves h (← other.s_.val?)
    pure (⟨.val_ i, other.has_⟩, h)
  else
    let (i, h) ← constructFrom moves h (← other.s_.err?)
    pure (⟨.err_ i, other.has_⟩, h)

/-- The destructor. For a trivially destructible type `destroy` has an empty body, as the type's
destructor has, and `constexpr_base` leaves both to the end of the union; in each case it is the
end of the object. -/
def destroy (x : Base) (h : ObjectHeap T E) : Option (ObjectHeap T E) := do
  if x.has_ then h.destroy (← x.s_.val?) else h.destroy (← x.s_.err?)

/-- `swap`. The branches in the middle are taken by two different objects only. -/
def swap (x y : Base) (h : ObjectHeap T E) : Option ((Base × Base) × ObjectHeap T E) :=
  match x.has_, y.has_ with
  | true, true => do
    let h ← h.swap movedFrom assignedFrom (← x.s_.val?) (← y.s_.val?)
    pure ((x, y), h)
  | true, false => do
    let (e, h) ← h.moveConstruct movedFrom (← y.s_.err?)
    let h ← h.destroy (← y.s_.err?)
    let (val, h) ← h.moveConstruct movedFrom (← x.s_.val?)
    let y := { y with s_ := .val_ val }
    let h ← h.destroy (← x.s_.val?)
    let (err, h) ← h.moveConstruct movedFrom e
    let x := { x with s_ := .err_ err }
    let (xHas, yHas) := (y.has_, x.has_)
    let h ← h.destroy e
    pure (({ x with has_ := xHas }, { y with has_ := yHas }), h)
  | false, true => do
    let (v, h) ← h.moveConstruct movedFrom (← y.s_.val?)
    let h ← h.destroy (← y.s_.val?)
    let (err, h) ← h.moveConstruct movedFrom (← x.s_.err?)
    let y := { y with s_ := .err_ err }
    let h ← h.destroy (← x.s_.err?)
    let (val, h) ← h.moveConstruct movedFrom v
    let x := { x with s_ := .val_ val }
    let (xHas, yHas) := (y.has_, x.has_)
    let h ← h.destroy v
    pure (({ x with has_ := xHas }, { y with has_ := yHas }), h)
  | false, false => do
    let h ← h.swap movedFrom assignedFrom (← x.s_.err?) (← y.s_.err?)
    pure ((x, y), h)

end Base

/-- Whether a constructor moves from its argument. -/
def Constructor.moves (T E : Type) [ValueAndError T E] : Constructor → Bool
  | copy => false
  | move => selectsBase T E
  | valueCopy => false
  | valueMove => selectsBase T E
  | errorCopy => false
  | errorMove => selectsBase T E
  | unexpectedCopy => false
  | unexpectedMove => selectsBase T E
  | unexpectedOf => selectsBase T E

/-- Construct an `expected`. The value of an `unexpected<U>` is converted to a temporary `E`. -/
def construct (c : Constructor) (arg : Argument E) (h : ObjectHeap T E) :
    Option (Base × ObjectHeap T E) :=
  match c, arg with
  | .copy, .expected x => Base.ofBase (c.moves T E) h x
  | .move, .expected x => Base.ofBase (c.moves T E) h x
  | .valueCopy, .value i => Base.ofValue (c.moves T E) h i
  | .valueMove, .value i => Base.ofValue (c.moves T E) h i
  | .errorCopy, .error i => Base.ofError (c.moves T E) h i
  | .errorMove, .error i => Base.ofError (c.moves T E) h i
  | .unexpectedCopy, .unexpected i => Base.ofError (c.moves T E) h i
  | .unexpectedMove, .unexpected i => Base.ofError (c.moves T E) h i
  | .unexpectedOf, .unexpectedOf e => do
    let (tmp, h) := h.construct (.error e)
    let (x, h) ← Base.ofError (c.moves T E) h tmp
    let h ← h.destroy tmp
    pure (x, h)
  | _, _ => none

/-- `expected(arg)`, for an argument expression of the given constness and category. -/
def constructOverloaded (arg : Argument E) (isConst : Bool) (category : Category)
    (h : ObjectHeap T E) : Option (Base × ObjectHeap T E) := do
  let c ← resolve (ValueAndError.converts T E) constructors ⟨arg.type, isConst, category⟩
  construct c arg h

/-- `*this = arg`: the selected `operator=` makes a temporary, swaps it with `*this` and lets
it go out of scope. -/
def assign (this : Base) (arg : Argument E) (isConst : Bool) (category : Category)
    (h : ObjectHeap T E) : Option (Base × ObjectHeap T E) := do
  let expression := ⟨arg.type, isConst, category⟩
  let op ← resolve (ValueAndError.converts T E) assignOperators expression
  let lhs := op.temporaryArgument expression
  let (tmp, h) ← constructOverloaded arg lhs.isConst lhs.category h
  let ((tmp, this), h) ← tmp.swap this h
  let h ← tmp.destroy h
  pure (this, h)

end Operations

end Azmqn.ExpectedDetail
