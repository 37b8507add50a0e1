import Mathlib.Logic.Relation
import Azmqn.Utility.ExpectedSpec

/-!
# Programs over `expected` objects

A program names objects of the types `expected<T, E>`, `T`, `E` and
`unexpected<E>`, and constructs, assigns, swaps and destroys them in any order.
What it computes is stated over plain values first, where an `expected` is its
contents and nothing else. The program with its unions and its heap of objects
computes the same, keeps every union in step with its flag, and loses or
destroys twice no object on the way.
-/

namespace Azmqn.ExpectedDetail

open Objects Overload Relation

/-- A named object: an `expected`, or the object that a `T`, an `E` or the member of an
`unexpected<E>` is. -/
inductive Entity
  | expected (x : Base)
  | value (obj : ℕ)
  | error (obj : ℕ)
  | unexpected (obj : ℕ)
  deriving DecidableEq, Repr

def Entity.argument {E : Type} : Entity → Argument E
  | expected x => .expected x
  | value i => .value i
  | error i => .error i
  | unexpected i => .unexpected i

/-- An argument expression: a named object, the contents of an `expected` (`*a` or `a.error()`),
or an `unexpected<U>` whose value converts to `err`. -/
inductive Operand (E : Type)
  | object (a : ℕ)
  | content (a : ℕ)
  | unexpectedOf (err : E)

/-- An operation; a new object gets the next name. -/
inductive Operation (T E : Type)
  | newValue (val : T)
  | newError (err : E)
  | newUnexpected (err : E)
  | defaultConstruct
  | construct (arg : Operand E) (isConst : Bool) (category : Category)
  | assign (this : ℕ) (arg : Operand E) (isConst : Bool) (category : Category)
  | swap (a b : ℕ)
  | destroy (a : ℕ)

/-- All objects of `T` and `E` ever constructed, and the named objects; `none` once destroyed. -/
structure World (T E : Type) where
  heap : ObjectHeap T E
  entities : List (Option Entity)

namespace World

variable {T E : Type}

def start : World T E := ⟨[], []⟩

def entity? (w : World T E) (a : ℕ) : Option Entity := w.entities[a]?.join

def expected? (w : World T E) (a : ℕ) : Option Base :=
  match w.entity? a with
  | some (.expected x) => some x
  | _ => none

/-- The contents of a named object. -/
def contents? (w : World T E) (a : ℕ) : Option (Expected T E) := do
  match ← w.entity? a with
  | .expected x => if x.has_ then w.heap.read (← x.s_.val?) else w.heap.read (← x.s_.err?)
  | .value i => w.heap.read i
  | .error i => w.heap.read i
  | .unexpected i => w.heap.read i

def argument? (w : World T E) : Operand E → Option (Argument E)
  | .object a => (w.entity? a).map Entity.argument
  | .content a => do
    let x ← w.expected? a
    if x.has_ then pure (.value (← x.s_.val?)) else pure (.error (← x.s_.err?))
  | .unexpectedOf err => some (.unexpectedOf err)

def add (w : World T E) (e : Entity) (h : ObjectHeap T E) : World T E := ⟨h, w.entities ++ [some e]⟩

def put (w : World T E) (a : ℕ) (e : Option Entity) (h : ObjectHeap T E) : World T E :=
  ⟨h, w.entities.set a e⟩

/-- The destructor of a named object. -/
def destroyEntity (h : ObjectHeap T E) : Entity → Option (ObjectHeap T E)
  | .expected x => x.destroy h
  | .value i => h.destroy i
  | .error i => h.destroy i
  | .unexpected i => h.destroy i

/-- One operation; `none` where it names no object that is there, or goes wrong. -/
def step [ValueAndError T E] (w : World T E) : Operation T E → Option (World T E)
  | .newValue val =>
    let (i, h) := w.heap.construct (.value val)
    some (w.add (.value i) h)
  | .newError err =>
    let (i, h) := w.heap.construct (.error err)
    some (w.add (.error i) h)
  | .newUnexpected err =>
    let (i, h) := w.heap.construct (.error err)
    some (w.add (.unexpected i) h)
  | .defaultConstruct =>
    let (x, h) := Base.ofValueTag w.heap
    some (w.add (.expected x) h)
  | .construct arg isConst category => do
    let arg ← w.argument? arg
    let (x, h) ← constructOverloaded arg isConst category w.heap
    pure (w.add (.expected x) h)
  | .assign this arg isConst category => do
    let x ← w.expected? this
    let arg ← w.argument? arg
    let (x, h) ← assign x arg isConst category w.heap
    pure (w.put this (some (.expected x)) h)
  | .swap a b => do
    let x ← w.expected? a
    let y ← w.expected? b
    let ((x, y), h) ← x.swap y w.heap
    pure ((w.put a (some (.expected x)) h).put b (some (.expected y)) h)
  | .destroy a => do
    let e ← w.entity? a
    let h ← destroyEntity w.heap e
    pure (w.put a none h)

/-- An argument may name an object that is alive, or the contents of an `expected` that is. -/
def Live (w : World T E) : Operand E → Prop
  | .object a => (w.entity? a).isSome
  | .content a => (w.expected? a).isSome
  | .unexpectedOf _ => True

/-- What a program may do next. -/
def Enabled (w : World T E) : Operation T E → Prop
  | .construct arg _ _ => w.Live arg
  | .assign this arg _ _ => (w.expected? this).isSome ∧ w.Live arg
  | .swap a b => (w.expected? a).isSome ∧ (w.expected? b).isSome
  | .destroy a => (w.entity? a).isSome
  | _ => True

/-- The states of programs. -/
def Reachable [ValueAndError T E] : World T E → Prop :=
  ReflTransGen (fun w w' => ∃ op, w.Enabled op ∧ w.step op = some w') start

end World

/-- A named object as a plain value. -/
inductive Named (T E : Type)
  | expected (content : Expected T E)
  | value (val : T)
  | error (err : E)
  | unexpected (err : E)
  deriving DecidableEq, Repr

namespace Named

variable {T E : Type}

def content : Named T E → Expected T E
  | expected c => c
  | value v => .value v
  | error e => .error e
  | unexpected e => .error e

def type : Named T E → ArgumentType
  | expected _ => .expected
  | value _ => .value
  | error _ => .error
  | unexpected _ => .unexpected

/-- The type of `*a` or `a.error()`. -/
def contentType (n : Named T E) : ArgumentType :=
  match n.content with
  | .value _ => .value
  | .error _ => .error

/-- What a constructor or an assignment leaves of its argument. -/
def leave [ValueAndError T E] (moves : Bool) : Named T E → Named T E
  | expected c => expected (ExpectedDetail.leave moves c)
  | value v => value (if moves then ValueAndError.valueMoved E v else v)
  | error e => error (if moves then ValueAndError.errorMoved T e else e)
  | unexpected e => unexpected (if moves then ValueAndError.errorMoved T e else e)

end Named

/-- The named objects of a program as plain values. -/
abbrev Values (T E : Type) := List (Option (Named T E))

namespace Values

variable {T E : Type}

def get (m : Values T E) (a : ℕ) : Option (Named T E) := m[a]?.join

theorem get_set_self {m : Values T E} {a : ℕ} {n : Named T E} (h : m.get a = some n)
    (z : Option (Named T E)) : get (m.set a z) a = z := by
  have hlt : a < m.length := (List.getElem?_eq_some_iff.mp (Option.join_eq_some_iff.mp h)).1
  simp [get, hlt]

theorem get_set_ne {m : Values T E} {a b : ℕ} (h : a ≠ b) (z : Option (Named T E)) :
    get (m.set a z) b = m.get b := by
  rw [get, List.getElem?_set_ne h]
  rfl

/-- The contents and the type of an argument. -/
def operand (m : Values T E) : Operand E → Option (Expected T E × ArgumentType)
  | .object a => (m.get a).map fun n => (n.content, n.type)
  | .content a => (m.get a).map fun n => (n.content, n.contentType)
  | .unexpectedOf err => some (.error err, .unexpectedOf)

variable [ValueAndError T E]

def leaveOperand (m : Values T E) (moves : Bool) : Operand E → Values T E
  | .object a => m.set a ((m.get a).map (Named.leave moves))
  | .content a => m.set a ((m.get a).map (Named.leave moves))
  | .unexpectedOf _ => m

/-- What an operation does to plain values. An assignment gives the object the contents of the
argument; what remains of the argument depends on the overloads that are selected. -/
def step (m : Values T E) : Operation T E → Values T E
  | .newValue val => m ++ [some (.value val)]
  | .newError err => m ++ [some (.error err)]
  | .newUnexpected err => m ++ [some (.unexpected err)]
  | .defaultConstruct => m ++ [some (.expected (.value (ValueAndError.valueInit E)))]
  | .construct arg isConst category =>
    match m.operand arg with
    | some (c, t) =>
      m.leaveOperand ((selectConstructor t isConst category).moves T E) arg ++
        [some (.expected c)]
    | none => m
  | .assign this arg isConst category =>
    match m.operand arg with
    | some (c, t) =>
      (m.leaveOperand (assignMoves T E t isConst category) arg).set this (some (.expected c))
    | none => m
  | .swap a b => (m.set a (m.get b)).set b (m.get a)
  | .destroy a => m.set a none

end Values

end Azmqn.ExpectedDetail
