import Azmqn.Utility.ExpectedAccess
import Azmqn.Utility.ExpectedLifetimes

/-!
# Programs that ask their `expected` objects

Between its operations a program compares its objects, reads them, hashes them
and takes values and errors out of them. What it does is stated for unions, where
each of these looks into the heap, and for plain values, where each has an answer
that the contents decide or is not defined.
-/

namespace Azmqn.ExpectedDetail

open Objects Overload

/-- A question to one `expected`. -/
inductive Question
  | hasValue
  | value
  | deref
  | error
  | hash
  deriving DecidableEq, Repr

/-- What a program may do: an operation, or something that it wants to know. A new object gets
the next name. -/
inductive Use (T E : Type)
  | operation (op : Operation T E)
  | compare (op : Comparison) (lhs rhs : Operand E)
  | ask (q : Question) (a : ℕ)
  /-- `value_or`; `u` is what the argument converts to -/
  | valueOr (a : ℕ) (moves : Bool) (u : T)
  | getUnexpected (a : ℕ)

inductive Answer (T E : Type)
  | done
  | truth (b : Bool)
  | value (val : T)
  | error (err : E)
  | hash (n : SizeT)
  deriving DecidableEq, Repr

/-- An answer, or how the call ended without one. -/
abbrev Result (T E : Type) := Except (Stop E) (Answer T E)

/-- Exceptions are caught; after a failed assertion or `std::terminate` nothing follows. -/
def Result.endsProgram {T E : Type} : Result T E → Bool
  | .ok _ => false
  | .error (.badAccess _) => false
  | .error .assertion => true
  | .error .terminate => true

section Unions

variable {T E : Type}

namespace World

/-- A call that leaves the named objects alone. -/
def ask (w : World T E) (x : Access T E (Answer T E)) : Option (Result T E × World T E) := do
  let (r, h) ← x w.heap
  pure (r, { w with heap := h })

/-- A call that returns a new object. -/
def create (w : World T E) (x : Access T E ℕ) (f : ℕ → Entity) :
    Option (Result T E × World T E) := do
  match ← x w.heap with
  | (.ok i, h) => pure (.ok .done, w.add (f i) h)
  | (.error s, h) => pure (.error s, { w with heap := h })

end World

variable [ValueAndError T E] [Operators T] [Operators E]

def Question.apply (b : Build) (q : Question) (x : Base) : Access T E (Answer T E) :=
  match q with
  | hasValue => return .truth x.has_
  | value => do
    let val : T ← x.value
    return .value val
  | deref => do
    let val : T ← x.deref
    return .value val
  | error => do
    let err : E ← x.error b
    return .error err
  | hash => return .hash (← x.hash T E b)

namespace World

def use (b : Build) (w : World T E) : Use T E → Option (Result T E × World T E)
  | .operation op => do
    let w ← w.step op
    pure (.ok .done, w)
  | .compare op lhs rhs => do
    let lhs ← w.argument? lhs
    let rhs ← w.argument? rhs
    w.ask do return .truth (← ExpectedDetail.compare op b lhs rhs)
  | .ask q a => do
    let x ← w.expected? a
    w.ask (q.apply b x)
  | .valueOr a moves u => do
    let x ← w.expected? a
    w.create (Base.valueOr moves x u) .value
  | .getUnexpected a => do
    let x ← w.expected? a
    w.create (x.getUnexpected b) .unexpected

/-- A program up to its end, with all its answers. -/
def run (b : Build) : List (Use T E) → World T E → Option (List (Result T E) × World T E)
  | [], w => some ([], w)
  | u :: us, w => do
    let (r, w) ← w.use b u
    if r.endsProgram then pure ([r], w)
    else
      let (rs, w) ← run b us w
      pure (r :: rs, w)

end World

end Unions

section PlainValues

variable {T E : Type}

/-- `error` and `get_unexpected` where there is a value. -/
def noError (b : Build) : Stop E :=
  match b with
  | .debug => .assertion
  | .ndebug => .terminate

/-- How contents answer; what `*` says of an error is not defined. -/
def Question.answer [Operators T] [Operators E] (b : Build) (q : Question) (c : Expected T E) :
    Option (Result T E) :=
  match q, c with
  | hasValue, .value _ => some (.ok (.truth true))
  | hasValue, .error _ => some (.ok (.truth false))
  | value, .value v => some (.ok (.value v))
  | value, .error e => some (.error (.badAccess e))
  | deref, .value v => some (.ok (.value v))
  | deref, .error _ => none
  | error, .value _ => some (.error (noError b))
  | error, .error e => some (.ok (.error e))
  | hash, c => some (.ok (.hash (contentsHash c)))

namespace Values

def expected? (m : Values T E) (a : ℕ) : Option (Expected T E) :=
  match m.get a with
  | some (.expected c) => some c
  | _ => none

/-- An argument may name an object that is there, or the contents of an `expected` that is. -/
def Live (m : Values T E) : Operand E → Prop
  | .object a => (m.get a).isSome
  | .content a => (m.expected? a).isSome
  | .unexpectedOf _ => True

/-- The operations that are defined. -/
def Enabled (m : Values T E) : Operation T E → Prop
  | .construct arg _ _ => m.Live arg
  | .assign this arg _ _ => (m.expected? this).isSome ∧ m.Live arg
  | .swap a b => (m.expected? a).isSome ∧ (m.expected? b).isSome
  | .destroy a => (m.get a).isSome
  | _ => True

instance (m : Values T E) : (arg : Operand E) → Decidable (m.Live arg)
  | .object a => inferInstanceAs (Decidable ((m.get a).isSome = true))
  | .content a => inferInstanceAs (Decidable ((m.expected? a).isSome = true))
  | .unexpectedOf _ => inferInstanceAs (Decidable True)

instance (m : Values T E) : (op : Operation T E) → Decidable (m.Enabled op)
  | .construct arg _ _ => inferInstanceAs (Decidable (m.Live arg))
  | .assign this arg _ _ =>
    inferInstanceAs (Decidable ((m.expected? this).isSome = true ∧ m.Live arg))
  | .swap a b =>
    inferInstanceAs (Decidable ((m.expected? a).isSome = true ∧ (m.expected? b).isSome = true))
  | .destroy a => inferInstanceAs (Decidable ((m.get a).isSome = true))
  | .newValue _ => inferInstanceAs (Decidable True)
  | .newError _ => inferInstanceAs (Decidable True)
  | .newUnexpected _ => inferInstanceAs (Decidable True)
  | .defaultConstruct => inferInstanceAs (Decidable True)

variable [ValueAndError T E] [Operators T] [Operators E]

/-- What a use answers and what it does to plain values; `none` where it is not defined. -/
def use (b : Build) (m : Values T E) : Use T E → Option (Result T E × Values T E)
  | .operation op => if m.Enabled op then some (.ok .done, m.step op) else none
  | .compare op lhs rhs => do
    let (c, s) ← m.operand lhs
    let (d, t) ← m.operand rhs
    if m.Live lhs ∧ m.Live rhs ∧ Comparable s t then some (.ok (.truth (op.contents c d)), m)
    else none
  | .ask q a => do
    let r ← q.answer b (← m.expected? a)
    some (r, m)
  | .valueOr a moves u => do
    match ← m.expected? a with
    | .value v =>
      some (.ok .done, m.set a (some (.expected (leave moves (.value v)))) ++ [some (.value v)])
    | .error _ => some (.ok .done, m ++ [some (.value u)])
  | .getUnexpected a => do
    match ← m.expected? a with
    | .value _ => some (.error (noError b), m)
    | .error e => some (.ok .done, m ++ [some (.unexpected e)])

def run (b : Build) : List (Use T E) → Values T E → Option (List (Result T E) × Values T E)
  | [], m => some ([], m)
  | u :: us, m => do
    let (r, m) ← m.use b u
    if r.endsProgram then pure ([r], m)
    else
      let (rs, m) ← run b us m
      pure (r :: rs, m)

end Values

end PlainValues

end Azmqn.ExpectedDetail
