import Azmqn.Utility.ExpectedSpec

/-!
# Reading an `expected`

The accessors and the comparisons of `expected<T, E>` look at the flag before
they read a member of the union, and some of them look twice. What they do when
the flag is the other one differs: `value` throws, `error` asserts and then
terminates, `*` does not ask. A comparison with a `T` or an `unexpected<E>` makes
an `expected` of it first and destroys it afterwards.
-/

namespace Azmqn.ExpectedDetail

open Objects Overload

/-- How a call may end without returning. -/
inductive Stop (E : Type)
  /-- `bad_expected_access<E>` is thrown -/
  | badAccess (err : E)
  /-- a `BOOST_ASSERT` that does not hold -/
  | assertion
  /-- `std::terminate` -/
  | terminate
  deriving DecidableEq, Repr

/-- A call that reads objects: it returns or stops, and is `none` where it reads an object that
is not alive. -/
def Access (T E α : Type) : Type :=
  ObjectHeap T E → Option (Except (Stop E) α × ObjectHeap T E)

namespace Access

variable {T E α β : Type}

instance : Monad (Access T E) where
  pure a := fun h => some (.ok a, h)
  bind x f := fun h =>
    match x h with
    | some (.ok a, h) => f a h
    | some (.error s, h) => some (.error s, h)
    | none => none

/-- A call that only reads. -/
def read (f : ObjectHeap T E → Option α) : Access T E α := fun h => (f h).map fun a => (.ok a, h)

def stop (s : Stop E) : Access T E α := fun h => some (.error s, h)

@[simp] theorem pure_apply (a : α) (h : ObjectHeap T E) :
    (pure a : Access T E α) h = some (.ok a, h) := rfl

@[simp] theorem stop_apply (s : Stop E) (h : ObjectHeap T E) :
    (stop s : Access T E α) h = some (.error s, h) := rfl

theorem bind_ok {x : Access T E α} {f : α → Access T E β} {a : α} {h h' : ObjectHeap T E}
    (hx : x h = some (.ok a, h')) : (x >>= f) h = f a h' := by
  change (match x h with
    | some (.ok a, h) => f a h
    | some (.error s, h) => some (.error s, h)
    | none => none) = f a h'
  rw [hx]

theorem bind_stop {x : Access T E α} {f : α → Access T E β} {s : Stop E} {h h' : ObjectHeap T E}
    (hx : x h = some (.error s, h')) : (x >>= f) h = some (.error s, h') := by
  change (match x h with
    | some (.ok a, h) => f a h
    | some (.error s, h) => some (.error s, h)
    | none => none) = some (.error s, h')
  rw [hx]

theorem bind_none {x : Access T E α} {f : α → Access T E β} {h : ObjectHeap T E}
    (hx : x h = none) : (x >>= f) h = none := by
  change (match x h with
    | some (.ok a, h) => f a h
    | some (.error s, h) => some (.error s, h)
    | none => none) = none
  rw [hx]

end Access

/-- `operator==`, `operator<` and `std::hash` of a type. -/
class Operators (α : Type) where
  eq : α → α → Bool
  lt : α → α → Bool
  hash : α → SizeT

/-- The comparison operators of `expected`. -/
inductive Comparison
  | eq
  | ne
  | lt
  | gt
  | le
  | ge
  deriving DecidableEq, Repr

section Operations

variable {T E : Type}

def readValue (i : ℕ) (h : ObjectHeap T E) : Option T :=
  match h.read i with
  | some (.value val) => some val
  | _ => none

def readError (i : ℕ) (h : ObjectHeap T E) : Option E :=
  match h.read i with
  | some (.error err) => some err
  | _ => none

/-- `s_.val_`, read. -/
def Storage.val (s : Storage) : Access T E T := .read fun h => do readValue (← s.val?) h

/-- `s_.err_`, read. -/
def Storage.err (s : Storage) : Access T E E := .read fun h => do readError (← s.err?) h

/-- `BOOST_ASSERT(!has_)`. -/
def assertError (b : Build) (has : Bool) : Access T E Unit :=
  if b = .debug ∧ has then .stop .assertion else pure ()

namespace Base

/-- `operator*` and `operator->`, read through. -/
def deref (x : Base) : Access T E T := x.s_.val

/-- `error` of an lvalue, or of an rvalue that is not const. The overload for const rvalues binds
its result to an lvalue and does not compile. -/
def error (b : Build) (x : Base) : Access T E E := do
  assertError b x.has_
  if !x.has_ then x.s_.err else .stop .terminate

/-- `get_unexpected`: a new `unexpected<E>`, copied from the error. -/
def getUnexpected (b : Build) (x : Base) : Access T E ℕ := do
  assertError b x.has_
  if !x.has_ then fun h => do
    let (i, h) ← h.copyConstruct (← x.s_.err?)
    pure (.ok i, h)
  else .stop .terminate

end Base

variable [ValueAndError T E]

/-- `throw bad_expected_access<error_type>(s_.err_)`. The parameter of its constructor is copied
from the error and `err_` is moved from the parameter; the exception is destroyed when a handler
has read it. -/
def throwBadAccess {α : Type} (s : Storage) : Access T E α := fun h => do
  let (err, h) ← h.copyConstruct (← s.err?)
  let (err_, h) ← h.moveConstruct movedFrom err
  let h ← h.destroy err
  let e ← readError err_ h
  let h ← h.destroy err_
  pure (.error (.badAccess e), h)

namespace Base

/-- `value` of an lvalue. The two overloads for rvalues bind their result to an lvalue and do not
compile. -/
def value (x : Base) : Access T E T := if x.has_ then x.s_.val else throwBadAccess x.s_

/-- `value_or`: a new `T`, copied or moved from the value, or the one that `u` converts to. -/
def valueOr (moves : Bool) (x : Base) (u : T) : Access T E ℕ := fun h => do
  if x.has_ then
    let (i, h) ← constructFrom moves h (← x.s_.val?)
    pure (.ok i, h)
  else
    let (i, h) := h.construct (.value u)
    pure (.ok i, h)

variable [Operators T] [Operators E]

variable (T E)

/-- `operator==`. -/
def eq (b : Build) (lhs rhs : Base) : Access T E Bool := do
  if lhs.has_ == rhs.has_ then
    if lhs.has_ then
      let v : T ← lhs.value
      let w : T ← rhs.value
      return Operators.eq v w
    else
      let e : E ← lhs.error b
      let f : E ← rhs.error b
      return Operators.eq e f
  else return false

/-- `operator<`. -/
def lt (b : Build) (lhs rhs : Base) : Access T E Bool := do
  if !lhs.has_ && rhs.has_ then return false
  else if lhs.has_ && !rhs.has_ then return true
  else if lhs.has_ && rhs.has_ then
    let v : T ← lhs.value
    let w : T ← rhs.value
    return Operators.lt v w
  else
    let e : E ← lhs.error b
    let f : E ← rhs.error b
    return Operators.lt e f

/-- `operator!=`. -/
def ne (b : Build) (lhs rhs : Base) : Access T E Bool := return !(← eq T E b lhs rhs)

/-- `operator>`. -/
def gt (b : Build) (lhs rhs : Base) : Access T E Bool := do
  if !(← eq T E b lhs rhs) then return !(← lt T E b lhs rhs) else return false

/-- `operator<=`. -/
def le (b : Build) (lhs rhs : Base) : Access T E Bool := do
  if ← eq T E b lhs rhs then return true else lt T E b lhs rhs

/-- `operator>=`. -/
def ge (b : Build) (lhs rhs : Base) : Access T E Bool := do
  if ← eq T E b lhs rhs then return true else gt T E b lhs rhs

/-- `std::hash<expected<T, E>>`. -/
def hash (b : Build) (e : Base) : Access T E SizeT := do
  if e.has_ then
    let v : T ← e.value
    return Operators.hash v
  else
    let err : E ← e.error b
    return Operators.hash err

end Base

/-- `expected<T, E>{ arg }`, for an `arg` that is a reference to const, as a temporary. -/
def withTemporary {α : Type} (arg : Argument E) (f : Base → Access T E α) : Access T E α :=
  fun h => do
    let (x, h) ← constructOverloaded arg true .lvalue h
    let (r, h) ← f x h
    let h ← x.destroy h
    pure (r, h)

variable [Operators T] [Operators E]

variable (T E) in
def Comparison.apply (op : Comparison) (b : Build) (lhs rhs : Base) : Access T E Bool :=
  match op with
  | eq => lhs.eq T E b rhs
  | ne => lhs.ne T E b rhs
  | lt => lhs.lt T E b rhs
  | gt => lhs.gt T E b rhs
  | le => lhs.le T E b rhs
  | ge => lhs.ge T E b rhs

/-- A comparison of an `expected` with an `expected`, a `T` or an `unexpected<E>`, on either
side. The operators for two `unexpected<E>`, which compare their values, are not among these. -/
def compare (op : Comparison) (b : Build) (lhs rhs : Argument E) : Access T E Bool :=
  match lhs, rhs with
  | .expected x, .expected y => op.apply T E b x y
  | .expected x, .value i => withTemporary (.value i) fun y => op.apply T E b x y
  | .value i, .expected y => withTemporary (.value i) fun x => op.apply T E b x y
  | .expected x, .unexpected i => withTemporary (.unexpected i) fun y => op.apply T E b x y
  | .unexpected i, .expected y => withTemporary (.unexpected i) fun x => op.apply T E b x y
  | _, _ => fun _ => none

end Operations

section Contents

variable {T E : Type} [Operators T] [Operators E]

/-- `==` of contents: a value and an error are never equal. -/
def contentsEq : Expected T E → Expected T E → Bool
  | .value v, .value w => Operators.eq v w
  | .error e, .error f => Operators.eq e f
  | _, _ => false

/-- `<` of contents: every value comes before every error. -/
def contentsLt : Expected T E → Expected T E → Bool
  | .value v, .value w => Operators.lt v w
  | .value _, .error _ => true
  | .error _, .value _ => false
  | .error e, .error f => Operators.lt e f

/-- What a comparison answers. -/
def Comparison.contents (op : Comparison) (c d : Expected T E) : Bool :=
  match op with
  | eq => contentsEq c d
  | ne => !contentsEq c d
  | lt => contentsLt c d
  | gt => !contentsEq c d && !contentsLt c d
  | le => contentsEq c d || contentsLt c d
  | ge => contentsEq c d || (!contentsEq c d && !contentsLt c d)

def contentsHash : Expected T E → SizeT
  | .value v => Operators.hash v
  | .error e => Operators.hash e

end Contents

section Specifications

variable {T E : Type} {h : ObjectHeap T E} {i j : ℕ} {v : T} {e : E} {c d : Expected T E}

namespace Base

theorem deref_holding (hr : h.read i = some (.value v)) :
    (holding i (.value v : Expected T E)).deref h = some (.ok v, h) := by
  simp [deref, Storage.val, Access.read, holding, Storage.val?, readValue, hr]

theorem error_holding (b : Build) (hr : h.read i = some (.error e)) :
    (holding i (.error e : Expected T E)).error b h = some (.ok e, h) := by
  have hassert : assertError b (holding i (.error e : Expected T E)).has_ h = some (.ok (), h) := by
    simp [assertError, holding]
  rw [error, Access.bind_ok hassert]
  simp [holding, Storage.err, Access.read, Storage.err?, readError, hr]

/-- `error` and `get_unexpected` of an object with a value end the program. -/
theorem error_of_value (b : Build) :
    (holding i (.value v : Expected T E)).error b h =
      some (.error (if b = .debug then .assertion else .terminate), h) := by
  cases b with
  | debug => rfl
  | ndebug => rfl

theorem getUnexpected_of_value (b : Build) :
    (holding i (.value v : Expected T E)).getUnexpected b h =
      some (.error (if b = .debug then .assertion else .terminate), h) := by
  cases b with
  | debug => rfl
  | ndebug => rfl

theorem getUnexpected_spec {own : List (ℕ × Expected T E)} (b : Build)
    (ho : Owns h ((i, .error e) :: own)) :
    ∃ k h', (holding i (.error e : Expected T E)).getUnexpected b h = some (.ok k, h') ∧
      Owns h' ((k, .error e) :: (i, .error e) :: own) := by
  obtain ⟨k, h', hk, ho'⟩ := ho.copyConstruct
  have hassert : assertError b (holding i (.error e : Expected T E)).has_ h = some (.ok (), h) := by
    simp [assertError, holding]
  refine ⟨k, h', ?_, ho'⟩
  rw [getUnexpected, Access.bind_ok hassert]
  simp [holding, Storage.err?, hk]

variable [ValueAndError T E]

theorem value_holding (hr : h.read i = some (.value v)) :
    (holding i (.value v : Expected T E)).value h = some (.ok v, h) :=
  deref_holding hr

/-- `value` of an object with an error throws the error, and what the exception takes for it is
gone once it has been handled. -/
theorem value_of_error {own : List (ℕ × Expected T E)} (ho : Owns h ((i, .error e) :: own)) :
    ∃ h', (holding i (.error e : Expected T E)).value h = some (.error (.badAccess e), h') ∧
      Owns h' ((i, .error e) :: own) := by
  obtain ⟨err, h₁, hc, ho₁⟩ := ho.copyConstruct
  obtain ⟨err_, h₂, h₃, hm, hd, ho₃⟩ := ho₁.relocate movedFrom
  obtain ⟨h₄, hd', ho₄⟩ := ho₃.destroy
  refine ⟨h₄, ?_, ho₄⟩
  simp [value, throwBadAccess, holding, Storage.err?, hc, hm, hd, readError, ho₃.read, hd']

theorem valueOr_of_value {own : List (ℕ × Expected T E)} (moves : Bool) (u : T)
    (ho : Owns h ((i, .value v) :: own)) :
    ∃ k h', valueOr moves (holding i (.value v : Expected T E)) u h = some (.ok k, h') ∧
      Owns h' ((k, .value v) :: (i, leave moves (.value v)) :: own) := by
  obtain ⟨k, h', hk, ho'⟩ := constructFrom_spec moves ho
  exact ⟨k, h', by simp [valueOr, holding, Storage.val?, hk], ho'⟩

theorem valueOr_of_error {own : List (ℕ × Expected T E)} (moves : Bool) (u : T)
    (ho : Owns h own) :
    ∃ k h', valueOr moves (holding i (.error e : Expected T E)) u h = some (.ok k, h') ∧
      Owns h' ((k, .value u) :: own) :=
  ⟨_, _, rfl, ho.construct _⟩

variable [Operators T] [Operators E]

theorem eq_holding (b : Build) (hc : h.read i = some c) (hd : h.read j = some d) :
    eq T E b (holding i c) (holding j d) h = some (.ok (contentsEq c d), h) := by
  cases c with
  | value v =>
    cases d with
    | value w => exact (Access.bind_ok (value_holding hc)).trans (Access.bind_ok (value_holding hd))
    | error f => rfl
  | error e =>
    cases d with
    | value w => rfl
    | error f =>
      exact (Access.bind_ok (error_holding b hc)).trans (Access.bind_ok (error_holding b hd))

theorem lt_holding (b : Build) (hc : h.read i = some c) (hd : h.read j = some d) :
    lt T E b (holding i c) (holding j d) h = some (.ok (contentsLt c d), h) := by
  cases c with
  | value v =>
    cases d with
    | value w => exact (Access.bind_ok (value_holding hc)).trans (Access.bind_ok (value_holding hd))
    | error f => rfl
  | error e =>
    cases d with
    | value w => rfl
    | error f =>
      exact (Access.bind_ok (error_holding b hc)).trans (Access.bind_ok (error_holding b hd))

theorem gt_holding (b : Build) (hc : h.read i = some c) (hd : h.read j = some d) :
    gt T E b (holding i c) (holding j d) h =
      some (.ok (!contentsEq c d && !contentsLt c d), h) := by
  rw [gt, Access.bind_ok (eq_holding b hc hd)]
  cases contentsEq c d with
  | true => rfl
  | false => exact Access.bind_ok (lt_holding b hc hd)

/-- An object answers `std::hash` with the hash of what it holds. -/
theorem hash_holding (b : Build) (hc : h.read i = some c) :
    hash T E b (holding i c) h = some (.ok (contentsHash c), h) := by
  cases c with
  | value v => exact Access.bind_ok (value_holding hc)
  | error e => exact Access.bind_ok (error_holding b hc)

end Base

variable [ValueAndError T E] [Operators T] [Operators E]

theorem Comparison.apply_holding (op : Comparison) (b : Build) (hc : h.read i = some c)
    (hd : h.read j = some d) :
    op.apply T E b (Base.holding i c) (Base.holding j d) h = some (.ok (op.contents c d), h) := by
  have heq := Base.eq_holding b hc hd
  cases op with
  | eq => exact heq
  | ne => exact Access.bind_ok heq
  | lt => exact Base.lt_holding b hc hd
  | gt => exact Base.gt_holding b hc hd
  | le =>
    rw [apply, Base.le, Access.bind_ok heq, contents]
    cases contentsEq c d with
    | true => rfl
    | false => exact Base.lt_holding b hc hd
  | ge =>
    have hgt := Base.gt_holding b hc hd
    rw [apply, Base.ge, Access.bind_ok heq, contents]
    cases heq' : contentsEq c d with
    | true => rfl
    | false => rw [heq'] at hgt; exact hgt

omit [Operators T] [Operators E] in
theorem selectConstructor_const (t : ArgumentType) :
    (selectConstructor t true .lvalue).moves T E = (t == .unexpectedOf && selectsBase T E) := by
  cases t <;> rfl

omit [Operators T] [Operators E] in
/-- A temporary holds what its argument holds, and is gone afterwards. -/
theorem withTemporary_spec {α : Type} {arg : Argument E} {f : Base → Access T E α}
    {r : Except (Stop E) α} {own : List (ℕ × Expected T E)} (hr : arg.Refers i c)
    (ho : Owns h own) (hm : (i, c) ∈ own)
    (hf : ∀ k h', Owns h' ((k, c) :: own) → f (Base.holding k c) h' = some (r, h')) :
    ∃ h', withTemporary arg f h = some (r, h') ∧ Owns h' own := by
  obtain ⟨front, back, rfl⟩ := List.append_of_mem hm
  have hfront : (front ++ (i, c) :: back).Perm ((i, c) :: (front ++ back)) := List.perm_middle
  obtain ⟨k, h₁, hc, ho₁⟩ := constructOverloaded_spec hr true .lvalue (ho.perm hfront)
  have hleave : leave ((selectConstructor arg.type true .lvalue).moves T E) c = c := by
    rw [selectConstructor_const]
    cases hr <;> rfl
  rw [hleave] at ho₁
  have ho₂ := ho₁.perm (hfront.symm.cons (k, c))
  obtain ⟨h₂, hd, ho₃⟩ := Base.destroy_spec ho₂
  exact ⟨h₂, by simp [withTemporary, hc, hf k h₁ ho₂, hd], ho₃⟩

/-- The types of the two sides of a comparison. -/
def Comparable : ArgumentType → ArgumentType → Bool
  | .expected, .expected => true
  | .expected, .value => true
  | .value, .expected => true
  | .expected, .unexpected => true
  | .unexpected, .expected => true
  | _, _ => false

theorem compare_eq_none (op : Comparison) (b : Build) {lhs rhs : Argument E}
    (ht : Comparable lhs.type rhs.type = false) : compare (T := T) op b lhs rhs h = none := by
  cases lhs <;> cases rhs <;> first | rfl | cases ht

/-- A comparison reads what its two sides hold and leaves everything as it was. -/
theorem compare_spec (op : Comparison) (b : Build) {lhs rhs : Argument E}
    {own : List (ℕ × Expected T E)} (hl : lhs.Refers i c) (hr : rhs.Refers j d)
    (ht : Comparable lhs.type rhs.type = true) (ho : Owns h own) (hi : (i, c) ∈ own)
    (hj : (j, d) ∈ own) :
    ∃ h', compare op b lhs rhs h = some (.ok (op.contents c d), h') ∧ Owns h' own := by
  have hleft : ∀ k h', Owns h' ((k, c) :: own) →
      op.apply T E b (Base.holding k c) (Base.holding j d) h' =
        some (.ok (op.contents c d), h') := by
    intro k h' ho'
    exact op.apply_holding b ho'.read (ho'.read_of_mem (List.mem_cons_of_mem _ hj))
  have hright : ∀ k h', Owns h' ((k, d) :: own) →
      op.apply T E b (Base.holding i c) (Base.holding k d) h' =
        some (.ok (op.contents c d), h') := by
    intro k h' ho'
    exact op.apply_holding b (ho'.read_of_mem (List.mem_cons_of_mem _ hi)) ho'.read
  cases hl with
  | expected _ _ =>
    cases hr with
    | expected _ _ =>
      exact ⟨h, op.apply_holding b (ho.read_of_mem hi) (ho.read_of_mem hj), ho⟩
    | value _ w => exact withTemporary_spec (.value j w) ho hj hright
    | error _ f => cases ht
    | unexpected _ f => exact withTemporary_spec (.unexpected j f) ho hj hright
  | value _ v =>
    cases hr with
    | expected _ _ =>
      exact withTemporary_spec (f := fun x => op.apply T E b x (Base.holding j d)) (.value i v)
        ho hi hleft
    | value _ w => cases ht
    | error _ f => cases ht
    | unexpected _ f => cases ht
  | error _ e => cases hr <;> cases ht
  | unexpected _ e =>
    cases hr with
    | expected _ _ =>
      exact withTemporary_spec (f := fun x => op.apply T E b x (Base.holding j d))
        (.unexpected i e) ho hi hleft
    | value _ w => cases ht
    | error _ f => cases ht
    | unexpected _ f => cases ht

end Specifications

end Azmqn.ExpectedDetail
