import Azmqn.Library.Memory

/-!
# Octets, error codes and how a call may end

A modelled function returns, throws, fails a `BOOST_ASSERT`, touches a cell
outside the storage it was given, or exceeds a bound on calls or iterations. All
but the first are failures; `NDEBUG` builds make the assertions void.
-/

namespace Azmqn

/-- `azmqn::utility::octet`, with `|`, `&` of the source as `|||`, `&&&`. -/
abbrev Octet := UInt8

/-- `size_t`; `Fin.ofNat` is the conversion to it, which reduces modulo `2 ^ 64`. -/
abbrev SizeT := Fin (2 ^ 64)

def sizeT (n : ℕ) : SizeT := Fin.ofNat (2 ^ 64) n

theorem sizeT_val {n : ℕ} (h : n < 2 ^ 64) : (sizeT n : ℕ) = n :=
  Nat.mod_eq_of_lt h

/-- A `boost::system::error_code` that is set; a clear one is `none`. -/
inductive ErrorCode
  /-- `errc::message_size` -/
  | messageSize
  /-- `asio::error::eof` -/
  | eof
  /-- any other code a stream may report -/
  | system (value : ℤ)
  deriving DecidableEq, Repr

inductive Build
  | debug
  | ndebug
  deriving DecidableEq, Repr

inductive Failure
  /-- a `BOOST_ASSERT` that does not hold -/
  | assertion
  /-- an access outside the storage, undefined in C++ -/
  | outOfBounds
  /-- more nested calls than the given bound -/
  | callDepth
  /-- more loop iterations than the given bound -/
  | iterations
  /-- `boost::system::system_error` -/
  | systemError (ec : ErrorCode)
  /-- `std::logic_error` -/
  | logicError
  deriving DecidableEq, Repr

abbrev Run := Except Failure

namespace Run

@[simp] theorem ok_bind {α β : Type} (a : α) (f : α → Run β) :
    (Except.ok a >>= f : Run β) = f a := rfl

@[simp] theorem error_bind {α β : Type} (e : Failure) (f : α → Run β) :
    (Except.error e >>= f : Run β) = Except.error e := rfl

@[simp] theorem pure_eq {α : Type} (a : α) : (pure a : Run α) = Except.ok a := rfl

@[simp] theorem throw_eq {α : Type} (e : Failure) : (throw e : Run α) = Except.error e := rfl

theorem bind_eq_ok {α β : Type} {x : Run α} {f : α → Run β} {b : β} (h : x >>= f = .ok b) :
    ∃ a, x = .ok a ∧ f a = .ok b := by
  cases x with
  | error e => cases h
  | ok a => exact ⟨a, rfl, h⟩

end Run

/-- `BOOST_ASSERT`; its argument is evaluated in a debug build only. -/
def boostAssert (b : Build) (cond : Run Bool) : Run Unit :=
  match b with
  | .ndebug => pure ()
  | .debug => do
    if ← cond then pure () else throw .assertion

theorem boostAssert_true (b : Build) {cond : Run Bool} (h : cond = .ok true) :
    boostAssert b cond = .ok () := by
  cases b with
  | debug => simp [boostAssert, h]
  | ndebug => rfl

@[simp] theorem boostAssert_ok_true (b : Build) : boostAssert b (.ok true) = .ok () :=
  boostAssert_true b rfl

@[simp] theorem boostAssert_debug_false : boostAssert .debug (.ok false) = .error .assertion := rfl

@[simp] theorem boostAssert_ndebug (cond : Run Bool) : boostAssert .ndebug cond = .ok () := rfl

/-- Read `len` octets of a storage from `start` on. -/
def load (mem : List Octet) (start len : ℕ) : Run (List Octet) :=
  match Memory.load? mem start len with
  | some xs => pure xs
  | none => throw .outOfBounds

/-- Overwrite the octets of a storage from `start` on. -/
def store {n : ℕ} (mem : Vector Octet n) (start : ℕ) (xs : List Octet) : Run (Vector Octet n) :=
  match Memory.store? mem start xs with
  | some mem => pure mem
  | none => throw .outOfBounds

theorem load_holds {r : Memory.Region} {mem xs : List Octet} (h : r.Holds mem xs) :
    load mem r.start r.size = .ok xs := by
  simp [load, h.load?]

theorem load_append (pre xs post : List Octet) :
    load (pre ++ (xs ++ post)) pre.length xs.length = .ok xs := by
  simp [load, Memory.load?_append]

theorem load_of_le {mem : List Octet} {start len : ℕ} (h : start + len ≤ mem.length) :
    load mem start len = .ok ((mem.drop start).take len) := by
  simp [load, Memory.load?, h]

theorem load_outOfBounds {mem : List Octet} {start len : ℕ} (h : mem.length < start + len) :
    load mem start len = .error .outOfBounds := by
  simp [load, Memory.load?_eq_none h]

section Store

variable {n : ℕ} {mem mem' : Vector Octet n} {start : ℕ} {xs : List Octet}

theorem store_append {pre old post : List Octet} (xs : List Octet)
    (hm : mem.toList = pre ++ (old ++ post)) (hl : old.length = xs.length) :
    ∃ mem', store mem pre.length xs = .ok mem' ∧ mem'.toList = pre ++ (xs ++ post) := by
  obtain ⟨mem', hs, ht⟩ := Memory.store?_append xs hm hl
  exact ⟨mem', by simp [store, hs], ht⟩

theorem store_of_le (mem : Vector Octet n) {start : ℕ} {xs : List Octet}
    (h : start + xs.length ≤ n) :
    ∃ mem', store mem start xs = .ok mem' ∧
      mem'.toList = mem.toList.take start ++ xs ++ mem.toList.drop (start + xs.length) := by
  obtain ⟨m, hm, ht⟩ := Memory.store?_eq_some mem h
  exact ⟨m, by simp [store, hm], ht⟩

theorem store_bound (h : store mem start xs = .ok mem') : start + xs.length ≤ n := by
  unfold store at h
  cases hs : Memory.store? mem start xs with
  | none => simp [hs] at h
  | some m => exact Memory.store?_bound hs

theorem store_toList (h : store mem start xs = .ok mem') :
    mem'.toList = mem.toList.take start ++ xs ++ mem.toList.drop (start + xs.length) := by
  obtain ⟨m, hm, ht⟩ := store_of_le mem (store_bound h)
  rw [hm] at h
  cases h
  exact ht

/-- A store leaves alone what is in front of it. -/
theorem store_take (h : store mem start xs = .ok mem') :
    mem'.toList.take start = mem.toList.take start := by
  have hb := store_bound h
  have hlen : (mem.toList.take start).length = start := by
    rw [List.length_take, Vector.length_toList]
    omega
  rw [store_toList h, List.append_assoc, List.take_left' hlen]

theorem store_take_add (h : store mem start xs = .ok mem') :
    mem'.toList.take (start + xs.length) = mem.toList.take start ++ xs := by
  have hb := store_bound h
  have hlen : (mem.toList.take start ++ xs).length = start + xs.length := by
    rw [List.length_append, List.length_take, Vector.length_toList]
    omega
  rw [store_toList h, List.take_left' hlen]

end Store

end Azmqn
