import Azmqn.Library.BigEndian
import Azmqn.Utility.Outcome

/-!
# Buffers

A `const_buffer` or `mutable_buffer` is a region of a storage that the functions
below receive next to it. `at_least_buffer` asserts a minimal size and nothing
else; `backed_buffer` owns its octets, and its size is a `size_t`.
-/

namespace Azmqn.Xasio

open Memory

abbrev ConstBuffer := Region
abbrev MutableBuffer := Region

/-- The constructor of `at_least_buffer<Buffer, min_size>`. -/
def atLeastBuffer (b : Build) (minSize : ℕ) (buf : Region) : Run Region := do
  boostAssert b (pure (decide (minSize ≤ buf.size)))
  pure buf

theorem atLeastBuffer_of_le (b : Build) {minSize : ℕ} {buf : Region} (h : minSize ≤ buf.size) :
    atLeastBuffer b minSize buf = .ok buf := by
  simp [atLeastBuffer, h]

theorem atLeastBuffer_ok {b : Build} {minSize : ℕ} {buf buf' : Region}
    (h : atLeastBuffer b minSize buf = .ok buf') : buf' = buf := by
  unfold atLeastBuffer at h
  obtain ⟨_, _, h⟩ := Run.bind_eq_ok h
  exact (Except.ok.inj h).symm

/-- `backed_buffer<small_size>`: a vector of octets that fits a `size_t`. -/
structure BackedBuffer where
  v_ : List Octet
  size_lt : v_.length < 2 ^ 64
  deriving DecidableEq, Repr

namespace BackedBuffer

/-- A vector of `capacity` octets that nobody has written yet. -/
def ofCapacity (raw : ℕ → Octet) (capacity : SizeT) : BackedBuffer :=
  ⟨(List.range capacity).map raw, by simp⟩

def size (buf : BackedBuffer) : ℕ := buf.v_.length

/-- `mutable_buffer()` and `const_buffer()`: all of the octets. -/
def buffer (buf : BackedBuffer) : Region := ⟨0, buf.size⟩

@[simp] theorem size_ofCapacity (raw : ℕ → Octet) (capacity : SizeT) :
    (ofCapacity raw capacity).size = capacity := by
  simp [ofCapacity, size]

theorem buffer_holds (buf : BackedBuffer) : buf.buffer.Holds buf.v_ buf.v_ :=
  Region.holds_whole buf.v_

/-- Octets written through the `mutable_buffer()`; the size stays as it is. -/
def fill (buf : BackedBuffer) (xs : List Octet) : Run BackedBuffer := do
  let v ← store ⟨buf.v_.toArray, rfl⟩ 0 xs
  pure ⟨v.toList, by simpa using buf.size_lt⟩

theorem fill_ok (buf : BackedBuffer) {xs : List Octet} (h : xs.length ≤ buf.size) :
    ∃ buf', buf.fill xs = .ok buf' ∧ buf'.v_ = xs ++ buf.v_.drop xs.length := by
  have hb : 0 + xs.length ≤ buf.v_.length := by simpa [size] using h
  obtain ⟨v, hv, ht⟩ := store_of_le ⟨buf.v_.toArray, rfl⟩ hb
  refine ⟨⟨v.toList, by simpa using buf.size_lt⟩, by simp [fill, hv], ?_⟩
  simpa [Vector.toList] using ht

/-- Writing as many octets as there are leaves nothing of the old ones. -/
theorem fill_all (buf : BackedBuffer) {xs : List Octet} (h : xs.length = buf.size) :
    buf.fill xs = .ok ⟨xs, by rw [h]; exact buf.size_lt⟩ := by
  obtain ⟨⟨v, hv⟩, hf, hxs⟩ := buf.fill_ok h.le
  change v = xs ++ buf.v_.drop xs.length at hxs
  rw [List.drop_of_length_le (le_of_eq h.symm), List.append_nil] at hxs
  subst hxs
  exact hf

end BackedBuffer

end Azmqn.Xasio
