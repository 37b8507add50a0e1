import Azmqn.Xasio.Buffer

/-!
# `wire::put` and `wire::get`

Unsigned values in network byte order. Both take an `at_least_buffer` of the
value's width and return the buffer behind the value.
-/

namespace Azmqn.Wire

open Memory Xasio

/-- The unsigned types that `put` and `get` are instantiated at. -/
inductive Unsigned
  | uint8
  | uint16
  | uint32
  | uint64
  deriving DecidableEq, Repr

def Unsigned.sizeof : Unsigned → ℕ
  | uint8 => 1
  | uint16 => 2
  | uint32 => 4
  | uint64 => 8

/-- `put<T>(b, val)`; the conversion of `val` to `T` drops the higher octets. -/
def put {n : ℕ} (b : Build) (T : Unsigned) (mem : Vector Octet n) (buf : MutableBuffer) (val : ℕ) :
    Run (Vector Octet n × MutableBuffer) := do
  let buf ← atLeastBuffer b T.sizeof buf
  let mem ← store mem buf.start (BigEndian.encode T.sizeof val)
  pure (mem, buf.advance T.sizeof)

/-- `get<T>(b)`. -/
def get (b : Build) (T : Unsigned) (mem : List Octet) (buf : ConstBuffer) :
    Run (ℕ × ConstBuffer) := do
  let buf ← atLeastBuffer b T.sizeof buf
  let octets ← load mem buf.start T.sizeof
  pure (BigEndian.decode octets, buf.advance T.sizeof)

theorem put_append {n : ℕ} (b : Build) (T : Unsigned) {mem : Vector Octet n}
    {pre old post : List Octet} {size : ℕ} (val : ℕ)
    (hm : mem.toList = pre ++ (old ++ post)) (hl : old.length = T.sizeof)
    (hs : T.sizeof ≤ size) :
    ∃ mem', put b T mem ⟨pre.length, size⟩ val =
        .ok (mem', ⟨pre.length + T.sizeof, size - T.sizeof⟩) ∧
      mem'.toList = pre ++ (BigEndian.encode T.sizeof val ++ post) := by
  obtain ⟨mem', hst, ht⟩ := store_append (BigEndian.encode T.sizeof val) hm (by simp [hl])
  have hle : T.sizeof ≤ (Region.mk pre.length size).size := hs
  refine ⟨mem', ?_, ht⟩
  simp [put, atLeastBuffer_of_le b hle, hst, Region.advance_of_le hle]

theorem get_holds (b : Build) (T : Unsigned) {mem xs ys : List Octet} {buf : ConstBuffer}
    (h : buf.Holds mem (xs ++ ys)) (hl : xs.length = T.sizeof) :
    get b T mem buf = .ok (BigEndian.decode xs, buf.advance T.sizeof) := by
  have hs := h.size_eq
  rw [List.length_append] at hs
  have hload := load_holds h.left
  have hle : T.sizeof ≤ buf.size := by omega
  simp only [hl] at hload
  simp [get, atLeastBuffer_of_le b hle, hload]

/-- What a `get` from a buffer that is too short, at the end of its storage, ends in. -/
def shortBuffer : Build → Failure
  | .debug => .assertion
  | .ndebug => .outOfBounds

theorem get_short (b : Build) (T : Unsigned) {mem : List Octet} {buf : ConstBuffer}
    (hend : buf.start + buf.size = mem.length) (h : buf.size < T.sizeof) :
    get b T mem buf = .error (shortBuffer b) := by
  cases b with
  | debug => simp [get, atLeastBuffer, Nat.not_le.mpr h, shortBuffer]
  | ndebug =>
    have hl : mem.length < buf.start + T.sizeof := by omega
    simp [get, atLeastBuffer, load_outOfBounds hl, shortBuffer]

end Azmqn.Wire
