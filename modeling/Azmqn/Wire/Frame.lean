import Azmqn.Wire.Endian
import Azmqn.Xasio.ReadWrite

/-!
# Frames

A frame header is a flags octet and the size of the body, in one octet or, when
the LONG bit is set, in eight. `frame` keeps the header in nine octets of storage
next to the number of octets that were transferred, and `read` fetches it from a
stream in one or two steps. `read_limit` bounds the sizes that are let through.
-/

namespace Azmqn.Wire

open Memory Xasio Streams

inductive Flags
  | isMessage
  | isMore
  | isLong
  | isCommand
  | none
  deriving DecidableEq, Repr

/-- `operator+`. -/
def Flags.toOctet : Flags → Octet
  | isMessage => 0x0
  | isMore => 0x1
  | isLong => 0x2
  | isCommand => 0x4
  | none => 0x0

def isSet (o : Octet) (f : Flags) : Bool := o &&& f.toOctet != 0

def isMore (o : Octet) : Bool := isSet o .isMore

def isLong (o : Octet) : Bool := isSet o .isLong

def isCommand (o : Octet) : Bool := isSet o .isCommand

def minFramingOctets : ℕ := 1 + 1

def maxFramingOctets : ℕ := 1 + 8

structure Frame where
  framing_ : Vector Octet maxFramingOctets
  bytesTransferred_ : ℕ
  deriving DecidableEq, Repr

namespace Frame

/-- The constructor sets the first octet only. -/
def init (raw : Vector Octet maxFramingOctets) : Frame :=
  ⟨raw.set 0 0 (by decide), 0⟩

def bytesTransferred (f : Frame) : ℕ := f.bytesTransferred_

def empty (f : Frame) : Bool := f.bytesTransferred_ == 0

def setSize (f : Frame) (fsize : ℕ) : Frame := { f with bytesTransferred_ := fsize }

def mutableBuffer (_f : Frame) : MutableBuffer := ⟨0, maxFramingOctets⟩

/-- The octet `framing_[0]`. -/
def flagsOctet (f : Frame) : Octet := f.framing_.get ⟨0, by decide⟩

def isLong (b : Build) (f : Frame) : Run Bool := do
  boostAssert b (pure !f.empty)
  pure (Wire.isLong f.flagsOctet)

def constBuffer (b : Build) (f : Frame) : Run ConstBuffer := do
  boostAssert b (pure !f.empty)
  let long ← f.isLong b
  pure ⟨0, if long then maxFramingOctets else minFramingOctets⟩

def valid (b : Build) (f : Frame) : Run Bool :=
  if f.empty then pure false
  else do
    let long ← f.isLong b
    if long && decide (f.bytesTransferred_ < maxFramingOctets) then pure false else pure true

def isMore (b : Build) (f : Frame) : Run Bool := do
  boostAssert b (pure !f.empty)
  pure (Wire.isMore f.flagsOctet)

def isCommand (b : Build) (f : Frame) : Run Bool := do
  boostAssert b (pure !f.empty)
  pure (Wire.isCommand f.flagsOctet)

def size (b : Build) (f : Frame) : Run SizeT := do
  boostAssert b (f.valid b)
  let long ← f.isLong b
  if long then do
    let (len, _) ← get b .uint64 f.framing_.toList ⟨1, Unsigned.uint64.sizeof⟩
    pure (sizeT len)
  else do
    let (len, _) ← get b .uint8 f.framing_.toList ⟨1, Unsigned.uint8.sizeof⟩
    pure (sizeT len)

/-- The assertion of the accessors holds of a frame that is not empty, or is not made. -/
theorem assert_not_empty {b : Build} {f : Frame} (h : b = .debug → f.empty = false) :
    boostAssert b (.ok !f.empty) = .ok () := by
  cases b with
  | debug => simp [h rfl]
  | ndebug => rfl

theorem isLong_eq {b : Build} {f : Frame} (h : b = .debug → f.empty = false) :
    f.isLong b = .ok (Wire.isLong f.flagsOctet) := by
  simp [isLong, assert_not_empty h]

theorem constBuffer_eq {b : Build} {f : Frame} (h : b = .debug → f.empty = false) :
    f.constBuffer b =
      .ok ⟨0, if Wire.isLong f.flagsOctet then maxFramingOctets else minFramingOctets⟩ := by
  simp [constBuffer, assert_not_empty h, isLong_eq h]

section Read

variable {σ : Type} [ReadStream σ Octet ErrorCode]

/-- The octets `start`, ..., `start + size - 1` of the storage, read from a stream. -/
def readInto (f : Frame) (s : σ) (buf : MutableBuffer) : Run ((ReadResult × Frame) × σ) := do
  let ((rr, octets), s) := Xasio.read s buf
  let framing ← store f.framing_ buf.start octets
  pure ((rr, { f with framing_ := framing }), s)

def readUntilLongFramed (f : Frame) (s : σ) : Run ((ReadResult × Frame) × σ) := do
  let longSize := maxFramingOctets - minFramingOctets
  let ((res, f), s) ← f.readInto s ⟨minFramingOctets, longSize⟩
  match res with
  | .value n =>
    let f := f.setSize (f.bytesTransferred_ + n)
    pure ((.value f.bytesTransferred_, f), s)
  | .error ec => pure ((.error ec, f), s)

def read (b : Build) (f : Frame) (s : σ) : Run ((ReadResult × Frame) × σ) := do
  boostAssert b (pure f.empty)
  let ((rr, f), s) ← f.readInto s ⟨0, minFramingOctets⟩
  match rr with
  | .value n =>
    let f := f.setSize n
    let long ← f.isLong b
    if long then f.readUntilLongFramed s else pure ((.value n, f), s)
  | .error ec => pure ((.error ec, f), s)

end Read

end Frame

/-- `read_limit`, whose value the constructor clamps. -/
structure ReadLimit where
  val_ : ℤ
  nonneg : 0 ≤ val_
  le_max : val_ ≤ 2 ^ 31 - 1
  deriving DecidableEq, Repr

namespace ReadLimit

def max : ℤ := 2 ^ 31 - 1

/-- The constructor from an `int32_t`. -/
def ofInt32 (b : Build) (val : ℤ) : Run ReadLimit := do
  let limit : ReadLimit :=
    ⟨if val < 0 then 0 else if max < val then max else val,
      by unfold max; split_ifs <;> omega, by unfold max; split_ifs <;> omega⟩
  boostAssert b (pure (decide (0 ≤ val)))
  pure limit

/-- The value converted to `size_t` for the comparison with an announced size. -/
def toSizeT (limit : ReadLimit) : SizeT := sizeT (limit.val_ % 2 ^ 64).toNat

theorem toSizeT_val (limit : ReadLimit) : (limit.toSizeT : ℕ) = limit.val_.toNat := by
  have h := limit.nonneg
  have h' := limit.le_max
  have hm : limit.val_ % 2 ^ 64 = limit.val_ := Int.emod_eq_of_lt h (by omega)
  rw [toSizeT, hm, sizeT_val (by omega)]

theorem toSizeT_lt_iff (limit : ReadLimit) {n : ℕ} :
    (limit.toSizeT : ℕ) < n ↔ limit.val_ < n := by
  have h := limit.nonneg
  rw [toSizeT_val]
  omega

/-- Every value that the constructor's assertion lets through is kept. -/
theorem ofInt32_of_nonneg (b : Build) {val : ℤ} (h : 0 ≤ val) (hm : val ≤ 2 ^ 31 - 1) :
    ofInt32 b val = .ok ⟨val, h, hm⟩ := by
  have h₁ : ¬ val < 0 := by omega
  have h₂ : ¬ max < val := by
    unfold max
    omega
  simp [ofInt32, h, h₁, h₂]

def check (b : Build) (limit : ReadLimit) (f : Frame) : Run (Expected Unit ErrorCode) := do
  let size ← f.size b
  if limit.toSizeT < size then pure (.error .messageSize) else pure (.value ())

end ReadLimit

/-- `sizeof(max_framing_octets)`, the size of the constant's type `size_t`. -/
def sizeofMaxFramingOctets : ℕ := 8

/-- `set_framing`, which takes an `at_least_mutable_buffer<sizeof(max_framing_octets)>`. -/
def setFraming {n : ℕ} (b : Build) (mem : Vector Octet n) (buf : MutableBuffer) (flags : Octet)
    (size : ℕ) : Run (Vector Octet n × MutableBuffer) := do
  let buf ← atLeastBuffer b sizeofMaxFramingOctets buf
  let mem ← store mem buf.start [flags]
  let bb := buf.advance 1
  if Wire.isLong flags then put b .uint64 mem bb size else put b .uint8 mem bb size

end Azmqn.Wire
