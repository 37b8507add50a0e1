import Azmqn.Wire.Frame

/-!
# Messages and commands

`traffic<T, selector>` is the base of `message_t` and `command_t`: an owned
buffer that can write its own frame header, with the MORE bit taken from a
`get_flags` that the derived class may declare. Around it stand the variant
`maybe_message_or_command` and its two users, one that pairs it with the header
to be written and one that builds it from a header that was read.
-/

namespace Azmqn.Wire

open Memory Xasio

def maxSmallSize : ℕ := 255

/-- A class `T` derived from `traffic<T, selector>`, with the `get_flags` that `T`
declares itself, if it does. -/
class Traffic (T : Type) where
  selector : Flags
  base : T → BackedBuffer
  declaredGetFlags : Option (T → Flags)

inductive Access
  | isPublic
  | isPrivate
  deriving DecidableEq, Repr

/-- The class that declares a member function, and how it does. -/
structure MemberFunction where
  inTraffic : Bool
  access : Access
  deriving DecidableEq, Repr

/-- A private member can be named in the class that declares it only. -/
def MemberFunction.accessibleInTraffic (m : MemberFunction) : Bool :=
  m.inTraffic || m.access == .isPublic

namespace Traffic

section

variable (T : Type) [Traffic T]

/-- Lookup of `get_flags` in `T`: its own declaration hides the private one of its base. -/
def lookupGetFlags : MemberFunction :=
  match declaredGetFlags (T := T) with
  | some _ => ⟨false, .isPublic⟩
  | none => ⟨true, .isPrivate⟩

/-- `has_flags`, a lambda of `traffic` that names `x.get_flags()` for an `x` of type `T`. -/
def hasFlags : Bool := (lookupGetFlags T).accessibleInTraffic

end

variable {T : Type} [Traffic T]

def size (x : T) : ℕ := (base x).size

/-- The member `get_flags` of `traffic`, for at most `depth` nested calls. -/
def getFlags : ℕ → T → Run Octet
  | 0, _ => throw .callDepth
  | depth + 1, x =>
    if hasFlags T then
      match declaredGetFlags (T := T) with
      | some f => pure (f x).toOctet
      | none => getFlags depth x
    else pure 0

def isLong (x : T) : Octet :=
  if maxSmallSize < size x then Flags.isLong.toOctet else Flags.none.toOctet

abbrev FramingResult := ℕ × MutableBuffer

/-- The member `set_framing`, with the storage behind `buf`. -/
def setFraming {n : ℕ} (b : Build) (depth : ℕ) (x : T) (mem : Vector Octet n)
    (buf : MutableBuffer) : Run (FramingResult × Vector Octet n) := do
  let buf ← atLeastBuffer b sizeofMaxFramingOctets buf
  let flags := (selector T).toOctet ||| (← getFlags depth x) ||| isLong x
  -- the source copies the checked buffer, so the callee's own check passes
  let (mem, res) ← Wire.setFraming b mem buf flags (size x)
  pure ((size x, res), mem)

end Traffic

structure CommandT where
  base : BackedBuffer
  deriving DecidableEq, Repr

instance : Traffic CommandT where
  selector := .isCommand
  base := CommandT.base
  declaredGetFlags := none

structure MessageT where
  base : BackedBuffer
  more : Bool
  deriving DecidableEq, Repr

/-- The `get_flags` that `message_t` declares. -/
def MessageT.getFlags (m : MessageT) : Flags := if m.more then .isMore else .none

instance : Traffic MessageT where
  selector := .isMessage
  base := MessageT.base
  declaredGetFlags := some MessageT.getFlags

inductive MessageOrCommand
  | message (m : MessageT)
  | command (c : CommandT)
  deriving DecidableEq, Repr

/-- The variant of `maybe_message_or_command`. -/
inductive MaybeMessageOrCommand
  | none
  | command (c : CommandT)
  | message (m : MessageT)
  deriving DecidableEq, Repr

namespace MaybeMessageOrCommand

def empty : MaybeMessageOrCommand → Bool
  | none => true
  | command _ => false
  | message _ => false

/-- The octets behind `const_buffer()` and `mutable_buffer()`. -/
def octets : MaybeMessageOrCommand → List Octet
  | none => []
  | command c => c.base.v_
  | message m => m.base.v_

def buffer : MaybeMessageOrCommand → Region
  | none => ⟨0, 0⟩
  | command c => c.base.buffer
  | message m => m.base.buffer

/-- Octets written through the `mutable_buffer()`. -/
def fill (xs : List Octet) : MaybeMessageOrCommand → Run MaybeMessageOrCommand
  | none => if xs = [] then pure none else throw .outOfBounds
  | command c => do
    let base ← c.base.fill xs
    pure (command ⟨base⟩)
  | message m => do
    let base ← m.base.fill xs
    pure (message ⟨base, m.more⟩)

def setFraming {n : ℕ} (b : Build) (depth : ℕ) (mem : Vector Octet n) (buf : MutableBuffer) :
    MaybeMessageOrCommand → Run (Traffic.FramingResult × Vector Octet n)
  | none => pure ((0, ⟨0, 0⟩), mem)
  | command c => Traffic.setFraming b depth c mem buf
  | message m => Traffic.setFraming b depth m mem buf

def detach (b : Build) (val : MaybeMessageOrCommand) : Run MessageOrCommand := do
  boostAssert b (pure !val.empty)
  match val with
  | none => throw .logicError
  | command c => pure (.command c)
  | message m => pure (.message m)

/-- `from_frame`; `raw` is what the allocated octets hold before anyone writes them. -/
def fromFrame (b : Build) (raw : ℕ → Octet) (f : Frame) : Run MaybeMessageOrCommand := do
  boostAssert b (f.valid b)
  if ← f.isCommand b then do
    let size ← f.size b
    pure (command ⟨.ofCapacity raw size⟩)
  else do
    let size ← f.size b
    let more ← f.isMore b
    pure (message ⟨.ofCapacity raw size, more⟩)

end MaybeMessageOrCommand

/-- `bufs_t`: a buffer over the frame's storage and one over the payload. -/
structure Bufs where
  framing : ConstBuffer
  data : ConstBuffer
  deriving DecidableEq, Repr

structure WritableMessageOrCommand where
  f_ : Frame
  data_ : MaybeMessageOrCommand
  deriving DecidableEq, Repr

namespace WritableMessageOrCommand

def ofCommand (raw : Vector Octet maxFramingOctets) (c : CommandT) : WritableMessageOrCommand :=
  ⟨.init raw, .command c⟩

def ofMessage (raw : Vector Octet maxFramingOctets) (m : MessageT) : WritableMessageOrCommand :=
  ⟨.init raw, .message m⟩

/-- `buffer_sequence`, which writes to the mutable member `f_`. -/
def bufferSequence (b : Build) (depth : ℕ) (w : WritableMessageOrCommand) :
    Run (Bufs × WritableMessageOrCommand) := do
  let ((size, _), framing) ← w.data_.setFraming b depth w.f_.framing_ w.f_.mutableBuffer
  let f := { w.f_ with framing_ := framing }
  let f := f.setSize size
  let framing ← f.constBuffer b
  pure (⟨framing, w.data_.buffer⟩, ⟨f, w.data_⟩)

/-- The octets that a stream finds behind the two buffers. -/
def gather (w : WritableMessageOrCommand) (bufs : Bufs) : Run (List Octet) := do
  let framing ← load w.f_.framing_.toList bufs.framing.start bufs.framing.size
  let data ← load w.data_.octets bufs.data.start bufs.data.size
  pure (framing ++ data)

end WritableMessageOrCommand

structure ReadableMessageOrCommand where
  f_ : Frame
  data_ : MaybeMessageOrCommand
  deriving DecidableEq, Repr

namespace ReadableMessageOrCommand

def init (raw : Vector Octet maxFramingOctets) : ReadableMessageOrCommand := ⟨.init raw, .none⟩

def empty (r : ReadableMessageOrCommand) : Bool := r.f_.empty && r.data_.empty

/-- `mutable_buffer`, which allocates the body that the frame announces. -/
def mutableBuffer (b : Build) (raw : ℕ → Octet) (r : ReadableMessageOrCommand) :
    Run (MutableBuffer × ReadableMessageOrCommand) := do
  boostAssert b (r.f_.valid b)
  let data ← MaybeMessageOrCommand.fromFrame b raw r.f_
  pure (data.buffer, { r with data_ := data })

def fill (xs : List Octet) (r : ReadableMessageOrCommand) : Run ReadableMessageOrCommand := do
  let data ← r.data_.fill xs
  pure { r with data_ := data }

def detach (b : Build) (r : ReadableMessageOrCommand) : Run MessageOrCommand := r.data_.detach b

end ReadableMessageOrCommand

end Azmqn.Wire
