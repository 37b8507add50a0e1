import Azmqn.Wire.Endian

/-!
# Metadata

A metadata object keeps a buffer of properties and a vector of views into it,
which the constructor finds by a loop over the buffer. `from_buffer` turns the
exception of that loop into an error code. `from_props` computes the size of the
buffer in one pass and fills it through a moving cursor in another.
-/

namespace Azmqn.Transport

open Memory Xasio Wire

/-- A `prop_t` given to `from_props`, with the octets that its two members view. -/
structure PropT where
  name : List Octet
  value : List Octet
  deriving DecidableEq, Repr

/-- `prop`: where name and value lie in the buffer that the metadata keeps. -/
structure PropView where
  name : ConstBuffer
  value : ConstBuffer
  deriving DecidableEq, Repr

/-- A `T` that tells a length, and that many octets behind it; without them the field
is missing. The buffer returned begins behind what was found. -/
def getField (b : Build) (T : Unsigned) (mem : List Octet) (buf : ConstBuffer) :
    Run (Option ConstBuffer × ConstBuffer) := do
  let (len, buf) ← get b T mem buf
  if buf.size < len then pure (none, buf)
  else pure (some ⟨buf.start, len⟩, buf.advance len)

namespace PropView

def getName (b : Build) (mem : List Octet) (buf : ConstBuffer) (ec : Option ErrorCode) :
    Run ((ConstBuffer × ConstBuffer) × Option ErrorCode) := do
  match ← getField b .uint8 mem buf with
  | (none, buf) => pure ((⟨0, 0⟩, buf), some .messageSize)
  | (some name, buf) => pure ((name, buf), ec)

def getValue (b : Build) (mem : List Octet) (buf : ConstBuffer) (ec : Option ErrorCode) :
    Run ((ConstBuffer × ConstBuffer) × Option ErrorCode) := do
  match ← getField b .uint32 mem buf with
  | (none, _) => pure ((⟨0, 0⟩, ⟨0, 0⟩), some .messageSize)
  | (some value, buf) => pure ((value, buf), ec)

def fromBuffer (b : Build) (mem : List Octet) (buf : ConstBuffer) (ec : Option ErrorCode) :
    Run ((PropView × ConstBuffer) × Option ErrorCode) := do
  let ((name, buf), ec) ← getName b mem buf ec
  if ec.isSome then pure ((⟨⟨0, 0⟩, ⟨0, 0⟩⟩, buf), ec)
  else do
    let ((value, buf), ec) ← getValue b mem buf ec
    if ec.isSome then pure ((⟨⟨0, 0⟩, ⟨0, 0⟩⟩, buf), ec)
    else pure ((⟨name, value⟩, buf), ec)

end PropView

/-- `props_vec_t::from_buffer`, for at most `iters` iterations of its loop; the hint
only reserves capacity. -/
def PropsVec.fromBuffer (b : Build) (mem : List Octet) :
    ℕ → ConstBuffer → List PropView → Run (List PropView)
  | iters, buf, res =>
    if buf.size = 0 then pure res
    else match iters with
      | 0 => throw .iterations
      | iters + 1 => do
        let ((p, buf), ec) ← PropView.fromBuffer b mem buf none
        match ec with
        | some ec => throw (.systemError ec)
        | none => fromBuffer b mem iters buf (res ++ [p])

structure Impl where
  buf_ : BackedBuffer
  props_ : List PropView
  deriving DecidableEq, Repr

structure Metadata where
  pimpl_ : Option Impl
  deriving DecidableEq, Repr

namespace Metadata

def empty : Metadata := ⟨none⟩

/-- The private constructor. -/
def ofBuffer (b : Build) (iters : ℕ) (buf : BackedBuffer) : Run Metadata := do
  let props ← PropsVec.fromBuffer b buf.v_ iters buf.buffer []
  pure ⟨some ⟨buf, props⟩⟩

/-- The storage that `to_buffer` and the views refer to. -/
def storage (m : Metadata) : List Octet :=
  match m.pimpl_ with
  | none => []
  | some pimpl => pimpl.buf_.v_

def toBuffer (m : Metadata) : ConstBuffer :=
  match m.pimpl_ with
  | none => ⟨0, 0⟩
  | some pimpl => pimpl.buf_.buffer

/-- `find_if` for the views of a storage. -/
def find (mem : List Octet) (name : List Octet) : List PropView → Run (Option ConstBuffer)
  | [] => pure none
  | x :: props => do
    let octets ← load mem x.name.start x.name.size
    if name = octets then pure (some x.value) else find mem name props

/-- `operator[]`. -/
def index (m : Metadata) (name : List Octet) : Run (Option ConstBuffer) :=
  match m.pimpl_ with
  | some pimpl => find pimpl.buf_.v_ name pimpl.props_
  | none => pure none

/-- The octets that `to_buffer` refers to. -/
def octets (m : Metadata) : Run (List Octet) := load m.storage m.toBuffer.start m.toBuffer.size

/-- The octets that `operator[]` refers to. -/
def value (m : Metadata) (name : List Octet) : Run (Option (List Octet)) := do
  match ← m.index name with
  | none => pure none
  | some buf => do
    let octets ← load m.storage buf.start buf.size
    pure (some octets)

/-- `from_buffer`, which catches `system_error` and nothing else. -/
def fromBuffer (b : Build) (iters : ℕ) (buf : BackedBuffer) (ec : Option ErrorCode) :
    Run (Metadata × Option ErrorCode) :=
  match ofBuffer b iters buf with
  | .ok m => pure (m, ec)
  | .error (.systemError e) => pure (empty, some e)
  | .error failure => throw failure

/-- The size that `from_props` accumulates, in `size_t`. -/
def propsSize (props : List PropT) : SizeT :=
  props.foldl (fun r v =>
    r + sizeT Unsigned.uint8.sizeof + sizeT v.name.length + sizeT Unsigned.uint32.sizeof +
      sizeT v.value.length) (sizeT 0)

/-- `boost::asio::buffer_copy`, which copies as much as fits. -/
def bufferCopy {n : ℕ} (mem : Vector Octet n) (buf : MutableBuffer) (src : List Octet) :
    Run (Vector Octet n) :=
  store mem buf.start (src.take buf.size)

/-- The second pass of `from_props`. The width of the name's length is deduced from
`name.size()`, a `size_t`, and the cursor stays where the last `put` left it. -/
def putProps (b : Build) {n : ℕ} : Vector Octet n → MutableBuffer → List PropT →
    Run (Vector Octet n)
  | mem, _, [] => pure mem
  | mem, buf, v :: props => do
    let (mem, buf) ← put b .uint64 mem buf v.name.length
    let mem ← bufferCopy mem buf v.name
    let (mem, buf) ← put b .uint32 mem buf v.value.length
    let mem ← bufferCopy mem buf v.value
    putProps b mem buf props

/-- `from_props`; `raw` is what the allocated octets hold before anyone writes them. -/
def fromProps (b : Build) (iters : ℕ) (raw : ℕ → Octet) (props : List PropT) : Run Metadata := do
  let buf := BackedBuffer.ofCapacity raw (propsSize props)
  let mem ← putProps b ⟨buf.v_.toArray, rfl⟩ buf.buffer props
  ofBuffer b iters ⟨mem.toList, by simpa using buf.size_lt⟩

end Metadata

end Azmqn.Transport
