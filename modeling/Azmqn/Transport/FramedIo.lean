import Azmqn.Wire.Traffic

/-!
# Framed reads and writes

`read` fetches one frame from a stream, `write` sends one, and `async_read`
fetches one through completion handlers. Each lambda of the asynchronous reader
is a definition of its own; what it has posted and how often it has called the
caller's handler is part of the state that the completions transform.

An asynchronous read or write of the streams is assumed to complete once, with
what the synchronous one gives, as a `read_result_type` or `write_result_type`.
In the source `frame::async_read` hands its lambda, which takes one argument,
straight to `asio::async_read`, and `xasio::async_read` and `async_write` call
their handlers with an `expected` of another error type.
-/

namespace Azmqn.Transport

open Memory Xasio Streams Wire

abbrev MessageOrCommandResult := Expected MessageOrCommand ErrorCode

/-- What storage holds before anyone writes to it: a frame's and a body's. -/
structure Raw where
  framing : Vector Octet maxFramingOctets
  body : ℕ → Octet

section Read

variable {σ : Type} [ReadStream σ Octet ErrorCode]

/-- The body of `read`, for a readable `r`, with what becomes of it. -/
def readInto (b : Build) (raw : ℕ → Octet) (r : ReadableMessageOrCommand) (s : σ)
    (rlimit : ReadLimit) : Run ((MessageOrCommandResult × ReadableMessageOrCommand) × σ) := do
  let ((rr, f), s) ← r.f_.read b s
  let r := { r with f_ := f }
  match rr with
  | .error ec => pure ((.error ec, r), s)
  | .value _ => do
    match ← rlimit.check b r.f_ with
    | .error ec => pure ((.error ec, r), s)
    | .value () => do
      let (buf, r) ← r.mutableBuffer b raw
      let ((rr, octets), s) := Xasio.read s buf
      let r ← r.fill octets
      match rr with
      | .error ec => pure ((.error ec, r), s)
      | .value _ => do
        let m ← r.detach b
        pure ((.value m, r), s)

def read (b : Build) (raw : Raw) (s : σ) (rlimit : ReadLimit) :
    Run (MessageOrCommandResult × σ) := do
  let ((res, _), s) ← readInto b raw.body (.init raw.framing) s rlimit
  pure (res, s)

end Read

/-- `write`, which also leaves its mark on the frame of the writable. -/
def write {τ : Type} [WriteStream τ Octet ErrorCode] (b : Build) (depth : ℕ) (s : τ)
    (w : WritableMessageOrCommand) : Run ((WriteResult × WritableMessageOrCommand) × τ) := do
  let (bufs, w) ← w.bufferSequence b depth
  let octets ← w.gather bufs
  let (res, s) := Xasio.write s octets
  pure ((res, w), s)

/-- The lambda that runs when an asynchronous read completes, with what it captured. -/
inductive Handler
  /-- the one of `frame::async_read`, around the first one of `transport::async_read` -/
  | framing (rlimit : ReadLimit)
  /-- the inner one of `transport::async_read` -/
  | body
  deriving DecidableEq, Repr

structure AsyncOp where
  buffers : MutableBuffer
  handler : Handler
  deriving DecidableEq, Repr

/-- A stream and a readable, the reads that were started on them and have not
completed, and the calls of the completion handler so far. -/
structure Io (σ : Type) where
  stream : σ
  r : ReadableMessageOrCommand
  pending : List AsyncOp
  calls : List MessageOrCommandResult

namespace Io

variable {σ : Type}

def post (io : Io σ) (op : AsyncOp) : Io σ := { io with pending := io.pending ++ [op] }

def call (io : Io σ) (res : MessageOrCommandResult) : Io σ := { io with calls := io.calls ++ [res] }

def onBody (b : Build) (io : Io σ) (rr : ReadResult) : Run (Io σ) :=
  match rr with
  | .value _ => do
    let m ← io.r.detach b
    pure (io.call (.value m))
  | .error ec => pure (io.call (.error ec))

def onFraming (b : Build) (raw : ℕ → Octet) (rlimit : ReadLimit) (io : Io σ) (rr : ReadResult) :
    Run (Io σ) :=
  match rr with
  | .value _ => do
    match ← rlimit.check b io.r.f_ with
    | .error ec => pure (io.call (.error ec))
    | .value () => do
      let (buf, r) ← io.r.mutableBuffer b raw
      pure (post { io with r := r } ⟨buf, .body⟩)
  | .error ec => pure (io.call (.error ec))

variable [ReadStream σ Octet ErrorCode]

/-- The rest of a long header is read synchronously. -/
def onFramingOctets (b : Build) (raw : ℕ → Octet) (rlimit : ReadLimit) (io : Io σ)
    (rr : ReadResult) : Run (Io σ) :=
  match rr with
  | .value n => do
    let f := io.r.f_.setSize n
    let long ← f.isLong b
    if long then do
      let ((rr, f), s) ← f.readUntilLongFramed io.stream
      onFraming b raw rlimit { io with stream := s, r := { io.r with f_ := f } } rr
    else onFraming b raw rlimit { io with r := { io.r with f_ := f } } (.value n)
  | .error ec => onFraming b raw rlimit io (.error ec)

/-- A pending read completes: its buffer is filled and its handler runs. -/
def complete (b : Build) (raw : ℕ → Octet) (io : Io σ) (op : AsyncOp) : Run (Io σ) :=
  match op.handler with
  | .framing rlimit => do
    let ((rr, f), s) ← io.r.f_.readInto io.stream op.buffers
    onFramingOctets b raw rlimit { io with stream := s, r := { io.r with f_ := f } } rr
  | .body => do
    let ((rr, octets), s) := Xasio.read io.stream op.buffers
    let r ← io.r.fill octets
    onBody b { io with stream := s, r := r } rr

/-- Any of the pending reads may be the next one to complete. -/
inductive Step (b : Build) (raw : ℕ → Octet) (io io' : Io σ) : Prop
  | completes (before : List AsyncOp) (op : AsyncOp) (after : List AsyncOp)
      (pending : io.pending = before ++ op :: after)
      (result : complete b raw { io with pending := before ++ after } op = .ok io')

end Io

/-- `async_read`, with the assertion and the read of `frame::async_read`. -/
def asyncRead {σ : Type} (b : Build) (s : σ) (r : ReadableMessageOrCommand)
    (rlimit : ReadLimit) : Run (Io σ) := do
  boostAssert b (pure r.empty)
  boostAssert b (pure r.f_.empty)
  pure (Io.post ⟨s, r, [], []⟩ ⟨⟨0, minFramingOctets⟩, .framing rlimit⟩)

end Azmqn.Transport
