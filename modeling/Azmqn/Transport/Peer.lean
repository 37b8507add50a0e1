import Azmqn.Library.Network
import Azmqn.Transport.WriteRead

/-!
# Programs that write and read over their connections

A peer calls `write` and `read` one after another on streams that lead to other
peers. A write hands its octets over one by one and waits while the connection
is full; a read waits until the octets that have arrived decide its result, and
meets the end of the stream when the other side is through with its program.
-/

namespace Azmqn.Transport

open Memory Xasio Streams Wire Network

/-- `asio::error::would_block`. -/
def wouldBlock : ErrorCode := .system 11

/-- One call of a program. -/
inductive Action (ι : Type)
  | write (dest : ι) (m : MessageT)
  | read (source : ι) (rlimit : ReadLimit)
  deriving DecidableEq, Repr

/-- How a call ended. -/
inductive Outcome (ι : Type)
  | wrote (dest : ι) (m : MessageT) (res : WriteResult)
  | read (source : ι) (res : MessageOrCommandResult)
  | failed (failure : Failure)
  deriving DecidableEq, Repr

/-- The call that a peer is in: what is handed over and what is not, or what has arrived. -/
inductive Activity (ι : Type)
  | idle
  | writing (dest : ι) (m : MessageT) (before after : List Octet) (res : WriteResult)
  | reading (source : ι) (rlimit : ReadLimit) (got : List Octet)
  deriving DecidableEq, Repr

structure Peer (ι : Type) where
  todo : List (Action ι)
  activity : Activity ι
  log : List (Outcome ι)
  deriving DecidableEq, Repr

namespace Peer

variable {ι : Type}

/-- A call ends and its result is noted. -/
def finish (p : Peer ι) (out : Outcome ι) : Peer ι := ⟨p.todo, .idle, p.log ++ [out]⟩

/-- A failed assertion ends the program. -/
def fail (p : Peer ι) (failure : Failure) : Peer ι := ⟨[], .idle, p.log ++ [.failed failure]⟩

/-- The result of a read on what has arrived so far. -/
def attempt (b : Build) (raw : Raw) (got : List Octet) (error : ErrorCode) (rlimit : ReadLimit) :
    Run MessageOrCommandResult := do
  let (res, _) ← read b raw (arrived got error) rlimit
  pure res

def startWrite (b : Build) (depth : ℕ) (raw : Raw) (p : Peer ι) (dest : ι) (m : MessageT) :
    Peer ι :=
  match write b depth (PieceSink.mk 0 [] .eof : PieceSink Octet ErrorCode)
      (.ofMessage raw.framing m) with
  | .ok ((res, _), s) => { p with activity := .writing dest m [] s.taken res }
  | .error failure => p.fail failure

/-- The next octet, or the end of the stream, for a peer that waits in a read. -/
def arrive (b : Build) (raw : Raw) (p : Peer ι) (source : ι) (rlimit : ReadLimit)
    (got : List Octet) : Option Octet → Peer ι
  | some x => { p with activity := .reading source rlimit (got ++ [x]) }
  | none =>
    match attempt b raw got .eof rlimit with
    | .ok res => p.finish (.read source res)
    | .error failure => p.fail failure

def next (b : Build) (depth : ℕ) (raw : Raw) (p : Peer ι) : Move ι Octet (Peer ι) :=
  match p.activity with
  | .idle =>
    match p.todo with
    | [] => .halt
    | .write dest m :: todo => .silent (startWrite b depth raw { p with todo := todo } dest m)
    | .read source rlimit :: todo =>
      .silent { p with todo := todo, activity := .reading source rlimit [] }
  | .writing dest m _ [] res => .silent (p.finish (.wrote dest m res))
  | .writing dest m before (x :: after) res =>
    .send dest x { p with activity := .writing dest m (before ++ [x]) after res }
  | .reading source rlimit got =>
    match attempt b raw got wouldBlock rlimit with
    | .ok res =>
      if res = .error wouldBlock then .receive source (arrive b raw p source rlimit got)
      else .silent (p.finish (.read source res))
    | .error failure => .silent (p.fail failure)

theorem attempt_eq (b : Build) (raw : Raw) (got : List Octet) (error : ErrorCode)
    (rlimit : ReadLimit) :
    attempt b raw got error rlimit = .ok (readSpec rlimit.toSizeT error got).1 := by
  obtain ⟨s', h, -⟩ := read_eq_spec b raw (arrived got error) rlimit
  rw [content_arrived, failure_arrived] at h
  simp [attempt, h]

end Peer

section Write

variable {τ : Type} [WriteStream τ Octet ErrorCode]

open WriteStream

/-- The assertion of `const_buffer` is the only thing that keeps a message from being sent. -/
theorem write_any (b : Build) (depth : ℕ) (s : τ) {w : WritableMessageOrCommand} {m : MessageT}
    (hw : w.data_ = .message m) (hr : (m.frame.octets.length : ℕ∞) ≤ room s) :
    (b = .debug ∧ m.base.size = 0 ∧ write b (depth + 1) s w = .error .assertion) ∨
    ∃ w' s', write b (depth + 1) s w = .ok ((.value m.frame.octets.length, w'), s') ∧
      sent s' = sent s ++ m.frame.octets := by
  by_cases h0 : b = .debug ∧ m.base.size = 0
  · obtain ⟨rfl, hm⟩ := h0
    refine Or.inl ⟨rfl, hm, ?_⟩
    simp [write, WritableMessageOrCommand.bufferSequence_empty depth hw hm]
  · obtain ⟨w', -, hrun, -⟩ := write_eq depth s hw (fun hb hm => h0 ⟨hb, hm⟩)
    obtain ⟨hres, hsent, -⟩ := Xasio.write_enough s hr
    rw [hres] at hrun
    exact Or.inr ⟨w', _, hrun, hsent⟩

end Write

/-- What a peer can do, in terms of frames and of what octets mean. -/
inductive Peer.Does {ι : Type} (b : Build) : Peer ι → Move ι Octet (Peer ι) → Prop
  | halts {log : List (Outcome ι)} : Does b ⟨[], .idle, log⟩ .halt
  | startsWrite {dest : ι} {m : MessageT} {todo : List (Action ι)} {log : List (Outcome ι)} :
      Does b ⟨.write dest m :: todo, .idle, log⟩ (.silent
        ⟨todo, .writing dest m [] m.frame.octets (.value m.frame.octets.length), log⟩)
  | failsWrite {dest : ι} {m : MessageT} {todo : List (Action ι)} {log : List (Outcome ι)}
      (debug : b = .debug) (empty : m.base.size = 0) :
      Does b ⟨.write dest m :: todo, .idle, log⟩
        (.silent ⟨[], .idle, log ++ [.failed .assertion]⟩)
  | sends {dest : ι} {m : MessageT} {x : Octet} {before after : List Octet} {res : WriteResult}
      {todo : List (Action ι)} {log : List (Outcome ι)} :
      Does b ⟨todo, .writing dest m before (x :: after) res, log⟩
        (.send dest x ⟨todo, .writing dest m (before ++ [x]) after res, log⟩)
  | finishesWrite {dest : ι} {m : MessageT} {before : List Octet} {res : WriteResult}
      {todo : List (Action ι)} {log : List (Outcome ι)} :
      Does b ⟨todo, .writing dest m before [] res, log⟩
        (.silent ⟨todo, .idle, log ++ [.wrote dest m res]⟩)
  | startsRead {source : ι} {rlimit : ReadLimit} {todo : List (Action ι)}
      {log : List (Outcome ι)} :
      Does b ⟨.read source rlimit :: todo, .idle, log⟩
        (.silent ⟨todo, .reading source rlimit [], log⟩)
  | finishesRead {source : ι} {rlimit : ReadLimit} {got : List Octet} {todo : List (Action ι)}
      {log : List (Outcome ι)}
      (decided : (readSpec rlimit.toSizeT wouldBlock got).1 ≠ .error wouldBlock) :
      Does b ⟨todo, .reading source rlimit got, log⟩
        (.silent ⟨todo, .idle, log ++ [.read source (readSpec rlimit.toSizeT wouldBlock got).1]⟩)
  | waits {source : ι} {rlimit : ReadLimit} {got : List Octet} {todo : List (Action ι)}
      {log : List (Outcome ι)} {arrives : Option Octet → Peer ι}
      (undecided : (readSpec rlimit.toSizeT wouldBlock got).1 = .error wouldBlock)
      (octet : ∀ x, arrives (some x) = ⟨todo, .reading source rlimit (got ++ [x]), log⟩)
      (eof : arrives none =
        ⟨todo, .idle, log ++ [.read source (readSpec rlimit.toSizeT .eof got).1]⟩) :
      Does b ⟨todo, .reading source rlimit got, log⟩ (.receive source arrives)

theorem Peer.next_does {ι : Type} (b : Build) (depth : ℕ) (raw : Raw) (p : Peer ι) :
    p.Does b (p.next b (depth + 1) raw) := by
  rcases p with ⟨todo, activity, log⟩
  cases activity with
  | idle =>
    cases todo with
    | nil => exact .halts
    | cons a todo =>
      cases a with
      | write dest m =>
        rcases write_any b depth (PieceSink.mk 0 [] .eof : PieceSink Octet ErrorCode)
          (w := .ofMessage raw.framing m) rfl le_top with ⟨hb, hm, h⟩ | ⟨w', s', h, hs⟩
        · simp only [next, startWrite, h, fail]
          exact .failsWrite hb hm
        · change s'.taken = [] ++ m.frame.octets at hs
          simp only [next, startWrite, h, hs]
          exact .startsWrite
      | read source rlimit => exact .startsRead
  | writing dest m before after res =>
    cases after with
    | nil => exact .finishesWrite
    | cons x after => exact .sends
  | reading source rlimit got =>
    simp only [next, attempt_eq]
    split_ifs with h
    · refine .waits h (fun x => rfl) ?_
      simp only [arrive, attempt_eq]
      rfl
    · exact .finishesRead h

/-- One peer writes a message of one octet, and the other reads until the end of the stream. -/
def oneMessage (k : Bool) : List (Action Bool) :=
  bif k then [.read false ⟨10, by decide, by decide⟩, .read false ⟨10, by decide, by decide⟩]
  else [.write true ⟨⟨[0x61], by decide⟩, false⟩]

end Azmqn.Transport
