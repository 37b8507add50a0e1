import Azmqn.Library.Descent
import Azmqn.Transport.AsyncRead
import Azmqn.Transport.WriteRead

/-!
# Outstanding operations

`async_write` hands its buffers to the stream and calls the handler when they
are written. A program may start such writes, and asynchronous reads, on many
streams at once; their completions arrive in any order, and those of a read may
come between those of other operations. None of them depends on the others.
-/

namespace Azmqn.Transport

open Memory Xasio Streams Wire Relation

/-- A stream and a writable, the writes that were started and have not completed, and the
calls of the completion handler so far. -/
structure WriteIo (τ : Type) where
  stream : τ
  w : WritableMessageOrCommand
  pending : List Bufs
  calls : List WriteResult

/-- `async_write` in a release build; the assertion of a debug build calls `empty` of the
writable, which lacks its return statement. -/
def asyncWrite {τ : Type} (depth : ℕ) (s : τ) (w : WritableMessageOrCommand) :
    Run (WriteIo τ) := do
  let (bufs, w) ← w.bufferSequence .ndebug depth
  pure ⟨s, w, [bufs], []⟩

namespace WriteIo

variable {τ : Type} [WriteStream τ Octet ErrorCode]

/-- A pending write completes: its buffers are written and its handler is called. -/
def complete (io : WriteIo τ) (bufs : Bufs) : Run (WriteIo τ) := do
  let octets ← io.w.gather bufs
  let (res, s) := Xasio.write io.stream octets
  pure { io with stream := s, calls := io.calls ++ [res] }

/-- Any of the pending writes may be the next one to complete. -/
inductive Step (io io' : WriteIo τ) : Prop
  | completes (before : List Bufs) (bufs : Bufs) (after : List Bufs)
      (pending : io.pending = before ++ bufs :: after)
      (result : complete { io with pending := before ++ after } bufs = .ok io')

theorem not_step {io : WriteIo τ} (hp : io.pending = []) (io' : WriteIo τ) : ¬ Step io io' := by
  rintro ⟨before, bufs, after, hp', -⟩
  rw [hp] at hp'
  simp at hp'

theorem forcedRun {io io' : WriteIo τ} {bufs : Bufs} (hp : io.pending = [bufs])
    (hc : complete { io with pending := [] } bufs = .ok io') (hp' : io'.pending = []) :
    ForcedRun Step io io' := by
  refine .step ⟨[], bufs, [], hp, hc⟩ ?_ (.done (not_step hp'))
  rintro io'' ⟨before, bufs', after, hp'', hc'⟩
  rw [hp] at hp''
  cases before with
  | cons o before => simp at hp''
  | nil =>
    rw [List.nil_append, List.cons.injEq] at hp''
    obtain ⟨rfl, rfl⟩ := hp''
    rw [List.append_nil, hc] at hc'
    exact (Except.ok.inj hc').symm

end WriteIo

section Weight

variable {τ : Type} [WriteStream τ Octet ErrorCode]

def WriteIo.weight (io : WriteIo τ) : ℕ := io.calls.length + io.pending.length

theorem WriteIo.weight_step {io io' : WriteIo τ} (h : Step io io') : io'.weight = io.weight := by
  rcases h with ⟨before, bufs, after, hp, hc⟩
  obtain ⟨octets, -, hc⟩ := Run.bind_eq_ok hc
  rw [← Except.ok.inj hc]
  simp only [weight, hp, List.length_append, List.length_cons, List.length_nil]
  omega

end Weight

section Agree

variable {τ : Type} [WriteStream τ Octet ErrorCode]

/-- The completion after `async_write` ends in the result and the state of `write`. -/
theorem forcedRun_of_write {depth : ℕ} {s s' : τ} {w w' : WritableMessageOrCommand}
    {res : WriteResult} (h : write .ndebug depth s w = .ok ((res, w'), s')) :
    ∃ io, asyncWrite depth s w = .ok io ∧ io.weight = 1 ∧
      ForcedRun WriteIo.Step io ⟨s', w', [], [res]⟩ := by
  obtain ⟨⟨bufs, w₁⟩, hbufs, h⟩ := Run.bind_eq_ok h
  obtain ⟨octets, hgather, h⟩ := Run.bind_eq_ok h
  rcases hout : Xasio.write s octets with ⟨res₁, s₁⟩
  simp only [hout] at h
  cases h
  refine ⟨⟨s, w', [bufs], []⟩, by simp [asyncWrite, hbufs], rfl, WriteIo.forcedRun rfl ?_ rfl⟩
  simp [WriteIo.complete, hgather, hout]

/-- Writing a message returns, whether or not there is room for it. -/
theorem write_returns (depth : ℕ) (s : τ) {w : WritableMessageOrCommand} {m : MessageT}
    (hw : w.data_ = .message m) :
    ∃ res w' s', write .ndebug (depth + 1) s w = .ok ((res, w'), s') := by
  obtain ⟨w', -, hrun, -⟩ := write_eq (b := .ndebug) depth s hw (fun h => nomatch h)
  exact ⟨_, w', _, hrun⟩

end Agree

theorem asyncRead_eq {σ : Type} (b : Build) (s : σ) {r : ReadableMessageOrCommand}
    (hr : r.empty = true) (limit : ReadLimit) :
    asyncRead b s r limit = .ok ⟨s, r, [⟨⟨0, minFramingOctets⟩, .framing limit⟩], []⟩ := by
  have hf := (Bool.and_eq_true_iff.mp hr).1
  simp only [asyncRead, hr, hf, Run.pure_eq, boostAssert_ok_true, Run.ok_bind]
  rfl

/-- An outstanding read by itself. -/
theorem read_outstanding {σ : Type} [ReadStream σ Octet ErrorCode] (b : Build) (raw : ℕ → Octet)
    (s : σ) {r : ReadableMessageOrCommand} (hr : r.empty = true) (limit : ReadLimit) :
    ∃ start last : Io σ, asyncRead b s r limit = .ok start ∧ start.weight = 1 ∧
      ForcedRun (Io.Step b raw) start last ∧
      ∀ raw', ∃ res s', read b raw' s limit = .ok (res, s') ∧
        ∃ s₁ r₁, last = ⟨s₁, r₁, [], [res]⟩ ∧ ReadStream.content s₁ = ReadStream.content s' := by
  have hf := (Bool.and_eq_true_iff.mp hr).1
  obtain ⟨r', s₁, hinto, hs₁⟩ := readInto_eq_spec b raw hf s limit
  refine ⟨_, _, asyncRead_eq b s hr limit, rfl, forcedRun_of_readInto hf hinto, ?_⟩
  intro raw'
  obtain ⟨s', hread, hs'⟩ := read_eq_spec b raw' s limit
  exact ⟨_, s', hread, s₁, r', rfl, hs₁.trans hs'.symm⟩

/-- An outstanding write by itself. -/
theorem write_outstanding {τ : Type} [WriteStream τ Octet ErrorCode] (depth : ℕ) (t : τ)
    {w : WritableMessageOrCommand} (hw : ∃ m, w.data_ = .message m) :
    ∃ start last : WriteIo τ, asyncWrite (depth + 1) t w = .ok start ∧ start.weight = 1 ∧
      ForcedRun WriteIo.Step start last ∧
      ∃ res w' t', write .ndebug (depth + 1) t w = .ok ((res, w'), t') ∧
        last = ⟨t', w', [], [res]⟩ := by
  obtain ⟨m, hm⟩ := hw
  obtain ⟨res, w', t', hwrite⟩ := write_returns depth t hm
  obtain ⟨io, hio, hone, hrun⟩ := forcedRun_of_write hwrite
  exact ⟨io, _, hio, hone, hrun, res, w', t', hwrite, rfl⟩

section Outstanding

variable {ι κ : Type} {σ : ι → Type} {τ : κ → Type} [∀ i, ReadStream (σ i) Octet ErrorCode]
  [∀ k, WriteStream (τ k) Octet ErrorCode]

/-- The state of a read or of a write. -/
def Operation (σ : ι → Type) (τ : κ → Type) : ι ⊕ κ → Type
  | .inl i => Io (σ i)
  | .inr k => WriteIo (τ k)

/-- Its completions. -/
def Operation.Step (b : Build) (raw : ι → ℕ → Octet) :
    (op : ι ⊕ κ) → Operation σ τ op → Operation σ τ op → Prop
  | .inl i => Io.Step b (raw i)
  | .inr _ => WriteIo.Step

namespace Operation

/-- Calls of the handler and completions that will lead to one. -/
def weight : (op : ι ⊕ κ) → Operation σ τ op → ℕ
  | .inl _, io => Io.weight io
  | .inr _, io => WriteIo.weight io

theorem weight_step {b : Build} {raw : ι → ℕ → Octet} (op : ι ⊕ κ) {x y : Operation σ τ op}
    (h : Operation.Step b raw op x y) : weight op y = weight op x := by
  cases op with
  | inl i => exact Io.weight_step h
  | inr k => exact WriteIo.weight_step h

end Operation

/-- Reads with empty readables and, in a release build, writes of messages, outstanding on any
streams, complete in any order without getting in one another's way: every run ends, a handler is
called once and not before its operation is done, and in the end each has been called with what the
synchronous operation returns and each stream is left as that would leave it. -/
theorem outstanding [DecidableEq ι] [DecidableEq κ] [Finite ι] [Finite κ] (b : Build)
    (raw : ι → ℕ → Octet) (s : ∀ i, σ i) (r : ι → ReadableMessageOrCommand)
    (hr : ∀ i, (r i).empty = true) (limit : ι → ReadLimit) (depth : ℕ) (t : ∀ k, τ k)
    (w : κ → WritableMessageOrCommand) (hw : ∀ k, ∃ m, (w k).data_ = .message m) :
    ∃ start last : ∀ op, Operation σ τ op,
      (∀ i, asyncRead b (s i) (r i) (limit i) = .ok (start (.inl i))) ∧
      (∀ k, asyncWrite (depth + 1) (t k) (w k) = .ok (start (.inr k))) ∧
      Acc (fun now' now => Interleave (Operation.Step b raw) now now') start ∧
      (∀ now, ReflTransGen (Interleave (Operation.Step b raw)) start now →
        ReflTransGen (Interleave (Operation.Step b raw)) now last ∧
        ((∀ now', ¬ Interleave (Operation.Step b raw) now now') → now = last) ∧
        ∀ op, Operation.weight op (now op) = 1) ∧
      (∀ (raw' : Raw) (i : ι), ∃ res s', read b raw' (s i) (limit i) = .ok (res, s') ∧
        ∃ s₁ r₁, last (.inl i) = (⟨s₁, r₁, [], [res]⟩ : Io (σ i)) ∧
          ReadStream.content s₁ = ReadStream.content s') ∧
      ∀ k, ∃ res w' t', write .ndebug (depth + 1) (t k) (w k) = .ok ((res, w'), t') ∧
        last (.inr k) = (⟨t', w', [], [res]⟩ : WriteIo (τ k)) := by
  have hreads := fun i => read_outstanding b (raw i) (s i) (hr i) (limit i)
  have hwrites := fun k => write_outstanding depth (t k) (hw k)
  choose start₁ last₁ hstart₁ hone₁ hrun₁ hlast₁ using hreads
  choose start₂ last₂ hstart₂ hone₂ hrun₂ hlast₂ using hwrites
  let start : ∀ op, Operation σ τ op
    | .inl i => start₁ i
    | .inr k => start₂ k
  let last : ∀ op, Operation σ τ op
    | .inl i => last₁ i
    | .inr k => last₂ k
  have hforced : ∀ op, ForcedRun (Operation.Step b raw op) (start op) (last op)
    | .inl i => hrun₁ i
    | .inr k => hrun₂ k
  have hone : ∀ op, Operation.weight op (start op) = 1
    | .inl i => hone₁ i
    | .inr k => hone₂ k
  have hall : Inevitable (Interleave (Operation.Step b raw)) last start :=
    Interleave.inevitable (fun op => ForcedRun.diamondOn (Operation.Step b raw op) (last op))
      hforced (fun op => (hforced op).inevitable)
  refine ⟨start, last, hstart₁, hstart₂, hall.acc, ?_, fun raw' i => hlast₁ i raw', hlast₂⟩
  intro now hnow
  have h := hall.of_reflTransGen hnow
  refine ⟨h.reflTransGen, h.eq_of_final, ?_⟩
  refine Interleave.invariant (P := fun op x => Operation.weight op x = 1) ?_ hone hnow
  intro op x y hx hs
  rw [Operation.weight_step op hs]
  exact hx

/-- Two reads, one of which meets the end of its stream, and a write. -/
theorem outstanding_two_reads_one_write :
    ∃ start last : ∀ op, Operation (fun _ : Bool => ChunkSource Octet ErrorCode)
        (fun _ : Unit => PieceSink Octet ErrorCode) op,
      ReflTransGen (Interleave (Operation.Step .debug fun _ _ => 0)) start last ∧
      ∀ op, Operation.weight op (last op) = 1 := by
  obtain ⟨start, last, -, -, -, hrun, -⟩ := outstanding .debug (fun _ _ => 0)
    (fun k : Bool => (⟨bif k then [⟨[0x00, 0x01, 0x61], by simp⟩] else [], .eof⟩ :
      ChunkSource Octet ErrorCode))
    (fun _ => .init (.replicate maxFramingOctets 0xaa)) (fun _ => rfl)
    (fun _ => ⟨10, by decide, by decide⟩) 0
    (fun _ : Unit => (PieceSink.mk 2 [] .eof : PieceSink Octet ErrorCode))
    (fun _ => .ofMessage (.replicate maxFramingOctets 0xaa) ⟨⟨[0x62], by decide⟩, false⟩)
    (fun _ => ⟨_, rfl⟩)
  have hlast := (hrun start .refl).1
  exact ⟨start, last, hlast, (hrun last hlast).2.2⟩

end Outstanding

end Azmqn.Transport
