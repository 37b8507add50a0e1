import Azmqn.Library.ForcedRun
import Azmqn.Transport.ReadExact

/-!
# The asynchronous reader agrees with the synchronous one

Whatever a completion does, it either calls the handler or starts one more read,
so calls and pending reads always add up to one. From an empty readable the
completions are forced, and they end where the synchronous reader does: with its
result as the only call and its stream.
-/

namespace Azmqn.Transport

open Memory Xasio Streams Wire ReadStream Relation

namespace Io

variable {σ : Type} {b : Build} {raw : ℕ → Octet} {io io' : Io σ}

/-- Calls of the handler and reads that will lead to one. -/
def weight (io : Io σ) : ℕ := io.calls.length + io.pending.length

@[simp] theorem weight_call (io : Io σ) (res : MessageOrCommandResult) :
    (io.call res).weight = io.weight + 1 := by
  simp only [weight, call, List.length_append, List.length_singleton]
  omega

@[simp] theorem weight_post (io : Io σ) (op : AsyncOp) :
    (io.post op).weight = io.weight + 1 := by
  simp only [weight, post, List.length_append, List.length_singleton]
  omega

theorem weight_onBody {rr : ReadResult} (h : onBody b io rr = .ok io') :
    io'.weight = io.weight + 1 := by
  cases rr with
  | value n =>
    obtain ⟨m, -, h⟩ := Run.bind_eq_ok h
    rw [← Except.ok.inj h, weight_call]
  | error ec => rw [← Except.ok.inj h, weight_call]

theorem weight_onFraming {limit : ReadLimit} {rr : ReadResult}
    (h : onFraming b raw limit io rr = .ok io') : io'.weight = io.weight + 1 := by
  cases rr with
  | error ec => rw [← Except.ok.inj h, weight_call]
  | value n =>
    obtain ⟨check, -, h⟩ := Run.bind_eq_ok h
    cases check with
    | error ec => rw [← Except.ok.inj h, weight_call]
    | value _ =>
      obtain ⟨⟨buf, r⟩, -, h⟩ := Run.bind_eq_ok h
      rw [← Except.ok.inj h, weight_post]
      rfl

variable [ReadStream σ Octet ErrorCode]

theorem weight_onFramingOctets {limit : ReadLimit} {rr : ReadResult}
    (h : onFramingOctets b raw limit io rr = .ok io') : io'.weight = io.weight + 1 := by
  cases rr with
  | error ec =>
    change onFraming b raw limit io (.error ec) = .ok io' at h
    exact weight_onFraming h
  | value n =>
    obtain ⟨long, -, h⟩ := Run.bind_eq_ok h
    cases long with
    | false =>
      simp only [Bool.false_eq_true, if_false] at h
      have hw := weight_onFraming h
      exact hw
    | true =>
      obtain ⟨⟨⟨rr, f⟩, s⟩, -, h⟩ := Run.bind_eq_ok h
      have hw := weight_onFraming h
      exact hw

/-- A completion calls the handler or posts a read, and never both or twice. -/
theorem weight_complete {op : AsyncOp} (h : complete b raw io op = .ok io') :
    io'.weight = io.weight + 1 := by
  unfold complete at h
  cases hop : op.handler with
  | framing limit =>
    rw [hop] at h
    obtain ⟨⟨⟨rr, f⟩, s⟩, -, h⟩ := Run.bind_eq_ok h
    have hw := weight_onFramingOctets h
    exact hw
  | body =>
    rw [hop] at h
    obtain ⟨r, -, h⟩ := Run.bind_eq_ok h
    have hw := weight_onBody h
    exact hw

theorem weight_step (h : Step b raw io io') : io'.weight = io.weight := by
  rcases h with ⟨before, op, after, hp, hc⟩
  rw [weight_complete hc]
  simp only [weight, hp, List.length_append, List.length_cons]
  omega

theorem weight_run (h : ReflTransGen (Step b raw) io io') : io'.weight = io.weight := by
  induction h with
  | refl => rfl
  | tail _ hs ih => rw [weight_step hs, ih]

theorem step_iff {op : AsyncOp} (hp : io.pending = [op]) :
    Step b raw io io' ↔ complete b raw { io with pending := [] } op = .ok io' := by
  constructor
  · rintro ⟨before, op', after, hp', hc⟩
    rw [hp] at hp'
    obtain ⟨rfl, rfl, rfl⟩ : before = [] ∧ op' = op ∧ after = [] := by
      cases before with
      | nil =>
        rw [List.nil_append, List.cons.injEq] at hp'
        exact ⟨rfl, hp'.1.symm, hp'.2.symm⟩
      | cons o before => simp at hp'
    exact hc
  · intro hc
    exact ⟨[], op, [], hp, hc⟩

theorem not_step (hp : io.pending = []) (io' : Io σ) : ¬ Step b raw io io' := by
  rintro ⟨before, op, after, hp', -⟩
  rw [hp] at hp'
  simp at hp'

theorem forced_step {op : AsyncOp} {last : Io σ} (hp : io.pending = [op])
    (hc : complete b raw { io with pending := [] } op = .ok io')
    (h : ForcedRun (Step b raw) io' last) : ForcedRun (Step b raw) io last := by
  refine .step ((step_iff hp).mpr hc) ?_ h
  intro io'' hs
  rw [step_iff hp, hc] at hs
  exact (Except.ok.inj hs).symm

/-- The first completion reads the header as `frame::read` does. -/
theorem complete_framing (limit : ReadLimit) (io : Io σ) (hf : io.r.f_.empty = true) :
    complete b raw io ⟨⟨0, minFramingOctets⟩, .framing limit⟩ = (do
      let ((rr, f), s) ← io.r.f_.read b io.stream
      onFraming b raw limit { io with stream := s, r := { io.r with f_ := f } } rr) := by
  unfold complete Frame.read
  simp only [hf, Run.pure_eq, boostAssert_ok_true, Run.ok_bind]
  cases io.r.f_.readInto io.stream ⟨0, minFramingOctets⟩ with
  | error e => rfl
  | ok out =>
    rcases out with ⟨⟨rr, f⟩, s⟩
    cases rr with
    | error ec => rfl
    | value n =>
      simp only [Run.ok_bind, onFramingOctets]
      cases (f.setSize n).isLong b with
      | error e => rfl
      | ok long =>
        cases long with
        | false => rfl
        | true => rfl

end Io

section Agree

variable {σ : Type} [ReadStream σ Octet ErrorCode] {s s' : σ} {r r' : ReadableMessageOrCommand}
  {limit : ReadLimit} {b : Build} {raw : ℕ → Octet} {res : MessageOrCommandResult}

/-- The completions after `async_read` end in the result and the state of `readInto`. -/
theorem forcedRun_of_readInto (hr : r.f_.empty = true)
    (h : readInto b raw r s limit = .ok ((res, r'), s')) :
    ForcedRun (Io.Step b raw) ⟨s, r, [⟨⟨0, minFramingOctets⟩, .framing limit⟩], []⟩
      ⟨s', r', [], [res]⟩ := by
  have hlast : ForcedRun (Io.Step b raw) (⟨s', r', [], [res]⟩ : Io σ) ⟨s', r', [], [res]⟩ :=
    .done (Io.not_step rfl)
  have hfirst : Io.complete b raw ⟨s, r, [], []⟩ ⟨⟨0, minFramingOctets⟩, .framing limit⟩ = _ :=
    Io.complete_framing limit _ hr
  obtain ⟨⟨⟨rr, f⟩, s₁⟩, hread, h⟩ := Run.bind_eq_ok h
  rw [hread, Run.ok_bind] at hfirst
  cases rr with
  | error ec =>
    cases h
    exact Io.forced_step rfl hfirst hlast
  | value n =>
    obtain ⟨check, hcheck, h⟩ := Run.bind_eq_ok h
    simp only [Io.onFraming, hcheck, Run.ok_bind] at hfirst
    cases check with
    | error ec =>
      cases h
      exact Io.forced_step rfl hfirst hlast
    | value _ =>
      obtain ⟨⟨buf, r₁⟩, hbuf, h⟩ := Run.bind_eq_ok h
      simp only [hbuf, Run.ok_bind] at hfirst
      refine Io.forced_step rfl hfirst (Io.forced_step rfl ?_ hlast)
      change Io.complete b raw ⟨s₁, r₁, [], []⟩ ⟨buf, .body⟩ = _
      cases hout : Xasio.read s₁ buf with
      | mk out s₂ =>
        rcases out with ⟨rr, octets⟩
        simp only [hout] at h
        obtain ⟨r₂, hfill, h⟩ := Run.bind_eq_ok h
        simp only [Io.complete, hout, hfill, Run.ok_bind]
        cases rr with
        | error ec =>
          cases h
          rfl
        | value n =>
          obtain ⟨m, hdetach, h⟩ := Run.bind_eq_ok h
          cases h
          simp only [Io.onBody, hdetach, Run.ok_bind]
          rfl

/-- An announced size above the limit ends the first completion, before a body exists. -/
theorem complete_oversized (b : Build) (raw : ℕ → Octet) (hr : r.f_.empty = true)
    {hdr : Header} {rest : List Octet}
    (hc : content s = hdr.octets ++ rest) (hl : (limit.toSizeT : ℕ) < hdr.size) :
    ∃ last : Io σ, Io.complete b raw ⟨s, r, [], []⟩ ⟨⟨0, minFramingOctets⟩, .framing limit⟩ =
        .ok last ∧ last.pending = [] ∧ last.calls = [.error .messageSize] ∧
      last.r.data_ = r.data_ ∧ content last.stream = rest := by
  obtain ⟨f, s₁, hread, hcar, hrest, -⟩ := Frame.read_header b hr hc
  have hcheck := limit.check_carries b hcar
  rw [if_pos hl] at hcheck
  refine ⟨⟨s₁, { r with f_ := f }, [], [.error .messageSize]⟩, ?_, rfl, rfl, rfl, hrest⟩
  rw [Io.complete_framing limit _ hr, hread]
  simp only [Run.ok_bind, Io.onFraming, hcheck]
  rfl

/-- On an empty readable, `async_read` calls its handler exactly once in every run, and
with what `read` returns on the same stream; the stream is left the same, and a body above
the limit is never allocated. -/
theorem asyncRead_agrees (b : Build) (raw : Raw) (raw' : ℕ → Octet)
    (r : ReadableMessageOrCommand) (hr : r.empty = true) (s : σ) (limit : ReadLimit) :
    ∃ res s' io last, read b raw s limit = .ok (res, s') ∧ asyncRead b s r limit = .ok io ∧
      Acc (fun io₂ io₁ => Io.Step b raw' io₁ io₂) io ∧
      last.pending = [] ∧ last.calls = [res] ∧ content last.stream = content s' ∧
      (∀ io', ReflTransGen (Io.Step b raw') io io' →
        io'.calls.length + io'.pending.length = 1 ∧
        ReflTransGen (Io.Step b raw') io' last ∧
        (io'.pending = [] → io' = last)) ∧
      ∀ (hdr : Header) (rest : List Octet), content s = hdr.octets ++ rest →
        limit.val_ < hdr.size → res = .error .messageSize ∧ Io.Step b raw' io last ∧
          last.r.data_ = .none ∧ content last.stream = rest := by
  obtain ⟨hf, hd⟩ := Bool.and_eq_true_iff.mp hr
  obtain ⟨r', s₁, hinto, hs₁⟩ := readInto_eq_spec b raw' hf s limit
  obtain ⟨s', hread, hs'⟩ := read_eq_spec b raw s limit
  have hrun := forcedRun_of_readInto hf hinto
  refine ⟨(readSpec limit.toSizeT (failure s) (content s)).1, s',
    ⟨s, r, [⟨⟨0, minFramingOctets⟩, .framing limit⟩], []⟩,
    ⟨s₁, r', [], [(readSpec limit.toSizeT (failure s) (content s)).1]⟩, hread, ?_, hrun.acc,
    rfl, rfl, hs₁.trans hs'.symm, ?_, ?_⟩
  · simp only [asyncRead, hr, hf, Run.pure_eq, boostAssert_ok_true, Run.ok_bind]
    rfl
  · intro io' h
    refine ⟨Io.weight_run h, (hrun.of_reflTransGen h).reflTransGen, ?_⟩
    intro hp
    exact (hrun.of_reflTransGen h).eq_of_final (Io.not_step hp)
  · intro hdr rest hc hl
    rw [← limit.toSizeT_lt_iff] at hl
    obtain ⟨last, hcomplete, hp, hcalls, hdata, hrest⟩ :=
      complete_oversized b raw' hf hc hl
    have hstep : Io.Step b raw' ⟨s, r, [⟨⟨0, minFramingOctets⟩, .framing limit⟩], []⟩ last :=
      (Io.step_iff rfl).mpr hcomplete
    have hlast := (hrun.of_step hstep).eq_of_final (Io.not_step hp)
    have hnone : r.data_ = .none := by
      cases hdr' : r.data_ with
      | none => rfl
      | command c => simp [hdr', MaybeMessageOrCommand.empty] at hd
      | message m => simp [hdr', MaybeMessageOrCommand.empty] at hd
    rw [← hlast]
    refine ⟨?_, hstep, hdata.trans hnone, hrest⟩
    rw [hc, readSpec_oversized _ hl]

end Agree

/-- A message of one octet that arrives in two pieces. -/
theorem asyncRead_agrees_two_pieces :
    ∃ res s' io last, read .debug ⟨.replicate maxFramingOctets 0, fun _ => 0⟩
        (ChunkSource.mk [⟨[0x00], by simp⟩, ⟨[0x01, 0x61], by simp⟩] .eof :
          ChunkSource Octet ErrorCode) ⟨10, by decide, by decide⟩ = .ok (res, s') ∧
      asyncRead .debug (ChunkSource.mk [⟨[0x00], by simp⟩, ⟨[0x01, 0x61], by simp⟩] .eof :
        ChunkSource Octet ErrorCode) (.init (.replicate maxFramingOctets 0xaa))
        ⟨10, by decide, by decide⟩ = .ok io ∧
      ReflTransGen (Io.Step .debug fun _ => 0) io last ∧ last.calls = [res] := by
  obtain ⟨res, s', io, last, hread, hio, -, -, hcalls, -, hrun, -⟩ := asyncRead_agrees .debug
    ⟨.replicate maxFramingOctets 0, fun _ => 0⟩ (fun _ => 0)
    (.init (.replicate maxFramingOctets 0xaa)) rfl
    (ChunkSource.mk [⟨[0x00], by simp⟩, ⟨[0x01, 0x61], by simp⟩] .eof :
      ChunkSource Octet ErrorCode) ⟨10, by decide, by decide⟩
  exact ⟨res, s', io, last, hread, hio, (hrun io .refl).2.1, hcalls⟩

end Azmqn.Transport
