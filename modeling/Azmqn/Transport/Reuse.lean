import Azmqn.Transport.Incoming
import Azmqn.Transport.Outstanding

/-!
# Reusing a readable

A completion handler may start the next asynchronous read. With a new readable
for each that is a sequence of first reads. With the same readable it depends on
the build: a debug build stops at the assertion that the readable is empty,
which it is not once a header has arrived, while in a release build what earlier
reads left in the readable has no effect on later ones.
-/

namespace Azmqn.Transport

open Memory Xasio Streams Wire ReadStream Relation

section First

variable {σ : Type} [ReadStream σ Octet ErrorCode] {s : σ} {r : ReadableMessageOrCommand}
  {limit : ReadLimit} {b : Build} {raw : ℕ → Octet}

/-- The readable with nothing counted. -/
def uncounted (r : ReadableMessageOrCommand) : ReadableMessageOrCommand :=
  { r with f_ := r.f_.setSize 0 }

theorem readInto_setSize (f : Frame) (n : ℕ) {buf : MutableBuffer} {rr : ReadResult} {f' : Frame}
    {s' : σ} (h : f.readInto s buf = .ok ((rr, f'), s')) :
    (f.setSize n).readInto s buf = .ok ((rr, f'.setSize n), s') := by
  rcases hout : Xasio.read s buf with ⟨⟨rr₁, octets⟩, s₁⟩
  simp only [Frame.readInto, Frame.setSize, hout] at h ⊢
  obtain ⟨framing, hstore, h⟩ := Run.bind_eq_ok h
  cases h
  simp only [hstore, Run.ok_bind]
  rfl

theorem readInto_count {f f' : Frame} {buf : MutableBuffer} {rr : ReadResult} {s' : σ}
    (h : f.readInto s buf = .ok ((rr, f'), s')) : f'.bytesTransferred_ = f.bytesTransferred_ := by
  obtain ⟨framing, -, h⟩ := Run.bind_eq_ok h
  cases h
  rfl

theorem readUntilLongFramed_nonempty {f f' : Frame} {rr : ReadResult} {s' : σ}
    (h : f.readUntilLongFramed s = .ok ((rr, f'), s')) (hf : f.empty = false) :
    f'.empty = false := by
  obtain ⟨⟨⟨res, f₁⟩, s₁⟩, hr, h⟩ := Run.bind_eq_ok h
  have hcount := readInto_count hr
  have hne : f₁.bytesTransferred_ ≠ 0 := by
    rw [hcount]
    exact beq_eq_false_iff_ne.mp hf
  cases res with
  | error ec =>
    cases h
    exact beq_eq_false_iff_ne.mpr hne
  | value n =>
    cases h
    apply beq_eq_false_iff_ne.mpr
    change f₁.bytesTransferred_ + n ≠ 0
    omega

/-- Fewer octets than the shortest header: the handler is called, and nothing is counted. -/
theorem complete_short (b : Build) (raw : ℕ → Octet) (r : ReadableMessageOrCommand)
    (limit : ReadLimit) (h : (content s).length < minFramingOctets) :
    ∃ f s', Io.complete b raw ⟨s, r, [], []⟩ ⟨⟨0, minFramingOctets⟩, .framing limit⟩ =
        .ok ⟨s', { r with f_ := f }, [], [.error (failure s)]⟩ ∧
      f.bytesTransferred_ = r.f_.bytesTransferred_ ∧ content s' = [] := by
  have hshort : (content s).length < (Region.mk 0 minFramingOctets).size := h
  obtain ⟨f, s', hr, hcount, -, hs⟩ := Frame.readInto_short r.f_ hshort (by decide)
  refine ⟨f, s', ?_, hcount, hs⟩
  simp only [Io.complete, hr, Run.ok_bind]
  rfl

/-- Otherwise what was counted before is overwritten. -/
theorem complete_uncounted (b : Build) (raw : ℕ → Octet) (r : ReadableMessageOrCommand)
    (limit : ReadLimit) (h : minFramingOctets ≤ (content s).length) :
    Io.complete b raw ⟨s, uncounted r, [], []⟩ ⟨⟨0, minFramingOctets⟩, .framing limit⟩ =
      Io.complete b raw ⟨s, r, [], []⟩ ⟨⟨0, minFramingOctets⟩, .framing limit⟩ := by
  have hle : (Region.mk 0 minFramingOctets).size ≤ (content s).length := h
  obtain ⟨f, s', hr, -, -, -, -⟩ := Frame.readInto_enough r.f_ hle (by decide)
  have hr' := readInto_setSize r.f_ 0 hr
  simp only [Io.complete, uncounted, hr, hr', Run.ok_bind]
  rfl

/-- A header has been counted, and at most a body is still to come. -/
structure Framed (io : Io σ) : Prop where
  counted : io.r.f_.empty = false
  body : ∀ op ∈ io.pending, op.handler = .body

omit [ReadStream σ Octet ErrorCode] in
theorem framed_onFraming {io io' : Io σ} {rr : ReadResult}
    (h : Io.onFraming b raw limit io rr = .ok io') (hf : io.r.f_.empty = false)
    (hp : io.pending = []) : Framed io' := by
  cases rr with
  | error ec =>
    rw [← Except.ok.inj h]
    exact ⟨hf, by simp [Io.call, hp]⟩
  | value n =>
    obtain ⟨check, -, h⟩ := Run.bind_eq_ok h
    cases check with
    | error ec =>
      rw [← Except.ok.inj h]
      exact ⟨hf, by simp [Io.call, hp]⟩
    | value _ =>
      obtain ⟨⟨buf, r⟩, hbuf, h⟩ := Run.bind_eq_ok h
      obtain ⟨_, -, hbuf⟩ := Run.bind_eq_ok hbuf
      obtain ⟨data, -, hbuf⟩ := Run.bind_eq_ok hbuf
      cases hbuf
      rw [← Except.ok.inj h]
      exact ⟨hf, by simp [Io.post, hp]⟩

theorem framed_complete {io : Io σ} (hlen : minFramingOctets ≤ (content s).length)
    (h : Io.complete b raw ⟨s, r, [], []⟩ ⟨⟨0, minFramingOctets⟩, .framing limit⟩ = .ok io) :
    Framed io := by
  have hle : (Region.mk 0 minFramingOctets).size ≤ (content s).length := hlen
  obtain ⟨f, s', hr, -, -, -, -⟩ := Frame.readInto_enough r.f_ hle (by decide)
  simp only [Io.complete, hr, Run.ok_bind, Io.onFramingOctets] at h
  obtain ⟨long, -, h⟩ := Run.bind_eq_ok h
  cases long with
  | false =>
    simp only [Bool.false_eq_true, if_false] at h
    exact framed_onFraming h rfl rfl
  | true =>
    obtain ⟨⟨⟨rr, f'⟩, s₂⟩, hlong, h⟩ := Run.bind_eq_ok h
    exact framed_onFraming h (readUntilLongFramed_nonempty hlong rfl) rfl

theorem framed_step {io io' : Io σ} (h : Framed io) (hs : Io.Step b raw io io') : Framed io' := by
  rcases hs with ⟨before, op, after, hp, hc⟩
  have hbody := h.body op (by simp [hp])
  have hrest : ∀ op' ∈ before ++ after, op'.handler = .body := by
    intro op' hop'
    apply h.body op'
    rw [hp]
    simp only [List.mem_append, List.mem_cons] at hop' ⊢
    exact hop'.elim Or.inl fun h => Or.inr (Or.inr h)
  simp only [Io.complete, hbody] at hc
  obtain ⟨r', hfill, hc⟩ := Run.bind_eq_ok hc
  obtain ⟨data, -, hfill⟩ := Run.bind_eq_ok hfill
  cases hfill
  cases hout : (Xasio.read io.stream op.buffers).1.1 with
  | error ec =>
    rw [hout] at hc
    rw [← Except.ok.inj hc]
    exact ⟨h.counted, hrest⟩
  | value n =>
    rw [hout] at hc
    obtain ⟨m, -, hc⟩ := Run.bind_eq_ok hc
    rw [← Except.ok.inj hc]
    exact ⟨h.counted, hrest⟩

theorem framed_run {io io' : Io σ} (h : Framed io) (hr : ReflTransGen (Io.Step b raw) io io') :
    Framed io' := by
  induction hr with
  | refl => exact h
  | tail _ hs ih => exact framed_step ih hs

theorem parse_of_short {xs : List Octet} (h : xs.length < minFramingOctets) :
    Header.parse xs = none := by
  rw [Header.parse_eq_none_iff]
  cases xs with
  | nil => exact Or.inl rfl
  | cons flags tail =>
    rw [List.length_cons, minFramingOctets] at h
    have hone := one_le_sizeOctets flags
    exact Or.inr ⟨flags, tail, rfl, by omega⟩

/-- The completions after a read was started on any readable: they are forced, the result is
that of `read`, and the readable counts as empty afterwards only if it did before and no header
arrived. -/
theorem forcedRun_any (b : Build) (raw : ℕ → Octet) (s : σ) (r : ReadableMessageOrCommand)
    (limit : ReadLimit) :
    ∃ s' r', ForcedRun (Io.Step b raw) ⟨s, r, [⟨⟨0, minFramingOctets⟩, .framing limit⟩], []⟩
        ⟨s', r', [], [(readSpec limit.toSizeT (failure s) (content s)).1]⟩ ∧
      content s' = (readSpec limit.toSizeT (failure s) (content s)).2 ∧
      (minFramingOctets ≤ (content s).length → r'.f_.empty = false) ∧
      ((content s).length < minFramingOctets → r'.empty = r.empty) ∧
      ∀ m, (readSpec limit.toSizeT (failure s) (content s)).1 = .value m →
        failure s' = failure s := by
  by_cases hlen : (content s).length < minFramingOctets
  · obtain ⟨f, s', hc, hcount, hs⟩ := complete_short b raw r limit hlen
    rw [readSpec_truncated _ (parse_of_short hlen)]
    refine ⟨s', { r with f_ := f }, Io.forced_step rfl hc (.done (Io.not_step rfl)), hs, ?_, ?_,
      ?_⟩
    · intro h
      omega
    · intro _
      simp [ReadableMessageOrCommand.empty, Frame.empty, hcount]
    · intro m hm
      cases hm
  · have hle : minFramingOctets ≤ (content s).length := Nat.not_lt.mp hlen
    obtain ⟨r', s', hinto, hs⟩ := readInto_eq_spec b raw (r := uncounted r) rfl s limit
    have hrun := forcedRun_of_readInto rfl hinto
    cases hrun with
    | step hnext _ htail =>
      rw [Io.step_iff rfl] at hnext
      have hframed := framed_run (framed_complete hle hnext) htail.reflTransGen
      rw [complete_uncounted b raw r limit hle] at hnext
      refine ⟨s', r', Io.forced_step rfl hnext htail, hs, fun _ => hframed.counted,
        fun h => absurd h hlen, ?_⟩
      intro m hm
      rw [hm] at hinto
      exact readInto_failure b raw rfl hinto

end First

section Chain

variable {σ : Type} [ReadStream σ Octet ErrorCode] {b : Build} {raw : ℕ → Octet}
  {limit : ReadLimit}

/-- One asynchronous read after another, all with the same readable: each is started when the
one before has delivered a message, and the chain ends with an error. -/
inductive Chain (b : Build) (raw : ℕ → Octet) (limit : ReadLimit) :
    σ → ReadableMessageOrCommand → List MessageOrCommand → ErrorCode → σ → Prop
  | last {s : σ} {r : ReadableMessageOrCommand} {io io' : Io σ} {ec : ErrorCode}
      (start : asyncRead b s r limit = .ok io) (run : ReflTransGen (Io.Step b raw) io io')
      (called : io'.calls = [.error ec]) : Chain b raw limit s r [] ec io'.stream
  | more {s s' : σ} {r : ReadableMessageOrCommand} {io io' : Io σ} {m : MessageOrCommand}
      {ms : List MessageOrCommand} {ec : ErrorCode}
      (start : asyncRead b s r limit = .ok io) (run : ReflTransGen (Io.Step b raw) io io')
      (called : io'.calls = [.value m]) (rest : Chain b raw limit io'.stream io'.r ms ec s') :
      Chain b raw limit s r (m :: ms) ec s'

/-- The handler has been called, so the completions are over. -/
theorem eq_last_of_called {io io' last : Io σ} {res : MessageOrCommandResult}
    (hforced : ForcedRun (Io.Step b raw) io last) (hone : io.weight = 1)
    (hrun : ReflTransGen (Io.Step b raw) io io') (hcall : io'.calls = [res]) : io' = last := by
  have hw := Io.weight_run hrun
  rw [hone] at hw
  have hp : io'.pending = [] := by
    apply List.eq_nil_of_length_eq_zero
    rw [Io.weight, hcall, List.length_singleton] at hw
    omega
  exact (hforced.of_reflTransGen hrun).eq_of_final (Io.not_step hp)

/-- The first read of a chain, whose completions end in a known state. -/
theorem chain_first {s s' : σ} {r : ReadableMessageOrCommand} {ms : List MessageOrCommand}
    {ec : ErrorCode} {last : Io σ} {res : MessageOrCommandResult}
    (h : Chain .ndebug raw limit s r ms ec s')
    (hforced : ForcedRun (Io.Step .ndebug raw)
      ⟨s, r, [⟨⟨0, minFramingOctets⟩, .framing limit⟩], []⟩ last) (hcalls : last.calls = [res]) :
    (res = .error ec ∧ ms = [] ∧ s' = last.stream) ∨
      ∃ m ms', res = .value m ∧ ms = m :: ms' ∧
        Chain .ndebug raw limit last.stream last.r ms' ec s' := by
  cases h with
  | last start run called =>
    cases start
    have heq := eq_last_of_called hforced rfl run called
    rw [heq, hcalls] at called
    exact Or.inl ⟨List.head_eq_of_cons_eq called, rfl, by rw [heq]⟩
  | more start run called rest =>
    cases start
    have heq := eq_last_of_called hforced rfl run called
    rw [heq, hcalls] at called
    rw [heq] at rest
    exact Or.inr ⟨_, _, List.head_eq_of_cons_eq called, rfl, rest⟩

/-- A chain and synchronous reads on streams that hold the same. -/
theorem chain_agrees {σ' : Type} [ReadStream σ' Octet ErrorCode] (raw : ℕ → Octet)
    (limit : ReadLimit) (b : Build) (raw' : Raw) {fuel : ℕ} {u t : σ'} {s : σ}
    (r : ReadableMessageOrCommand) {ms : List MessageOrCommand} {ec : ErrorCode}
    (hc : content u = content s) (hf : failure u = failure s)
    (h : readUntilError b raw' limit fuel u = .ok ((ms, some ec), t)) :
    (∃ s', Chain .ndebug raw limit s r ms ec s' ∧ content s' = content t) ∧
      ∀ ms' ec' s', Chain .ndebug raw limit s r ms' ec' s' →
        ms' = ms ∧ ec' = ec ∧ content s' = content t := by
  induction fuel generalizing u s r ms with
  | zero => cases h
  | succ fuel ih =>
    obtain ⟨u', hread, hu⟩ := read_eq_spec b raw' u limit
    obtain ⟨s', r', hforced, hs, -, -, hfail⟩ := forcedRun_any .ndebug raw s r limit
    rw [hc, hf] at hread hu
    simp only [readUntilError, hread, Run.ok_bind] at h
    generalize hres : (readSpec limit.toSizeT (failure s) (content s)).1 = res
      at hread hforced hfail h
    cases res with
    | error e =>
      cases h
      refine ⟨⟨s', .last rfl hforced.reflTransGen rfl, hs.trans hu.symm⟩, ?_⟩
      intro ms' ec' s₂ hchain
      rcases chain_first hchain hforced rfl with ⟨he, hms, hs₂⟩ | ⟨m, ms₂, hm, -, -⟩
      · cases he
        exact ⟨hms, rfl, by rw [hs₂]; exact hs.trans hu.symm⟩
      · cases hm
    | value m =>
      obtain ⟨⟨⟨ms₁, ec₁⟩, t₁⟩, hrest, h⟩ := Run.bind_eq_ok h
      cases h
      have hfu := read_failure b raw' hread
      have hnext := ih r' (hu.trans hs.symm) (hfu.trans (hf.trans (hfail m rfl).symm)) hrest
      obtain ⟨⟨s₂, hchain, hs₂⟩, hunique⟩ := hnext
      refine ⟨⟨s₂, .more rfl hforced.reflTransGen rfl hchain, hs₂⟩, ?_⟩
      intro ms' ec' s₃ hchain'
      rcases chain_first hchain' hforced rfl with ⟨he, -, -⟩ | ⟨m', ms₂, hm, rfl, hchain₂⟩
      · cases he
      · cases hm
        obtain ⟨rfl, rfl, hs₃⟩ := hunique ms₂ ec' s₃ hchain₂
        exact ⟨rfl, rfl, hs₃⟩

/-- In a release build a chain of asynchronous reads through one readable, whatever has been
read with it before, delivers what synchronous reads until an error do, from the same octets,
and nothing else. -/
theorem chain_release (raw : ℕ → Octet) (limit : ReadLimit) (s : σ)
    (r : ReadableMessageOrCommand) (b : Build) (raw' : Raw) {fuel : ℕ}
    {ms : List MessageOrCommand} {ec : ErrorCode} {t : σ}
    (h : readUntilError b raw' limit fuel s = .ok ((ms, some ec), t)) :
    (∃ s', Chain .ndebug raw limit s r ms ec s' ∧ content s' = content t) ∧
      ∀ ms' ec' s', Chain .ndebug raw limit s r ms' ec' s' →
        ms' = ms ∧ ec' = ec ∧ content s' = content t :=
  chain_agrees raw limit b raw' r rfl rfl h

/-- One message and the end of the stream, through a readable that has served before. -/
theorem chain_release_one_message :
    ∃ s', Chain .ndebug (fun _ => 0) ⟨10, by decide, by decide⟩
      (ChunkSource.mk [⟨[0x00, 0x01, 0x61], by simp⟩] .eof : ChunkSource Octet ErrorCode)
      ⟨⟨.replicate maxFramingOctets 0, 2⟩, .message ⟨⟨[0x62], by decide⟩, false⟩⟩
      [.message ⟨⟨[0x61], by decide⟩, false⟩] .eof s' := by
  have h : readUntilError .debug ⟨.replicate maxFramingOctets 0, fun _ => 0⟩
      ⟨10, by decide, by decide⟩ 2
      (ChunkSource.mk [⟨[0x00, 0x01, 0x61], by simp⟩] .eof : ChunkSource Octet ErrorCode) =
      .ok (([.message ⟨⟨[0x61], by decide⟩, false⟩], some .eof), ⟨[], .eof⟩) := rfl
  obtain ⟨⟨s', hchain, -⟩, -⟩ := chain_release (fun _ => 0) ⟨10, by decide, by decide⟩ _
    ⟨⟨.replicate maxFramingOctets 0, 2⟩, .message ⟨⟨[0x62], by decide⟩, false⟩⟩ .debug _ h
  exact ⟨s', hchain⟩

/-- In a debug build an empty readable serves one read: once its handler has been called, the
next read fails its assertion unless the stream ended before a header had arrived. -/
theorem chain_debug (raw : ℕ → Octet) (s : σ) {r : ReadableMessageOrCommand}
    (hr : r.empty = true) (limit limit' : ReadLimit) {io io' : Io σ}
    {res : MessageOrCommandResult} (start : asyncRead .debug s r limit = .ok io)
    (run : ReflTransGen (Io.Step .debug raw) io io') (called : io'.calls = [res]) :
    (minFramingOctets ≤ (content s).length ↔
        asyncRead .debug io'.stream io'.r limit' = .error .assertion) ∧
      ∀ ms ec s', Chain .debug raw limit s r ms ec s' → ms = [] := by
  obtain ⟨s', r', hforced, -, hlong, hshort, -⟩ := forcedRun_any .debug raw s r limit
  have hok := asyncRead_eq .debug s hr limit
  have hfails : minFramingOctets ≤ (content s).length →
      ∀ l, asyncRead .debug s' r' l = .error .assertion := by
    intro hlen l
    have hne : r'.empty = false := by simp [ReadableMessageOrCommand.empty, hlong hlen]
    simp [asyncRead, hne]
  constructor
  · rw [hok] at start
    cases start
    rw [eq_last_of_called hforced rfl run called]
    constructor
    · intro hlen
      exact hfails hlen limit'
    · intro herror
      by_contra hlen
      have hempty := (hshort (Nat.not_le.mp hlen)).trans hr
      rw [asyncRead_eq .debug s' hempty limit'] at herror
      cases herror
  · intro ms ec s₂ hchain
    cases hchain with
    | last _ _ _ => rfl
    | more start' run' called' rest =>
      rw [hok] at start'
      cases start'
      have heq := eq_last_of_called hforced rfl run' called'
      rw [heq] at rest called'
      -- the next read of the chain was started, so nothing can have been counted
      have hlen : (content s).length < minFramingOctets := by
        by_contra hlen
        cases rest with
        | last start _ _ =>
          rw [hfails (Nat.not_lt.mp hlen)] at start
          cases start
        | more start _ _ _ =>
          rw [hfails (Nat.not_lt.mp hlen)] at start
          cases start
      have hres := List.head_eq_of_cons_eq called'
      rw [readSpec_truncated _ (parse_of_short hlen)] at hres
      cases hres

/-- A message is delivered, and then the readable cannot be used again, so that no chain gets to
an error. -/
theorem chain_debug_one_message :
    ∃ io' : Io (ChunkSource Octet ErrorCode),
      io'.calls = [.value (.message ⟨⟨[0x61], by decide⟩, false⟩)] ∧
      asyncRead .debug io'.stream io'.r ⟨20, by decide, by decide⟩ = .error .assertion ∧
      ∀ ms ec s', ¬ Chain .debug (fun _ => 0) ⟨10, by decide, by decide⟩
        (ChunkSource.mk [⟨[0x00, 0x01], by simp⟩, ⟨[0x61, 0x00], by simp⟩] .eof :
          ChunkSource Octet ErrorCode)
        (.init (.replicate maxFramingOctets 0xaa)) ms ec s' := by
  let s : ChunkSource Octet ErrorCode :=
    ⟨[⟨[0x00, 0x01], by simp⟩, ⟨[0x61, 0x00], by simp⟩], .eof⟩
  let r : ReadableMessageOrCommand := .init (.replicate maxFramingOctets 0xaa)
  let limit : ReadLimit := ⟨10, by decide, by decide⟩
  obtain ⟨s', r', hforced, -⟩ := forcedRun_any .debug (fun _ => 0) s r limit
  have hres : (readSpec limit.toSizeT (ReadStream.failure s) (content s)).1 =
      .value (.message ⟨⟨[0x61], by decide⟩, false⟩) := rfl
  rw [hres] at hforced
  obtain ⟨hassert, hchain⟩ := chain_debug (fun _ => 0) s (r := r) rfl limit
    ⟨20, by decide, by decide⟩ rfl hforced.reflTransGen rfl
  refine ⟨_, rfl, hassert.mp (by decide), ?_⟩
  intro ms ec s₂ h
  obtain rfl := hchain ms ec s₂ h
  cases h with
  | last start run called =>
    cases start
    rw [eq_last_of_called hforced rfl run called] at called
    cases called

end Chain

end Azmqn.Transport
