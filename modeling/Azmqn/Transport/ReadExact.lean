import Azmqn.Transport.FramedIo
import Azmqn.Wire.WholeFrame

/-!
# `read` is an exact and guarded parser

`readSpec` says what reading one frame off a string of octets means. The reader
computes it for every stream that holds the string, in every build, whatever the
pieces in which the stream delivers its octets and whatever uninitialised
storage holds.
-/

namespace Azmqn.Transport

open Memory Xasio Streams Wire ReadStream

/-- What reading one frame reports, and what it leaves of the octets. -/
def readSpec (limit : ℕ) (failure : ErrorCode) (xs : List Octet) :
    MessageOrCommandResult × List Octet :=
  match Header.parse xs with
  | none => (.error failure, [])
  | some (hdr, rest) =>
    if limit < hdr.size then (.error .messageSize, rest)
    else match WholeFrame.parse xs with
      | none => (.error failure, [])
      | some (frame, rest) => (.value frame.content, rest)

section Spec

variable {limit : ℕ} (failure : ErrorCode) {xs rest : List Octet} {hdr : Header}

theorem readSpec_truncated (h : Header.parse xs = none) :
    readSpec limit failure xs = (.error failure, []) := by
  simp [readSpec, h]

theorem readSpec_oversized (h : limit < hdr.size) :
    readSpec limit failure (hdr.octets ++ rest) = (.error .messageSize, rest) := by
  simp [readSpec, Header.parse_octets, h]

theorem readSpec_cut (h : hdr.size ≤ limit) (hr : rest.length < hdr.size) :
    readSpec limit failure (hdr.octets ++ rest) = (.error failure, []) := by
  have hw : WholeFrame.parse (hdr.octets ++ rest) = none := by
    simp [WholeFrame.parse, Header.parse_octets, Nat.not_le.mpr hr]
  simp [readSpec, Header.parse_octets, Nat.not_lt.mpr h, hw]

theorem readSpec_frame {frame : WholeFrame} (h : frame.header.size ≤ limit) :
    readSpec limit failure (frame.octets ++ rest) = (.value frame.content, rest) := by
  have hp : Header.parse (frame.octets ++ rest) = some (frame.header, frame.body ++ rest) := by
    rw [WholeFrame.octets, List.append_assoc, Header.parse_octets]
  simp [readSpec, hp, Nat.not_lt.mpr h, WholeFrame.parse_octets]

end Spec

section Read

variable {σ : Type} [ReadStream σ Octet ErrorCode] {s : σ} {r : ReadableMessageOrCommand}
  {limit : ReadLimit} {hdr : Header}

theorem readInto_truncated (b : Build) (raw : ℕ → Octet) (hr : r.f_.empty = true)
    (hc : Header.parse (content s) = none) :
    ∃ r' s', readInto b raw r s limit = .ok ((.error (failure s), r'), s') ∧ content s' = [] := by
  obtain ⟨f, s', hf, -, hs⟩ := Frame.read_truncated b hr hc
  exact ⟨{ r with f_ := f }, s', by simp [readInto, hf], hs⟩

/-- A body above the limit is neither allocated nor read. -/
theorem readInto_oversized (b : Build) (raw : ℕ → Octet) (hr : r.f_.empty = true)
    {rest : List Octet} (hc : content s = hdr.octets ++ rest)
    (hl : (limit.toSizeT : ℕ) < hdr.size) :
    ∃ r' s', readInto b raw r s limit = .ok ((.error .messageSize, r'), s') ∧
      r'.data_ = r.data_ ∧ content s' = rest := by
  obtain ⟨f, s', hf, hcar, hs, -⟩ := Frame.read_header b hr hc
  have hcheck := limit.check_carries b hcar
  rw [if_pos hl] at hcheck
  exact ⟨{ r with f_ := f }, s', by simp [readInto, hf, hcheck], rfl, hs⟩

/-- Behind a header that is let through, the body is read into octets allocated for it. -/
theorem readInto_admitted (b : Build) (raw : ℕ → Octet) (hr : r.f_.empty = true)
    {rest : List Octet} (hc : content s = hdr.octets ++ rest) (hl : hdr.size ≤ limit.toSizeT) :
    ∃ f s₁, content s₁ = rest ∧ failure s₁ = failure s ∧
      readInto b raw r s limit = (do
        let ((rr, octets), s₂) := Xasio.read s₁ ⟨0, hdr.size⟩
        let r₂ ← ReadableMessageOrCommand.fill octets
          ⟨f, .underHeader hdr (.ofCapacity raw (sizeT hdr.size))⟩
        match rr with
        | .error ec => pure ((.error ec, r₂), s₂)
        | .value _ => do
          let m ← r₂.detach b
          pure ((.value m, r₂), s₂)) := by
  obtain ⟨f, s₁, hf, hcar, hs₁, hfail⟩ := Frame.read_header b hr hc
  have hcheck := limit.check_carries b hcar
  rw [if_neg (Nat.not_lt.mpr hl)] at hcheck
  have hbuf := ReadableMessageOrCommand.mutableBuffer_carries (r := { r with f_ := f }) b raw hcar
  refine ⟨f, s₁, hs₁, hfail, ?_⟩
  rcases hread : Xasio.read s₁ ⟨0, hdr.size⟩ with ⟨⟨rr, octets⟩, s₂⟩
  cases rr <;> simp only [readInto, hf, hcheck, hbuf, hread, Run.ok_bind]

theorem readInto_cut (b : Build) (raw : ℕ → Octet) (hr : r.f_.empty = true)
    {rest : List Octet} (hc : content s = hdr.octets ++ rest)
    (hl : hdr.size ≤ limit.toSizeT) (hlen : rest.length < hdr.size) :
    ∃ r' s', readInto b raw r s limit = .ok ((.error (failure s), r'), s') ∧ content s' = [] := by
  obtain ⟨f, s₁, hs₁, hfail, hinto⟩ := readInto_admitted b raw hr hc hl
  have hshort : (content s₁).length < (Region.mk 0 hdr.size).size := by
    rw [hs₁]
    exact hlen
  obtain ⟨hread, hs⟩ := Xasio.read_short s₁ hshort
  have hfits : (content s₁).length ≤ (BackedBuffer.ofCapacity raw (sizeT hdr.size)).size := by
    rw [BackedBuffer.size_ofCapacity, sizeT_val hdr.size_lt]
    exact hshort.le
  obtain ⟨buf, hfill, -⟩ := (BackedBuffer.ofCapacity raw (sizeT hdr.size)).fill_ok hfits
  have hfill' := MaybeMessageOrCommand.fill_underHeader hdr _ hfill
  refine ⟨⟨f, .underHeader hdr buf⟩, (Xasio.read s₁ ⟨0, hdr.size⟩).2, ?_, hs⟩
  rw [hinto]
  simp [hread, ReadableMessageOrCommand.fill, hfill', hfail]

theorem readInto_frame (b : Build) (raw : ℕ → Octet) (hr : r.f_.empty = true)
    {frame : WholeFrame} {rest : List Octet} (hc : content s = frame.octets ++ rest)
    (hl : frame.header.size ≤ limit.toSizeT) :
    ∃ r' s', readInto b raw r s limit = .ok ((.value frame.content, r'), s') ∧
      content s' = rest := by
  have hsize := frame.length_eq
  rw [WholeFrame.octets, List.append_assoc] at hc
  obtain ⟨f, s₁, hs₁, -, hinto⟩ := readInto_admitted b raw hr hc hl
  have hbody : (Region.mk 0 frame.header.size).size = frame.body.length := hsize.symm
  obtain ⟨hread, hs, -⟩ := Xasio.read_append s₁ hs₁ hbody
  have hfits : frame.body.length =
      (BackedBuffer.ofCapacity raw (sizeT frame.header.size)).size := by
    rw [BackedBuffer.size_ofCapacity, sizeT_val frame.header.size_lt, hsize]
  have hfill := MaybeMessageOrCommand.fill_underHeader frame.header _
    ((BackedBuffer.ofCapacity raw (sizeT frame.header.size)).fill_all hfits)
  have hdetach := MaybeMessageOrCommand.detach_underHeader b frame
  unfold WholeFrame.payload at hdetach
  refine ⟨⟨f, .underHeader frame.header frame.payload⟩, (Xasio.read s₁ ⟨0, frame.header.size⟩).2,
    ?_, hs⟩
  rw [hinto]
  simp [hread, ReadableMessageOrCommand.fill, hfill, ReadableMessageOrCommand.detach, hdetach,
    WholeFrame.payload]

/-- The reader refines `readSpec`. -/
theorem readInto_eq_spec (b : Build) (raw : ℕ → Octet) (hr : r.f_.empty = true) (s : σ)
    (limit : ReadLimit) :
    ∃ r' s', readInto b raw r s limit =
        .ok (((readSpec limit.toSizeT (failure s) (content s)).1, r'), s') ∧
      content s' = (readSpec limit.toSizeT (failure s) (content s)).2 := by
  cases hp : Header.parse (content s) with
  | none =>
    rw [readSpec_truncated _ hp]
    exact readInto_truncated b raw hr hp
  | some p =>
    rcases p with ⟨hdr, rest⟩
    have hc := Header.eq_of_parse hp
    by_cases hl : (limit.toSizeT : ℕ) < hdr.size
    · obtain ⟨r', s', h, -, hs⟩ := readInto_oversized b raw hr hc hl
      rw [hc, readSpec_oversized _ hl]
      exact ⟨r', s', h, hs⟩
    · by_cases hlen : rest.length < hdr.size
      · obtain ⟨r', s', h, hs⟩ := readInto_cut b raw hr hc (Nat.not_lt.mp hl) hlen
        rw [hc, readSpec_cut _ (Nat.not_lt.mp hl) hlen]
        exact ⟨r', s', h, hs⟩
      · let frame : WholeFrame :=
          ⟨hdr, rest.take hdr.size, by simp [Nat.min_eq_left (Nat.not_lt.mp hlen)]⟩
        have hc' : content s = frame.octets ++ rest.drop hdr.size := by
          rw [hc, WholeFrame.octets, List.append_assoc, List.take_append_drop]
        have hl' : frame.header.size ≤ limit.toSizeT := Nat.not_lt.mp hl
        obtain ⟨r', s', h, hs⟩ := readInto_frame b raw hr hc' hl'
        rw [hc', readSpec_frame _ hl']
        exact ⟨r', s', h, hs⟩

theorem read_of_readInto (b : Build) (raw : Raw) {res : MessageOrCommandResult}
    {r' : ReadableMessageOrCommand} {s' : σ}
    (h : readInto b raw.body (.init raw.framing) s limit = .ok ((res, r'), s')) :
    read b raw s limit = .ok (res, s') := by
  simp [read, h]

theorem read_eq_spec (b : Build) (raw : Raw) (s : σ) (limit : ReadLimit) :
    ∃ s', read b raw s limit =
        .ok ((readSpec limit.toSizeT (failure s) (content s)).1, s') ∧
      content s' = (readSpec limit.toSizeT (failure s) (content s)).2 := by
  obtain ⟨r', s', h, hs⟩ := readInto_eq_spec b raw.body (r := .init raw.framing) rfl s limit
  exact ⟨s', read_of_readInto b raw h, hs⟩

/-- A frame whose body is let through is read, and nothing behind it. -/
theorem read_frame (b : Build) (raw : Raw) (s : σ) {frame : WholeFrame} {rest : List Octet}
    (hc : content s = frame.octets ++ rest) (hl : (frame.header.size : ℤ) ≤ limit.val_) :
    ∃ s', read b raw s limit = .ok (.value frame.content, s') ∧ content s' = rest := by
  rw [← Int.not_lt, ← limit.toSizeT_lt_iff, Nat.not_lt] at hl
  obtain ⟨s', h, hs⟩ := read_eq_spec b raw s limit
  rw [hc, readSpec_frame _ hl] at h hs
  exact ⟨s', h, hs⟩

/-- `read` on every stream, limit and build: what it returns, what it leaves of the
stream, that no body is allocated above the limit, and that nothing of this depends on
the stream's pieces. -/
theorem read_exact (b : Build) (raw : Raw) (s : σ) (limit : ReadLimit) :
    ∃ res r' s', readInto b raw.body (.init raw.framing) s limit = .ok ((res, r'), s') ∧
      read b raw s limit = .ok (res, s') ∧
      ((content s = [] ∨
          ∃ flags tail, content s = flags :: tail ∧ tail.length < sizeOctets flags) →
        res = .error (failure s) ∧ content s' = []) ∧
      (∀ (hdr : Header) (rest : List Octet), content s = hdr.octets ++ rest →
        (limit.val_ < hdr.size →
          res = .error .messageSize ∧ content s' = rest ∧ r'.data_ = .none) ∧
        (hdr.size ≤ limit.val_ → rest.length < hdr.size →
          res = .error (failure s) ∧ content s' = [])) ∧
      (∀ (frame : WholeFrame) (rest : List Octet), content s = frame.octets ++ rest →
        frame.header.size ≤ limit.val_ → res = .value frame.content ∧ content s' = rest) ∧
      ∀ (σ' : Type) [ReadStream σ' Octet ErrorCode] (b' : Build) (raw' : Raw) (t : σ'),
        content t = content s → failure t = failure s →
          ∃ t', read b' raw' t limit = .ok (res, t') ∧ content t' = content s' := by
  obtain ⟨r', s', h, hs⟩ := readInto_eq_spec b raw.body (r := .init raw.framing) rfl s limit
  refine ⟨_, r', s', h, read_of_readInto b raw h, ?_, ?_, ?_, ?_⟩
  · intro hc
    rw [hs, readSpec_truncated _ (Header.parse_eq_none_iff.mpr hc)]
    exact ⟨rfl, rfl⟩
  · intro hdr rest hc
    constructor
    · intro hl
      rw [← limit.toSizeT_lt_iff] at hl
      obtain ⟨r₂, s₂, h₂, hdata, -⟩ := readInto_oversized b raw.body
        (r := .init raw.framing) rfl hc hl
      rw [h] at h₂
      simp only [Except.ok.injEq, Prod.mk.injEq] at h₂
      rw [hs, hc, readSpec_oversized _ hl, h₂.1.2, hdata]
      exact ⟨rfl, rfl, rfl⟩
    · intro hl hlen
      rw [← Int.not_lt, ← limit.toSizeT_lt_iff, Nat.not_lt] at hl
      rw [hs, hc, readSpec_cut _ hl hlen]
      exact ⟨rfl, rfl⟩
  · intro frame rest hc hl
    rw [← Int.not_lt, ← limit.toSizeT_lt_iff, Nat.not_lt] at hl
    rw [hs, hc, readSpec_frame _ hl]
    exact ⟨rfl, rfl⟩
  · intro σ' _ b' raw' t hcontent hfailure
    obtain ⟨t', ht, hct⟩ := read_eq_spec b' raw' t limit
    rw [hcontent, hfailure] at ht hct
    exact ⟨t', ht, hct.trans hs.symm⟩

end Read

end Azmqn.Transport
