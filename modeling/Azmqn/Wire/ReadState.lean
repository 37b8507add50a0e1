import Azmqn.Wire.FrameView

/-!
# The state that `frame::read` leaves

After a `read` the count of a frame tells what was received: a whole header,
the first two octets of a long one, or nothing to rely on. In the last case the
frame can be read again, and behaves as a new one does.
-/

namespace Azmqn.Wire.Frame

open Memory Xasio Streams ReadStream

variable {σ : Type} [ReadStream σ Octet ErrorCode]

/-- Frames that are the same in front of a buffer are so up to the end of what is read into it. -/
theorem readInto_agree {f g : Frame} (s : σ) {buf : MutableBuffer}
    (hb : buf.start + buf.size ≤ maxFramingOctets)
    (h : f.framing_.toList.take buf.start = g.framing_.toList.take buf.start) :
    ∃ rr f' g' s', f.readInto s buf = .ok ((rr, f'), s') ∧ g.readInto s buf = .ok ((rr, g'), s') ∧
      f'.bytesTransferred_ = f.bytesTransferred_ ∧ g'.bytesTransferred_ = g.bytesTransferred_ ∧
      f'.framing_.toList.take (buf.start + (Xasio.read s buf).1.2.length) =
        g'.framing_.toList.take (buf.start + (Xasio.read s buf).1.2.length) ∧
      (∀ k, rr = .value k → k = buf.size ∧ (Xasio.read s buf).1.2.length = buf.size) := by
  have hlen : (Xasio.read s buf).1.2.length ≤ buf.size ∧
      (∀ k, (Xasio.read s buf).1.1 = .value k →
        k = buf.size ∧ (Xasio.read s buf).1.2.length = buf.size) := by
    by_cases hc : buf.size ≤ (content s).length
    · obtain ⟨hr, -, -⟩ := Xasio.read_enough s hc
      simp [hr, hc]
    · obtain ⟨hr, -⟩ := Xasio.read_short s (Nat.lt_of_not_le hc)
      simp [hr, Nat.le_of_not_le hc]
  have hfits : buf.start + (Xasio.read s buf).1.2.length ≤ maxFramingOctets := by omega
  obtain ⟨m, hm, -⟩ := store_of_le f.framing_ hfits
  obtain ⟨k, hk, -⟩ := store_of_le g.framing_ hfits
  refine ⟨(Xasio.read s buf).1.1, { f with framing_ := m }, { g with framing_ := k },
    (Xasio.read s buf).2, by simp [readInto, hm], by simp [readInto, hk], rfl, rfl, ?_, hlen.2⟩
  rw [store_take_add hm, store_take_add hk, h]

/-- The second step of `read`, on frames that agree on the first two octets. -/
theorem readUntilLongFramed_agree {f g : Frame} (h : f.Agrees g)
    (hf : f.bytesTransferred_ = minFramingOctets) (s : σ) :
    ∃ rr f' g' s', f.readUntilLongFramed s = .ok ((rr, f'), s') ∧
      g.readUntilLongFramed s = .ok ((rr, g'), s') ∧ f'.Agrees g' := by
  have hg : g.bytesTransferred_ = minFramingOctets := h.transferred ▸ hf
  have hstored := h.stored
  rw [hf] at hstored
  have hb : (Region.mk minFramingOctets (maxFramingOctets - minFramingOctets)).start +
      (maxFramingOctets - minFramingOctets) ≤ maxFramingOctets := by decide
  obtain ⟨rr, f', g', s', hrf, hrg, hbf, hbg, htake, hval⟩ := readInto_agree s hb hstored
  cases rr with
  | error ec =>
    have hfront := congrArg (List.take minFramingOctets) htake
    refine ⟨.error ec, f', g', s', ?_, ?_, ?_, ?_⟩
    · simp [readUntilLongFramed, hrf]
    · simp [readUntilLongFramed, hrg]
    · rw [hbf, hbg, hf, hg]
    · rw [hbf, hf]
      simpa [List.take_take] using hfront
  | value k =>
    obtain ⟨rfl, hlen⟩ := hval k rfl
    rw [hlen] at htake
    refine ⟨.value (minFramingOctets + (maxFramingOctets - minFramingOctets)),
      f'.setSize (minFramingOctets + (maxFramingOctets - minFramingOctets)),
      g'.setSize (minFramingOctets + (maxFramingOctets - minFramingOctets)), s',
      ?_, ?_, rfl, htake⟩
    · simp [readUntilLongFramed, hrf, hbf, hf, setSize]
    · simp [readUntilLongFramed, hrg, hbg, hg, setSize]

/-- What a `read` does with an empty frame does not depend on what its storage holds. -/
theorem read_agree (b : Build) {f g : Frame} (hf : f.empty = true) (hg : g.empty = true) (s : σ) :
    ∃ rr f' g' s', f.read b s = .ok ((rr, f'), s') ∧ g.read b s = .ok ((rr, g'), s') ∧
      f'.Agrees g' := by
  have hf₀ : f.bytesTransferred_ = 0 := beq_iff_eq.mp hf
  have hg₀ : g.bytesTransferred_ = 0 := beq_iff_eq.mp hg
  have hb : (Region.mk 0 minFramingOctets).start + minFramingOctets ≤ maxFramingOctets := by
    decide
  obtain ⟨rr, f₁, g₁, s₁, hrf, hrg, hbf, hbg, htake, hval⟩ :=
    readInto_agree (f := f) (g := g) s hb rfl
  cases rr with
  | error ec =>
    refine ⟨.error ec, f₁, g₁, s₁, by simp [read, hf, hrf], by simp [read, hg, hrg], ?_, ?_⟩
    · rw [hbf, hbg, hf₀, hg₀]
    · rw [hbf, hf₀, List.take_zero, List.take_zero]
  | value k =>
    obtain ⟨rfl, hlen⟩ := hval k rfl
    rw [hlen, Nat.zero_add] at htake
    have hagree : (f₁.setSize minFramingOctets).Agrees (g₁.setSize minFramingOctets) :=
      ⟨rfl, htake⟩
    have hflags : f₁.flagsOctet = g₁.flagsOctet := hagree.flagsOctet rfl
    rcases f₁.framing_eq_cons with ⟨os, hos⟩
    rcases g₁.framing_eq_cons with ⟨ps, hps⟩
    rw [read_eq b hf hrf hos, read_eq b hg hrg hps, ← hflags]
    cases hl : Wire.isLong f₁.flagsOctet with
    | false => exact ⟨.value minFramingOctets, _, _, s₁, rfl, rfl, hagree⟩
    | true => exact readUntilLongFramed_agree hagree rfl s₁

/-- A whole header was received: the frame holds and shows the octets that were consumed. -/
structure Received (b : Build) (f : Frame) (c : ℕ) (consumed : List Octet) : Prop where
  count : f.bytesTransferred = c
  size : ∃ o os, consumed = o :: os ∧
    c = if Wire.isLong o then maxFramingOctets else minFramingOctets
  constBuffer : f.constBuffer b = .ok ⟨0, c⟩
  exposed : f.exposed b = .ok consumed
  valid : f.valid b = .ok true

theorem Carries.received {f : Frame} {hdr : Header} (b : Build) (h : f.Carries hdr) :
    f.Received b hdr.octets.length hdr.octets where
  count := h.transferred
  size := by
    refine ⟨hdr.flags, hdr.sizeField, rfl, ?_⟩
    rw [Header.length_octets, sizeOctets]
    split_ifs <;> rfl
  constBuffer := h.constBuffer b
  exposed := h.exposed b
  valid := h.valid b

theorem Unfinished.valid {f : Frame} {xs : List Octet} (b : Build) (h : f.Unfinished xs) :
    f.valid b = .ok false := by
  rcases h with hempty | ⟨o₀, o₁, tail, -, hl, hcount, hstored⟩
  · exact valid_of_empty hempty
  · have hne : f.empty = false := by
      rw [empty, hcount]
      rfl
    have hfl : f.flagsOctet = o₀ := by
      rcases f.framing_eq_cons with ⟨os, hos⟩
      rw [hos] at hstored
      exact (List.cons.inj hstored).1
    rw [← hfl] at hl
    rw [valid_of_long hne hl, hcount]
    rfl

/-- A `read` records all of a header that arrives whole, and takes no octet more. Otherwise it
takes every octet there is and reports the stream's own error. -/
theorem read_cases (b : Build) {f : Frame} (hf : f.empty = true) (s : σ) :
    (∃ hdr f' s', f.read b s = .ok ((.value hdr.octets.length, f'), s') ∧ f'.Carries hdr ∧
      content s = hdr.octets ++ content s' ∧ failure s' = failure s) ∨
    (∃ f' s', f.read b s = .ok ((.error (failure s), f'), s') ∧ f'.Unfinished (content s) ∧
      Header.parse (content s) = none ∧ content s' = []) := by
  cases hp : Header.parse (content s) with
  | none =>
    obtain ⟨f', s', hr, hun, hs⟩ := read_truncated b hf hp
    exact Or.inr ⟨f', s', hr, hun, rfl, hs⟩
  | some p =>
    rcases p with ⟨hdr, rest⟩
    have hc := Header.eq_of_parse hp
    obtain ⟨f', s', hr, hcar, hrest, hfail⟩ := read_header b hf hc
    exact Or.inl ⟨hdr, f', s', hr, hcar, by rw [hc, hrest], hfail⟩

theorem read_count {b : Build} {f f' : Frame} (hf : f.empty = true) {s s' : σ} {rr : ReadResult}
    (h : f.read b s = .ok ((rr, f'), s')) : f'.bytesTransferred_ ≠ 1 := by
  rcases read_cases b hf s with ⟨hdr, g, t, hr, hcar, -⟩ | ⟨g, t, hr, hun, -⟩
  · rw [hr] at h
    cases h
    have hpos : 1 ≤ sizeOctets hdr.flags := by
      unfold sizeOctets
      split_ifs <;> decide
    rw [hcar.transferred, Header.length_octets]
    omega
  · rw [hr] at h
    cases h
    rcases hun with hempty | ⟨_, _, _, -, -, hcount, -⟩
    · rw [beq_iff_eq.mp hempty]
      decide
    · rw [hcount]
      decide

/-- A `read` on `f` has the result of one on a new frame, consumes the same octets and leaves a
frame that shows the same. -/
def BehavesAsNew (b : Build) (f : Frame) : Prop :=
  ∀ (τ : Type) [ReadStream τ Octet ErrorCode] (t : τ) (raw : Vector Octet maxFramingOctets),
    ∃ rr f' g' t', f.read b t = .ok ((rr, f'), t') ∧ (init raw).read b t = .ok ((rr, g'), t') ∧
      f'.Agrees g' ∧ SameView b f' g'

theorem behavesAsNew (b : Build) {f : Frame} (hf : f.empty = true) : f.BehavesAsNew b := by
  intro τ _ t raw
  obtain ⟨rr, f', g', t', hrf, hrg, hagree⟩ := read_agree b hf (g := init raw) rfl t
  refine ⟨rr, f', g', t', hrf, hrg, hagree, ?_⟩
  apply (hagree.sameView_iff b).mpr
  intro hone
  exact absurd hone (read_count hf hrf)

/-- What a frame tells after a `read`, for every stream and whatever the storage held: it is
valid exactly when a complete header was received. -/
theorem read_state (b : Build) {f : Frame} (hf : f.empty = true) (s : σ) :
    ∃ rr f' s', f.read b s = .ok ((rr, f'), s') ∧
      (f'.valid b = .ok true ↔ ∃ hdr : Header, hdr.octets <+: content s) ∧
      match rr with
      | .value c => ∃ hdr : Header, content s = hdr.octets ++ content s' ∧
          failure s' = failure s ∧ f'.Received b c hdr.octets
      | .error ec => ec = failure s ∧ (∀ hdr : Header, ¬ hdr.octets <+: content s) ∧
          content s' = [] ∧ f'.valid b = .ok false ∧
          (f'.empty = true ∧ f'.BehavesAsNew b ∨
            ∃ o₀ o₁ tail, content s = o₀ :: o₁ :: tail ∧ Wire.isLong o₀ = true ∧
              f'.bytesTransferred = 2 ∧ f'.framing_.toList.take 2 = [o₀, o₁]) := by
  rcases read_cases b hf s with ⟨hdr, f', s', hr, hcar, hc, hfail⟩ | ⟨f', s', hr, hun, hp, hs⟩
  · refine ⟨_, f', s', hr, ?_, hdr, hc, hfail, hcar.received b⟩
    exact iff_of_true (hcar.valid b) ⟨hdr, content s', hc.symm⟩
  · have hno := Header.not_prefix_of_parse_eq_none hp
    have hvalid := hun.valid b
    refine ⟨_, f', s', hr, ?_, rfl, hno, hs, hvalid, ?_⟩
    · apply iff_of_false
      · rw [hvalid]
        decide
      · rintro ⟨hdr, hpre⟩
        exact hno hdr hpre
    · rcases hun with hempty | hcut
      · exact Or.inl ⟨hempty, behavesAsNew b hempty⟩
      · exact Or.inr hcut

/-- A long header of which three octets arrive in two pieces. -/
theorem read_state_cut :
    ∃ rr f' s', (init (Vector.replicate 9 0xff)).read .debug
        (⟨[⟨[0x2], by decide⟩, ⟨[0x0, 0x0], by decide⟩], .eof⟩ : ChunkSource Octet ErrorCode) =
        .ok ((rr, f'), s') ∧
      (f'.valid .debug = .ok true ↔
        ∃ hdr : Header, hdr.octets <+: ([0x2, 0x0, 0x0] : List Octet)) ∧
      match rr with
      | .value c => ∃ hdr : Header, ([0x2, 0x0, 0x0] : List Octet) = hdr.octets ++ content s' ∧
          failure s' = .eof ∧ f'.Received .debug c hdr.octets
      | .error ec => ec = .eof ∧ (∀ hdr : Header, ¬ hdr.octets <+: ([0x2, 0x0, 0x0] : List Octet)) ∧
          content s' = [] ∧ f'.valid .debug = .ok false ∧
          (f'.empty = true ∧ f'.BehavesAsNew .debug ∨
            ∃ o₀ o₁ tail, ([0x2, 0x0, 0x0] : List Octet) = o₀ :: o₁ :: tail ∧
              Wire.isLong o₀ = true ∧ f'.bytesTransferred = 2 ∧
              f'.framing_.toList.take 2 = [o₀, o₁]) :=
  read_state .debug rfl _

end Azmqn.Wire.Frame
