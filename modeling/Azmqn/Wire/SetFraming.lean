import Azmqn.Wire.Header

/-!
# What `set_framing` needs

The parameter of `set_framing` asserts `sizeof(max_framing_octets)` octets, the
eight octets of a `size_t`, where a long header has nine. The header that is
written is read back by a frame, and the asserted minimum is enough for it
unless the LONG bit is set.
-/

namespace Azmqn.Wire

open Memory Xasio

/-- The octets of a header with these flags. -/
def framingOctets (flags : Octet) : ℕ :=
  if isLong flags then maxFramingOctets else minFramingOctets

theorem framingOctets_eq (flags : Octet) : framingOctets flags = 1 + sizeOctets flags := by
  unfold framingOctets sizeOctets
  split_ifs <;> rfl

/-- The frame answers with the flags' bits and the size. -/
structure Frame.Announces (b : Build) (f : Frame) (flags : Octet) (n : ℕ) : Prop where
  valid : f.valid b = .ok true
  isLong : f.isLong b = .ok (Wire.isLong flags)
  isMore : f.isMore b = .ok (Wire.isMore flags)
  isCommand : f.isCommand b = .ok (Wire.isCommand flags)
  size : f.size b = .ok (sizeT n)

theorem Frame.Carries.announces {f : Frame} {flags : Octet} {n : ℕ} (b : Build)
    (h : f.Carries (Header.announce flags n)) (hn : n < 256 ^ sizeOctets flags) :
    f.Announces b flags n where
  valid := h.valid b
  isLong := h.isLong b
  isMore := h.isMore b
  isCommand := h.isCommand b
  size := by rw [h.size b, Header.size_announce hn]

/-- `set_framing` returns the buffer behind the header, changes nothing but the header's octets,
and a frame loaded with these is read as what was asked for. -/
def SetFramingCorrect {N : ℕ} (b : Build) (mem : Vector Octet N) (buf : MutableBuffer)
    (flags : Octet) (n : ℕ) : Prop :=
  ∃ mem' rest octets, setFraming b mem buf flags n = .ok (mem', rest) ∧
    rest = ⟨buf.start + framingOctets flags, buf.size - framingOctets flags⟩ ∧
    octets.length = framingOctets flags ∧
    mem'.toList = mem.toList.take buf.start ++
      (octets ++ mem.toList.drop (buf.start + framingOctets flags)) ∧
    ∀ f : Frame, octets <+: f.framing_.toList →
      (f.setSize octets.length).Announces b flags n

section

variable {N : ℕ} {b : Build} {mem : Vector Octet N} {buf : MutableBuffer} {flags : Octet} {n : ℕ}

theorem put_rest {mem' : Vector Octet N} {T : Unsigned} {rest : MutableBuffer}
    (h : put b T mem buf n = .ok (mem', rest)) : rest = buf.advance T.sizeof := by
  unfold put at h
  obtain ⟨buf', hbuf', hstore⟩ := Run.bind_eq_ok h
  obtain ⟨_, _, hres⟩ := Run.bind_eq_ok hstore
  rw [← atLeastBuffer_ok hbuf']
  exact (congrArg Prod.snd (Except.ok.inj hres)).symm

/-- Where a long header ends, if it is written at all. -/
theorem setFraming_long_rest {mem' : Vector Octet N} {rest : MutableBuffer}
    (hl : isLong flags = true) (h : setFraming b mem buf flags n = .ok (mem', rest)) :
    rest = (buf.advance 1).advance 8 := by
  unfold setFraming at h
  obtain ⟨buf', hbuf', hstore⟩ := Run.bind_eq_ok h
  obtain ⟨_, _, hput⟩ := Run.bind_eq_ok hstore
  rw [← atLeastBuffer_ok hbuf']
  rw [if_pos hl] at hput
  exact put_rest hput

theorem setFraming_correct (hbuf : buf.start + buf.size ≤ N)
    (h8 : sizeofMaxFramingOctets ≤ buf.size) (hn : n < 256 ^ sizeOctets flags)
    (hs : framingOctets flags ≤ buf.size) : SetFramingCorrect b mem buf flags n := by
  obtain ⟨pre, old, ys, post, hpre, hold, -, hm⟩ := Region.exists_split mem hbuf hs
  have hold' := hold.trans (framingOctets_eq flags)
  have hs' : 1 + sizeOctets flags ≤ buf.size := by rwa [← framingOctets_eq]
  obtain ⟨mem', hset, ht⟩ := setFraming_append b flags n hm hold' h8 hs'
  have hreg : buf = ⟨pre.length, buf.size⟩ := by rw [hpre]
  have hlen : (Header.announce flags n).octets.length = framingOctets flags := by
    rw [framingOctets_eq]
    exact Header.length_octets _
  rw [← hreg, ← framingOctets_eq, hpre] at hset
  refine ⟨mem', _, (Header.announce flags n).octets, hset, rfl, hlen, ?_, ?_⟩
  · rw [ht, hm, ← hpre, ← hold, List.take_left, ← List.append_assoc pre old,
      ← List.length_append, List.drop_left]
  · intro f hf
    have hcar : (f.setSize (Header.announce flags n).octets.length).Carries
        (Header.announce flags n) := by
      rcases hf with ⟨rest, hrest⟩
      exact ⟨rfl, rest, hrest.symm⟩
    exact hcar.announces b hn

/-- What the parameter of `set_framing` asserts is enough for a short header; a long one needs
an octet more. -/
theorem setFraming_correct_iff (hbuf : buf.start + buf.size ≤ N)
    (h8 : sizeofMaxFramingOctets ≤ buf.size) (hn : n < 2 ^ 64)
    (hshort : isLong flags = false → n < 256) :
    SetFramingCorrect b mem buf flags n ↔ (isLong flags = true → maxFramingOctets ≤ buf.size) := by
  constructor
  · rintro ⟨mem', rest, octets, hset, hrest, -⟩ hl
    have hend := setFraming_long_rest hl hset
    by_contra hlt
    have hsize : buf.size = 8 := by
      unfold maxFramingOctets at hlt
      unfold sizeofMaxFramingOctets at h8
      omega
    have hstart : rest.start = buf.start + 8 := by simp [hend, Region.advance, hsize]
    simp [hrest, framingOctets, hl, maxFramingOctets] at hstart
  · intro h
    cases hl : isLong flags with
    | false =>
      apply setFraming_correct hbuf h8
      · rw [Header.sizeOctets_of_short hl]
        exact hshort hl
      · rw [framingOctets_eq, Header.sizeOctets_of_short hl]
        unfold sizeofMaxFramingOctets at h8
        omega
    | true =>
      apply setFraming_correct hbuf h8
      · rw [Header.sizeOctets_of_long hl]
        norm_num
        exact hn
      · rw [framingOctets_eq, Header.sizeOctets_of_long hl]
        exact h hl

end

theorem setFraming_correct_iff_nine :
    SetFramingCorrect .debug (Vector.replicate 9 0) ⟨0, 9⟩ 0x2 300 ↔
      (isLong 0x2 = true → maxFramingOctets ≤ 9) :=
  setFraming_correct_iff (by decide) (by decide) (by decide) (by decide)

/-- Eight octets meet the asserted minimum, and `put<uint64_t>` finds seven of them left. -/
theorem eight_octets_not_enough :
    setFraming .debug (Vector.replicate 8 0) ⟨0, 8⟩ 0x2 300 = .error .assertion ∧
      ¬ SetFramingCorrect .debug (Vector.replicate 8 0) ⟨0, 8⟩ 0x2 300 := by
  have h : setFraming .debug (Vector.replicate 8 0) ⟨0, 8⟩ 0x2 300 = .error .assertion := rfl
  refine ⟨h, ?_⟩
  rintro ⟨mem', rest, octets, hset, -⟩
  rw [h] at hset
  cases hset

end Azmqn.Wire
