import Azmqn.Wire.WholeFrame

/-!
# How messages are framed

The frame of a message, stated on its own, and the proof that
`buffer_sequence` exposes exactly its octets. The count that `set_framing`
returns is the payload's length, and it ends up as the size of the frame; when
that is harmless is the last result.
-/

namespace Azmqn.Wire

open Memory Xasio

namespace MessageT

/-- The flags octet that a message travels under. -/
def flags (m : MessageT) : Octet :=
  (if m.more then 0x1 else 0x0) ||| (if 255 < m.base.size then 0x2 else 0x0)

theorem isLong_flags (m : MessageT) : isLong m.flags = decide (255 < m.base.size) := by
  unfold flags
  cases m.more <;> by_cases h : 255 < m.base.size <;> simp only [h] <;> decide

theorem isMore_flags (m : MessageT) : isMore m.flags = m.more := by
  unfold flags
  cases m.more <;> by_cases h : 255 < m.base.size <;> simp only [h] <;> decide

theorem isCommand_flags (m : MessageT) : isCommand m.flags = false := by
  unfold flags
  cases m.more <;> by_cases h : 255 < m.base.size <;> simp only [h] <;> decide

def header (m : MessageT) : Header := Header.announce m.flags m.base.size

theorem sizeOctets_flags (m : MessageT) :
    sizeOctets m.flags = if 255 < m.base.size then 8 else 1 := by
  rw [sizeOctets, isLong_flags]
  simp

theorem length_header (m : MessageT) :
    m.header.octets.length = if 255 < m.base.size then 9 else 2 := by
  have hflags : m.header.flags = m.flags := rfl
  rw [Header.length_octets, hflags, sizeOctets_flags]
  split_ifs
  · rfl
  · rfl

theorem size_header (m : MessageT) : m.header.size = m.base.size := by
  apply Header.size_announce_of_isLong
  · exact m.isLong_flags
  · exact m.base.size_lt

/-- The frame that carries a message. -/
def frame (m : MessageT) : WholeFrame := ⟨m.header, m.base.v_, m.size_header.symm⟩

theorem size_le_limit (m : MessageT) {limit : ReadLimit} (hl : (m.base.size : ℤ) ≤ limit.val_) :
    m.frame.header.size ≤ limit.toSizeT := by
  have hsize : m.frame.header.size = m.base.size := m.size_header
  rwa [hsize, ← Nat.not_lt, limit.toSizeT_lt_iff, Int.not_lt]

theorem content_frame (m : MessageT) : m.frame.content = .message m := by
  have hc : isCommand m.frame.header.flags = false := m.isCommand_flags
  have hm : isMore m.frame.header.flags = m.more := m.isMore_flags
  unfold WholeFrame.content
  rw [hc, hm]
  rfl

/-- The flags that `traffic` puts together for a message; one call of its `get_flags` does. -/
theorem getFlags_eq (depth : ℕ) (m : MessageT) :
    Traffic.getFlags (depth + 1) m = .ok (m.getFlags.toOctet) := rfl

theorem flags_eq (m : MessageT) :
    (Traffic.selector MessageT).toOctet ||| m.getFlags.toOctet ||| Traffic.isLong m = m.flags := by
  have hs : Traffic.size m = m.base.size := rfl
  unfold flags getFlags Traffic.isLong
  rw [hs]
  cases m.more <;> by_cases h : 255 < m.base.size <;> simp only [maxSmallSize, h] <;> decide

theorem setFraming_eq (b : Build) (depth : ℕ) (m : MessageT)
    (mem : Vector Octet maxFramingOctets) :
    ∃ buf mem' rest, Traffic.setFraming b (depth + 1) m mem ⟨0, maxFramingOctets⟩ =
        .ok ((m.base.size, buf), mem') ∧ mem'.toList = m.header.octets ++ rest := by
  have hle : 1 + sizeOctets m.flags ≤ maxFramingOctets := by
    rw [sizeOctets_flags]
    split_ifs <;> decide
  have hsize : Traffic.size m = m.base.size := rfl
  have hmin : sizeofMaxFramingOctets ≤ maxFramingOctets := by decide
  have hlen : (mem.toList.take (1 + sizeOctets m.flags)).length = 1 + sizeOctets m.flags := by
    rw [List.length_take, Vector.length_toList, Nat.min_eq_left hle]
  have hsplit : mem.toList = [] ++ (mem.toList.take (1 + sizeOctets m.flags) ++
      mem.toList.drop (1 + sizeOctets m.flags)) := by
    rw [List.nil_append, List.take_append_drop]
  obtain ⟨mem', h, ht⟩ := setFraming_append b m.flags m.base.size hsplit hlen hmin hle
  rw [List.length_nil, Nat.zero_add] at h
  refine ⟨⟨1 + sizeOctets m.flags, maxFramingOctets - (1 + sizeOctets m.flags)⟩, mem',
    mem.toList.drop (1 + sizeOctets m.flags), ?_, ht⟩
  unfold Traffic.setFraming
  rw [atLeastBuffer_of_le b hmin, getFlags_eq]
  simp only [Run.ok_bind, flags_eq, hsize, h]
  rfl

end MessageT

namespace WritableMessageOrCommand

variable {w : WritableMessageOrCommand} {m : MessageT}

/-- `buffer_sequence` exposes the header and the payload. The assertion of `const_buffer`
takes the payload's length for the frame's. -/
theorem bufferSequence_message {b : Build} (depth : ℕ) (h : w.data_ = .message m)
    (hb : b = .debug → m.base.size ≠ 0) :
    ∃ w' rest, w.bufferSequence b (depth + 1) =
        .ok (⟨⟨0, m.header.octets.length⟩, m.base.buffer⟩, w') ∧ w'.data_ = w.data_ ∧
      w'.f_.bytesTransferred_ = m.base.size ∧
      w'.f_.framing_.toList = m.header.octets ++ rest := by
  obtain ⟨buf, mem, rest, hset, ht⟩ := m.setFraming_eq b depth w.f_.framing_
  have hflags : (Frame.setSize { w.f_ with framing_ := mem } m.base.size).flagsOctet = m.flags :=
    Frame.flagsOctet_eq ht
  have hne : b = .debug →
      (Frame.setSize { w.f_ with framing_ := mem } m.base.size).empty = false := by
    intro hd
    exact beq_eq_false_iff_ne.mpr (hb hd)
  refine ⟨⟨Frame.setSize { w.f_ with framing_ := mem } m.base.size, w.data_⟩, rest, ?_, rfl, rfl,
    ht⟩
  unfold bufferSequence
  simp only [h, MaybeMessageOrCommand.setFraming, Frame.mutableBuffer, hset, Run.ok_bind,
    Run.pure_eq, Frame.constBuffer_eq hne, hflags, m.isLong_flags, m.length_header,
    decide_eq_true_eq]
  rfl

theorem bufferSequence_empty (depth : ℕ) (h : w.data_ = .message m) (h0 : m.base.size = 0) :
    w.bufferSequence .debug (depth + 1) = .error .assertion := by
  obtain ⟨buf, mem, rest, hset, -⟩ := m.setFraming_eq .debug depth w.f_.framing_
  unfold bufferSequence
  simp only [h, MaybeMessageOrCommand.setFraming, Frame.mutableBuffer, hset, Run.ok_bind, h0]
  rfl

theorem gather_message {w : WritableMessageOrCommand} {rest : List Octet} (h : w.data_ = .message m)
    (hf : w.f_.framing_.toList = m.header.octets ++ rest) :
    w.gather ⟨⟨0, m.header.octets.length⟩, m.base.buffer⟩ = .ok m.frame.octets := by
  have hload := load_append [] m.header.octets rest
  rw [List.nil_append, List.length_nil, ← hf] at hload
  have hdata : load w.data_.octets m.base.buffer.start m.base.buffer.size = .ok m.base.v_ := by
    rw [h]
    exact load_holds m.base.buffer_holds
  simp [gather, hload, hdata, WholeFrame.octets, MessageT.frame]

/-- What the write path should do for a message in a debug build: fail no assertion and
leave a valid frame that counts its own octets and tells the payload's length. -/
def LeavesConsistentHeader (raw : Vector Octet maxFramingOctets) (depth : ℕ) (m : MessageT) :
    Prop :=
  ∃ bufs w, (ofMessage raw m).bufferSequence .debug depth = .ok (bufs, w) ∧
    w.f_.valid .debug = .ok true ∧
    bufs.framing.size = (if m.base.size ≤ 255 then 2 else 9) ∧
    w.f_.bytesTransferred = bufs.framing.size ∧
    w.f_.size .debug = .ok (sizeT m.base.size)

/-- The count left in the frame is the payload's length. -/
theorem LeavesConsistentHeader.size_eq {raw : Vector Octet maxFramingOctets} {depth : ℕ}
    {m : MessageT} (h : LeavesConsistentHeader raw (depth + 1) m) : m.base.size = 2 := by
  rcases h with ⟨bufs, w, hw, -, hsize, hcount, -⟩
  by_cases h0 : m.base.size = 0
  · rw [bufferSequence_empty depth rfl h0] at hw
    cases hw
  · obtain ⟨w', rest, hw', -, hb, -⟩ := bufferSequence_message (w := ofMessage raw m) (b := .debug)
      depth rfl (fun _ => h0)
    rw [hw] at hw'
    simp only [Except.ok.injEq, Prod.mk.injEq] at hw'
    rcases hw' with ⟨rfl, rfl⟩
    rw [hsize] at hcount
    change w.f_.bytesTransferred_ = _ at hcount
    rw [hb] at hcount
    split_ifs at hcount <;> omega

/-- The frame is left consistent exactly when the payload is as long as a short header. -/
theorem leavesConsistentHeader_iff (raw : Vector Octet maxFramingOctets) (depth : ℕ)
    (m : MessageT) : LeavesConsistentHeader raw (depth + 1) m ↔ m.base.size = 2 := by
  constructor
  · exact LeavesConsistentHeader.size_eq
  · intro h2
    obtain ⟨w, rest, hw, -, hb, ht⟩ := bufferSequence_message (w := ofMessage raw m) (b := .debug)
      depth rfl (by omega)
    have hlen : m.header.octets.length = 2 := by
      rw [m.length_header, if_neg (by omega)]
    have hcar : w.f_.Carries m.header := ⟨by rw [hb, h2, hlen], rest, ht⟩
    refine ⟨_, w, hw, hcar.valid .debug, ?_, ?_, ?_⟩
    · rw [if_pos (by omega)]
      exact hlen
    · exact hcar.transferred
    · rw [hcar.size .debug, m.size_header]

/-- Three octets of payload: the frame claims to hold three octets of header. -/
theorem three_octets_leave_inconsistent_header :
    ¬ LeavesConsistentHeader (Vector.replicate maxFramingOctets 0) 1
      ⟨⟨[0x61, 0x62, 0x63], by decide⟩, false⟩ := by
  intro h
  have h2 := h.size_eq
  exact absurd h2 (by decide)

end WritableMessageOrCommand

end Azmqn.Wire
