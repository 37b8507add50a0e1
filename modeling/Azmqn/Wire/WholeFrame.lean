import Azmqn.Library.PrefixCode
import Azmqn.Wire.Header
import Azmqn.Wire.Traffic

/-!
# Whole frames

The format that readers and writers share: a header followed by exactly as many
octets as it announces. Frames are self-delimiting, and each stands for one
message or command. The lemmas relate the objects of `traffic.hpp` to the frame
that they are read from.
-/

namespace Azmqn.Wire

open Memory Xasio

structure WholeFrame where
  header : Header
  body : List Octet
  length_eq : body.length = header.size
  deriving DecidableEq, Repr

namespace WholeFrame

def octets (frame : WholeFrame) : List Octet := frame.header.octets ++ frame.body

/-- Split a frame off the front of a string. -/
def parse (xs : List Octet) : Option (WholeFrame × List Octet) :=
  match Header.parse xs with
  | none => none
  | some (hdr, rest) =>
    if h : hdr.size ≤ rest.length then
      some (⟨hdr, rest.take hdr.size, by simp [h]⟩, rest.drop hdr.size)
    else none

theorem octets_ne_nil (frame : WholeFrame) : frame.octets ≠ [] := by
  simp [octets, Header.octets]

theorem parse_octets (frame : WholeFrame) (rest : List Octet) :
    parse (frame.octets ++ rest) = some (frame, rest) := by
  have h := frame.length_eq
  rw [octets, List.append_assoc, parse, Header.parse_octets]
  simp [← h]

theorem eq_of_parse {xs rest : List Octet} {frame : WholeFrame}
    (h : parse xs = some (frame, rest)) : xs = frame.octets ++ rest := by
  unfold parse at h
  cases hp : Header.parse xs with
  | none =>
    rw [hp] at h
    cases h
  | some r =>
    rcases r with ⟨hdr, tail⟩
    rw [hp] at h
    dsimp only at h
    split_ifs at h with hle
    simp only [Option.some.injEq, Prod.mk.injEq] at h
    rcases h with ⟨rfl, rfl⟩
    rw [Header.eq_of_parse hp, octets, List.append_assoc, List.take_append_drop]

/-- The format: every string is, in one way, some frames and a rest that holds none. -/
def code : ExactCode WholeFrame Octet where
  encode := octets
  parse := parse
  encode_ne_nil := octets_ne_nil
  parse_encode := parse_octets
  encode_parse := eq_of_parse

/-- The body as an owned buffer. -/
def payload (frame : WholeFrame) : BackedBuffer :=
  ⟨frame.body, by rw [frame.length_eq]; exact frame.header.size_lt⟩

/-- The message or command that a frame carries. -/
def content (frame : WholeFrame) : MessageOrCommand :=
  if isCommand frame.header.flags then .command ⟨frame.payload⟩
  else .message ⟨frame.payload, isMore frame.header.flags⟩

end WholeFrame

theorem ReadLimit.check_carries (b : Build) (limit : ReadLimit) {f : Frame} {hdr : Header}
    (h : f.Carries hdr) :
    limit.check b f =
      .ok (if (limit.toSizeT : ℕ) < hdr.size then .error .messageSize else .value ()) := by
  have hlt : limit.toSizeT < sizeT hdr.size ↔ (limit.toSizeT : ℕ) < hdr.size := by
    rw [Fin.lt_def, sizeT_val hdr.size_lt]
  unfold ReadLimit.check
  rw [h.size b, Run.ok_bind]
  by_cases hl : (limit.toSizeT : ℕ) < hdr.size
  · rw [if_pos (hlt.mpr hl), if_pos hl]
    rfl
  · rw [if_neg (mt hlt.mp hl), if_neg hl]
    rfl

namespace MaybeMessageOrCommand

/-- A payload under the flags of a header. -/
def underHeader (hdr : Header) (payload : BackedBuffer) : MaybeMessageOrCommand :=
  if Wire.isCommand hdr.flags then .command ⟨payload⟩ else .message ⟨payload, Wire.isMore hdr.flags⟩

theorem fromFrame_carries (b : Build) (raw : ℕ → Octet) {f : Frame} {hdr : Header}
    (h : f.Carries hdr) :
    fromFrame b raw f = .ok (underHeader hdr (.ofCapacity raw (sizeT hdr.size))) := by
  unfold fromFrame underHeader
  rw [boostAssert_true b (h.valid b), h.isCommand b, h.size b, h.isMore b]
  cases Wire.isCommand hdr.flags <;> rfl

theorem buffer_underHeader (hdr : Header) (payload : BackedBuffer) :
    (underHeader hdr payload).buffer = payload.buffer := by
  unfold underHeader
  split_ifs <;> rfl

theorem fill_underHeader (hdr : Header) (payload : BackedBuffer) {payload' : BackedBuffer}
    {xs : List Octet} (h : payload.fill xs = .ok payload') :
    (underHeader hdr payload).fill xs = .ok (underHeader hdr payload') := by
  unfold underHeader
  split_ifs <;> simp [fill, h]

theorem detach_underHeader (b : Build) (frame : WholeFrame) :
    (underHeader frame.header frame.payload).detach b = .ok frame.content := by
  unfold underHeader WholeFrame.content detach
  split_ifs <;> simp [empty]

end MaybeMessageOrCommand

theorem ReadableMessageOrCommand.mutableBuffer_carries (b : Build) (raw : ℕ → Octet)
    {r : ReadableMessageOrCommand} {hdr : Header} (h : r.f_.Carries hdr) :
    r.mutableBuffer b raw = .ok (⟨0, hdr.size⟩, { r with
      data_ := .underHeader hdr (.ofCapacity raw (sizeT hdr.size)) }) := by
  unfold mutableBuffer
  rw [boostAssert_true b (h.valid b), MaybeMessageOrCommand.fromFrame_carries b raw h]
  simp [MaybeMessageOrCommand.buffer_underHeader, BackedBuffer.buffer, sizeT_val hdr.size_lt]

end Azmqn.Wire
