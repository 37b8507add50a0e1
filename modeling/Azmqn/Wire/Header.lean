import Azmqn.Wire.Frame

/-!
# Frame headers as values

A `Header` is the flags octet together with as many size octets as its LONG bit
calls for; one that does not fit cannot be built. Parsing a header off a string
is the specification of `frame::read`, and a frame that carries a header answers
every question from it.
-/

namespace Azmqn.Wire

open Memory Xasio Streams

/-- How many size octets follow a flags octet. -/
def sizeOctets (flags : Octet) : ℕ := if isLong flags then 8 else 1

structure Header where
  flags : Octet
  sizeField : List Octet
  length_eq : sizeField.length = sizeOctets flags
  deriving DecidableEq, Repr

namespace Header

def octets (hdr : Header) : List Octet := hdr.flags :: hdr.sizeField

/-- The announced size of the body. -/
def size (hdr : Header) : ℕ := BigEndian.decode hdr.sizeField

/-- Split a header off the front of a string. -/
def parse : List Octet → Option (Header × List Octet)
  | [] => none
  | flags :: tail =>
    if h : sizeOctets flags ≤ tail.length then
      some (⟨flags, tail.take (sizeOctets flags), by simp [h]⟩, tail.drop (sizeOctets flags))
    else none

/-- The header that announces `n` octets under the given flags. -/
def announce (flags : Octet) (n : ℕ) : Header :=
  ⟨flags, BigEndian.encode (sizeOctets flags) n, BigEndian.length_encode _ _⟩

theorem sizeOctets_of_long {flags : Octet} (h : Wire.isLong flags = true) : sizeOctets flags = 8 :=
  if_pos h

theorem sizeOctets_of_short {flags : Octet} (h : Wire.isLong flags = false) :
    sizeOctets flags = 1 := by
  simp [sizeOctets, h]

theorem length_octets (hdr : Header) : hdr.octets.length = 1 + sizeOctets hdr.flags := by
  rw [octets, List.length_cons, hdr.length_eq, Nat.add_comm]

theorem size_lt (hdr : Header) : hdr.size < 2 ^ 64 := by
  have h := BigEndian.decode_lt hdr.sizeField
  have hle : (256 : ℕ) ^ hdr.sizeField.length ≤ 256 ^ 8 := by
    apply Nat.pow_le_pow_right (by decide)
    rw [hdr.length_eq, sizeOctets]
    split_ifs <;> omega
  have hpow : (256 : ℕ) ^ 8 = 2 ^ 64 := by norm_num
  rw [size]
  omega

theorem parse_octets (hdr : Header) (rest : List Octet) :
    parse (hdr.octets ++ rest) = some (hdr, rest) := by
  have h := hdr.length_eq
  simp [parse, octets, ← h]

theorem eq_of_parse {xs rest : List Octet} {hdr : Header} (h : parse xs = some (hdr, rest)) :
    xs = hdr.octets ++ rest := by
  cases xs with
  | nil => cases h
  | cons flags tail =>
    simp only [parse] at h
    split_ifs at h with hle
    simp only [Option.some.injEq, Prod.mk.injEq] at h
    rcases h with ⟨rfl, rfl⟩
    simp [octets]

/-- Nothing parses exactly when the octets end before the header does. -/
theorem parse_eq_none_iff {xs : List Octet} :
    parse xs = none ↔
      xs = [] ∨ ∃ flags tail, xs = flags :: tail ∧ tail.length < sizeOctets flags := by
  cases xs with
  | nil => simp [parse]
  | cons flags tail =>
    constructor
    · intro h
      simp only [parse] at h
      split_ifs at h with hle
      exact Or.inr ⟨flags, tail, rfl, Nat.lt_of_not_le hle⟩
    · rintro (h | ⟨f, t, h, hlt⟩)
      · cases h
      · cases h
        simp [parse, Nat.not_le.mpr hlt]

theorem not_prefix_of_parse_eq_none {xs : List Octet} (h : parse xs = none) (hdr : Header) :
    ¬ hdr.octets <+: xs := by
  rintro ⟨rest, hxs⟩
  rw [← hxs, parse_octets] at h
  cases h

theorem exists_sizeField_cons (hdr : Header) : ∃ o field, hdr.sizeField = o :: field := by
  have h := hdr.length_eq
  cases hs : hdr.sizeField with
  | nil =>
    rw [hs, List.length_nil, sizeOctets] at h
    split_ifs at h
  | cons o field => exact ⟨o, field, rfl⟩

theorem size_announce {flags : Octet} {n : ℕ} (h : n < 256 ^ sizeOctets flags) :
    (announce flags n).size = n :=
  BigEndian.decode_encode_of_lt h

/-- The LONG bit makes room for every size that needs it. -/
theorem size_announce_of_isLong {flags : Octet} {n : ℕ}
    (hl : Wire.isLong flags = decide (255 < n)) (hn : n < 2 ^ 64) :
    (announce flags n).size = n := by
  have hpow : (256 : ℕ) ^ 8 = 2 ^ 64 := by norm_num
  apply size_announce
  rw [sizeOctets, hl]
  by_cases h : 255 < n
  · rw [if_pos (decide_eq_true h), hpow]
    exact hn
  · rw [if_neg (by simpa using h)]
    omega

end Header

/-- `set_framing` writes an announcement and returns the buffer behind it. -/
theorem setFraming_append {n : ℕ} (b : Build) {mem : Vector Octet n} {pre old post : List Octet}
    {size : ℕ} (flags : Octet) (val : ℕ) (hm : mem.toList = pre ++ (old ++ post))
    (hl : old.length = 1 + sizeOctets flags) (h8 : sizeofMaxFramingOctets ≤ size)
    (hs : 1 + sizeOctets flags ≤ size) :
    ∃ mem', setFraming b mem ⟨pre.length, size⟩ flags val =
        .ok (mem', ⟨pre.length + (1 + sizeOctets flags), size - (1 + sizeOctets flags)⟩) ∧
      mem'.toList = pre ++ ((Header.announce flags val).octets ++ post) := by
  cases old with
  | nil =>
    rw [List.length_nil] at hl
    omega
  | cons o old =>
    have hold : old.length = sizeOctets flags := by
      rw [List.length_cons] at hl
      omega
    have hm' : mem.toList = pre ++ ([o] ++ (old ++ post)) := hm
    obtain ⟨mem₁, hst, ht₁⟩ := store_append [flags] hm' rfl
    have hpre : mem₁.toList = (pre ++ [flags]) ++ (old ++ post) := by
      rw [ht₁]
      simp
    have hadv : (Region.mk pre.length size).advance 1 = ⟨(pre ++ [flags]).length, size - 1⟩ := by
      have hpos : 1 ≤ size := by omega
      rw [Region.advance_of_le hpos]
      simp
    have hput (T : Unsigned) (hT : sizeOctets flags = T.sizeof) :
        ∃ mem', put b T mem₁ ((Region.mk pre.length size).advance 1) val =
            .ok (mem', ⟨pre.length + (1 + sizeOctets flags), size - (1 + sizeOctets flags)⟩) ∧
          mem'.toList = pre ++ ((Header.announce flags val).octets ++ post) := by
      have hfits : T.sizeof ≤ size - 1 := by omega
      obtain ⟨mem', hp, ht⟩ := put_append b T val hpre (hold.trans hT) hfits
      refine ⟨mem', ?_, ?_⟩
      · rw [hadv, hp, hT, List.length_append, List.length_singleton, Nat.add_assoc, Nat.sub_sub]
      · rw [ht, ← hT]
        simp [Header.octets, Header.announce]
    have hbuf : atLeastBuffer b sizeofMaxFramingOctets ⟨pre.length, size⟩ =
        .ok ⟨pre.length, size⟩ :=
      atLeastBuffer_of_le b h8
    unfold setFraming
    simp only [hbuf, Run.ok_bind, hst]
    cases hlong : Wire.isLong flags with
    | true => exact hput .uint64 (Header.sizeOctets_of_long hlong)
    | false => exact hput .uint8 (Header.sizeOctets_of_short hlong)

namespace Frame

variable {f : Frame} {hdr : Header}

/-- All of the header has been transferred into the frame. -/
structure Carries (f : Frame) (hdr : Header) : Prop where
  transferred : f.bytesTransferred_ = hdr.octets.length
  stored : ∃ rest, f.framing_.toList = hdr.octets ++ rest

/-- What a `read` that runs out of octets leaves: a frame that is still empty, or the first two
octets of a long header. -/
def Unfinished (f : Frame) (xs : List Octet) : Prop :=
  f.empty = true ∨ ∃ o₀ o₁ tail, xs = o₀ :: o₁ :: tail ∧ Wire.isLong o₀ = true ∧
    f.bytesTransferred_ = minFramingOctets ∧ f.framing_.toList.take minFramingOctets = [o₀, o₁]

theorem flagsOctet_eq {o : Octet} {os : List Octet} (h : f.framing_.toList = o :: os) :
    f.flagsOctet = o := by
  have hget : f.framing_.toList[0]? = some f.flagsOctet := by
    rw [Vector.getElem?_toList]
    rfl
  rw [h] at hget
  exact (Option.some.inj hget).symm

namespace Carries

theorem flagsOctet (h : f.Carries hdr) : f.flagsOctet = hdr.flags := by
  rcases h.stored with ⟨rest, hr⟩
  exact flagsOctet_eq hr

theorem not_empty (h : f.Carries hdr) : f.empty = false := by
  have := h.transferred
  rw [Header.length_octets] at this
  simp only [empty, beq_eq_false_iff_ne]
  omega

theorem isLong (b : Build) (h : f.Carries hdr) :
    f.isLong b = .ok (Wire.isLong hdr.flags) := by
  rw [Frame.isLong_eq (fun _ => h.not_empty), h.flagsOctet]

theorem isMore (b : Build) (h : f.Carries hdr) :
    f.isMore b = .ok (Wire.isMore hdr.flags) := by
  simp [Frame.isMore, h.not_empty, h.flagsOctet]

theorem isCommand (b : Build) (h : f.Carries hdr) :
    f.isCommand b = .ok (Wire.isCommand hdr.flags) := by
  simp [Frame.isCommand, h.not_empty, h.flagsOctet]

theorem valid (b : Build) (h : f.Carries hdr) : f.valid b = .ok true := by
  have ht := h.transferred
  rw [Header.length_octets] at ht
  unfold Frame.valid
  rw [h.not_empty, h.isLong b]
  cases hl : Wire.isLong hdr.flags with
  | false => simp
  | true =>
    rw [Header.sizeOctets_of_long hl] at ht
    simp [ht, maxFramingOctets]

theorem constBuffer (b : Build) (h : f.Carries hdr) :
    f.constBuffer b = .ok ⟨0, hdr.octets.length⟩ := by
  rw [Frame.constBuffer_eq (fun _ => h.not_empty), h.flagsOctet, Header.length_octets]
  cases hl : Wire.isLong hdr.flags with
  | false => simp [Header.sizeOctets_of_short hl, minFramingOctets]
  | true => simp [Header.sizeOctets_of_long hl, maxFramingOctets]

/-- The size octets are found behind the flags octet. -/
theorem get_size (b : Build) (h : f.Carries hdr) (T : Unsigned)
    (hT : sizeOctets hdr.flags = T.sizeof) :
    get b T f.framing_.toList ⟨1, T.sizeof⟩ = .ok (hdr.size, ⟨1 + T.sizeof, 0⟩) := by
  rcases h.stored with ⟨rest, hr⟩
  have hholds : (Region.mk 1 T.sizeof).Holds f.framing_.toList (hdr.sizeField ++ []) := by
    refine ⟨[hdr.flags], rest, ?_, ?_⟩
    · simp [hr, Header.octets]
    · simp [hdr.length_eq, hT]
  rw [get_holds b T hholds (hdr.length_eq.trans hT)]
  simp [Region.advance, Header.size]

theorem size (b : Build) (h : f.Carries hdr) : f.size b = .ok (sizeT hdr.size) := by
  unfold Frame.size
  rw [boostAssert_true b (h.valid b), h.isLong b]
  cases hl : Wire.isLong hdr.flags with
  | false => simp [h.get_size b .uint8 (Header.sizeOctets_of_short hl)]
  | true => simp [h.get_size b .uint64 (Header.sizeOctets_of_long hl)]

end Carries

section Read

variable {σ : Type} [ReadStream σ Octet ErrorCode] {s : σ}

open ReadStream

theorem readInto_enough (f : Frame) {buf : MutableBuffer} (h : buf.size ≤ (content s).length)
    (hb : buf.start + buf.size ≤ maxFramingOctets) :
    ∃ f' s', f.readInto s buf = .ok ((.value buf.size, f'), s') ∧
      f'.bytesTransferred_ = f.bytesTransferred_ ∧
      f'.framing_.toList = f.framing_.toList.take buf.start ++ (content s).take buf.size ++
        f.framing_.toList.drop (buf.start + buf.size) ∧
      content s' = (content s).drop buf.size ∧ failure s' = failure s := by
  obtain ⟨h₁, h₂, h₃⟩ := Xasio.read_enough s h
  have hlen : ((content s).take buf.size).length = buf.size := by
    rw [List.length_take, Nat.min_eq_left h]
  rw [← hlen] at hb
  obtain ⟨m, hm, ht⟩ := store_of_le f.framing_ hb
  rw [hlen] at ht
  refine ⟨{ f with framing_ := m }, (Xasio.read s buf).2, ?_, rfl, ht, h₂, h₃⟩
  simp [readInto, h₁, hm]

theorem readInto_short (f : Frame) {buf : MutableBuffer} (h : (content s).length < buf.size)
    (hb : buf.start + buf.size ≤ maxFramingOctets) :
    ∃ f' s', f.readInto s buf = .ok ((.error (failure s), f'), s') ∧
      f'.bytesTransferred_ = f.bytesTransferred_ ∧
      f'.framing_.toList.take buf.start = f.framing_.toList.take buf.start ∧
      content s' = [] := by
  obtain ⟨h₁, h₂⟩ := Xasio.read_short s h
  have hfits : buf.start + (content s).length ≤ maxFramingOctets := by omega
  obtain ⟨m, hm, -⟩ := store_of_le f.framing_ hfits
  exact ⟨{ f with framing_ := m }, (Xasio.read s buf).2, by simp [readInto, h₁, hm], rfl,
    store_take hm, h₂⟩

/-- The first step of `read`: a flags octet and one more are there. -/
theorem read_first_step (f : Frame) {o₀ o₁ : Octet} {tail : List Octet}
    (hc : content s = o₀ :: o₁ :: tail) :
    ∃ f' s', f.readInto s ⟨0, minFramingOctets⟩ = .ok ((.value minFramingOctets, f'), s') ∧
      f'.framing_.toList = o₀ :: o₁ :: f.framing_.toList.drop 2 ∧
      content s' = tail ∧ failure s' = failure s := by
  have hle : (Region.mk 0 minFramingOctets).size ≤ (content s).length := by
    simp [hc, minFramingOctets]
  obtain ⟨f', s', h₁, -, h₃, h₄, h₅⟩ := readInto_enough f hle (by decide)
  refine ⟨f', s', h₁, ?_, ?_, h₅⟩
  · simpa [hc, minFramingOctets] using h₃
  · simpa [hc, minFramingOctets] using h₄

/-- Flags and count after the first step. -/
theorem isLong_after_first (b : Build) {f : Frame} {o₀ : Octet} {os : List Octet}
    (h : f.framing_.toList = o₀ :: os) :
    (f.setSize minFramingOctets).isLong b = .ok (Wire.isLong o₀) := by
  have hne : (f.setSize minFramingOctets).empty = false := rfl
  have hfl : (f.setSize minFramingOctets).flagsOctet = o₀ := flagsOctet_eq h
  simp [Frame.isLong, hne, hfl]

/-- The second step of `read`: the other octets of a long header are there. -/
theorem readUntilLongFramed_enough {f : Frame} (hf : f.bytesTransferred_ = minFramingOctets)
    {field rest : List Octet} (hc : content s = field ++ rest)
    (hfield : field.length = maxFramingOctets - minFramingOctets) :
    ∃ f' s', f.readUntilLongFramed s = .ok ((.value maxFramingOctets, f'), s') ∧
      f'.bytesTransferred_ = maxFramingOctets ∧
      f'.framing_.toList = f.framing_.toList.take minFramingOctets ++ field ∧
      content s' = rest ∧ failure s' = failure s := by
  have hle : (Region.mk minFramingOctets (maxFramingOctets - minFramingOctets)).size ≤
      (content s).length := by
    rw [hc, List.length_append, hfield]
    exact Nat.le_add_right _ _
  obtain ⟨f', s', h, hcount, hstored, hrest, hfail⟩ := readInto_enough f hle (by decide)
  have hend : f.framing_.toList.drop (minFramingOctets + (maxFramingOctets - minFramingOctets)) =
      [] := by
    apply List.drop_of_length_le
    rw [Vector.length_toList]
    decide
  rw [hc, ← hfield, List.take_left, hfield, hend, List.append_nil] at hstored
  rw [hc, ← hfield, List.drop_left] at hrest
  rw [hf] at hcount
  have hsum : minFramingOctets + (maxFramingOctets - minFramingOctets) = maxFramingOctets := rfl
  refine ⟨f'.setSize maxFramingOctets, s', ?_, rfl, hstored, hrest, hfail⟩
  simp [readUntilLongFramed, h, hcount, setSize, hsum]

theorem readUntilLongFramed_short (f : Frame)
    (h : (content s).length < maxFramingOctets - minFramingOctets) :
    ∃ f' s', f.readUntilLongFramed s = .ok ((.error (failure s), f'), s') ∧
      f'.bytesTransferred_ = f.bytesTransferred_ ∧
      f'.framing_.toList.take minFramingOctets = f.framing_.toList.take minFramingOctets ∧
      content s' = [] := by
  have hshort : (content s).length <
      (Region.mk minFramingOctets (maxFramingOctets - minFramingOctets)).size := h
  obtain ⟨f', s', hr, hcount, hstored, hrest⟩ := readInto_short f hshort (by decide)
  exact ⟨f', s', by simp [readUntilLongFramed, hr], hcount, hstored, hrest⟩

/-- `read` after its first step. -/
theorem read_eq (b : Build) {f f₁ : Frame} {s₁ : σ} (hf : f.empty = true)
    (h : f.readInto s ⟨0, minFramingOctets⟩ = .ok ((.value minFramingOctets, f₁), s₁))
    {o₀ : Octet} {os : List Octet} (hstored : f₁.framing_.toList = o₀ :: os) :
    f.read b s =
      if Wire.isLong o₀ then (f₁.setSize minFramingOctets).readUntilLongFramed s₁
      else .ok ((.value minFramingOctets, f₁.setSize minFramingOctets), s₁) := by
  have hlong := isLong_after_first b hstored
  simp [read, hf, h, hlong]

/-- A stream that holds a whole header is read up to its end. -/
theorem read_header (b : Build) {f : Frame} (hf : f.empty = true) {hdr : Header}
    {rest : List Octet} (hc : content s = hdr.octets ++ rest) :
    ∃ f' s', f.read b s = .ok ((.value hdr.octets.length, f'), s') ∧ f'.Carries hdr ∧
      content s' = rest ∧ failure s' = failure s := by
  rcases hdr.exists_sizeField_cons with ⟨o₁, field, hfield⟩
  have hlen := hdr.length_eq
  rw [hfield, List.length_cons] at hlen
  have hoct : hdr.octets = hdr.flags :: o₁ :: field := by rw [Header.octets, hfield]
  rw [hoct] at hc ⊢
  obtain ⟨f₁, s₁, h₁, hs₁, hc₁, hfail₁⟩ := read_first_step f hc
  rw [read_eq b hf h₁ hs₁]
  cases hl : Wire.isLong hdr.flags with
  | false =>
    rw [Header.sizeOctets_of_short hl] at hlen
    obtain rfl : field = [] := List.eq_nil_of_length_eq_zero (by omega)
    refine ⟨f₁.setSize minFramingOctets, s₁, rfl, ⟨?_, f.framing_.toList.drop 2, ?_⟩, hc₁, hfail₁⟩
    · rw [hoct]
      rfl
    · rw [hoct]
      exact hs₁
  | true =>
    rw [Header.sizeOctets_of_long hl] at hlen
    have h7 : field.length = maxFramingOctets - minFramingOctets := Nat.succ.inj hlen
    have hcount : (f₁.setSize minFramingOctets).bytesTransferred_ = minFramingOctets := rfl
    obtain ⟨f₂, s₂, h₂, hb₂, hs₂, hc₂, hfail₂⟩ := readUntilLongFramed_enough hcount hc₁ h7
    have hstored : f₂.framing_.toList = hdr.flags :: o₁ :: field := by
      rw [hs₂]
      change f₁.framing_.toList.take 2 ++ field = _
      rw [hs₁]
      rfl
    have hnine : (hdr.flags :: o₁ :: field).length = maxFramingOctets := by
      rw [List.length_cons, List.length_cons, h7]
      rfl
    refine ⟨f₂, s₂, ?_, ⟨?_, [], ?_⟩, hc₂, hfail₂.trans hfail₁⟩
    · rw [hnine]
      exact h₂
    · rw [hoct, hnine, hb₂]
    · rw [hoct, List.append_nil]
      exact hstored

/-- A stream that ends inside the header makes `read` report the stream's error. -/
theorem read_truncated (b : Build) {f : Frame} (hf : f.empty = true)
    (hc : Header.parse (content s) = none) :
    ∃ f' s', f.read b s = .ok ((.error (failure s), f'), s') ∧ f'.Unfinished (content s) ∧
      content s' = [] := by
  by_cases hlen : (content s).length < (Region.mk 0 minFramingOctets).size
  · obtain ⟨f₁, s₁, h₁, hb₁, -, hc₁⟩ := readInto_short f hlen (by decide)
    have hempty : f₁.empty = true := by
      rw [empty, hb₁]
      exact hf
    exact ⟨f₁, s₁, by simp [read, hf, h₁], Or.inl hempty, hc₁⟩
  · rcases Header.parse_eq_none_iff.mp hc with h0 | ⟨flags, tail, htail, hlt⟩
    · simp [h0, minFramingOctets] at hlen
    · cases tail with
      | nil => simp [htail, minFramingOctets] at hlen
      | cons o₁ tail =>
        have hl : Wire.isLong flags = true := by
          by_contra hn
          rw [Header.sizeOctets_of_short (by simpa using hn), List.length_cons] at hlt
          omega
        rw [Header.sizeOctets_of_long hl, List.length_cons] at hlt
        obtain ⟨f₁, s₁, h₁, hs₁, hc₁, hfail₁⟩ := read_first_step f htail
        have hshort : (content s₁).length < maxFramingOctets - minFramingOctets := by
          rw [hc₁]
          exact Nat.lt_of_succ_lt_succ hlt
        obtain ⟨f₂, s₂, h₂, hb₂, hs₂, hc₂⟩ :=
          readUntilLongFramed_short (f₁.setSize minFramingOctets) hshort
        have hstored : f₂.framing_.toList.take minFramingOctets = [flags, o₁] := by
          rw [hs₂]
          change f₁.framing_.toList.take 2 = _
          rw [hs₁]
          rfl
        refine ⟨f₂, s₂, ?_, Or.inr ⟨flags, o₁, tail, htail, hl, hb₂, hstored⟩, hc₂⟩
        rw [read_eq b hf h₁ hs₁, if_pos hl, h₂, hfail₁]

end Read

end Frame

end Azmqn.Wire
