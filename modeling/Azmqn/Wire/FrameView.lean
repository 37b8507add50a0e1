import Azmqn.Wire.Header

/-!
# What a frame shows of its storage

Two frames agree when they have the same count of transferred octets and the same
octets up to it; what lies behind is whatever the storage held. A frame ought to
show nothing of that. `valid` sees to it for a long header, and for a short one
of which both octets were transferred.
-/

namespace Azmqn.Wire

open Memory Xasio Streams

namespace Frame

/-- The octet `framing_[1]`. -/
def sizeOctet (f : Frame) : Octet := f.framing_.get ⟨1, by decide⟩

/-- The octets that `const_buffer()` exposes. -/
def exposed (b : Build) (f : Frame) : Run (List Octet) := do
  let buf ← f.constBuffer b
  load f.framing_.toList buf.start buf.size

/-- The same count, and the same octets up to it. -/
structure Agrees (f g : Frame) : Prop where
  transferred : f.bytesTransferred_ = g.bytesTransferred_
  stored : f.framing_.toList.take f.bytesTransferred_ =
    g.framing_.toList.take f.bytesTransferred_

/-- `valid()` holds of both or of neither, and then all the accessors answer the same. -/
structure SameView (b : Build) (f g : Frame) : Prop where
  valid : f.valid b = g.valid b
  size : f.valid b = .ok true → f.size b = g.size b
  isLong : f.valid b = .ok true → f.isLong b = g.isLong b
  isMore : f.valid b = .ok true → f.isMore b = g.isMore b
  isCommand : f.valid b = .ok true → f.isCommand b = g.isCommand b
  exposed : f.valid b = .ok true → f.exposed b = g.exposed b

theorem framing_eq_cons (f : Frame) :
    ∃ os, f.framing_.toList = f.flagsOctet :: f.sizeOctet :: os := by
  have hlen : f.framing_.toList.length = 9 := Vector.length_toList
  have h₁ : f.framing_.toList[1]? = some f.sizeOctet := by
    rw [Vector.getElem?_toList]
    rfl
  cases hl : f.framing_.toList with
  | nil => simp [hl] at hlen
  | cons o₀ os =>
    cases os with
    | nil => simp [hl] at hlen
    | cons o₁ os =>
      rw [hl] at h₁
      rw [flagsOctet_eq hl]
      exact ⟨os, by rw [← Option.some.inj h₁]⟩

section Accessors

variable {b : Build} {f g : Frame}

theorem valid_of_empty (hf : f.empty = true) : f.valid b = .ok false := by
  simp [valid, hf]

theorem valid_of_long (hf : f.empty = false) (hl : Wire.isLong f.flagsOctet = true) :
    f.valid b = .ok (decide (maxFramingOctets ≤ f.bytesTransferred_)) := by
  have hlong := isLong_eq (b := b) (fun _ => hf)
  by_cases hn : f.bytesTransferred_ < maxFramingOctets
  · simp [valid, hf, hlong, hl, hn, Nat.not_le.mpr hn]
  · simp [valid, hf, hlong, hl, hn, Nat.not_lt.mp hn]

theorem valid_of_short (hf : f.empty = false) (hs : Wire.isLong f.flagsOctet = false) :
    f.valid b = .ok true := by
  simp [valid, hf, isLong_eq (fun _ => hf), hs]

theorem size_of_short (hf : f.empty = false) (hs : Wire.isLong f.flagsOctet = false) :
    f.size b = .ok (sizeT f.sizeOctet.toNat) := by
  rcases f.framing_eq_cons with ⟨os, hos⟩
  have hholds : (Region.mk 1 Unsigned.uint8.sizeof).Holds f.framing_.toList
      ([f.sizeOctet] ++ []) := ⟨[f.flagsOctet], os, hos, rfl⟩
  have hget := get_holds b .uint8 hholds rfl
  have hdec : BigEndian.decode [f.sizeOctet] = f.sizeOctet.toNat := by
    simp [BigEndian.decode]
  rw [hdec] at hget
  simp [size, boostAssert_true b (valid_of_short hf hs), isLong_eq (fun _ => hf), hs, hget]

theorem exposed_of_short (hf : f.empty = false) (hs : Wire.isLong f.flagsOctet = false) :
    f.exposed b = .ok [f.flagsOctet, f.sizeOctet] := by
  rcases f.framing_eq_cons with ⟨os, hos⟩
  have hload := load_append [] [f.flagsOctet, f.sizeOctet] os
  rw [exposed, constBuffer_eq (fun _ => hf), hs, Run.ok_bind, hos]
  exact hload

theorem Carries.exposed {hdr : Header} (h : f.Carries hdr) (b : Build) :
    f.exposed b = .ok hdr.octets := by
  rcases h.stored with ⟨rest, hr⟩
  rw [Frame.exposed, h.constBuffer b, Run.ok_bind, hr]
  exact load_append [] hdr.octets rest

end Accessors

namespace Agrees

variable {f g : Frame}

theorem empty (h : f.Agrees g) : f.empty = g.empty := by
  rw [Frame.empty, Frame.empty, h.transferred]

theorem flagsOctet (h : f.Agrees g) (hf : f.empty = false) : f.flagsOctet = g.flagsOctet := by
  rcases f.framing_eq_cons with ⟨os, hos⟩
  rcases g.framing_eq_cons with ⟨ps, hps⟩
  have hs := h.stored
  cases hn : f.bytesTransferred_ with
  | zero => simp [Frame.empty, hn] at hf
  | succ n =>
    rw [hos, hps, hn] at hs
    exact (List.cons.inj hs).1

theorem sizeOctet (h : f.Agrees g) (hn : 2 ≤ f.bytesTransferred_) : f.sizeOctet = g.sizeOctet := by
  rcases f.framing_eq_cons with ⟨os, hos⟩
  rcases g.framing_eq_cons with ⟨ps, hps⟩
  have hs := h.stored
  obtain ⟨n, hn⟩ := Nat.exists_eq_add_of_le' hn
  rw [hos, hps, hn] at hs
  exact (List.cons.inj (List.cons.inj hs).2).1

/-- Frames of which every octet was transferred are equal. -/
theorem eq_of_full (h : f.Agrees g) (hn : maxFramingOctets ≤ f.bytesTransferred_) : f = g := by
  have hs := h.stored
  have hf : f.framing_.toList.length ≤ f.bytesTransferred_ := by
    rw [Vector.length_toList]
    exact hn
  have hg : g.framing_.toList.length ≤ f.bytesTransferred_ := by
    rw [Vector.length_toList]
    exact hn
  rw [List.take_of_length_le hf, List.take_of_length_le hg, Vector.toList_inj] at hs
  rcases f with ⟨x, n⟩
  rcases g with ⟨y, m⟩
  cases hs
  cases h.transferred
  rfl

theorem sameView_of_empty (b : Build) (h : f.Agrees g) (hf : f.empty = true) :
    SameView b f g := by
  have hg : g.empty = true := h.empty ▸ hf
  constructor
  · rw [valid_of_empty hf, valid_of_empty hg]
  all_goals
    rw [valid_of_empty hf]
    exact fun hv => absurd hv (by decide)

theorem sameView_of_long (b : Build) (h : f.Agrees g) (hf : f.empty = false)
    (hl : Wire.isLong f.flagsOctet = true) : SameView b f g := by
  by_cases hn : maxFramingOctets ≤ f.bytesTransferred_
  · rw [h.eq_of_full hn]
    constructor <;> simp
  · have hinvalid : f.valid b ≠ .ok true := by
      rw [valid_of_long hf hl, decide_eq_false hn]
      decide
    have hg : g.empty = false := h.empty ▸ hf
    have hlg : Wire.isLong g.flagsOctet = true := h.flagsOctet hf ▸ hl
    constructor
    · rw [valid_of_long hf hl, valid_of_long hg hlg, h.transferred]
    all_goals exact fun hv => absurd hv hinvalid

theorem sameView_of_short (b : Build) (h : f.Agrees g) (hf : f.empty = false)
    (hs : Wire.isLong f.flagsOctet = false) (ho : f.sizeOctet = g.sizeOctet) :
    SameView b f g := by
  have hg : g.empty = false := h.empty ▸ hf
  have hfl := h.flagsOctet hf
  have hsg : Wire.isLong g.flagsOctet = false := hfl ▸ hs
  constructor
  · rw [valid_of_short hf hs, valid_of_short hg hsg]
  · intro _
    rw [size_of_short hf hs, size_of_short hg hsg, ho]
  · intro _
    rw [isLong_eq (fun _ => hf), isLong_eq (fun _ => hg), hfl]
  · intro _
    simp [Frame.isMore, hf, hg, hfl]
  · intro _
    simp [Frame.isCommand, hf, hg, hfl]
  · intro _
    rw [exposed_of_short hf hs, exposed_of_short hg hsg, hfl, ho]

/-- Two frames that agree on what was transferred show the same, unless that is the flags octet
of a short header alone and the octets behind it differ. -/
theorem sameView_iff (b : Build) (h : f.Agrees g) :
    SameView b f g ↔
      (f.bytesTransferred_ = 1 → Wire.isLong f.flagsOctet = true ∨ f.sizeOctet = g.sizeOctet) := by
  constructor
  · intro hview hn
    have hf : f.empty = false := by
      rw [Frame.empty, hn]
      rfl
    cases hs : Wire.isLong f.flagsOctet with
    | true => exact Or.inl rfl
    | false =>
      have hg : g.empty = false := h.empty ▸ hf
      have hsg : Wire.isLong g.flagsOctet = false := h.flagsOctet hf ▸ hs
      have hexp := hview.exposed (valid_of_short hf hs)
      rw [exposed_of_short hf hs, exposed_of_short hg hsg] at hexp
      exact Or.inr (List.cons.inj (List.cons.inj (Except.ok.inj hexp)).2).1
  · intro hcond
    cases hf : f.empty with
    | true => exact h.sameView_of_empty b hf
    | false =>
      cases hl : Wire.isLong f.flagsOctet with
      | true => exact h.sameView_of_long b hf hl
      | false =>
        apply h.sameView_of_short b hf hl
        by_cases hn : f.bytesTransferred_ = 1
        · simpa [hl] using hcond hn
        · apply h.sizeOctet
          have hpos : f.bytesTransferred_ ≠ 0 := by simpa [Frame.empty] using hf
          omega

end Agrees

theorem sameView_iff_short_header :
    SameView .debug ⟨(Vector.replicate 9 0).set 1 3, 2⟩
        ⟨(Vector.replicate 9 7).set 0 0 |>.set 1 3, 2⟩ ↔
      (2 = 1 → Wire.isLong 0 = true ∨ (3 : Octet) = 3) :=
  Agrees.sameView_iff .debug ⟨rfl, rfl⟩

/-- With the flags octet of a short header alone, `valid()` holds and `size()` is an octet that
nobody transferred. -/
theorem one_octet_shows_storage :
    Agrees ⟨Vector.replicate 9 0, 1⟩ ⟨(Vector.replicate 9 0).set 1 7, 1⟩ ∧
      valid .debug ⟨Vector.replicate 9 0, 1⟩ = .ok true ∧
      size .debug ⟨Vector.replicate 9 0, 1⟩ = .ok 0 ∧
      size .debug ⟨(Vector.replicate 9 0).set 1 7, 1⟩ = .ok 7 ∧
      ¬ SameView .debug ⟨Vector.replicate 9 0, 1⟩ ⟨(Vector.replicate 9 0).set 1 7, 1⟩ := by
  have hv : valid .debug ⟨Vector.replicate 9 0, 1⟩ = .ok true := rfl
  have hf : size .debug ⟨Vector.replicate 9 0, 1⟩ = .ok 0 := rfl
  have hg : size .debug ⟨(Vector.replicate 9 0).set 1 7, 1⟩ = .ok 7 := rfl
  refine ⟨⟨rfl, rfl⟩, hv, hf, hg, ?_⟩
  intro h
  have hs := h.size hv
  rw [hf, hg] at hs
  exact absurd (Except.ok.inj hs) (by decide)

end Frame

end Azmqn.Wire
