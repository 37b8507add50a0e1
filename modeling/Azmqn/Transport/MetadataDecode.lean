import Azmqn.Library.LengthPrefix
import Azmqn.Transport.Metadata

/-!
# Decoding metadata

A property is a name behind one octet of length and a value behind four. The
decoder is followed through its three nested parsers: each consumes exactly the
encoding of what it finds, so the loop finds the properties of a concatenation
in order, at their own positions, and stops at its end.
-/

namespace Azmqn.Transport

open Memory Xasio Wire

/-- A name of at most 255 octets and a value of fewer than `2 ^ 32`. -/
abbrev Property := LengthPrefixed 1 × LengthPrefixed 4

namespace Property

def name (p : Property) : List Octet := p.1.octets

def value (p : Property) : List Octet := p.2.octets

def toPropT (p : Property) : PropT := ⟨p.name, p.value⟩

/-- The encoding of properties. -/
def code : ExactCode Property Octet :=
  (LengthPrefixed.code 1 (by decide)).prod (LengthPrefixed.code 4 (by decide))

theorem encode_eq (p : Property) :
    code.encode p = p.1.encode ++ p.2.encode := rfl

theorem length_encode (p : Property) :
    (code.encode p).length = 5 + p.name.length + p.value.length := by
  rw [encode_eq, List.length_append, LengthPrefixed.length_encode, LengthPrefixed.length_encode]
  unfold name value
  omega

/-- Every property takes five octets at least. -/
theorem length_le_encodeAll (ps : List Property) : 5 * ps.length ≤ (code.encodeAll ps).length := by
  induction ps with
  | nil => exact Nat.le_refl 0
  | cons p ps ih =>
    rw [PrefixCode.encodeAll_cons, List.length_append, length_encode, List.length_cons]
    omega

end Property

section GetField

variable {b : Build} {T : Unsigned} {w : ℕ} {mem rest : List Octet} {buf : ConstBuffer}

/-- A whole field is found where it lies. -/
theorem getField_encode (hw : T.sizeof = w) (field : LengthPrefixed w)
    (h : buf.Holds mem (field.encode ++ rest)) :
    ∃ buf', getField b T mem buf = .ok (some ⟨buf.start + w, field.octets.length⟩, buf') ∧
      (Region.mk (buf.start + w) field.octets.length).Holds mem field.octets ∧
      buf'.Holds mem rest ∧ buf'.start = buf.start + (w + field.octets.length) ∧
      buf'.start + buf'.size = buf.start + buf.size := by
  have hlen := BigEndian.length_encode w field.octets.length
  rw [LengthPrefixed.encode, List.append_assoc] at h
  have hget := get_holds b T h (hlen.trans hw.symm)
  have hsize := h.size_eq
  rw [List.length_append, List.length_append, hlen] at hsize
  have hbehind := h.right
  rw [hlen] at hbehind
  have hfits : w ≤ buf.size := by omega
  have hadv := Region.advance_of_le hfits
  rw [hw, hadv] at hget
  rw [hadv] at hbehind
  have hle : field.octets.length ≤ buf.size - w := by omega
  refine ⟨_, ?_, hbehind.left, hbehind.right, ?_, ?_⟩
  · simp only [getField, hget, Run.ok_bind, field.decode_length, if_neg (Nat.not_lt.mpr hle)]
    rfl
  · rw [Region.advance_of_le hle]
    exact Nat.add_assoc _ _ _
  · rw [Region.advance_of_le hle]
    dsimp only
    omega

/-- A field that is cut behind its length is missing. -/
theorem getField_cut {len tail : List Octet} (h : buf.Holds mem (len ++ tail))
    (hl : len.length = T.sizeof) (hc : tail.length < BigEndian.decode len) :
    ∃ buf', getField b T mem buf = .ok (none, buf') := by
  have hget := get_holds b T h hl
  have hsize := h.right.size_eq
  rw [hl] at hsize
  refine ⟨buf.advance T.sizeof, ?_⟩
  simp only [getField, hget, Run.ok_bind, hsize, if_pos hc]
  rfl

end GetField

namespace PropView

variable {b : Build} {mem rest : List Octet} {buf : ConstBuffer}

/-- The views of properties whose encodings begin at a position. -/
def views : ℕ → List Property → List PropView
  | _, [] => []
  | pos, p :: ps =>
    ⟨⟨pos + 1, p.name.length⟩, ⟨pos + 1 + p.name.length + 4, p.value.length⟩⟩ ::
      views (pos + (Property.code.encode p).length) ps

/-- A view refers to the name and the value of a property. -/
def Shows (mem : List Octet) (view : PropView) (p : Property) : Prop :=
  view.name.Holds mem p.name ∧ view.value.Holds mem p.value

theorem fromBuffer_encode (p : Property) (h : buf.Holds mem (Property.code.encode p ++ rest)) :
    ∃ view buf', fromBuffer b mem buf none = .ok ((view, buf'), none) ∧
      view = ⟨⟨buf.start + 1, p.name.length⟩,
        ⟨buf.start + 1 + p.name.length + 4, p.value.length⟩⟩ ∧
      view.Shows mem p ∧ buf'.Holds mem rest ∧
      buf'.start = buf.start + (Property.code.encode p).length ∧
      buf'.start + buf'.size = buf.start + buf.size := by
  rw [Property.encode_eq, List.append_assoc] at h
  obtain ⟨buf₁, hname, hshow, h₁, hstart₁, hend₁⟩ :=
    getField_encode (b := b) (T := .uint8) (w := 1) rfl p.1 h
  obtain ⟨buf₂, hvalue, hshow', h₂, hstart₂, hend₂⟩ :=
    getField_encode (b := b) (T := .uint32) (w := 4) rfl p.2 h₁
  rw [← Nat.add_assoc] at hstart₁
  rw [hstart₁] at hvalue hshow'
  refine ⟨_, buf₂, ?_, rfl, ⟨hshow, hshow'⟩, h₂, ?_, hend₂.trans hend₁⟩
  · simp only [fromBuffer, getName, getValue, hname, hvalue, Run.ok_bind, Run.pure_eq]
    rfl
  · rw [hstart₂, hstart₁, Property.length_encode]
    unfold Property.name Property.value
    omega

end PropView

/-- The loop consumes the encodings of properties one iteration each, and goes on behind them. -/
theorem PropsVec.fromBuffer_encodeAll {b : Build} {mem rest : List Octet} (iters : ℕ)
    (ps : List Property) (buf : ConstBuffer) (res : List PropView)
    (h : buf.Holds mem (Property.code.encodeAll ps ++ rest)) :
    ∃ buf', buf'.Holds mem rest ∧ buf'.start + buf'.size = buf.start + buf.size ∧
      List.Forall₂ (PropView.Shows mem) (PropView.views buf.start ps) ps ∧
      fromBuffer b mem (ps.length + iters) buf res =
        fromBuffer b mem iters buf' (res ++ PropView.views buf.start ps) := by
  induction ps generalizing buf res with
  | nil => exact ⟨buf, h, rfl, .nil, by simp [PropView.views]⟩
  | cons p ps ih =>
    rw [PrefixCode.encodeAll_cons, List.append_assoc] at h
    obtain ⟨view, buf₁, hp, hview, hshow, h₁, hstart, hend⟩ :=
      PropView.fromBuffer_encode (b := b) p h
    obtain ⟨buf', hrest, hend', hshows, hloop⟩ := ih buf₁ (res ++ [view]) h₁
    have hsize : buf.size ≠ 0 := by
      have hs := h.size_eq
      rw [List.length_append, Property.length_encode] at hs
      omega
    rw [hstart] at hshows hloop
    refine ⟨buf', hrest, hend'.trans hend, ?_, ?_⟩
    · rw [hview] at hshow
      exact .cons hshow hshows
    · rw [List.length_cons, Nat.succ_add_eq_add_succ, Nat.add_succ, fromBuffer, if_neg hsize]
      simp only [hp, Run.ok_bind]
      rw [hloop, hview, List.append_assoc]
      rfl

/-- The loop stops where nothing is left. -/
theorem PropsVec.fromBuffer_nil {b : Build} {mem : List Octet} {buf : ConstBuffer} (iters : ℕ)
    (res : List PropView) (h : buf.Holds mem []) : fromBuffer b mem iters buf res = .ok res := by
  have hsize : buf.size = 0 := h.size_eq
  unfold fromBuffer
  rw [if_pos hsize]
  rfl

namespace Metadata

variable {mem : List Octet}

theorem find_shows (name : List Octet) {views : List PropView} {ps : List Property}
    (h : List.Forall₂ (PropView.Shows mem) views ps) :
    (ps.find? (fun p => decide (name = p.name)) = none ∧ find mem name views = .ok none) ∨
      ∃ p buf, ps.find? (fun p => decide (name = p.name)) = some p ∧
        find mem name views = .ok (some buf) ∧ buf.Holds mem p.value := by
  induction h with
  | nil => exact Or.inl ⟨rfl, rfl⟩
  | @cons view p views ps hshow _ ih =>
    have hload := load_holds hshow.1
    by_cases hn : name = p.name
    · refine Or.inr ⟨p, view.value, ?_, ?_, hshow.2⟩
      · simp [hn]
      · simp [find, hload, hn]
    · simpa [find, hload, hn] using ih

theorem ofBuffer_encodeAll (b : Build) {ps : List Property} {buf : BackedBuffer}
    (hbuf : buf.v_ = Property.code.encodeAll ps) {iters : ℕ} (hi : ps.length ≤ iters) :
    ofBuffer b iters buf = .ok ⟨some ⟨buf, PropView.views 0 ps⟩⟩ ∧
      List.Forall₂ (PropView.Shows buf.v_) (PropView.views 0 ps) ps := by
  have hholds := buf.buffer_holds
  nth_rewrite 2 [hbuf] at hholds
  rw [← List.append_nil (Property.code.encodeAll ps)] at hholds
  obtain ⟨buf', hrest, -, hshows, hloop⟩ :=
    PropsVec.fromBuffer_encodeAll (b := b) (iters - ps.length) ps buf.buffer [] hholds
  rw [Nat.add_sub_cancel' hi, PropsVec.fromBuffer_nil _ _ hrest] at hloop
  refine ⟨?_, hshows⟩
  unfold ofBuffer
  rw [hloop]
  rfl

theorem value_shows {buf : BackedBuffer} {views : List PropView} {ps : List Property}
    (h : List.Forall₂ (PropView.Shows buf.v_) views ps) (name : List Octet) :
    value ⟨some ⟨buf, views⟩⟩ name =
      .ok ((ps.find? (fun p => decide (name = p.name))).map Property.value) := by
  rcases find_shows name h with ⟨hnone, hf⟩ | ⟨p, view, hsome, hf, hholds⟩
  · simp [value, index, hf, hnone]
  · simp [value, index, hf, hsome, storage, load_holds hholds]

/-- `from_buffer` on the encodings of properties: it succeeds in every build, keeps the
octets, views each name and value at its own position, answers with the first property of
a name, and there is no other list of properties that the octets could stand for. -/
theorem fromBuffer_faithful (b : Build) (ps : List Property) (buf : BackedBuffer)
    (hbuf : buf.v_ = Property.code.encodeAll ps) (iters : ℕ) (hi : ps.length ≤ iters) :
    ∃ m, fromBuffer b iters buf none = .ok (m, none) ∧
      m.pimpl_ = some ⟨buf, PropView.views 0 ps⟩ ∧
      List.Forall₂ (PropView.Shows buf.v_) (PropView.views 0 ps) ps ∧
      m.octets = .ok buf.v_ ∧
      (∀ name, m.value name =
        .ok ((ps.find? (fun p => decide (name = p.name))).map Property.value)) ∧
      ∀ qs, buf.v_ = Property.code.encodeAll qs → qs = ps := by
  obtain ⟨hof, hshows⟩ := ofBuffer_encodeAll b hbuf hi
  refine ⟨⟨some ⟨buf, PropView.views 0 ps⟩⟩, ?_, rfl, hshows, ?_, ?_, ?_⟩
  · unfold fromBuffer
    rw [hof]
    rfl
  · exact load_holds buf.buffer_holds
  · intro name
    exact value_shows hshows name
  · intro qs hqs
    exact Property.code.encodeAll_injective (hqs.symm.trans hbuf)

/-- Two properties of one name; the second one has an empty value. -/
theorem fromBuffer_faithful_repeated :
    ∃ m, fromBuffer .debug 2
        ⟨[1, 0x41, 0, 0, 0, 2, 0x58, 0x59, 1, 0x41, 0, 0, 0, 0], by decide⟩ none = .ok (m, none) ∧
      m.value [0x41] = .ok (some [0x58, 0x59]) := by
  obtain ⟨m, hm, -, -, -, hvalue, -⟩ := fromBuffer_faithful .debug
    [(⟨[0x41], by decide⟩, ⟨[0x58, 0x59], by decide⟩), (⟨[0x41], by decide⟩, ⟨[], by decide⟩)]
    ⟨[1, 0x41, 0, 0, 0, 2, 0x58, 0x59, 1, 0x41, 0, 0, 0, 0], by decide⟩ (by decide) 2 (by decide)
  exact ⟨m, hm, hvalue [0x41]⟩

end Metadata
end Azmqn.Transport
