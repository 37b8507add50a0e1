import Azmqn.Transport.MetadataDecode

/-!
# Malformed metadata

Every string is some properties and a rest in which no further one is found.
When the rest is cut inside a name or inside a value, the decoder notices; when
it is cut between them, or inside the length of the value, `get_value` asks for
four octets that are not there.
-/

namespace Azmqn.Transport

open Memory Xasio Wire

/-- The string ends behind a name, before four octets tell the length of its value. -/
def CutInValueLength (xs : List Octet) : Prop :=
  ∃ (ps : List Property) (name : LengthPrefixed 1) (tail : List Octet),
    xs = Property.code.encodeAll ps ++ (name.encode ++ tail) ∧ tail.length < 4

namespace PropView

variable {b : Build} {mem : List Octet} {buf : ConstBuffer}

theorem fromBuffer_nameCut {len tail : List Octet} (h : buf.Holds mem (len ++ tail))
    (hl : len.length = 1) (hc : tail.length < BigEndian.decode len) :
    ∃ p buf', fromBuffer b mem buf none = .ok ((p, buf'), some .messageSize) := by
  obtain ⟨buf', hname⟩ := getField_cut (b := b) (T := .uint8) h hl hc
  exact ⟨⟨⟨0, 0⟩, ⟨0, 0⟩⟩, buf', by simp [fromBuffer, getName, hname]⟩

theorem fromBuffer_valueCut (name : LengthPrefixed 1) {len tail : List Octet}
    (h : buf.Holds mem (name.encode ++ (len ++ tail))) (hl : len.length = 4)
    (hc : tail.length < BigEndian.decode len) :
    ∃ p buf', fromBuffer b mem buf none = .ok ((p, buf'), some .messageSize) := by
  obtain ⟨buf₁, hname, -, h₁, -, -⟩ :=
    getField_encode (b := b) (T := .uint8) (w := 1) rfl name h
  obtain ⟨buf', hvalue⟩ := getField_cut (b := b) (T := .uint32) h₁ hl hc
  exact ⟨⟨⟨0, 0⟩, ⟨0, 0⟩⟩, ⟨0, 0⟩, by simp [fromBuffer, getName, getValue, hname, hvalue]⟩

/-- The length of the value is read from a buffer that is too short. -/
theorem fromBuffer_valueLengthCut (name : LengthPrefixed 1) {tail : List Octet}
    (h : buf.Holds mem (name.encode ++ tail)) (hend : buf.start + buf.size = mem.length)
    (hc : tail.length < 4) : fromBuffer b mem buf none = .error (shortBuffer b) := by
  obtain ⟨buf₁, hname, -, h₁, -, hend₁⟩ :=
    getField_encode (b := b) (T := .uint8) (w := 1) rfl name h
  have hsize := h₁.size_eq
  have hget := get_short b .uint32 (hend₁.trans hend) (hsize.trans_lt hc)
  have hvalue : getField b .uint32 mem buf₁ = .error (shortBuffer b) := by
    simp [getField, hget]
  simp [fromBuffer, getName, getValue, hname, hvalue]

/-- Where no property is found, and something is left, the parser reports the size, unless
it runs into the length of the value. -/
theorem fromBuffer_missing {rest : List Octet} (h : buf.Holds mem rest) (hne : rest ≠ [])
    (hp : Property.code.parse rest = none) :
    (∃ p buf', fromBuffer b mem buf none = .ok ((p, buf'), some .messageSize)) ∨
      ∃ (name : LengthPrefixed 1) (tail : List Octet),
        rest = name.encode ++ tail ∧ tail.length < 4 := by
  rcases (ExactCode.prod_parse_eq_none_iff _ _).mp hp with hname | ⟨name, tail, rfl, hvalue⟩
  · rcases LengthPrefixed.parse_eq_none_iff.mp hname with hlt | ⟨len, tail, rfl, hl, hc⟩
    · exact absurd (List.eq_nil_of_length_eq_zero (Nat.lt_one_iff.mp hlt)) hne
    · exact Or.inl (fromBuffer_nameCut h hl hc)
  · rcases LengthPrefixed.parse_eq_none_iff.mp hvalue with hlt | ⟨len, tail, rfl, hl, hc⟩
    · exact Or.inr ⟨name, tail, rfl, hlt⟩
    · exact Or.inl (fromBuffer_valueCut name h hl hc)

end PropView

namespace Metadata

/-- The error is reported as it should be: no failure, the empty metadata, `message_size`, and
the loop needs at most one iteration for every five octets and one more. -/
def RejectsCleanly (b : Build) (buf : BackedBuffer) : Prop :=
  ∀ iters, buf.size / 5 + 1 ≤ iters →
    ∃ m, fromBuffer b iters buf none = .ok (m, some .messageSize) ∧ m.octets = .ok [] ∧
      ∀ name, m.index name = .ok none

/-- Behind the properties that are found, the loop makes one more attempt. -/
theorem ofBuffer_rest (b : Build) {buf : BackedBuffer} {ps : List Property} {rest : List Octet}
    (hbuf : buf.v_ = Property.code.encodeAll ps ++ rest) (hne : rest ≠ []) {iters : ℕ}
    (hi : buf.size / 5 + 1 ≤ iters) :
    ∃ cursor : ConstBuffer, cursor.Holds buf.v_ rest ∧
      cursor.start + cursor.size = buf.v_.length ∧
      (∀ e, PropView.fromBuffer b buf.v_ cursor none = .error e → ofBuffer b iters buf = .error e) ∧
      ∀ p buf', PropView.fromBuffer b buf.v_ cursor none = .ok ((p, buf'), some .messageSize) →
        ofBuffer b iters buf = .error (.systemError .messageSize) := by
  have hholds := buf.buffer_holds
  nth_rewrite 2 [hbuf] at hholds
  have hlen := congrArg List.length hbuf
  have hcount := Property.length_le_encodeAll ps
  rw [List.length_append] at hlen
  change buf.size = _ at hlen
  obtain ⟨k, rfl⟩ : ∃ k, iters = ps.length + (k + 1) := ⟨iters - ps.length - 1, by omega⟩
  obtain ⟨cursor, hrest, hend, -, hloop⟩ :=
    PropsVec.fromBuffer_encodeAll (b := b) (k + 1) ps buf.buffer [] hholds
  have hsize : cursor.size ≠ 0 := by
    rw [hrest.size_eq]
    exact fun h => hne (List.eq_nil_of_length_eq_zero h)
  have hof : ofBuffer b (ps.length + (k + 1)) buf = (do
      let props ← PropsVec.fromBuffer b buf.v_ (k + 1) cursor ([] ++ PropView.views 0 ps)
      pure ⟨some ⟨buf, props⟩⟩) := by
    unfold ofBuffer
    rw [hloop]
    rfl
  rw [PropsVec.fromBuffer, if_neg hsize] at hof
  refine ⟨cursor, hrest, ?_, ?_, ?_⟩
  · rw [hend]
    exact Nat.zero_add _
  · intro e he
    rw [hof, he]
    rfl
  · intro p buf' hp
    rw [hof, hp]
    rfl

theorem rest_ne_nil {xs rest : List Octet} {ps : List Property}
    (hm : ∀ ps, xs ≠ Property.code.encodeAll ps)
    (h : xs = Property.code.encodeAll ps ++ rest) : rest ≠ [] := by
  intro h0
  apply hm ps
  rw [h, h0, List.append_nil]

/-- A malformed string is rejected cleanly, in either build, exactly when it is not cut
between a name and the end of the length of its value. -/
theorem rejectsCleanly_iff (b : Build) (buf : BackedBuffer)
    (hm : ∀ ps, buf.v_ ≠ Property.code.encodeAll ps) :
    RejectsCleanly b buf ↔ ¬ CutInValueLength buf.v_ := by
  constructor
  · rintro h ⟨ps, name, tail, hbuf, hc⟩
    have hne : name.encode ++ tail ≠ [] := rest_ne_nil hm hbuf
    obtain ⟨cursor, hrest, hend, herror, -⟩ := ofBuffer_rest b hbuf hne (le_refl _)
    have hshort := herror _ (PropView.fromBuffer_valueLengthCut name hrest hend hc)
    obtain ⟨m, hok, -, -⟩ := h _ (le_refl _)
    unfold fromBuffer at hok
    rw [hshort] at hok
    cases b with
    | debug => cases hok
    | ndebug => cases hok
  · intro hcut iters hi
    obtain ⟨ps, rest, hbuf, hp⟩ := Property.code.exists_encodeAll_append buf.v_
    have hne : rest ≠ [] := rest_ne_nil hm hbuf
    obtain ⟨cursor, hrest, -, -, hsystem⟩ := ofBuffer_rest b hbuf hne hi
    rcases PropView.fromBuffer_missing (b := b) hrest hne hp with
      ⟨p, buf', hmissing⟩ | ⟨name, tail, rfl, hc⟩
    · refine ⟨empty, ?_, rfl, fun _ => rfl⟩
      unfold fromBuffer
      rw [hsystem p buf' hmissing]
      rfl
    · exact absurd ⟨ps, name, tail, hbuf, hc⟩ hcut

/-- No property is that short. -/
theorem short_ne_encodeAll {xs : List Octet} (hne : xs ≠ []) (h : xs.length < 5)
    (ps : List Property) : xs ≠ Property.code.encodeAll ps := by
  rintro rfl
  have hcount := Property.length_le_encodeAll ps
  apply hne
  obtain rfl : ps = [] := List.eq_nil_of_length_eq_zero (by omega)
  rfl

/-- A name that is cut off. -/
theorem rejectsCleanly_nameCut : RejectsCleanly .debug ⟨[2, 0x41], by decide⟩ := by
  refine (rejectsCleanly_iff .debug ⟨[2, 0x41], by decide⟩
    (short_ne_encodeAll (by decide) (by decide))).mpr ?_
  rintro ⟨ps, name, tail, h, -⟩
  have hlen := congrArg List.length h
  have hcount := Property.length_le_encodeAll ps
  rw [List.length_append] at hlen
  change 2 = _ at hlen
  obtain rfl : ps = [] := List.eq_nil_of_length_eq_zero (by omega)
  have hparse := LengthPrefixed.parse_encode name tail
  change [2, 0x41] = name.encode ++ tail at h
  rw [← h] at hparse
  cases hparse

/-- One octet: an empty name, and no length of a value behind it. -/
theorem empty_name_not_rejected :
    (∀ ps, [0] ≠ Property.code.encodeAll ps) ∧ ¬ RejectsCleanly .debug ⟨[0], by decide⟩ := by
  refine ⟨short_ne_encodeAll (by decide) (by decide), ?_⟩
  intro h
  obtain ⟨m, hm, -, -⟩ := h 1 (by decide)
  cases hm

end Metadata

end Azmqn.Transport
