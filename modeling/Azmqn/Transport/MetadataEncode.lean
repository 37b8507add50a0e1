import Azmqn.Transport.MetadataDecode

/-!
# Encoding metadata

`from_props` writes the length of a name as eight octets, since it is a `size_t`,
and never moves its cursor over a name or a value. The lengths of all properties
therefore end up next to each other at the front of the buffer. Eight octets for
the length of a short name begin with seven zeros, which a decoder takes for a
property with an empty name and an empty value; only the empty list comes back.
-/

namespace Azmqn.Transport

open Memory Xasio Wire

/-- What `from_props` leaves of a property in front of the cursor. -/
def PropT.lengths (v : PropT) : List Octet :=
  BigEndian.encode 8 v.name.length ++ BigEndian.encode 4 v.value.length

/-- A `put` at a cursor that ends with the storage, when it succeeds. -/
theorem put_ok {n : ℕ} {b : Build} {T : Unsigned} {mem mem' : Vector Octet n}
    {buf buf' : MutableBuffer} {val : ℕ} (hend : buf.start + buf.size = n)
    (h : put b T mem buf val = .ok (mem', buf')) :
    buf'.start = buf.start + T.sizeof ∧ buf'.start + buf'.size = n ∧
      mem'.toList.take buf'.start =
        mem.toList.take buf.start ++ BigEndian.encode T.sizeof val := by
  unfold put at h
  obtain ⟨buf₁, hbuf, hput⟩ := Run.bind_eq_ok h
  rw [atLeastBuffer_ok hbuf] at hput
  obtain ⟨mem₁, hst, hret⟩ := Run.bind_eq_ok hput
  cases hret
  have hb := store_bound hst
  have htake := store_take_add hst
  rw [BigEndian.length_encode] at hb htake
  have hle : T.sizeof ≤ buf.size := by omega
  rw [Region.advance_of_le hle]
  refine ⟨rfl, ?_, htake⟩
  dsimp only
  omega

namespace Metadata

theorem putProps_take {n : ℕ} {b : Build} {mem mem' : Vector Octet n} {buf : MutableBuffer}
    {props : List PropT} (hend : buf.start + buf.size = n)
    (h : putProps b mem buf props = .ok mem') :
    ∃ tail, mem'.toList = mem.toList.take buf.start ++ (props.flatMap PropT.lengths ++ tail) := by
  induction props generalizing mem buf with
  | nil =>
    obtain rfl : mem = mem' := Except.ok.inj h
    exact ⟨mem.toList.drop buf.start, (List.take_append_drop _ _).symm⟩
  | cons v props ih =>
    obtain ⟨⟨m₁, buf₁⟩, hput₁, h⟩ := Run.bind_eq_ok h
    obtain ⟨m₂, hcopy₂, h⟩ := Run.bind_eq_ok h
    obtain ⟨⟨m₃, buf₃⟩, hput₃, h⟩ := Run.bind_eq_ok h
    obtain ⟨m₄, hcopy₄, h⟩ := Run.bind_eq_ok h
    obtain ⟨-, hend₁, htake₁⟩ := put_ok hend hput₁
    obtain ⟨-, hend₃, htake₃⟩ := put_ok hend₁ hput₃
    have htake₂ := store_take hcopy₂
    have htake₄ := store_take hcopy₄
    obtain ⟨tail, htail⟩ := ih hend₃ h
    refine ⟨tail, ?_⟩
    rw [htail, htake₄, htake₃, htake₂, htake₁, List.flatMap_cons, PropT.lengths]
    simp only [List.append_assoc]
    rfl

end Metadata

namespace Property

/-- The property with an empty name and an empty value, five zeros on the wire. -/
def blank : Property := (⟨[], by decide⟩, ⟨[], by decide⟩)

theorem encode_blank : code.encode blank = List.replicate 5 0 := rfl

theorem lengths_blank : blank.toPropT.lengths = List.replicate 12 0 := rfl

/-- Five zeros are read as the blank property, whatever follows. -/
theorem eq_blank_of_zeros {p : Property} {xs ys : List Octet}
    (h : List.replicate 5 0 ++ xs = code.encode p ++ ys) : p = blank ∧ xs = ys := by
  rw [← encode_blank] at h
  have hparse := congrArg code.parse h
  rw [code.parse_encode, code.parse_encode, Option.some.injEq, Prod.mk.injEq] at hparse
  exact ⟨hparse.1.symm, hparse.2⟩

/-- Zeros in front put the lengths of properties off their encodings for good: each blank
property takes five of them and brings twelve. -/
theorem zeros_ne_encodeAll (ps : List Property) (tail : List Octet) {m : ℕ} (hm : 5 ≤ m) :
    List.replicate m 0 ++ ((ps.map toPropT).flatMap PropT.lengths ++ tail) ≠
      code.encodeAll ps := by
  intro h
  induction ps generalizing m with
  | nil =>
    have hlen := congrArg List.length h
    simp at hlen
    omega
  | cons p ps ih =>
    obtain ⟨k, rfl⟩ := Nat.exists_eq_add_of_le hm
    rw [List.replicate_add, List.append_assoc, PrefixCode.encodeAll_cons] at h
    obtain ⟨rfl, hrest⟩ := eq_blank_of_zeros h
    rw [List.map_cons, List.flatMap_cons, lengths_blank, List.append_assoc, ← List.append_assoc,
      ← List.replicate_add] at hrest
    exact ih (by omega) hrest

/-- No list but the empty one begins with its own lengths. -/
theorem eq_nil_of_lengths {ps : List Property} {tail : List Octet}
    (h : (ps.map toPropT).flatMap PropT.lengths ++ tail = code.encodeAll ps) : ps = [] := by
  cases ps with
  | nil => rfl
  | cons p ps =>
    have hname : p.name.length < 256 ^ 1 := p.1.length_lt
    have hzeros : BigEndian.encode 8 p.name.length =
        List.replicate 7 0 ++ BigEndian.encode 1 p.name.length :=
      BigEndian.encode_add_of_lt 7 hname
    -- Of the seven zeros, five are the first property and two the start of the next one.
    have hfront : (List.map toPropT (p :: ps)).flatMap PropT.lengths ++ tail =
        List.replicate 5 0 ++ (List.replicate 2 0 ++ (BigEndian.encode 1 p.name.length ++
          BigEndian.encode 4 p.value.length ++
          ((ps.map toPropT).flatMap PropT.lengths ++ tail))) := by
      rw [List.map_cons, List.flatMap_cons, PropT.lengths]
      change BigEndian.encode 8 p.name.length ++ _ ++ _ ++ _ = _
      rw [hzeros, List.replicate_add 5 2]
      simp only [List.append_assoc]
      rfl
    rw [hfront, PrefixCode.encodeAll_cons] at h
    obtain ⟨rfl, hrest⟩ := eq_blank_of_zeros h
    exact absurd hrest (zeros_ne_encodeAll ps tail (m := 7) (by omega))

end Property

namespace Metadata

/-- Properties given to `from_props` come back: the metadata's octets are their encodings, as
many as were precomputed, `from_buffer` accepts these, and both objects answer alike. -/
def RoundTrips (b : Build) (raw : ℕ → Octet) (ps : List Property) : Prop :=
  ∃ iters m m' buf, fromProps b iters raw (ps.map Property.toPropT) = .ok m ∧
    m.octets = .ok (Property.code.encodeAll ps) ∧
    (propsSize (ps.map Property.toPropT) : ℕ) = (Property.code.encodeAll ps).length ∧
    buf.v_ = Property.code.encodeAll ps ∧ fromBuffer b iters buf none = .ok (m', none) ∧
    ∀ name, m.value name =
        .ok ((ps.find? (fun p => decide (name = p.name))).map Property.value) ∧
      m'.value name = .ok ((ps.find? (fun p => decide (name = p.name))).map Property.value)

theorem octets_fromProps {b : Build} {iters : ℕ} {raw : ℕ → Octet} {props : List PropT}
    {m : Metadata} (h : fromProps b iters raw props = .ok m) :
    ∃ tail, m.octets = .ok (props.flatMap PropT.lengths ++ tail) := by
  obtain ⟨mem, hput, h⟩ := Run.bind_eq_ok h
  obtain ⟨tail, htail⟩ := putProps_take (Nat.zero_add _) hput
  obtain ⟨views, -, h⟩ := Run.bind_eq_ok h
  cases h
  refine ⟨tail, ?_⟩
  rw [← List.nil_append (props.flatMap PropT.lengths ++ tail)]
  change load mem.toList 0 mem.toList.length = _
  rw [load_holds (Region.holds_whole mem.toList), htail]
  rfl

theorem RoundTrips.eq_nil {b : Build} {raw : ℕ → Octet} {ps : List Property}
    (h : RoundTrips b raw ps) : ps = [] := by
  rcases h with ⟨iters, m, -, -, hm, hoctets, -⟩
  obtain ⟨tail, htail⟩ := octets_fromProps hm
  rw [htail] at hoctets
  exact Property.eq_nil_of_lengths (Except.ok.inj hoctets)

/-- The empty list comes back, and no other one does. -/
theorem fromProps_roundTrips_iff (b : Build) (raw : ℕ → Octet) (ps : List Property) :
    RoundTrips b raw ps ↔ ps = [] := by
  constructor
  · exact RoundTrips.eq_nil
  · rintro rfl
    exact ⟨0, ⟨some ⟨⟨[], by decide⟩, []⟩⟩, ⟨some ⟨⟨[], by decide⟩, []⟩⟩, ⟨[], by decide⟩,
      rfl, rfl, rfl, rfl, rfl, fun _ => ⟨rfl, rfl⟩⟩

/-- The name and the value of a socket's type. -/
theorem socket_type_not_roundTrips :
    ¬ RoundTrips .ndebug (fun _ => 0)
      [(⟨[0x53, 0x6f, 0x63, 0x6b, 0x65, 0x74, 0x2d, 0x54, 0x79, 0x70, 0x65], by decide⟩,
        ⟨[0x52, 0x45, 0x51], by decide⟩)] := by
  intro h
  have hnil := h.eq_nil
  cases hnil

end Metadata

end Azmqn.Transport
