import Azmqn.Wire.Endian

/-!
# Schedules of `put` and `get`

Values of mixed widths written one behind another, each `put` into the buffer
that the one before returned, and read back the same way. A schedule lays its
values out without gaps, so on lists of octets of the right length writing and
reading are inverse to each other.
-/

namespace Azmqn.Wire

open Memory Xasio

/-- An unsigned type and a value within its range. -/
structure Field where
  T : Unsigned
  val : ℕ
  val_lt : val < 256 ^ T.sizeof
  deriving DecidableEq, Repr

/-- The octets that a list of widths takes. -/
def totalSize (Ts : List Unsigned) : ℕ := (Ts.map Unsigned.sizeof).sum

/-- `put` the values in order, each into the buffer the previous one returned. -/
def putAll {n : ℕ} (b : Build) : List Field → Vector Octet n → MutableBuffer →
    Run (Vector Octet n × MutableBuffer)
  | [], mem, buf => pure (mem, buf)
  | f :: fs, mem, buf => do
    let (mem, buf) ← put b f.T mem buf f.val
    putAll b fs mem buf

/-- `get` the widths in order, each from the buffer the previous one returned. -/
def getAll (b : Build) (mem : List Octet) : List Unsigned → ConstBuffer →
    Run (List ℕ × ConstBuffer)
  | [], buf => pure ([], buf)
  | T :: Ts, buf => do
    let (val, buf) ← get b T mem buf
    let (vals, buf) ← getAll b mem Ts buf
    pure (val :: vals, buf)

namespace Field

def octets (f : Field) : List Octet := BigEndian.encode f.T.sizeof f.val

/-- The value that given octets stand for. -/
def ofOctets (T : Unsigned) (xs : List Octet) (h : xs.length = T.sizeof) : Field :=
  ⟨T, BigEndian.decode xs, h ▸ BigEndian.decode_lt xs⟩

@[simp] theorem length_octets (f : Field) : f.octets.length = f.T.sizeof :=
  BigEndian.length_encode _ _

theorem decode_octets (f : Field) : BigEndian.decode f.octets = f.val :=
  BigEndian.decode_encode_of_lt f.val_lt

@[simp] theorem octets_ofOctets {T : Unsigned} {xs : List Octet} (h : xs.length = T.sizeof) :
    (ofOctets T xs h).octets = xs := by
  have hw : (ofOctets T xs h).T.sizeof = xs.length := h.symm
  rw [octets, hw]
  exact BigEndian.encode_decode xs

end Field

/-- The values of a schedule, one directly behind another. -/
def layout (fs : List Field) : List Octet := fs.flatMap Field.octets

@[simp] theorem layout_cons (f : Field) (fs : List Field) :
    layout (f :: fs) = f.octets ++ layout fs := rfl

@[simp] theorem totalSize_nil : totalSize [] = 0 := rfl

@[simp] theorem totalSize_cons (T : Unsigned) (Ts : List Unsigned) :
    totalSize (T :: Ts) = T.sizeof + totalSize Ts := rfl

@[simp] theorem length_layout (fs : List Field) :
    (layout fs).length = totalSize (fs.map Field.T) := by
  induction fs with
  | nil => rfl
  | cons f fs ih => simp [ih]

/-- Octets of the right number are the layout of some schedule. -/
theorem exists_layout (Ts : List Unsigned) {xs : List Octet} (h : xs.length = totalSize Ts) :
    ∃ fs : List Field, fs.map Field.T = Ts ∧ layout fs = xs := by
  induction Ts generalizing xs with
  | nil =>
    obtain rfl := List.eq_nil_of_length_eq_zero h
    exact ⟨[], rfl, rfl⟩
  | cons T Ts ih =>
    rw [totalSize_cons] at h
    have hfront : (xs.take T.sizeof).length = T.sizeof := by
      rw [List.length_take]
      omega
    have hback : (xs.drop T.sizeof).length = totalSize Ts := by
      rw [List.length_drop]
      omega
    obtain ⟨fs, hT, hxs⟩ := ih hback
    refine ⟨Field.ofOctets T (xs.take T.sizeof) hfront :: fs, ?_, ?_⟩
    · rw [List.map_cons, hT]
      rfl
    · rw [layout_cons, hxs, Field.octets_ofOctets, List.take_append_drop]

theorem putAll_append {n : ℕ} (b : Build) (fs : List Field) {mem : Vector Octet n}
    {pre old post : List Octet} {size : ℕ} (hm : mem.toList = pre ++ (old ++ post))
    (hl : old.length = totalSize (fs.map Field.T)) (hs : totalSize (fs.map Field.T) ≤ size) :
    ∃ mem', putAll b fs mem ⟨pre.length, size⟩ =
        .ok (mem', ⟨pre.length + totalSize (fs.map Field.T),
          size - totalSize (fs.map Field.T)⟩) ∧
      mem'.toList = pre ++ (layout fs ++ post) := by
  induction fs generalizing mem pre old size with
  | nil =>
    obtain rfl := List.eq_nil_of_length_eq_zero hl
    exact ⟨mem, rfl, hm⟩
  | cons f fs ih =>
    rw [List.map_cons, totalSize_cons] at hl hs
    have hold := List.take_append_drop f.T.sizeof old
    have hm₁ : mem.toList =
        pre ++ (old.take f.T.sizeof ++ (old.drop f.T.sizeof ++ post)) := by
      rw [hm, ← List.append_assoc (old.take f.T.sizeof), hold]
    have hl₁ : (old.take f.T.sizeof).length = f.T.sizeof := by
      rw [List.length_take]
      omega
    have hl₂ : (old.drop f.T.sizeof).length = totalSize (fs.map Field.T) := by
      rw [List.length_drop]
      omega
    have hs₁ : f.T.sizeof ≤ size := by omega
    have hs₂ : totalSize (fs.map Field.T) ≤ size - f.T.sizeof := by omega
    obtain ⟨mem₁, hput, ht₁⟩ := put_append b f.T f.val hm₁ hl₁ hs₁
    -- what the next `put` finds in front of it now ends with this value
    have hm₂ : mem₁.toList = (pre ++ f.octets) ++ (old.drop f.T.sizeof ++ post) := by
      rw [ht₁, List.append_assoc]
      rfl
    obtain ⟨mem₂, hputs, ht₂⟩ := ih hm₂ hl₂ hs₂
    rw [List.length_append, Field.length_octets] at hputs
    refine ⟨mem₂, ?_, ?_⟩
    · simp only [putAll, hput, Run.ok_bind, hputs, List.map_cons, totalSize_cons, Nat.add_assoc,
        Nat.sub_sub]
    · rw [ht₂, layout_cons, List.append_assoc, List.append_assoc]

theorem getAll_holds (b : Build) (fs : List Field) {mem ys : List Octet} {buf : ConstBuffer}
    (h : buf.Holds mem (layout fs ++ ys)) :
    getAll b mem (fs.map Field.T) buf =
      .ok (fs.map Field.val, buf.advance (totalSize (fs.map Field.T))) := by
  induction fs generalizing buf with
  | nil => simp [getAll, Region.advance]
  | cons f fs ih =>
    rw [layout_cons, List.append_assoc] at h
    have hget := get_holds b f.T h f.length_octets
    have hrest := h.right
    rw [Field.length_octets] at hrest
    have hgets := ih hrest
    rw [Region.advance_advance] at hgets
    simp only [List.map_cons, totalSize_cons, getAll, hget, Run.ok_bind, hgets, f.decode_octets,
      Run.pure_eq]

section Inverse

variable {n : ℕ} {mem : Vector Octet n} {buf : Region}

/-- A schedule is written into the front of the buffer, and reading it back gives its values. -/
theorem getAll_putAll (mem : Vector Octet n) (b : Build) (fs : List Field)
    (hbuf : buf.start + buf.size ≤ n) (hs : totalSize (fs.map Field.T) ≤ buf.size) :
    ∃ mem', putAll b fs mem buf = .ok (mem', buf.advance (totalSize (fs.map Field.T))) ∧
      mem'.toList = mem.toList.take buf.start ++ (layout fs ++
        mem.toList.drop (buf.start + totalSize (fs.map Field.T))) ∧
      getAll b mem'.toList (fs.map Field.T) buf =
        .ok (fs.map Field.val, buf.advance (totalSize (fs.map Field.T))) := by
  obtain ⟨pre, old, ys, post, hpre, hold, hsize, hm⟩ := Region.exists_split mem hbuf hs
  obtain ⟨mem', hput, ht⟩ := putAll_append b fs hm hold hs
  have hreg : buf = ⟨pre.length, buf.size⟩ := by rw [hpre]
  refine ⟨mem', ?_, ?_, ?_⟩
  · rw [Region.advance_of_le hs, ← hpre, ← hput, ← hreg]
  · rw [ht, hm, ← hpre, ← hold, List.take_left, ← List.append_assoc pre old,
      ← List.length_append, List.drop_left]
  · apply getAll_holds
    refine ⟨pre, post, ?_, ?_⟩
    · rw [ht, List.append_assoc]
    · rw [hreg, hsize, List.length_append, List.length_append, hold, length_layout]

/-- Whatever is read by a schedule of widths, writing it anywhere reproduces the octets. -/
theorem putAll_getAll (mem : Vector Octet n) (b : Build) (Ts : List Unsigned)
    (hbuf : buf.start + buf.size ≤ n) (hs : totalSize Ts ≤ buf.size) :
    ∃ fs : List Field, fs.map Field.T = Ts ∧
      getAll b mem.toList Ts buf = .ok (fs.map Field.val, buf.advance (totalSize Ts)) ∧
      layout fs = (mem.toList.drop buf.start).take (totalSize Ts) := by
  obtain ⟨pre, old, ys, post, hpre, hold, hsize, hm⟩ := Region.exists_split mem hbuf hs
  obtain ⟨fs, rfl, hfs⟩ := exists_layout Ts hold
  refine ⟨fs, rfl, ?_, ?_⟩
  · apply getAll_holds
    refine ⟨pre, post, ?_, ?_⟩
    · rw [hm, hfs, List.append_assoc]
    · have hreg : buf = ⟨pre.length, buf.size⟩ := by rw [hpre]
      rw [hreg, hsize, hfs]
  · rw [hfs, hm, ← hpre, ← hold, List.drop_left, List.take_left]

/-- Writing and reading a schedule of widths are inverse to each other. -/
theorem put_get_inverse (b : Build) (hbuf : buf.start + buf.size ≤ n) :
    (∀ fs : List Field, totalSize (fs.map Field.T) ≤ buf.size →
      ∃ mem' rest, putAll b fs mem buf = .ok (mem', rest) ∧
        rest = ⟨buf.start + totalSize (fs.map Field.T),
          buf.size - totalSize (fs.map Field.T)⟩ ∧
        mem'.toList = mem.toList.take buf.start ++ (layout fs ++
          mem.toList.drop (buf.start + totalSize (fs.map Field.T))) ∧
        getAll b mem'.toList (fs.map Field.T) buf = .ok (fs.map Field.val, rest)) ∧
    (∀ Ts : List Unsigned, totalSize Ts ≤ buf.size →
      ∃ fs : List Field, fs.map Field.T = Ts ∧
        getAll b mem.toList Ts buf = .ok (fs.map Field.val,
          ⟨buf.start + totalSize Ts, buf.size - totalSize Ts⟩) ∧
        ∀ {m : ℕ} (target : Vector Octet m) (tbuf : Region), tbuf.start + tbuf.size ≤ m →
          totalSize Ts ≤ tbuf.size →
          ∃ target' rest, putAll b fs target tbuf = .ok (target', rest) ∧
            target'.toList = target.toList.take tbuf.start ++
              ((mem.toList.drop buf.start).take (totalSize Ts) ++
                target.toList.drop (tbuf.start + totalSize Ts))) := by
  constructor
  · intro fs hs
    obtain ⟨mem', hput, ht, hget⟩ := getAll_putAll mem b fs hbuf hs
    exact ⟨mem', _, hput, Region.advance_of_le hs, ht, hget⟩
  · intro Ts hs
    obtain ⟨fs, rfl, hget, hfs⟩ := putAll_getAll mem b Ts hbuf hs
    rw [Region.advance_of_le hs] at hget
    refine ⟨fs, rfl, hget, ?_⟩
    intro m target tbuf htbuf hts
    obtain ⟨target', hput, ht, -⟩ := getAll_putAll target b fs htbuf hts
    rw [hfs] at ht
    exact ⟨target', _, hput, ht⟩

/-- A schedule of all four widths in a storage of sixteen octets. -/
theorem put_get_inverse_mixed :
    ∃ mem' rest, putAll .debug [⟨.uint8, 42, by decide⟩, ⟨.uint16, 0xabba, by decide⟩,
        ⟨.uint64, 0xabcdef0102030405, by decide⟩, ⟨.uint32, 0xabcdef01, by decide⟩]
        (Vector.replicate 16 0) ⟨1, 15⟩ = .ok (mem', rest) ∧ rest = ⟨16, 0⟩ :=
  have h := (@put_get_inverse 16 (Vector.replicate 16 0) ⟨1, 15⟩ .debug (by decide)).1
    [⟨.uint8, 42, by decide⟩, ⟨.uint16, 0xabba, by decide⟩,
      ⟨.uint64, 0xabcdef0102030405, by decide⟩, ⟨.uint32, 0xabcdef01, by decide⟩] (by decide)
  h.imp fun _ h => h.imp fun _ h => ⟨h.1, h.2.1⟩

end Inverse

end Azmqn.Wire
