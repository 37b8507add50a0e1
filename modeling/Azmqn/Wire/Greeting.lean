import Azmqn.Xasio.Buffer

/-!
# The greeting

The 64 octets that open a connection: a signature, two version octets, the name
of the security mechanism padded to 20 octets, the as-server octet and a filler.
The constructor runs one iterator through the five parts; every accessor finds
its own offset again.
-/

namespace Azmqn.Wire

open Memory Xasio

/-- Write `xs` from the iterator `it` on and return the advanced iterator. -/
def copy {n : ℕ} (mem : Vector Octet n) (it : ℕ) (xs : List Octet) :
    Run (Vector Octet n × ℕ) := do
  let mem ← store mem it xs
  pure (mem, it + xs.length)

/-- The first octets of the storage are `xs`; the others are unknown. -/
def Filled {n : ℕ} (mem : Vector Octet n) (xs : List Octet) : Prop :=
  ∃ rest, mem.toList = xs ++ rest

theorem filled_nil {n : ℕ} (mem : Vector Octet n) : Filled mem [] := ⟨mem.toList, rfl⟩

theorem Filled.eq {n : ℕ} {mem : Vector Octet n} {xs : List Octet} (h : Filled mem xs)
    (hl : xs.length = n) : mem.toList = xs := by
  rcases h with ⟨rest, hm⟩
  have hlen := congrArg List.length hm
  rw [List.length_append, Vector.length_toList] at hlen
  have hr : rest = [] := List.eq_nil_of_length_eq_zero (by omega)
  rw [hm, hr, List.append_nil]

/-- Writing at the frontier extends what is known of the storage. -/
theorem copy_filled {n it : ℕ} {mem : Vector Octet n} {xs : List Octet} (ys : List Octet)
    (h : Filled mem xs) (hit : it = xs.length) (hn : it + ys.length ≤ n) :
    ∃ mem', copy mem it ys = .ok (mem', (xs ++ ys).length) ∧ Filled mem' (xs ++ ys) := by
  rcases h with ⟨rest, hm⟩
  subst hit
  have hlen := congrArg List.length hm
  rw [List.length_append, Vector.length_toList] at hlen
  have hsplit : mem.toList = xs ++ (rest.take ys.length ++ rest.drop ys.length) := by
    rw [hm, List.take_append_drop]
  have htake : (rest.take ys.length).length = ys.length := by
    rw [List.length_take]
    omega
  obtain ⟨mem', hs, ht⟩ := store_append ys hsplit htake
  refine ⟨mem', by simp [copy, hs], rest.drop ys.length, ?_⟩
  rw [ht, List.append_assoc]

/-- `mechanism_name_view`: a view of the name's octets. -/
structure MechanismNameView where
  val_ : List Octet
  deriving DecidableEq, Repr

namespace MechanismNameView

def maxSize : ℕ := 20

/-- The constructor, which asserts the bound on the name. -/
def ofStringView (b : Build) (val : List Octet) : Run MechanismNameView := do
  boostAssert b (pure (decide (val.length ≤ maxSize)))
  pure ⟨val⟩

/-- `fill(it)`; the subtraction is that of `unsigned long`. -/
def fill {n : ℕ} (name : MechanismNameView) (mem : Vector Octet n) (it : ℕ) :
    Run (Vector Octet n × ℕ) :=
  let filler := sizeT maxSize - sizeT name.val_.length
  copy mem it (List.replicate filler 0)

theorem ofStringView_ok (b : Build) {val : List Octet} (h : val.length ≤ maxSize) :
    ofStringView b val = .ok ⟨val⟩ := by
  simp [ofStringView, h]

theorem fill_eq {n it : ℕ} (name : MechanismNameView) {mem : Vector Octet n}
    (h : name.val_.length ≤ maxSize) :
    name.fill mem it = copy mem it (List.replicate (maxSize - name.val_.length) 0) := by
  unfold maxSize at h
  have hfill : ((sizeT maxSize - sizeT name.val_.length : SizeT) : ℕ) =
      maxSize - name.val_.length := by
    have hm : (sizeT maxSize : ℕ) = 20 := rfl
    have hn : (sizeT name.val_.length : ℕ) = name.val_.length := sizeT_val (by omega)
    rw [Fin.val_sub, hm, hn, maxSize]
    omega
  rw [fill, hfill]

end MechanismNameView

/-- `as_server(v)`. The condition names the function itself, which as a pointer to
a function is never null, and not the argument. -/
def asServer (_v : Bool) : Octet :=
  let asServerAddressNonNull := true
  if asServerAddressNonNull then 0x1 else 0x0

structure Greeting where
  buf_ : Vector Octet 64
  deriving DecidableEq, Repr

namespace Greeting

def size : ℕ := 64

def signature : List Octet := [0xff, 0x0, 0x0, 0x0, 0x0, 0x0, 0x0, 0x0, 0x0, 0x7f]

/-- The constructor from a mechanism; `raw` is the storage before it is written. -/
def ofMechanism (raw : Vector Octet 64) (mechanism : MechanismNameView) (isServer : Bool)
    (vmajor vminor : Octet) : Run Greeting := do
  let (buf, it) ← copy raw 0 signature
  let (buf, it) ← copy buf it [vmajor]
  let (buf, it) ← copy buf it [vminor]
  let (buf, it) ← copy buf it mechanism.val_
  let (buf, it) ← mechanism.fill buf it
  let (buf, it) ← copy buf it [asServer isServer]
  let (buf, _) ← copy buf it (List.replicate (size - it) 0)
  pure ⟨buf⟩

/-- The constructor from the octets of a `const_buffer`. -/
def ofBuffer (raw : Vector Octet 64) (octets : List Octet) : Run Greeting := do
  let (buf, _) ← copy raw 0 octets
  pure ⟨buf⟩

/-- The length of the longest common prefix, where `mismatch` stops. -/
def mismatch : List Octet → List Octet → ℕ
  | x :: xs, y :: ys => if x = y then mismatch xs ys + 1 else 0
  | _, _ => 0

def valid (g : Greeting) : Bool := mismatch signature g.buf_.toList == signature.length

def version (b : Build) (g : Greeting) : Run (Octet × Octet) := do
  boostAssert b (pure g.valid)
  let it := signature.length
  pure (g.buf_.toList.getD it 0, g.buf_.toList.getD (it + 1) 0)

/-- `::strlen` on the octets that follow a pointer up to the end of its array. -/
def strlen : List Octet → Run ℕ
  | [] => throw .outOfBounds
  | o :: os => if o = 0 then pure 0 else do
    let n ← strlen os
    pure (n + 1)

def mechanism (b : Build) (g : Greeting) : Run MechanismNameView := do
  let it := signature.length + 2
  let len ← strlen (g.buf_.toList.drop it)
  let name ← load g.buf_.toList it (min len MechanismNameView.maxSize)
  MechanismNameView.ofStringView b name

def isServer (g : Greeting) : Bool :=
  let it := signature.length + 2 + MechanismNameView.maxSize
  g.buf_.toList.getD it 0 == 0x1

/-- The 64 octets with the given fields. -/
def layout (name : List Octet) (server vmajor vminor : Octet) : List Octet :=
  signature ++ [vmajor] ++ [vminor] ++ name ++
    List.replicate (MechanismNameView.maxSize - name.length) 0 ++ [server] ++
    List.replicate 31 0

/-- The octets of the name field up to the first NUL. -/
def nameField (g : Greeting) : List Octet :=
  ((g.buf_.toList.drop 12).take 20).takeWhile (· ≠ 0)

theorem ofMechanism_layout (raw : Vector Octet 64) {name : List Octet} (h : name.length ≤ 20)
    (server : Bool) (vmajor vminor : Octet) :
    ∃ g, ofMechanism raw ⟨name⟩ server vmajor vminor = .ok g ∧
      g.buf_.toList = layout name (asServer server) vmajor vminor := by
  have hs : signature.length = 10 := rfl
  have hstart : 0 = ([] : List Octet).length := rfl
  obtain ⟨m₁, h₁, f₁⟩ := copy_filled signature (filled_nil raw) hstart (by decide)
  obtain ⟨m₂, h₂, f₂⟩ := copy_filled [vmajor] f₁ rfl (by simp [hs])
  obtain ⟨m₃, h₃, f₃⟩ := copy_filled [vminor] f₂ rfl (by simp [hs])
  obtain ⟨m₄, h₄, f₄⟩ := copy_filled name f₃ rfl (by simp [hs]; omega)
  obtain ⟨m₅, h₅, f₅⟩ := copy_filled
    (List.replicate (MechanismNameView.maxSize - name.length) 0) f₄ rfl
    (by simp [hs, MechanismNameView.maxSize]; omega)
  obtain ⟨m₆, h₆, f₆⟩ := copy_filled [asServer server] f₅ rfl
    (by simp [hs, MechanismNameView.maxSize]; omega)
  have hrest : size - ([] ++ signature ++ [vmajor] ++ [vminor] ++ name ++
      List.replicate (MechanismNameView.maxSize - name.length) 0 ++
      [asServer server]).length = 31 := by
    simp [size, hs, MechanismNameView.maxSize]
    omega
  obtain ⟨m₇, h₇, f₇⟩ := copy_filled (List.replicate 31 0) f₆ rfl
    (by simp [hs, MechanismNameView.maxSize]; omega)
  have hfill : MechanismNameView.fill ⟨name⟩ m₄ _ = _ :=
    (MechanismNameView.fill_eq ⟨name⟩ h).trans h₅
  refine ⟨⟨m₇⟩, ?_, ?_⟩
  · unfold ofMechanism
    simp only [h₁, h₂, h₃, h₄, hfill, h₆, hrest, h₇, Run.ok_bind, Run.pure_eq]
  · simpa [layout] using f₇.eq (by simp [hs, MechanismNameView.maxSize]; omega)

theorem strlen_of_mem {os : List Octet} (h : 0 ∈ os) :
    strlen os = .ok (os.takeWhile (· ≠ 0)).length := by
  induction os with
  | nil => simp at h
  | cons o os ih =>
    by_cases ho : o = 0
    · simp [strlen, ho]
    · have hos : 0 ∈ os := by simpa [Ne.symm ho] using h
      simp [strlen, ho, ih hos]

theorem strlen_of_not_mem {os : List Octet} (h : 0 ∉ os) : strlen os = .error .outOfBounds := by
  induction os with
  | nil => rfl
  | cons o os ih =>
    rw [List.mem_cons, not_or] at h
    simp [strlen, Ne.symm h.1, ih h.2]

theorem take_min_takeWhile (p : Octet → Bool) (os : List Octet) (n : ℕ) :
    os.take (min (os.takeWhile p).length n) = (os.take n).takeWhile p := by
  induction os generalizing n with
  | nil => simp
  | cons o os ih =>
    cases n with
    | zero => simp
    | succ n =>
      cases h : p o with
      | false => simp [h]
      | true => simp [h, Nat.succ_min_succ, ih]

theorem length_nameField_le (g : Greeting) : g.nameField.length ≤ MechanismNameView.maxSize := by
  have hp := (List.takeWhile_prefix (l := (g.buf_.toList.drop 12).take 20)
    (fun o : Octet => decide (o ≠ 0))).length_le
  have ht := List.length_take_le 20 (g.buf_.toList.drop 12)
  exact hp.trans ht

/-- With a NUL somewhere behind the version octets the name is found, at any length. -/
theorem mechanism_of_mem (b : Build) {g : Greeting} (h : 0 ∈ g.buf_.toList.drop 12) :
    g.mechanism b = .ok ⟨g.nameField⟩ := by
  have hit : signature.length + 2 = 12 := rfl
  have hle : 12 + min ((g.buf_.toList.drop 12).takeWhile (· ≠ 0)).length
      MechanismNameView.maxSize ≤ g.buf_.toList.length := by
    rw [Vector.length_toList, MechanismNameView.maxSize]
    omega
  unfold mechanism
  simp only [hit, strlen_of_mem h, Run.ok_bind, load_of_le hle]
  rw [take_min_takeWhile]
  exact MechanismNameView.ofStringView_ok b g.length_nameField_le

/-- Without one, the scan runs past the end of the buffer. -/
theorem mechanism_of_not_mem (b : Build) {g : Greeting} (h : 0 ∉ g.buf_.toList.drop 12) :
    g.mechanism b = .error .outOfBounds := by
  have hit : signature.length + 2 = 12 := rfl
  unfold mechanism
  simp only [hit, strlen_of_not_mem h, Run.error_bind]

/-! ## Reading back what the constructor wrote -/

section Layout

variable {g : Greeting} {name : List Octet} {server vmajor vminor : Octet}

theorem valid_layout (h : g.buf_.toList = layout name server vmajor vminor) :
    g.valid = true := by
  simp [valid, h, layout, signature, mismatch]

theorem version_layout (b : Build) (h : g.buf_.toList = layout name server vmajor vminor) :
    g.version b = .ok (vmajor, vminor) := by
  unfold version
  rw [valid_layout h, h]
  simp [layout, signature]

theorem drop_layout (name : List Octet) (server vmajor vminor : Octet) :
    (layout name server vmajor vminor).drop 12 =
      name ++ (List.replicate (20 - name.length) 0 ++ (server :: List.replicate 31 0)) := by
  simp [layout, signature, MechanismNameView.maxSize]

theorem nameField_layout (h : g.buf_.toList = layout name server vmajor vminor)
    (hn : name.length ≤ 20) (h0 : 0 ∉ name) : g.nameField = name := by
  have hpad : ((g.buf_.toList.drop 12).take 20) = name ++ List.replicate (20 - name.length) 0 := by
    rw [h, drop_layout, ← List.append_assoc]
    apply List.take_left'
    simp
    omega
  have hname : ∀ o ∈ name, decide (o ≠ 0) = true := by
    intro o ho
    have : o ≠ 0 := fun he => h0 (he ▸ ho)
    simpa using this
  rw [nameField, hpad, List.takeWhile_append_of_pos hname, List.takeWhile_replicate]
  simp

theorem mechanism_layout (b : Build) (h : g.buf_.toList = layout name server vmajor vminor)
    (hn : name.length ≤ 20) (h0 : 0 ∉ name) : g.mechanism b = .ok ⟨name⟩ := by
  have hmem : 0 ∈ g.buf_.toList.drop 12 := by
    rw [h, drop_layout]
    simp
  rw [mechanism_of_mem b hmem, nameField_layout h hn h0]

theorem isServer_layout (h : g.buf_.toList = layout name server vmajor vminor)
    (hn : name.length ≤ 20) : g.isServer = (server == 0x1) := by
  have hit : signature.length + 2 + MechanismNameView.maxSize = 12 + 20 := rfl
  have hd : (layout name server vmajor vminor)[12 + 20]? = some server := by
    rw [← List.getElem?_drop, drop_layout, ← List.append_assoc,
      List.getElem?_append_right (by simp; omega)]
    have hz : 20 - (name ++ List.replicate (20 - name.length) (0 : Octet)).length = 0 := by
      simp
      omega
    rw [hz]
    rfl
  unfold isServer
  simp only [hit, h, List.getD_eq_getElem?_getD, hd, Option.getD_some]

end Layout

end Greeting

end Azmqn.Wire
