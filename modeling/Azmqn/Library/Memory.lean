import Mathlib.Tactic

/-!
# Bounds-checked memory and regions of it

A memory is a finite list of cells. Loads and stores state how many cells they
touch and answer `none` as soon as one of them lies outside the memory, so a
program that returns has touched no other cell. A region names a run of
consecutive cells; advancing it drops cells at its front, at most all of them.
-/

namespace Memory

variable {α : Type*} {n : ℕ}

/-- Read `len` cells from `start` on. -/
def load? (mem : List α) (start len : ℕ) : Option (List α) :=
  if start + len ≤ mem.length then some ((mem.drop start).take len) else none

/-- Replace the cells from `start` on by `xs`; every other cell is kept. -/
def store? (mem : Vector α n) (start : ℕ) (xs : List α) : Option (Vector α n) :=
  if h : start + xs.length ≤ n then
    some ⟨(mem.toList.take start ++ xs ++ mem.toList.drop (start + xs.length)).toArray,
      by simp; omega⟩
  else none

theorem load?_eq_none {mem : List α} {start len : ℕ} (h : mem.length < start + len) :
    load? mem start len = none :=
  if_neg (by omega)

theorem load?_append (pre xs post : List α) :
    load? (pre ++ (xs ++ post)) pre.length xs.length = some xs := by
  simp [load?]

theorem store?_eq_none {mem : Vector α n} {start : ℕ} {xs : List α}
    (h : n < start + xs.length) : store? mem start xs = none :=
  dif_neg (by omega)

theorem store?_eq_some (mem : Vector α n) {start : ℕ} {xs : List α}
    (h : start + xs.length ≤ n) :
    ∃ mem', store? mem start xs = some mem' ∧
      mem'.toList = mem.toList.take start ++ xs ++ mem.toList.drop (start + xs.length) :=
  ⟨_, dif_pos h, by simp [Vector.toList]⟩

theorem store?_bound {mem mem' : Vector α n} {start : ℕ} {xs : List α}
    (h : store? mem start xs = some mem') : start + xs.length ≤ n := by
  by_contra hn
  rw [store?_eq_none (by omega)] at h
  cases h

/-- A store into a memory of which the first cells are known. -/
theorem store?_append {mem : Vector α n} {pre old post : List α} (xs : List α)
    (hm : mem.toList = pre ++ (old ++ post)) (hl : old.length = xs.length) :
    ∃ mem', store? mem pre.length xs = some mem' ∧ mem'.toList = pre ++ (xs ++ post) := by
  have hn : n = pre.length + (old.length + post.length) := by
    have := congrArg List.length hm
    simpa using this
  have hb : pre.length + xs.length ≤ n := by omega
  obtain ⟨mem', hs, ht⟩ := store?_eq_some mem hb
  refine ⟨mem', hs, ?_⟩
  rw [ht, hm, ← hl]
  simp [List.drop_append]

/-- A run of consecutive cells. -/
structure Region where
  start : ℕ
  size : ℕ
  deriving DecidableEq, Repr

namespace Region

/-- Drop `k` cells at the front, or all of them when there are fewer. -/
def advance (r : Region) (k : ℕ) : Region :=
  ⟨r.start + min k r.size, r.size - min k r.size⟩

theorem advance_of_le {r : Region} {k : ℕ} (h : k ≤ r.size) :
    r.advance k = ⟨r.start + k, r.size - k⟩ := by
  simp [advance, Nat.min_eq_left h]

@[simp] theorem advance_mk (start k size : ℕ) :
    (Region.mk start (k + size)).advance k = ⟨start + k, size⟩ := by
  simp [advance]

theorem advance_advance (r : Region) (a b : ℕ) :
    (r.advance a).advance b = r.advance (a + b) := by
  have hstart : r.start + min a r.size + min b (r.size - min a r.size) =
      r.start + min (a + b) r.size := by
    omega
  have hsize : r.size - min a r.size - min b (r.size - min a r.size) =
      r.size - min (a + b) r.size := by
    omega
  simp only [advance, hstart, hsize]

/-- A memory falls into what is in front of a region, its first `k` cells, its other cells and
what is behind it. -/
theorem exists_split {r : Region} {n k : ℕ} (mem : Vector α n) (h : r.start + r.size ≤ n)
    (hk : k ≤ r.size) :
    ∃ pre xs ys post, pre.length = r.start ∧ xs.length = k ∧ r.size = (xs ++ ys).length ∧
      mem.toList = pre ++ (xs ++ (ys ++ post)) := by
  have hlength : mem.toList.length = n := Vector.length_toList
  refine ⟨mem.toList.take r.start, (mem.toList.drop r.start).take k,
    ((mem.toList.drop r.start).drop k).take (r.size - k),
    ((mem.toList.drop r.start).drop k).drop (r.size - k), ?_, ?_, ?_, ?_⟩
  · rw [List.length_take]
    omega
  · rw [List.length_take, List.length_drop]
    omega
  · simp only [List.length_append, List.length_take, List.length_drop]
    omega
  · rw [List.take_append_drop, List.take_append_drop, List.take_append_drop]

/-- Region `r` of `mem` holds exactly the cells `xs`. -/
def Holds (r : Region) (mem xs : List α) : Prop :=
  ∃ pre post, mem = pre ++ (xs ++ post) ∧ r = ⟨pre.length, xs.length⟩

variable {r : Region} {mem xs ys : List α}

theorem holds_whole (mem : List α) : (Region.mk 0 mem.length).Holds mem mem :=
  ⟨[], [], by simp, rfl⟩

theorem Holds.size_eq (h : r.Holds mem xs) : r.size = xs.length := by
  rcases h with ⟨_, _, _, rfl⟩
  rfl

theorem Holds.load? (h : r.Holds mem xs) : Memory.load? mem r.start r.size = some xs := by
  rcases h with ⟨pre, post, rfl, rfl⟩
  exact load?_append pre xs post

theorem Holds.left (h : r.Holds mem (xs ++ ys)) : (Region.mk r.start xs.length).Holds mem xs := by
  rcases h with ⟨pre, post, rfl, rfl⟩
  exact ⟨pre, ys ++ post, by simp, rfl⟩

theorem Holds.right (h : r.Holds mem (xs ++ ys)) : (r.advance xs.length).Holds mem ys := by
  rcases h with ⟨pre, post, rfl, rfl⟩
  exact ⟨pre ++ xs, post, by simp, by simp⟩

end Region
end Memory
