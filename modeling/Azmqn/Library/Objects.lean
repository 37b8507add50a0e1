import Mathlib.Tactic

/-!
# Objects with lifetimes

A heap lists every object ever constructed, with its contents and how often it
was destroyed. Reading, assigning and moving need an object within its lifetime;
destroying does not ask. `Owns` says which objects are alive and with which
contents, and that all others were destroyed exactly once. The rules below are
what a program that constructs, moves and destroys needs to keep it.
-/

namespace Objects

universe u

/-- What an object holds and how often it was destroyed. -/
structure Object (α : Type u) where
  content : α
  destructions : ℕ
  deriving DecidableEq, Repr

/-- Every object ever constructed; an object is named by its position. -/
abbrev Heap (α : Type u) := List (Object α)

namespace Heap

variable {α : Type u}

def construct (h : Heap α) (x : α) : ℕ × Heap α := (h.length, h ++ [⟨x, 0⟩])

/-- The contents of an object that is alive. -/
def read (h : Heap α) (i : ℕ) : Option α := do
  let o ← h[i]?
  if o.destructions = 0 then pure o.content else none

/-- Assign to an object that is alive. -/
def write (h : Heap α) (i : ℕ) (x : α) : Option (Heap α) := do
  let _ ← h.read i
  pure (h.set i ⟨x, 0⟩)

/-- Run the destructor of an object, be it the first time or not. -/
def destroy (h : Heap α) (i : ℕ) : Option (Heap α) := do
  let o ← h[i]?
  pure (h.set i { o with destructions := o.destructions + 1 })

/-- A new object with the contents of another. -/
def copyConstruct (h : Heap α) (i : ℕ) : Option (ℕ × Heap α) := do
  let x ← h.read i
  pure (h.construct x)

/-- A new object with the contents of another, in which `left` is left. -/
def moveConstruct (left : α → α) (h : Heap α) (i : ℕ) : Option (ℕ × Heap α) := do
  let x ← h.read i
  let h ← h.write i (left x)
  pure (h.construct x)

/-- Assign the contents of `source` to `target`, leaving `left` of them in `source`. -/
def moveAssign (left : α → α) (h : Heap α) (target source : ℕ) : Option (Heap α) := do
  let x ← h.read source
  let h ← h.write target x
  h.write source (left x)

/-- Exchange through a temporary: one move construction and two move assignments. -/
def swap (left leftAssigned : α → α) (h : Heap α) (i j : ℕ) : Option (Heap α) := do
  let (tmp, h) ← h.moveConstruct left i
  let h ← h.moveAssign leftAssigned i j
  let h ← h.moveAssign leftAssigned j tmp
  h.destroy tmp

end Heap

/-- Exactly the listed objects are alive, with the listed contents, and every other one was
destroyed once. -/
structure Owns {α : Type u} (h : Heap α) (own : List (ℕ × α)) : Prop where
  nodup : (own.map Prod.fst).Nodup
  alive : ∀ i x, (i, x) ∈ own → h[i]? = some ⟨x, 0⟩
  rest : ∀ i o, h[i]? = some o → i ∉ own.map Prod.fst → o.destructions = 1

namespace Owns

open Heap

variable {α : Type u} {h : Heap α} {own own' : List (ℕ × α)} {i j : ℕ} {x y : α}

theorem nil : Owns ([] : Heap α) [] where
  nodup := List.nodup_nil
  alive := by simp
  rest := by simp

theorem perm (ho : Owns h own) (hp : own.Perm own') : Owns h own' where
  nodup := (hp.map Prod.fst).nodup ho.nodup
  alive := fun i x hm => ho.alive i x (hp.mem_iff.mpr hm)
  rest := fun i o hi hm => ho.rest i o hi (fun hc => hm ((hp.map Prod.fst).mem_iff.mp hc))

theorem swap_front {a b : ℕ × α} (ho : Owns h (a :: b :: own)) : Owns h (b :: a :: own) :=
  ho.perm (List.Perm.swap b a own)

theorem swap_second {a b c : ℕ × α} (ho : Owns h (a :: b :: c :: own)) :
    Owns h (a :: c :: b :: own) :=
  ho.perm ((List.Perm.swap c b own).cons a)

theorem rotate {a b c : ℕ × α} (ho : Owns h (a :: b :: c :: own)) :
    Owns h (b :: c :: a :: own) :=
  ho.perm ((List.Perm.swap b a (c :: own)).trans ((List.Perm.swap c a own).cons b))

theorem getElem? (ho : Owns h ((i, x) :: own)) : h[i]? = some ⟨x, 0⟩ :=
  ho.alive i x List.mem_cons_self

theorem lt_length (ho : Owns h ((i, x) :: own)) : i < h.length :=
  (List.getElem?_eq_some_iff.mp ho.getElem?).1

theorem read_of_mem (ho : Owns h own) (hm : (i, x) ∈ own) : h.read i = some x := by
  simp [Heap.read, ho.alive i x hm]

theorem read (ho : Owns h ((i, x) :: own)) : h.read i = some x :=
  ho.read_of_mem List.mem_cons_self

/-- Without live objects everything was destroyed exactly once. -/
theorem destroyed_once (ho : Owns h []) {o : Object α} (hi : h[i]? = some o) :
    o.destructions = 1 :=
  ho.rest i o hi (List.not_mem_nil)

theorem mem_of_read (ho : Owns h own) (hr : h.read i = some x) : (i, x) ∈ own := by
  obtain ⟨o, hi, ho'⟩ := Option.bind_eq_some_iff.mp hr
  by_cases hm : i ∈ own.map Prod.fst
  · rcases List.mem_map.mp hm with ⟨⟨k, y⟩, hmem, rfl⟩
    have hy := ho.read_of_mem hmem
    rw [hr] at hy
    cases hy
    exact hmem
  · rw [ho.rest i o hi hm] at ho'
    cases ho'

theorem destructions_le_one (ho : Owns h own) {o : Object α} (hi : h[i]? = some o) :
    o.destructions ≤ 1 := by
  by_cases hm : i ∈ own.map Prod.fst
  · rcases List.mem_map.mp hm with ⟨⟨k, x⟩, hmem, rfl⟩
    rw [ho.alive k x hmem] at hi
    cases hi
    exact Nat.zero_le 1
  · exact Nat.le_of_eq (ho.rest i o hi hm)

theorem construct (ho : Owns h own) (x : α) :
    Owns (h.construct x).2 (((h.construct x).1, x) :: own) := by
  have hfresh : h.length ∉ own.map Prod.fst := by
    intro hm
    rcases List.mem_map.mp hm with ⟨⟨k, y⟩, hmem, hk⟩
    have hlt := (List.getElem?_eq_some_iff.mp (ho.alive k y hmem)).1
    exact absurd hk (Nat.ne_of_lt hlt)
  constructor
  · exact List.nodup_cons.mpr ⟨hfresh, ho.nodup⟩
  · intro k y hm
    rcases List.mem_cons.mp hm with heq | hm
    · cases heq
      simp [Heap.construct]
    · have hk := ho.alive k y hm
      have hlt := (List.getElem?_eq_some_iff.mp hk).1
      simp [Heap.construct, List.getElem?_append_left hlt, hk]
  · intro k o hk hn
    rw [List.map_cons, List.mem_cons, not_or] at hn
    apply ho.rest k o _ hn.2
    by_cases hlt : k < h.length
    · simpa [Heap.construct, List.getElem?_append_left hlt] using hk
    · have hne : k ≠ h.length := hn.1
      have hle : (h ++ [(⟨x, 0⟩ : Object α)]).length ≤ k := by
        rw [List.length_append, List.length_singleton]
        omega
      have hnone : (h ++ [(⟨x, 0⟩ : Object α)])[k]? = none := List.getElem?_eq_none hle
      rw [Heap.construct, hnone] at hk
      cases hk

theorem write (ho : Owns h ((i, x) :: own)) (y : α) :
    ∃ h', h.write i y = some h' ∧ Owns h' ((i, y) :: own) := by
  have hlt := ho.lt_length
  refine ⟨h.set i ⟨y, 0⟩, by simp [Heap.write, ho.read], ho.nodup, ?_, ?_⟩
  · intro k z hm
    rcases List.mem_cons.mp hm with heq | hm
    · cases heq
      simp [hlt]
    · have hne : i ≠ k := by
        rintro rfl
        exact (List.nodup_cons.mp ho.nodup).1 (List.mem_map.mpr ⟨(i, z), hm, rfl⟩)
      rw [List.getElem?_set_ne hne]
      exact ho.alive k z (List.mem_cons_of_mem _ hm)
  · intro k o hk hn
    have hne : i ≠ k := by
      rintro rfl
      exact hn List.mem_cons_self
    rw [List.getElem?_set_ne hne] at hk
    exact ho.rest k o hk hn

theorem destroy (ho : Owns h ((i, x) :: own)) : ∃ h', h.destroy i = some h' ∧ Owns h' own := by
  have hlt := ho.lt_length
  have hnot := (List.nodup_cons.mp ho.nodup).1
  refine ⟨h.set i ⟨x, 1⟩, by simp [Heap.destroy, ho.getElem?], (List.nodup_cons.mp ho.nodup).2,
    ?_, ?_⟩
  · intro k z hm
    have hne : i ≠ k := by
      rintro rfl
      exact hnot (List.mem_map.mpr ⟨(i, z), hm, rfl⟩)
    rw [List.getElem?_set_ne hne]
    exact ho.alive k z (List.mem_cons_of_mem _ hm)
  · intro k o hk hn
    by_cases hne : i = k
    · subst hne
      rw [List.getElem?_set_self hlt] at hk
      rw [← Option.some.inj hk]
    · rw [List.getElem?_set_ne hne] at hk
      apply ho.rest k o hk
      intro hm
      rcases List.mem_cons.mp hm with heq | hm
      · exact hne heq.symm
      · exact hn hm

theorem copyConstruct (ho : Owns h ((i, x) :: own)) :
    ∃ j h', h.copyConstruct i = some (j, h') ∧ Owns h' ((j, x) :: (i, x) :: own) :=
  ⟨_, _, by rw [Heap.copyConstruct, ho.read]; rfl, ho.construct x⟩

variable (left leftAssigned : α → α)

theorem moveConstruct (ho : Owns h ((i, x) :: own)) :
    ∃ j h', h.moveConstruct left i = some (j, h') ∧
      Owns h' ((j, x) :: (i, left x) :: own) := by
  obtain ⟨h₁, hw, ho₁⟩ := ho.write (left x)
  refine ⟨_, _, ?_, ho₁.construct x⟩
  simp only [Heap.moveConstruct, ho.read, Option.bind_eq_bind, Option.bind_some, hw]
  rfl

/-- An object is moved into a new one and destroyed. -/
theorem relocate (ho : Owns h ((i, x) :: own)) :
    ∃ j h₁ h₂, h.moveConstruct left i = some (j, h₁) ∧ h₁.destroy i = some h₂ ∧
      Owns h₂ ((j, x) :: own) := by
  obtain ⟨j, h₁, hm, ho₁⟩ := ho.moveConstruct left
  obtain ⟨h₂, hd, ho₂⟩ := ho₁.swap_front.destroy
  exact ⟨j, h₁, h₂, hm, hd, ho₂⟩

theorem moveAssign (ho : Owns h ((i, x) :: (j, y) :: own)) :
    ∃ h', h.moveAssign left i j = some h' ∧ Owns h' ((i, y) :: (j, left y) :: own) := by
  obtain ⟨h₁, hw₁, ho₁⟩ := ho.write y
  obtain ⟨h₂, hw₂, ho₂⟩ := ho₁.swap_front.write (left y)
  refine ⟨h₂, ?_, ho₂.swap_front⟩
  simp [Heap.moveAssign, ho.swap_front.read, hw₁, hw₂]

theorem moveAssign_self (ho : Owns h ((i, x) :: own)) :
    ∃ h', h.moveAssign left i i = some h' ∧ Owns h' ((i, left x) :: own) := by
  obtain ⟨h₁, hw₁, ho₁⟩ := ho.write x
  obtain ⟨h₂, hw₂, ho₂⟩ := ho₁.write (left x)
  refine ⟨h₂, ?_, ho₂⟩
  simp [Heap.moveAssign, ho.read, hw₁, hw₂]

theorem swap (ho : Owns h ((i, x) :: (j, y) :: own)) :
    ∃ h', h.swap left leftAssigned i j = some h' ∧ Owns h' ((i, y) :: (j, x) :: own) := by
  obtain ⟨tmp, h₁, hm, ho₁⟩ := ho.moveConstruct left
  obtain ⟨h₂, ha₂, ho₂⟩ := ho₁.rotate.moveAssign leftAssigned
  obtain ⟨h₃, ha₃, ho₃⟩ := ho₂.rotate.moveAssign leftAssigned
  obtain ⟨h₄, hd, ho₄⟩ := ho₃.rotate.destroy
  exact ⟨h₄, by simp [Heap.swap, hm, ha₂, ha₃, hd], ho₄⟩

/-- An object exchanged with itself keeps its contents. -/
theorem swap_self (ho : Owns h ((i, x) :: own)) :
    ∃ h', h.swap left leftAssigned i i = some h' ∧ Owns h' ((i, x) :: own) := by
  obtain ⟨tmp, h₁, hm, ho₁⟩ := ho.moveConstruct left
  obtain ⟨h₂, ha₂, ho₂⟩ := ho₁.swap_front.moveAssign_self leftAssigned
  obtain ⟨h₃, ha₃, ho₃⟩ := ho₂.moveAssign leftAssigned
  obtain ⟨h₄, hd, ho₄⟩ := ho₃.swap_front.destroy
  exact ⟨h₄, by simp [Heap.swap, hm, ha₂, ha₃, hd], ho₄⟩

end Owns

/-- In a list of owners, what one of them owns can be taken to the front. -/
theorem filterMap_perm_cons {β γ : Type u} {f : β → Option γ} {l : List β} {a : ℕ} {p z : β}
    {q : γ} (h : l[a]? = some p) (hp : f p = some q) (hz : f z = none) :
    (l.filterMap f).Perm (q :: (l.set a z).filterMap f) := by
  induction l generalizing a with
  | nil => cases h
  | cons b l ih =>
    cases a with
    | zero =>
      obtain rfl : b = p := Option.some.inj h
      rw [List.set_cons_zero, List.filterMap_cons_some hp, List.filterMap_cons_none hz]
    | succ a =>
      have ih := ih (a := a) h
      rw [List.set_cons_succ]
      cases hb : f b with
      | none => rwa [List.filterMap_cons_none hb, List.filterMap_cons_none hb]
      | some c =>
        rw [List.filterMap_cons_some hb, List.filterMap_cons_some hb]
        exact (ih.cons c).trans (List.Perm.swap q c _)

/-- What one of them owned, if anything, is gone from the list once it is none of them. -/
theorem filterMap_perm_set {β γ : Type u} {f : β → Option γ} {l : List β} {a : ℕ} {p z : β}
    (h : l[a]? = some p) (hz : f z = none) :
    (l.filterMap f).Perm ((f p).toList ++ (l.set a z).filterMap f) := by
  cases hp : f p with
  | some q => exact filterMap_perm_cons h hp hz
  | none =>
    have hset : (l.set a z).filterMap f = l.filterMap f := by
      induction l generalizing a with
      | nil => cases h
      | cons b l ih =>
        cases a with
        | zero =>
          obtain rfl : b = p := Option.some.inj h
          rw [List.set_cons_zero, List.filterMap_cons_none hz, List.filterMap_cons_none hp]
        | succ a =>
          rw [List.set_cons_succ, List.filterMap_cons, List.filterMap_cons, ih h]
    rw [hset]
    exact List.Perm.refl _

end Objects
