import Mathlib.Tactic

/-!
# Self-delimiting codes

A prefix code encodes each item so that a parser finds where its encoding ends,
whatever follows. Concatenated encodings then have one decoding. A code is exact
when the parser accepts encodings only; every string then splits, in one way,
into the encodings of some items and a rest at which the parser gives up.
-/

universe u v w

/-- A code whose parser inverts it in front of any rest. -/
structure PrefixCode (α : Type u) (β : Type v) where
  encode : α → List β
  parse : List β → Option (α × List β)
  encode_ne_nil : ∀ a, encode a ≠ []
  parse_encode : ∀ a rest, parse (encode a ++ rest) = some (a, rest)

namespace PrefixCode

variable {α : Type u} {β : Type v} (c : PrefixCode α β)

/-- The encodings of a list of items, one after another. -/
def encodeAll (as : List α) : List β := as.flatMap c.encode

@[simp] theorem encodeAll_nil : c.encodeAll [] = [] := rfl

@[simp] theorem encodeAll_cons (a : α) (as : List α) :
    c.encodeAll (a :: as) = c.encode a ++ c.encodeAll as := rfl

/-- Rests at which the parser gives up are determined by the string. -/
theorem encodeAll_append_injective {as bs : List α} {xs ys : List β}
    (hx : c.parse xs = none) (hy : c.parse ys = none)
    (h : c.encodeAll as ++ xs = c.encodeAll bs ++ ys) : as = bs ∧ xs = ys := by
  induction as generalizing bs with
  | nil =>
    cases bs with
    | nil => exact ⟨rfl, h⟩
    | cons b bs =>
      rw [encodeAll_nil, List.nil_append, encodeAll_cons, List.append_assoc] at h
      rw [h, c.parse_encode] at hx
      cases hx
  | cons a as ih =>
    cases bs with
    | nil =>
      rw [encodeAll_nil, List.nil_append, encodeAll_cons, List.append_assoc] at h
      rw [← h, c.parse_encode] at hy
      cases hy
    | cons b bs =>
      simp only [encodeAll_cons, List.append_assoc] at h
      have hp := congrArg c.parse h
      rw [c.parse_encode, c.parse_encode, Option.some.injEq, Prod.mk.injEq] at hp
      obtain ⟨rfl, hr⟩ := ih hp.2
      exact ⟨by rw [hp.1], hr⟩

end PrefixCode

/-- A prefix code whose parser accepts nothing but encodings. -/
structure ExactCode (α : Type u) (β : Type v) extends PrefixCode α β where
  encode_parse : ∀ {xs a rest}, parse xs = some (a, rest) → xs = encode a ++ rest

namespace ExactCode

variable {α : Type u} {β : Type v} (c : ExactCode α β)

theorem parse_nil : c.parse [] = none := by
  cases h : c.parse [] with
  | none => rfl
  | some r =>
    rcases r with ⟨a, rest⟩
    have := c.encode_parse h
    exact absurd (List.append_eq_nil_iff.mp this.symm).1 (c.encode_ne_nil a)

/-- What is there of an encoding that has not arrived whole is no encoding. -/
theorem parse_of_cut {a : α} {xs ys : List β} (h : c.encode a = xs ++ ys) (hy : ys ≠ []) :
    c.parse xs = none := by
  cases hp : c.parse xs with
  | none => rfl
  | some r =>
    rcases r with ⟨b, rest⟩
    have hxs := c.encode_parse hp
    have ha := c.parse_encode a []
    rw [List.append_nil, h, hxs, List.append_assoc, c.parse_encode] at ha
    simp only [Option.some.injEq, Prod.mk.injEq, List.append_eq_nil_iff] at ha
    exact absurd ha.2.2 hy

theorem encodeAll_injective : Function.Injective c.encodeAll := by
  intro as bs h
  have := c.encodeAll_append_injective c.parse_nil c.parse_nil
    (show c.encodeAll as ++ [] = c.encodeAll bs ++ [] by rw [h])
  exact this.1

/-- Every string is a list of encodings followed by a rest that does not parse. -/
theorem exists_encodeAll_append (xs : List β) :
    ∃ as rest, xs = c.encodeAll as ++ rest ∧ c.parse rest = none := by
  induction hn : xs.length using Nat.strong_induction_on generalizing xs with
  | _ n ih =>
    cases h : c.parse xs with
    | none => exact ⟨[], xs, rfl, h⟩
    | some r =>
      rcases r with ⟨a, tail⟩
      have hxs := c.encode_parse h
      have hpos := List.length_pos_of_ne_nil (c.encode_ne_nil a)
      have hlen := congrArg List.length hxs
      rw [List.length_append] at hlen
      obtain ⟨as, rest, hr, hp⟩ := ih tail.length (by omega) tail rfl
      exact ⟨a :: as, rest, by rw [hxs, hr]; simp, hp⟩

/-- An item of one code followed by an item of another. -/
def prod {γ : Type w} (d : ExactCode γ β) : ExactCode (α × γ) β where
  encode p := c.encode p.1 ++ d.encode p.2
  parse xs := (c.parse xs).bind fun p => (d.parse p.2).map fun q => ((p.1, q.1), q.2)
  encode_ne_nil p := by
    intro h
    exact c.encode_ne_nil p.1 (List.append_eq_nil_iff.mp h).1
  parse_encode p rest := by
    rw [List.append_assoc, c.parse_encode]
    simp [d.parse_encode]
  encode_parse := by
    rintro xs ⟨a, a'⟩ rest h
    obtain ⟨⟨b, ys⟩, hb, h⟩ := Option.bind_eq_some_iff.mp h
    obtain ⟨⟨b', zs⟩, hb', h⟩ := Option.map_eq_some_iff.mp h
    simp only [Prod.mk.injEq] at h
    rcases h with ⟨⟨rfl, rfl⟩, rfl⟩
    dsimp only at hb' ⊢
    rw [c.encode_parse hb, d.encode_parse hb', List.append_assoc]

/-- A pair is missing when its first item is, or else its second one. -/
theorem prod_parse_eq_none_iff {γ : Type w} (d : ExactCode γ β) {xs : List β} :
    (c.prod d).parse xs = none ↔
      c.parse xs = none ∨ ∃ a rest, xs = c.encode a ++ rest ∧ d.parse rest = none := by
  constructor
  · intro h
    cases hc : c.parse xs with
    | none => exact Or.inl rfl
    | some p =>
      rcases p with ⟨a, rest⟩
      refine Or.inr ⟨a, rest, c.encode_parse hc, ?_⟩
      simpa [prod, hc] using h
  · rintro (h | ⟨a, rest, rfl, h⟩)
    · simp [prod, h]
    · simp [prod, c.parse_encode, h]

end ExactCode
