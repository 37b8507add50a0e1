import Azmqn.Wire.Greeting
import Mathlib.Data.List.Forall2

/-!
# The mechanism catalog

`make_catalog` sizes its vector with `sizeof(mechanisms)...`, the size of each
mechanism's type, where the number of mechanisms is meant, and gives `hana::fold`
the mechanisms in place of a sequence of them. A program in which both calls
compile has a single mechanism, which is a Foldable of one member, and there the
fold does not call the function that would append a model. So a catalog is a
vector of null entries, and every lookup in one dereferences the first.
-/

namespace Azmqn.Transport

open Wire

/-- Behaviour that C++ leaves undefined. -/
inductive Undefined
  /-- a member called through a null pointer -/
  | nullDereference
  deriving DecidableEq, Repr

/-- What a catalog is built from: the size of the type, the number of members if `hana` takes
the type for a Foldable, a name that `fill_mechanism` can write, and the state that `init_state`
makes. -/
structure Mechanism (σ : Type) where
  sizeof : ℕ
  sizeof_pos : 0 < sizeof
  members : Option ℕ
  name : List Octet
  name_ne_nil : name ≠ []
  name_no_nul : 0 ∉ name
  name_length : name.length ≤ MechanismNameView.maxSize
  initState : σ

/-- `mechanism_concept`, by what its virtual functions give. -/
structure MechanismConcept (σ : Type) where
  getName : MechanismNameView
  initState : σ

/-- `mechanism_catalog::mechanism`. -/
structure MechanismInstance (σ : Type) where
  m_ : MechanismConcept σ
  state_ : σ

/-- The vector of pointers; a null one is `none`. -/
abbrev MechanismVector (σ : Type) := List (Option (MechanismConcept σ))

namespace MechanismCatalog

variable {σ : Type}

/-- `vector::resize` takes a size, or a size and an entry to copy, which no `size_t` is. -/
def resize (v : MechanismVector σ) : List ℕ → Option (MechanismVector σ)
  | [n] => some (v.take n ++ List.replicate (n - v.length) none)
  | _ => none

/-- The calls of `hana::fold` that compile. It would call the lambda with a state and a member,
and the lambda takes one argument, so only a fold that never calls it is left: of one member,
which is the result, or of none with an initial state. -/
def fold : List (Mechanism σ) → Option Unit
  | [xs] => guard (xs.members = some 1)
  | [xs, _state] => guard (xs.members = some 0)
  | _ => none

/-- `make_catalog`; `none` where a call in it has no overload to go to. -/
def makeCatalog (mechanisms : List (Mechanism σ)) : Option (MechanismVector σ) := do
  let res ← resize [] (mechanisms.map Mechanism.sizeof)
  fold mechanisms
  pure res

/-- The private constructor of `mechanism`. -/
def instantiate (m : MechanismConcept σ) : MechanismInstance σ := ⟨m, m.initState⟩

/-- `find_mechanism`. -/
def findMechanism : MechanismVector σ → MechanismNameView →
    Except Undefined (Option (MechanismInstance σ))
  | [], _ => pure none
  | none :: _, _ => throw .nullDereference
  | some m :: ms, name =>
    if m.getName = name then pure (some (instantiate m)) else findMechanism ms name

/-- An object behind the interface has the name and the state of a mechanism. -/
def Models (c : MechanismConcept σ) (m : Mechanism σ) : Prop :=
  c.getName = ⟨m.name⟩ ∧ c.initState = m.initState

/-- One entry for each mechanism, none of them null, in the order given. -/
def HoldsEach (mechanisms : List (Mechanism σ)) : Prop :=
  ∃ catalog, makeCatalog mechanisms = some catalog ∧
    List.Forall₂ (fun entry m => ∃ c, entry = some c ∧ Models c m) catalog mechanisms

/-- The lookup returns an instance of the first mechanism of that name, if there is one. -/
def FindsFirst (mechanisms : List (Mechanism σ)) (name : MechanismNameView) : Prop :=
  ∃ catalog found, makeCatalog mechanisms = some catalog ∧
    findMechanism catalog name = .ok found ∧
    Option.Rel (fun i m => Models i.m_ m ∧ i.state_ = m.initState) found
      (mechanisms.find? fun m => m.name == name.val_)

/-- A catalog is built of a single Foldable of one member only, and every entry in it is null. -/
theorem makeCatalog_eq_some_iff {mechanisms : List (Mechanism σ)} {catalog : MechanismVector σ} :
    makeCatalog mechanisms = some catalog ↔
      ∃ m, mechanisms = [m] ∧ m.members = some 1 ∧ catalog = List.replicate m.sizeof none := by
  cases mechanisms with
  | nil => simp [makeCatalog, resize]
  | cons m ms =>
    cases ms with
    | cons _ _ => simp [makeCatalog, resize]
    | nil =>
      by_cases hm : m.members = some 1
      · simp [makeCatalog, resize, fold, hm, eq_comm]
      · simp [makeCatalog, resize, fold, hm]

theorem makeCatalog_eq_null_cons {mechanisms : List (Mechanism σ)} {catalog : MechanismVector σ}
    (h : makeCatalog mechanisms = some catalog) : ∃ rest, catalog = none :: rest := by
  obtain ⟨m, -, -, hc⟩ := makeCatalog_eq_some_iff.mp h
  obtain ⟨k, hk⟩ := Nat.exists_eq_add_of_le' m.sizeof_pos
  rw [hk, List.replicate_succ] at hc
  exact ⟨_, hc⟩

/-- Every lookup in a catalog dereferences its first entry. -/
theorem findMechanism_null {mechanisms : List (Mechanism σ)} {catalog : MechanismVector σ}
    (h : makeCatalog mechanisms = some catalog) (name : MechanismNameView) :
    findMechanism catalog name = .error .nullDereference := by
  obtain ⟨rest, rfl⟩ := makeCatalog_eq_null_cons h
  rfl

theorem not_holdsEach (mechanisms : List (Mechanism σ)) : ¬ HoldsEach mechanisms := by
  rintro ⟨catalog, hc, hall⟩
  obtain ⟨rest, rfl⟩ := makeCatalog_eq_null_cons hc
  cases hall with
  | cons hentry _ =>
    obtain ⟨c, hnull, -⟩ := hentry
    cases hnull

theorem not_findsFirst (mechanisms : List (Mechanism σ)) (name : MechanismNameView) :
    ¬ FindsFirst mechanisms name := by
  rintro ⟨catalog, found, hc, hfind, -⟩
  rw [findMechanism_null hc name] at hfind
  cases hfind

/-- Whatever the mechanisms, there is no catalog that holds one entry for each, and none in
which a name is found or found missing. -/
theorem catalog_never_correct (mechanisms : List (Mechanism σ)) :
    ¬ HoldsEach mechanisms ∧ ∀ name, ¬ FindsFirst mechanisms name :=
  ⟨not_holdsEach mechanisms, not_findsFirst mechanisms⟩

/-- The mechanism NULL, of a type that takes one octet and has one member. -/
def nullMechanism : Mechanism Unit where
  sizeof := 1
  sizeof_pos := Nat.one_pos
  members := some 1
  name := [0x4e, 0x55, 0x4c, 0x4c]
  name_ne_nil := by decide
  name_no_nul := by decide
  name_length := by decide
  initState := ()

theorem null_mechanism_not_found :
    makeCatalog [nullMechanism] = some [none] ∧
      findMechanism [none] ⟨nullMechanism.name⟩ =
        (.error .nullDereference : Except Undefined (Option (MechanismInstance Unit))) ∧
      ¬ HoldsEach [nullMechanism] ∧ ¬ FindsFirst [nullMechanism] ⟨nullMechanism.name⟩ :=
  ⟨rfl, rfl, not_holdsEach _, not_findsFirst _ _⟩

end MechanismCatalog

end Azmqn.Transport
