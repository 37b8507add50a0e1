import Azmqn.Library.Objects

/-!
# Scope guards

A guard calls its function when it is destroyed, unless it was dismissed. It can
be moved but not assigned, and what it was moved from is dismissed. Over any
program that makes, moves, dismisses and destroys guards the functions are
accounted for: each was called once, or was dismissed where it was, or is still
waiting in one guard.
-/

namespace Azmqn.ScopeGuard

open Objects

/-- `scope_guard_t<F>`; a function object that was moved from is `none`. -/
structure Guard (F : Type) where
  func_ : Option F
  active_ : Bool
  deriving DecidableEq, Repr

namespace Guard

variable {F : Type}

/-- The constructor, which `scope_guard` and the `operator+` behind `SCOPE_EXIT` lead to. -/
def ofFunc (func : F) : Guard F := ⟨some func, true⟩

def dismiss (x : Guard F) : Guard F := { x with active_ := false }

/-- The move constructor: the new guard, and what is left of `rhs`. -/
def move (rhs : Guard F) : Guard F × Guard F :=
  (⟨rhs.func_, rhs.active_⟩, dismiss { rhs with func_ := none })

/-- The destructor, with the functions called before it and after it. A call of a function
object that was moved from is `none`. -/
def destroy (x : Guard F) (calls : List F) : Option (List F) :=
  if x.active_ then do
    let func ← x.func_
    pure (calls ++ [func])
  else pure calls

/-- The function that the guard is going to call. -/
def pending (x : Guard F) : Option F := if x.active_ then x.func_ else none

/-- An active guard has a function to call. -/
def Ready (x : Guard F) : Prop := x.active_ = true → x.func_.isSome

theorem ready_ofFunc (func : F) : (ofFunc func).Ready := fun _ => rfl

theorem ready_dismiss (x : Guard F) : x.dismiss.Ready := fun h => by cases h

theorem destroy_eq {x : Guard F} (h : x.Ready) (calls : List F) :
    x.destroy calls = some (calls ++ x.pending.toList) := by
  unfold destroy pending
  cases ha : x.active_ with
  | false => simp
  | true =>
    obtain ⟨func, hf⟩ := Option.isSome_iff_exists.mp (h ha)
    simp [hf]

end Guard

/-- What a program may do; a new guard gets the next name. -/
inductive Operation (F : Type)
  | create (func : F)
  | move (g : ℕ)
  | dismiss (g : ℕ)
  | destroy (g : ℕ)
  deriving DecidableEq, Repr

/-- The named guards, `none` once destroyed, and the calls so far. -/
structure World (F : Type) where
  guards : List (Option (Guard F))
  calls : List F
  deriving DecidableEq, Repr

namespace World

variable {F : Type}

def start : World F := ⟨[], []⟩

def guard? (w : World F) (g : ℕ) : Option (Guard F) := w.guards[g]?.join

/-- One operation; `none` where it names no guard that is there, or calls what it cannot call. -/
def step (w : World F) : Operation F → Option (World F)
  | .create func => some { w with guards := w.guards ++ [some (.ofFunc func)] }
  | .move g => do
    let rhs ← w.guard? g
    let (x, rhs) := rhs.move
    pure { w with guards := w.guards.set g (some rhs) ++ [some x] }
  | .dismiss g => do
    let x ← w.guard? g
    pure { w with guards := w.guards.set g (some x.dismiss) }
  | .destroy g => do
    let x ← w.guard? g
    let calls ← x.destroy w.calls
    pure ⟨w.guards.set g none, calls⟩

def Enabled (w : World F) : Operation F → Prop
  | .create _ => True
  | .move g => (w.guard? g).isSome
  | .dismiss g => (w.guard? g).isSome
  | .destroy g => (w.guard? g).isSome

/-- The functions that guards are going to call. -/
def held (guards : List (Option (Guard F))) : Multiset F :=
  guards.filterMap (·.bind Guard.pending)

/-- The functions that an operation brings in. -/
def created : Operation F → Multiset F
  | .create func => {func}
  | .move _ => 0
  | .dismiss _ => 0
  | .destroy _ => 0

/-- The functions that an operation takes back from a guard. -/
def dismissed (w : World F) : Operation F → Multiset F
  | .dismiss g => ((w.guard? g).bind Guard.pending).toList
  | .create _ => 0
  | .move _ => 0
  | .destroy _ => 0

/-- A program from here, with the functions that were dismissed on the way. -/
def run : List (Operation F) → World F → Option (Multiset F × World F)
  | [], w => some (0, w)
  | op :: ops, w => do
    let w' ← w.step op
    let (gone, w'') ← run ops w'
    pure (w.dismissed op + gone, w'')

/-- Every guard that is there is ready to be destroyed. -/
def Ready (w : World F) : Prop := ∀ g x, w.guard? g = some x → x.Ready

section Step

variable {w w' : World F} {op : Operation F}

theorem guard?_set {w : World F} {g k : ℕ} {z : Option (Guard F)} {x : Guard F}
    (h : (w.guards.set g z)[k]?.join = some x) : z = some x ∨ w.guard? k = some x := by
  by_cases hk : g = k
  · subst hk
    left
    by_cases hlt : g < w.guards.length
    · rw [List.getElem?_set_self hlt] at h
      exact h
    · rw [List.getElem?_eq_none (by simpa using hlt)] at h
      cases h
  · right
    rw [List.getElem?_set_ne hk] at h
    exact h

theorem guard?_append {guards : List (Option (Guard F))} {k : ℕ} {x y : Guard F}
    (h : (guards ++ [some y])[k]?.join = some x) : guards[k]?.join = some x ∨ x = y := by
  rcases Nat.lt_trichotomy k guards.length with hk | hk | hk
  · left
    rwa [List.getElem?_append_left hk] at h
  · right
    subst hk
    rw [List.getElem?_concat_length] at h
    exact (Option.some.inj h).symm
  · rw [List.getElem?_eq_none (by simp; omega)] at h
    cases h

theorem Ready.set (hw : w.Ready) {z : Option (Guard F)} (hz : ∀ x, z = some x → x.Ready) (g : ℕ)
    (calls : List F) : Ready ⟨w.guards.set g z, calls⟩ := by
  intro k x hx
  rcases guard?_set hx with hx | hx
  · exact hz x hx
  · exact hw k x hx

theorem Ready.append (hw : w.Ready) {y : Guard F} (hy : y.Ready) (calls : List F) :
    Ready ⟨w.guards ++ [some y], calls⟩ := by
  intro k x hx
  rcases guard?_append hx with hx | rfl
  · exact hw k x hx
  · exact hy

/-- The function of one guard, and those of the others. -/
theorem held_set {g : ℕ} {x : Guard F} {z : Option (Guard F)} (hg : w.guard? g = some x)
    (hz : z.bind Guard.pending = none) :
    held w.guards = x.pending.toList + held (w.guards.set g z) := by
  have hget : w.guards[g]? = some (some x) := Option.join_eq_some_iff.mp hg
  rw [held, held, Multiset.coe_add, Multiset.coe_eq_coe]
  exact filterMap_perm_set hget hz

theorem held_append (guards : List (Option (Guard F))) (x : Guard F) :
    held (guards ++ [some x]) = held guards + x.pending.toList := by
  rw [held, held, Multiset.coe_add, List.filterMap_append]
  cases h : x.pending with
  | none => simp [h]
  | some func => simp [h]

theorem step_move {g : ℕ} {rhs : Guard F} (h : w.guard? g = some rhs) :
    w.step (.move g) =
      some { w with guards := w.guards.set g (some rhs.move.2) ++ [some rhs.move.1] } := by
  simp [step, h]

theorem step_dismiss {g : ℕ} {x : Guard F} (h : w.guard? g = some x) :
    w.step (.dismiss g) = some { w with guards := w.guards.set g (some x.dismiss) } := by
  simp [step, h]

theorem step_destroy {g : ℕ} {x : Guard F} (hx : x.Ready) (h : w.guard? g = some x) :
    w.step (.destroy g) = some ⟨w.guards.set g none, w.calls ++ x.pending.toList⟩ := by
  simp [step, h, Guard.destroy_eq hx]

/-- What an operation may do succeeds, leaves guards that are ready, and moves each function
between the guards, the calls and what was dismissed. -/
theorem step_accounts (hw : w.Ready) (he : w.Enabled op) :
    ∃ w', w.step op = some w' ∧ w'.Ready ∧
      w.calls + held w.guards + created op = w'.calls + held w'.guards + w.dismissed op := by
  cases op with
  | create func =>
    refine ⟨_, rfl, hw.append (Guard.ready_ofFunc func) _, ?_⟩
    have hheld := held_append w.guards (.ofFunc func)
    simp only [created, dismissed, hheld, add_zero, add_assoc]
    rfl
  | move g =>
    obtain ⟨rhs, hg⟩ := Option.isSome_iff_exists.mp he
    refine ⟨_, step_move hg, ?_, ?_⟩
    · have hleft : ∀ x, some rhs.move.2 = some x → x.Ready := by
        rintro x ⟨⟩
        exact Guard.ready_dismiss _
      exact (hw.set hleft g w.calls).append (hw g rhs hg) w.calls
    · have hheld := held_append (w.guards.set g (some rhs.move.2)) rhs.move.1
      have hset := held_set hg (z := some rhs.move.2) rfl
      simp only [created, dismissed, hheld, hset, add_zero]
      exact congrArg (_ + ·) (add_comm _ _)
  | dismiss g =>
    obtain ⟨y, hg⟩ := Option.isSome_iff_exists.mp he
    refine ⟨_, step_dismiss hg, ?_, ?_⟩
    · apply hw.set
      rintro x ⟨⟩
      exact Guard.ready_dismiss y
    · have hset := held_set hg (z := some y.dismiss) rfl
      simp only [created, dismissed, hg, Option.bind_some, hset, add_zero, add_assoc]
      exact congrArg (_ + ·) (add_comm _ _)
  | destroy g =>
    obtain ⟨y, hg⟩ := Option.isSome_iff_exists.mp he
    refine ⟨_, step_destroy (hw g y hg) hg, hw.set (z := none) (by rintro x ⟨⟩) g _, ?_⟩
    have hset := held_set hg (z := none) rfl
    simp only [created, dismissed, hset, add_zero, ← add_assoc, Multiset.coe_add]

theorem enabled_of_step (h : w.step op = some w') : w.Enabled op := by
  cases op with
  | create func => trivial
  | move g =>
    obtain ⟨x, hx, -⟩ := Option.bind_eq_some_iff.mp h
    exact Option.isSome_of_mem hx
  | dismiss g =>
    obtain ⟨x, hx, -⟩ := Option.bind_eq_some_iff.mp h
    exact Option.isSome_of_mem hx
  | destroy g =>
    obtain ⟨x, hx, -⟩ := Option.bind_eq_some_iff.mp h
    exact Option.isSome_of_mem hx

theorem run_accounts {ops : List (Operation F)} {gone : Multiset F} (hw : w.Ready)
    (hr : run ops w = some (gone, w')) :
    w'.Ready ∧ w.calls + held w.guards + (ops.map created).sum =
      w'.calls + held w'.guards + gone := by
  induction ops generalizing w gone with
  | nil =>
    cases hr
    exact ⟨hw, rfl⟩
  | cons op ops ih =>
    obtain ⟨w₁, hs, hr⟩ := Option.bind_eq_some_iff.mp hr
    obtain ⟨⟨gone', w₂⟩, hr, heq⟩ := Option.bind_eq_some_iff.mp hr
    cases heq
    obtain ⟨w₁', hs', hready, haccount⟩ := step_accounts hw (enabled_of_step hs)
    rw [hs] at hs'
    cases hs'
    obtain ⟨hend, hrest⟩ := ih hready hr
    refine ⟨hend, ?_⟩
    rw [List.map_cons, List.sum_cons, ← add_assoc, haccount, add_right_comm, hrest]
    rw [add_assoc, add_comm gone']

end Step

theorem ready_start : (start : World F).Ready := by
  intro g x hx
  cases hx

theorem held_eq_zero {w : World F} (h : ∀ g, w.guard? g = none) : held w.guards = 0 := by
  rw [held, Multiset.coe_eq_zero, List.filterMap_eq_nil_iff]
  intro z hz
  obtain ⟨g, hg⟩ := List.mem_iff_getElem?.mp hz
  have hnone := h g
  rw [guard?, hg] at hnone
  cases z with
  | none => rfl
  | some x => cases hnone

/-- After any program that names guards which are there: every function that a guard was made
with was called, or dismissed, or is held by one guard, as often as it was brought in; whatever
the program may do next succeeds, so no function is called that was moved away; and once all
guards are destroyed each function was called or dismissed. -/
theorem guards_account {ops : List (Operation F)} {gone : Multiset F} {w : World F}
    (hr : run ops start = some (gone, w)) :
    (ops.map created).sum = w.calls + held w.guards + gone ∧
    (∀ op, w.Enabled op → ∃ w', w.step op = some w') ∧
    ((∀ g, w.guard? g = none) → (ops.map created).sum = w.calls + gone) := by
  obtain ⟨hready, haccount⟩ := run_accounts ready_start hr
  have htotal : (ops.map created).sum = w.calls + held w.guards + gone := by
    rw [← haccount]
    exact (zero_add _).symm
  refine ⟨htotal, ?_, ?_⟩
  · intro op he
    obtain ⟨w', hs, -⟩ := step_accounts hready he
    exact ⟨w', hs⟩
  · intro hnone
    rw [htotal, held_eq_zero hnone, add_zero]

/-- A guard that is moved twice: the function is called by the last one, and one that was
dismissed is not. -/
theorem guards_account_moved :
    ∃ gone w, run [.create 1, .create 2, .move 0, .move 2, .dismiss 1, .destroy 0, .destroy 3,
        .destroy 2, .destroy 1] (start : World ℕ) = some (gone, w) ∧
      w.calls = [1] ∧ gone = {2} ∧ ({1} + {2} : Multiset ℕ) = {1} + gone := by
  have hr : run [.create 1, .create 2, .move 0, .move 2, .dismiss 1, .destroy 0, .destroy 3,
      .destroy 2, .destroy 1] (start : World ℕ) =
        some ({2}, ⟨[none, none, none, none], [1]⟩) := rfl
  obtain ⟨-, -, hend⟩ := guards_account hr
  refine ⟨_, _, hr, rfl, rfl, ?_⟩
  have hnone : ∀ g, guard? (⟨[none, none, none, none], [1]⟩ : World ℕ) g = none := by
    intro g
    rcases g with _ | _ | _ | _ | g <;> rfl
  exact hend hnone

end World

end Azmqn.ScopeGuard
