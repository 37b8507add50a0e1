import Azmqn.Library.Descent
import Mathlib.Data.ENat.Basic
import Mathlib.Tactic

/-!
# Networks of machines and channels

Machines send cells to one another and receive them in the order of sending. A
channel holds a bounded number of cells: who sends to a full one waits, and who
receives from an empty one waits unless its sender has halted. Each machine owns
what it has sent and how much it has taken, so that steps of two machines touch
different things and none of them can take away what another one waits for.
-/

open Relation

namespace Network

universe u v w

/-- What a machine does next: a receiver learns whether the sender has halted. -/
inductive Move (ι : Type u) (α : Type v) (S : Type w)
  | halt
  | silent (s : S)
  | send (dest : ι) (x : α) (s : S)
  | receive (source : ι) (s : Option α → S)

/-- A machine's state, the cells that it sent to each other one so far, and how many it
has received from each. -/
structure Node (ι : Type u) (α : Type v) (S : Type w) where
  state : S
  sent : ι → List α
  taken : ι → ℕ

variable {ι : Type u} {α : Type v} {S : Type w}

/-- What the other machines can rely on: nothing is unsent or given back, and who has
halted stays so. -/
structure Grows (next : S → Move ι α S) (n m : Node ι α S) : Prop where
  sent : ∀ j, n.sent j <+: m.sent j
  taken : ∀ j, n.taken j ≤ m.taken j
  halt : next n.state = .halt → m = n

theorem Grows.refl (next : S → Move ι α S) (n : Node ι α S) : Grows next n n :=
  ⟨fun _ => List.prefix_rfl, fun _ => le_rfl, fun _ => rfl⟩

theorem Grows.trans {next : S → Move ι α S} {n m k : Node ι α S} (h : Grows next n m)
    (h' : Grows next m k) : Grows next n k := by
  refine ⟨fun j => (h.sent j).trans (h'.sent j), fun j => (h.taken j).trans (h'.taken j), ?_⟩
  intro hn
  have hm := h.halt hn
  rw [← hm] at hn
  exact (h'.halt hn).trans hm

variable [DecidableEq ι]

namespace Node

def silent (n : Node ι α S) (s : S) : Node ι α S := { n with state := s }

def send (n : Node ι α S) (j : ι) (x : α) (s : S) : Node ι α S :=
  { n with state := s, sent := Function.update n.sent j (n.sent j ++ [x]) }

def receive (n : Node ι α S) (j : ι) (s : S) : Node ι α S :=
  { n with state := s, taken := Function.update n.taken j (n.taken j + 1) }

end Node

/-- The cells on the way from one machine to another. -/
def inFlight (net : ι → Node ι α S) (i j : ι) : List α := ((net i).sent j).drop ((net j).taken i)

/-- One step of machine `i` and what becomes of its node. -/
inductive Act (next : S → Move ι α S) (cap : ι → ι → ℕ∞) (net : ι → Node ι α S) (i : ι) :
    Node ι α S → Prop
  | silent {s : S} (move : next (net i).state = .silent s) : Act next cap net i ((net i).silent s)
  | send {j : ι} {x : α} {s : S} (move : next (net i).state = .send j x s)
      (room : (((net i).sent j).length : ℕ∞) < (net j).taken i + cap i j) :
      Act next cap net i ((net i).send j x s)
  | receive {j : ι} {s : Option α → S} {x : α} (move : next (net i).state = .receive j s)
      (arrived : ((net j).sent i)[(net i).taken j]? = some x) :
      Act next cap net i ((net i).receive j (s (some x)))
  | closed {j : ι} {s : Option α → S} (move : next (net i).state = .receive j s)
      (halted : next (net j).state = .halt) (drained : ((net j).sent i).length ≤ (net i).taken j) :
      Act next cap net i ((net i).silent (s none))

/-- Any machine that can move may be the next to do so. -/
inductive Step (next : S → Move ι α S) (cap : ι → ι → ℕ∞) (net : ι → Node ι α S) :
    (ι → Node ι α S) → Prop
  | acts {i : ι} {n : Node ι α S} (act : Act next cap net i n) :
      Step next cap net (Function.update net i n)

variable {next : S → Move ι α S} {cap cap' : ι → ι → ℕ∞} {net net' : ι → Node ι α S} {i j : ι}
  {n m : Node ι α S}

namespace Act

theorem not_halt (h : Act next cap net i n) : next (net i).state ≠ .halt := by
  intro hn
  cases h with
  | silent move => simp [hn] at move
  | send move _ => simp [hn] at move
  | receive move _ => simp [hn] at move
  | closed move _ _ => simp [hn] at move

theorem grows (h : Act next cap net i n) : Grows next (net i) n := by
  have hn := h.not_halt
  cases h with
  | silent _ => exact ⟨fun _ => List.prefix_rfl, fun _ => le_rfl, fun h => absurd h hn⟩
  | @send k x s _ _ =>
    refine ⟨?_, fun _ => le_rfl, fun h => absurd h hn⟩
    intro j
    by_cases hj : j = k
    · subst hj
      simp [Node.send]
    · simp [Node.send, hj]
  | @receive k s x _ _ =>
    refine ⟨fun _ => List.prefix_rfl, ?_, fun h => absurd h hn⟩
    intro j
    by_cases hj : j = k
    · subst hj
      simp [Node.receive]
    · simp [Node.receive, hj]
  | closed _ _ _ => exact ⟨fun _ => List.prefix_rfl, fun _ => le_rfl, fun h => absurd h hn⟩

/-- A machine leaves itself no choice. -/
theorem unique (h : Act next cap net i n) (h' : Act next cap net i m) : n = m := by
  cases h with
  | silent move =>
    cases h' <;> simp_all
  | send move room =>
    cases h' <;> simp_all
  | receive move arrived =>
    cases h' with
    | silent move' => simp [move] at move'
    | send move' _ => simp [move] at move'
    | receive move' arrived' =>
      rw [move, Move.receive.injEq] at move'
      obtain ⟨rfl, rfl⟩ := move'
      rw [arrived, Option.some.injEq] at arrived'
      rw [arrived']
    | closed move' _ drained =>
      rw [move, Move.receive.injEq] at move'
      obtain ⟨rfl, rfl⟩ := move'
      rw [List.getElem?_eq_none drained] at arrived
      cases arrived
  | closed move halted drained =>
    cases h' with
    | silent move' => simp [move] at move'
    | send move' _ => simp [move] at move'
    | receive move' arrived =>
      rw [move, Move.receive.injEq] at move'
      obtain ⟨rfl, rfl⟩ := move'
      rw [List.getElem?_eq_none drained] at arrived
      cases arrived
    | closed move' _ _ =>
      rw [move, Move.receive.injEq] at move'
      obtain ⟨rfl, rfl⟩ := move'
      rfl

/-- What a machine can do it can still do, with the same effect, when the others have
gone on or the channels hold more. -/
theorem mono (h : Act next cap net i n) (hi : net' i = net i)
    (hg : ∀ k, Grows next (net k) (net' k)) (hcap : ∀ k, cap i k ≤ cap' i k) :
    Act next cap' net' i n := by
  cases h with
  | silent move =>
    rw [← hi] at move ⊢
    exact .silent move
  | @send j x s move room =>
    rw [← hi] at move room ⊢
    refine .send move (room.trans_le ?_)
    gcongr
    · exact (hg j).taken i
    · exact hcap j
  | @receive j s x move arrived =>
    rw [← hi] at move arrived ⊢
    obtain ⟨ys, hy⟩ := (hg j).sent i
    refine .receive move ?_
    rw [← hy, List.getElem?_append_left (List.getElem?_eq_some_iff.mp arrived).1, arrived]
  | @closed j s move halted drained =>
    have hj := (hg j).halt halted
    rw [← hi] at move drained ⊢
    rw [← hj] at halted drained
    exact .closed move halted drained

end Act

/-- A network in which two machines are picked out. -/
def setPair (net : ι → Node ι α S) (i j : ι) (n m : Node ι α S) : ι → Node ι α S :=
  Function.update (Function.update net i n) j m

theorem setPair_left (hij : i ≠ j) : setPair net i j n m i = n := by
  rw [setPair, Function.update_of_ne hij, Function.update_self]

theorem setPair_right : setPair net i j n m j = m := Function.update_self ..

namespace Step

theorem grows (h : Step next cap net net') (k : ι) : Grows next (net k) (net' k) := by
  rcases h with @⟨i, n, act⟩
  by_cases hk : k = i
  · subst hk
    rw [Function.update_self]
    exact act.grows
  · rw [Function.update_of_ne hk]
    exact .refl next _

/-- More room in the channels takes no run away. -/
theorem mono (hcap : ∀ i j, cap i j ≤ cap' i j) (h : Step next cap net net') :
    Step next cap' net net' := by
  rcases h with ⟨act⟩
  exact .acts (act.mono rfl (fun k => .refl next _) (hcap _))

theorem diamondOn (next : S → Move ι α S) (cap : ι → ι → ℕ∞) :
    DiamondOn (fun _ => True) (Step next cap) := by
  refine ⟨fun _ _ _ _ => trivial, ?_⟩
  rintro net _ _ - @⟨i, n, hi⟩ @⟨j, m, hj⟩
  by_cases hij : i = j
  · subst hij
    rw [hi.unique hj]
    exact Or.inl rfl
  · refine Or.inr ⟨Function.update (Function.update net i n) j m, .acts ?_, ?_⟩
    · exact hj.mono (Function.update_of_ne (Ne.symm hij) _ _) (Step.grows (.acts hi))
        (fun _ => le_rfl)
    · rw [Function.update_comm hij]
      exact .acts (hi.mono (Function.update_of_ne hij _ _) (Step.grows (.acts hj))
        (fun _ => le_rfl))

section Two

theorem left (hij : i ≠ j) {n' : Node ι α S} (h : Act next cap (setPair net i j n m) i n') :
    Step next cap (setPair net i j n m) (setPair net i j n' m) := by
  have hs := Step.acts h
  rwa [setPair, Function.update_comm (Ne.symm hij), Function.update_idem] at hs

theorem right {m' : Node ι α S} (h : Act next cap (setPair net i j n m) j m') :
    Step next cap (setPair net i j n m) (setPair net i j n m') := by
  have hs := Step.acts h
  rwa [setPair, Function.update_idem] at hs

variable (net) {s : S} {x : α}

theorem left_silent (hij : i ≠ j) (move : next n.state = .silent s) :
    Step next cap (setPair net i j n m) (setPair net i j (n.silent s) m) := by
  apply left hij
  generalize hnet : setPair net i j n m = two
  have hi : two i = n := by rw [← hnet, setPair_left hij]
  rw [← hi] at move ⊢
  exact .silent move

theorem left_send (hij : i ≠ j) (move : next n.state = .send j x s)
    (room : ((n.sent j).length : ℕ∞) < m.taken i + cap i j) :
    Step next cap (setPair net i j n m) (setPair net i j (n.send j x s) m) := by
  apply left hij
  generalize hnet : setPair net i j n m = two
  have hi : two i = n := by rw [← hnet, setPair_left hij]
  have hj : two j = m := by rw [← hnet, setPair_right]
  rw [← hi] at move room ⊢
  rw [← hj] at room
  exact .send move room

theorem right_silent (move : next m.state = .silent s) :
    Step next cap (setPair net i j n m) (setPair net i j n (m.silent s)) := by
  apply right
  generalize hnet : setPair net i j n m = two
  have hj : two j = m := by rw [← hnet, setPair_right]
  rw [← hj] at move ⊢
  exact .silent move

theorem right_receive (hij : i ≠ j) {k : Option α → S} (move : next m.state = .receive i k)
    (arrives : (n.sent j)[m.taken i]? = some x) :
    Step next cap (setPair net i j n m) (setPair net i j n (m.receive i (k (some x)))) := by
  apply right
  generalize hnet : setPair net i j n m = two
  have hi : two i = n := by rw [← hnet, setPair_left hij]
  have hj : two j = m := by rw [← hnet, setPair_right]
  rw [← hj] at move arrives ⊢
  rw [← hi] at arrives
  exact .receive move arrives

end Two

section Observe

variable {β : Type*} {obs : S → List β}

end Observe

theorem not_step (h : ∀ i, next (net i).state = .halt) : ¬ Step next cap net net' := by
  rintro ⟨act⟩
  exact act.not_halt (h _)

end Step

section Turns

variable (next) (cap : ι → ι → ℕ)

/-- What becomes of a machine whose turn it is; one that has to wait stays as it is. -/
def turn (net : ι → Node ι α S) (i : ι) : Node ι α S :=
  match next (net i).state with
  | .halt => net i
  | .silent s => (net i).silent s
  | .send j x s =>
    if ((net i).sent j).length < (net j).taken i + cap i j then (net i).send j x s else net i
  | .receive j s =>
    match ((net j).sent i)[(net i).taken j]? with
    | some x => (net i).receive j (s (some x))
    | none =>
      match next (net j).state with
      | .halt => (net i).silent (s none)
      | _ => net i

/-- The machines take turns in a given order. -/
def takeTurns : List ι → (ι → Node ι α S) → ι → Node ι α S
  | [], net => net
  | i :: turns, net => takeTurns turns (Function.update net i (turn next cap net i))

theorem turn_act (net : ι → Node ι α S) (i : ι) :
    turn next cap net i = net i ∨
      Act next (fun i j => (cap i j : ℕ∞)) net i (turn next cap net i) := by
  unfold turn
  cases move : next (net i).state with
  | halt => exact Or.inl rfl
  | silent s => exact Or.inr (.silent move)
  | send j x s =>
    simp only
    split_ifs with room
    · exact Or.inr (.send move (by exact_mod_cast room))
    · exact Or.inl rfl
  | receive j s =>
    simp only
    cases arrived : ((net j).sent i)[(net i).taken j]? with
    | some x => exact Or.inr (.receive move arrived)
    | none =>
      have drained := List.getElem?_eq_none_iff.mp arrived
      cases halted : next (net j).state with
      | halt => exact Or.inr (.closed move halted drained)
      | silent _ => exact Or.inl rfl
      | send _ _ _ => exact Or.inl rfl
      | receive _ _ => exact Or.inl rfl

/-- Taking turns is a run. -/
theorem takeTurns_run (turns : List ι) (net : ι → Node ι α S) :
    ReflTransGen (Step next fun i j => (cap i j : ℕ∞)) net (takeTurns next cap turns net) := by
  induction turns generalizing net with
  | nil => exact .refl
  | cons i turns ih =>
    rcases turn_act next cap net i with h | h
    · rw [takeTurns, h, Function.update_eq_self]
      exact ih net
    · exact .head (.acts h) (ih _)

end Turns

/-- Nobody takes what was not sent. -/
def Sound (net : ι → Node ι α S) : Prop := ∀ i j, (net j).taken i ≤ ((net i).sent j).length

theorem Sound.taken_le (h : Sound net) (ha : Act next cap net i n) (j : ι) :
    n.taken j ≤ ((net j).sent i).length := by
  cases ha with
  | silent _ => exact h j i
  | send _ _ => exact h j i
  | @receive k s x _ arrived =>
    by_cases hj : j = k
    · subst hj
      have hlt := (List.getElem?_eq_some_iff.mp arrived).1
      simp only [Node.receive, Function.update_self]
      omega
    · simpa [Node.receive, hj] using h j i
  | closed _ _ _ => exact h j i

/-- Seen by the sender of before the step. -/
theorem Sound.step_taken_le (h : Sound net) (hs : Step next cap net net') (i j : ι) :
    (net' j).taken i ≤ ((net i).sent j).length := by
  rcases hs with @⟨k, n, act⟩
  by_cases hj : j = k
  · subst hj
    rw [Function.update_self]
    exact h.taken_le act i
  · rw [Function.update_of_ne hj]
    exact h i j

theorem Sound.step (h : Sound net) (hs : Step next cap net net') : Sound net' := by
  intro i j
  exact (h.step_taken_le hs i j).trans ((hs.grows i).sent j).length_le

theorem Sound.run (h : Sound net) (hr : ReflTransGen (Step next cap) net net') : Sound net' := by
  induction hr with
  | refl => exact h
  | tail _ hs ih => exact ih.step hs

end Network
