import Mathlib.Data.ENat.Basic
import Mathlib.Tactic

/-!
# Partial reads and writes, and the composed operations over them

A read stream hands out the octets it still has in pieces of its own choosing,
and fails once it has none left. A write stream accepts octets in pieces of its
own choosing until its room is used up. The composed operations repeat partial
ones; what they return and what they leave depends on the octets alone, never
on the pieces.
-/

namespace Streams

universe u

/-- A source of cells. `readSome s n` asks for at most `n` of them. -/
class ReadStream (σ : Type u) (α ε : outParam Type) where
  readSome : σ → ℕ → (List α × Option ε) × σ
  content : σ → List α
  failure : σ → ε
  readSome_ok : ∀ (s : σ) {n : ℕ}, 0 < n → content s ≠ [] →
    (readSome s n).1.2 = none ∧ (readSome s n).1.1 ≠ [] ∧ (readSome s n).1.1.length ≤ n ∧
      content s = (readSome s n).1.1 ++ content (readSome s n).2 ∧
      failure (readSome s n).2 = failure s
  readSome_fail : ∀ (s : σ) {n : ℕ}, 0 < n → content s = [] →
    (readSome s n).1 = ([], some (failure s)) ∧ content (readSome s n).2 = []

/-- A sink of cells. `writeSome s xs` offers `xs` and tells how many were taken. -/
class WriteStream (τ : Type u) (α ε : outParam Type) where
  writeSome : τ → List α → (ℕ × Option ε) × τ
  sent : τ → List α
  room : τ → ℕ∞
  failure : τ → ε
  writeSome_ok : ∀ (s : τ) {xs : List α}, xs ≠ [] → 0 < room s →
    (writeSome s xs).1.2 = none ∧ 0 < (writeSome s xs).1.1 ∧
      (writeSome s xs).1.1 ≤ xs.length ∧
      sent (writeSome s xs).2 = sent s ++ xs.take (writeSome s xs).1.1 ∧
      room s = (writeSome s xs).1.1 + room (writeSome s xs).2
  writeSome_fail : ∀ (s : τ) {xs : List α}, xs ≠ [] → room s = 0 →
    (writeSome s xs).1 = (0, some (failure s)) ∧ sent (writeSome s xs).2 = sent s

section Read

variable {σ : Type u} {α ε : Type} [ReadStream σ α ε]

open ReadStream

/-- Repeat `readSome` until `want` cells are there or it reports an error. -/
def readLoop : ℕ → σ → ℕ → (List α × Option ε) × σ
  | 0, s, _ => (([], none), s)
  | fuel + 1, s, want =>
    if want = 0 then (([], none), s)
    else
      let r := readSome s want
      match r.1.2 with
      | some e => ((r.1.1, some e), r.2)
      | none =>
        let rest := readLoop fuel r.2 (want - r.1.1.length)
        ((r.1.1 ++ rest.1.1, rest.1.2), rest.2)

/-- The composed read of exactly `want` cells; each partial read delivers one at least. -/
def read (s : σ) (want : ℕ) : (List α × Option ε) × σ := readLoop want s want

theorem readLoop_enough (fuel : ℕ) (s : σ) (want : ℕ) (hf : want ≤ fuel)
    (hw : want ≤ (content s).length) :
    (readLoop fuel s want).1 = ((content s).take want, none) ∧
      content (readLoop fuel s want).2 = (content s).drop want ∧
      failure (readLoop fuel s want).2 = failure s := by
  induction fuel generalizing s want with
  | zero =>
    obtain rfl : want = 0 := by omega
    simp [readLoop]
  | succ fuel ih =>
    by_cases h0 : want = 0
    · simp [readLoop, h0]
    · have hne : content s ≠ [] := by
        intro h
        rw [h, List.length_nil] at hw
        omega
      obtain ⟨he, hx, hle, hc, hfail⟩ := readSome_ok s (Nat.pos_of_ne_zero h0) hne
      have hpos := List.length_pos_of_ne_nil hx
      have hlen := congrArg List.length hc
      rw [List.length_append] at hlen
      obtain ⟨h1, h2, h3⟩ := ih (readSome s want).2 (want - (readSome s want).1.1.length)
        (by omega) (by omega)
      simp only [readLoop, if_neg h0, he, h1]
      refine ⟨?_, ?_, h3.trans hfail⟩
      · rw [hc, List.take_append, List.take_of_length_le hle]
      · rw [h2, hc, List.drop_append, List.drop_of_length_le hle, List.nil_append]

theorem readLoop_short (fuel : ℕ) (s : σ) (want : ℕ) (hf : want ≤ fuel)
    (hw : (content s).length < want) :
    (readLoop fuel s want).1 = (content s, some (failure s)) ∧
      content (readLoop fuel s want).2 = [] := by
  induction fuel generalizing s want with
  | zero => omega
  | succ fuel ih =>
    have h0 : want ≠ 0 := by omega
    by_cases hne : content s = []
    · obtain ⟨hr, hc⟩ := readSome_fail s (Nat.pos_of_ne_zero h0) hne
      simp [readLoop, if_neg h0, hr, hc, hne]
    · obtain ⟨he, hx, hle, hc, hfail⟩ := readSome_ok s (Nat.pos_of_ne_zero h0) hne
      have hpos := List.length_pos_of_ne_nil hx
      have hlen := congrArg List.length hc
      rw [List.length_append] at hlen
      obtain ⟨h1, h2⟩ := ih (readSome s want).2 (want - (readSome s want).1.1.length)
        (by omega) (by omega)
      simp only [readLoop, if_neg h0, he, h1]
      exact ⟨by rw [hfail, ← hc], h2⟩

/-- A read that the stream can serve fills the whole buffer. -/
theorem read_enough (s : σ) {want : ℕ} (hw : want ≤ (content s).length) :
    (read s want).1 = ((content s).take want, none) ∧
      content (read s want).2 = (content s).drop want ∧
      failure (read s want).2 = failure s :=
  readLoop_enough want s want le_rfl hw

/-- A read that the stream cannot serve delivers what there is and the stream's error. -/
theorem read_short (s : σ) {want : ℕ} (hw : (content s).length < want) :
    (read s want).1 = (content s, some (failure s)) ∧ content (read s want).2 = [] :=
  readLoop_short want s want le_rfl hw

theorem read_append (s : σ) {xs rest : List α} (hc : content s = xs ++ rest) :
    (read s xs.length).1 = (xs, none) ∧ content (read s xs.length).2 = rest ∧
      failure (read s xs.length).2 = failure s := by
  have hw : xs.length ≤ (content s).length := by simp [hc]
  simpa [hc] using read_enough s hw

end Read

section Write

variable {τ : Type u} {α ε : Type} [WriteStream τ α ε]

open WriteStream

/-- Repeat `writeSome` until `xs` is sent or it reports an error. -/
def writeLoop : ℕ → τ → List α → (ℕ × Option ε) × τ
  | 0, s, _ => ((0, none), s)
  | fuel + 1, s, xs =>
    if xs.length = 0 then ((0, none), s)
    else
      let r := writeSome s xs
      match r.1.2 with
      | some e => ((r.1.1, some e), r.2)
      | none =>
        let rest := writeLoop fuel r.2 (xs.drop r.1.1)
        ((r.1.1 + rest.1.1, rest.1.2), rest.2)

/-- The composed write of all of `xs`; each partial write takes one cell at least. -/
def write (s : τ) (xs : List α) : (ℕ × Option ε) × τ := writeLoop xs.length s xs

theorem writeLoop_enough (fuel : ℕ) (s : τ) (xs : List α) (hf : xs.length ≤ fuel)
    (hr : (xs.length : ℕ∞) ≤ room s) :
    (writeLoop fuel s xs).1 = (xs.length, none) ∧
      sent (writeLoop fuel s xs).2 = sent s ++ xs ∧
      room s = xs.length + room (writeLoop fuel s xs).2 := by
  induction fuel generalizing s xs with
  | zero =>
    obtain rfl : xs = [] := List.eq_nil_of_length_eq_zero (by omega)
    simp [writeLoop]
  | succ fuel ih =>
    by_cases h0 : xs.length = 0
    · obtain rfl := List.eq_nil_of_length_eq_zero h0
      simp [writeLoop]
    · have hne : xs ≠ [] := by
        rintro rfl
        exact h0 rfl
      have hpos : 0 < room s :=
        lt_of_lt_of_le (by exact_mod_cast Nat.pos_of_ne_zero h0) hr
      obtain ⟨he, hk, hle, hs, hroom⟩ := writeSome_ok s hne hpos
      have hsplit : xs.length = (writeSome s xs).1.1 + (xs.drop (writeSome s xs).1.1).length := by
        rw [List.length_drop]
        omega
      have hrest : ((xs.drop (writeSome s xs).1.1).length : ℕ∞) ≤ room (writeSome s xs).2 := by
        rw [hsplit, hroom, Nat.cast_add] at hr
        exact (ENat.add_le_add_iff_left (ENat.natCast_ne_top _)).mp hr
      obtain ⟨h1, h2, h3⟩ := ih (writeSome s xs).2 (xs.drop (writeSome s xs).1.1)
        (by omega) hrest
      simp only [writeLoop, if_neg h0, he, h1]
      refine ⟨by rw [← hsplit], ?_, ?_⟩
      · rw [h2, hs, List.append_assoc, List.take_append_drop]
      · rw [hroom, h3, ← add_assoc, ← Nat.cast_add, ← hsplit]

theorem writeLoop_short (fuel : ℕ) (s : τ) (xs : List α) (hf : xs.length ≤ fuel)
    (hr : room s < xs.length) :
    ∃ n e, (writeLoop fuel s xs).1 = (n, some e) ∧ room s = n ∧
      sent (writeLoop fuel s xs).2 = sent s ++ xs.take n := by
  induction fuel generalizing s xs with
  | zero =>
    obtain rfl : xs = [] := List.eq_nil_of_length_eq_zero (by omega)
    simp at hr
  | succ fuel ih =>
    have h0 : xs.length ≠ 0 := by
      intro h
      simp [h] at hr
    have hne : xs ≠ [] := by
      rintro rfl
      exact h0 rfl
    by_cases hpos : room s = 0
    · obtain ⟨hw, hs⟩ := writeSome_fail s hne hpos
      exact ⟨0, failure s, by simp [writeLoop, h0, hw], by simpa using hpos,
        by simp [writeLoop, h0, hw, hs]⟩
    · obtain ⟨he, hk, hle, hs, hroom⟩ := writeSome_ok s hne (pos_iff_ne_zero.mpr hpos)
      have hsplit : xs.length = (writeSome s xs).1.1 + (xs.drop (writeSome s xs).1.1).length := by
        rw [List.length_drop]
        omega
      have hrest : room (writeSome s xs).2 < (xs.drop (writeSome s xs).1.1).length := by
        rw [hsplit, hroom, Nat.cast_add] at hr
        exact (ENat.add_lt_add_iff_left (ENat.natCast_ne_top _)).mp hr
      obtain ⟨n, e, h1, h2, h3⟩ := ih (writeSome s xs).2 (xs.drop (writeSome s xs).1.1)
        (by omega) hrest
      refine ⟨(writeSome s xs).1.1 + n, e, ?_, ?_, ?_⟩
      · simp [writeLoop, h0, he, h1]
      · rw [hroom, h2, Nat.cast_add]
      · simp only [writeLoop, if_neg h0, he]
        rw [h3, hs, List.append_assoc, List.take_add]

/-- A write for which there is room sends the whole sequence. -/
theorem write_enough (s : τ) {xs : List α} (hr : (xs.length : ℕ∞) ≤ room s) :
    (write s xs).1 = (xs.length, none) ∧ sent (write s xs).2 = sent s ++ xs ∧
      room s = xs.length + room (write s xs).2 :=
  writeLoop_enough xs.length s xs le_rfl hr

/-- A write for which there is too little room fills it and fails. -/
theorem write_short (s : τ) {xs : List α} (hr : room s < xs.length) :
    ∃ n e, (write s xs).1 = (n, some e) ∧ room s = n ∧
      sent (write s xs).2 = sent s ++ xs.take n :=
  writeLoop_short xs.length s xs le_rfl hr

end Write

/-- A source that delivers given non-empty chunks one after another, splitting a
chunk only where a caller asks for less, and then fails. -/
structure ChunkSource (α ε : Type) where
  chunks : List {c : List α // c ≠ []}
  error : ε

namespace ChunkSource

variable {α ε : Type}

def next (s : ChunkSource α ε) (n : ℕ) : (List α × Option ε) × ChunkSource α ε :=
  match s.chunks with
  | [] => (([], some s.error), s)
  | c :: cs =>
    if h : c.val.drop n = [] then ((c.val, none), { s with chunks := cs })
    else ((c.val.take n, none), { s with chunks := ⟨c.val.drop n, h⟩ :: cs })

instance : ReadStream (ChunkSource α ε) α ε where
  readSome := next
  content s := (s.chunks.map Subtype.val).flatten
  failure := ChunkSource.error
  readSome_ok := by
    rintro ⟨chunks, e⟩ n hn hc
    cases chunks with
    | nil => exact absurd rfl hc
    | cons c cs =>
      by_cases h : c.val.drop n = []
      · simpa [next, h] using ⟨c.property, List.drop_eq_nil_iff.mp h⟩
      · have hsplit := List.take_append_drop n c.val
        simp [next, h, c.property, Nat.ne_of_gt hn, ← List.append_assoc, hsplit]
  readSome_fail := by
    rintro ⟨chunks, e⟩ n hn hc
    cases chunks with
    | nil => simp [next]
    | cons c cs => simp [c.property] at hc

end ChunkSource

/-- A sink that takes at most `piece + 1` cells at a time and never fails. -/
structure PieceSink (α ε : Type) where
  piece : ℕ
  taken : List α
  error : ε

instance {α ε : Type} : WriteStream (PieceSink α ε) α ε where
  writeSome s xs :=
    ((min (s.piece + 1) xs.length, none), { s with taken := s.taken ++ xs.take (s.piece + 1) })
  sent := PieceSink.taken
  room _ := ⊤
  failure := PieceSink.error
  writeSome_ok := by
    intro s xs hx _
    have := List.length_pos_of_ne_nil hx
    refine ⟨rfl, ?_, Nat.min_le_right _ _, ?_, by simp⟩
    · dsimp only
      omega
    · simp [List.take_eq_take_min]
  writeSome_fail := by
    intro s xs _ h
    simp at h

/-- A sink with room for `left` more cells, `piece + 1` of them at a time. -/
structure BoundedSink (α ε : Type) where
  piece : ℕ
  left : ℕ
  taken : List α
  error : ε

namespace BoundedSink

variable {α ε : Type}

/-- How many of the cells offered are taken. -/
def accepts (s : BoundedSink α ε) (xs : List α) : ℕ := min (min (s.piece + 1) s.left) xs.length

def offer (s : BoundedSink α ε) (xs : List α) : (ℕ × Option ε) × BoundedSink α ε :=
  if s.left = 0 then ((0, some s.error), s)
  else ((s.accepts xs, none),
    { s with left := s.left - s.accepts xs, taken := s.taken ++ xs.take (s.accepts xs) })

instance : WriteStream (BoundedSink α ε) α ε where
  writeSome := offer
  sent := taken
  room s := s.left
  failure := BoundedSink.error
  writeSome_ok := by
    intro s xs hx hroom
    have hpos := List.length_pos_of_ne_nil hx
    have hleft : 0 < s.left := by exact_mod_cast hroom
    have hk : 0 < s.accepts xs := by
      unfold accepts
      omega
    have hle : s.accepts xs ≤ s.left := (Nat.min_le_left _ _).trans (Nat.min_le_right _ _)
    have ho : s.offer xs = ((s.accepts xs, none), { s with
        left := s.left - s.accepts xs, taken := s.taken ++ xs.take (s.accepts xs) }) :=
      if_neg (Nat.ne_of_gt hleft)
    rw [ho]
    refine ⟨rfl, hk, Nat.min_le_right _ _, rfl, ?_⟩
    exact_mod_cast (Nat.add_sub_cancel' hle).symm
  writeSome_fail := by
    intro s xs _ hroom
    have hleft : s.left = 0 := by exact_mod_cast hroom
    simp [offer, hleft]

end BoundedSink

end Streams
