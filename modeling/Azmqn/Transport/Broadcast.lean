import Azmqn.Transport.Loss

/-!
# One message for many streams

`write` and `async_write` take their writable by const reference and still put
the header into it, into a mutable member that the buffers of a pending write
point at. A program may hold any number of writables and start writes of each on
any number of streams, while the streams take what is behind the buffers piece
by piece. Every write gets the frame of its message through, as if no writable
were shared.
-/

namespace Azmqn.Transport

open Memory Xasio Streams Wire WriteStream

section Model

variable {ι κ : Type} {τ : κ → Type} [∀ k, WriteStream (τ k) Octet ErrorCode]

/-- A write that has not completed: the writable whose storage its buffers point at, and how
many octets the stream has taken. -/
structure PendingWrite (ι : Type) where
  source : ι
  bufs : Bufs
  taken : ℕ
  deriving DecidableEq, Repr

/-- A stream, the write that is going on, and the results of those before it. -/
structure Channel (ι σ : Type) where
  stream : σ
  pending : Option (PendingWrite ι)
  results : List (ι × WriteResult)

/-- The writables and the streams of a program. -/
structure Shared (ι κ : Type) (τ : κ → Type) where
  w : ι → WritableMessageOrCommand
  channel : ∀ k, Channel ι (τ k)

inductive WriteAction (ι κ : Type)
  /-- `write` -/
  | write (i : ι) (k : κ)
  /-- `async_write` -/
  | start (i : ι) (k : κ)
  /-- a stream takes more octets of the write that is going on -/
  | proceed (k : κ)
  deriving DecidableEq, Repr

/-- The stream is offered what it has not yet taken of what the buffers point at now. The
handler is called once it has taken everything, or fails. -/
def Channel.proceed {σ : Type} [WriteStream σ Octet ErrorCode] (c : Channel ι σ)
    (w : WritableMessageOrCommand) (p : PendingWrite ι) : Run (Channel ι σ) := do
  let octets ← w.gather p.bufs
  let res := writeSome c.stream (octets.drop p.taken)
  let taken := p.taken + res.1.1
  match res.1.2 with
  | some ec => pure ⟨res.2, none, c.results ++ [(p.source, .error ec)]⟩
  | none =>
    if taken < octets.length then pure ⟨res.2, some { p with taken := taken }, c.results⟩
    else pure ⟨res.2, none, c.results ++ [(p.source, .value taken)]⟩

namespace Shared

/-- No writable was used yet, and nothing was written. -/
def init (w : ι → WritableMessageOrCommand) (s : ∀ k, τ k) : Shared ι κ τ :=
  ⟨w, fun k => ⟨s k, none, []⟩⟩

variable [DecidableEq ι] [DecidableEq κ]

def setChannel (st : Shared ι κ τ) (k : κ) (c : Channel ι (τ k)) : Shared ι κ τ :=
  { st with channel := Function.update st.channel k c }

def setWritable (st : Shared ι κ τ) (i : ι) (w : WritableMessageOrCommand) : Shared ι κ τ :=
  { st with w := Function.update st.w i w }

def act (depth : ℕ) (st : Shared ι κ τ) : WriteAction ι κ → Run (Shared ι κ τ)
  | .write i k => do
    let c := st.channel k
    let ((res, w), s) ← Transport.write .ndebug depth c.stream (st.w i)
    pure ((st.setWritable i w).setChannel k ⟨s, c.pending, c.results ++ [(i, res)]⟩)
  | .start i k => do
    let (bufs, w) ← (st.w i).bufferSequence .ndebug depth
    pure ((st.setWritable i w).setChannel k { st.channel k with pending := some ⟨i, bufs, 0⟩ })
  | .proceed k =>
    match (st.channel k).pending with
    | none => pure st
    | some p => do
      let c ← (st.channel k).proceed (st.w p.source) p
      pure (st.setChannel k c)

/-- A stream is not written to while a write to it is going on. -/
def Enabled (st : Shared ι κ τ) : WriteAction ι κ → Prop
  | .write _ k => (st.channel k).pending = none
  | .start _ k => (st.channel k).pending = none
  | .proceed k => (st.channel k).pending.isSome

/-- The states that a program gets to with the streams moving on in between. -/
inductive Reaches (depth : ℕ) (first : Shared ι κ τ) : List (WriteAction ι κ) → Shared ι κ τ → Prop
  | start : Reaches depth first [] first
  | act {acts st a st'} : Reaches depth first acts st → st.Enabled a →
      st.act depth a = .ok st' → Reaches depth first (acts ++ [a]) st'

end Shared

namespace WriteAction

variable [DecidableEq κ] (k : κ)

/-- The writable that an action writes to stream `k`. -/
def begins : WriteAction ι κ → Option ι
  | .write i k' => if k' = k then some i else none
  | .start i k' => if k' = k then some i else none
  | .proceed _ => none

/-- The writable that an action starts to write to stream `k` asynchronously. -/
def starts : WriteAction ι κ → Option ι
  | .start i k' => if k' = k then some i else none
  | .write _ _ => none
  | .proceed _ => none

def proceeds : WriteAction ι κ → Bool
  | .proceed k' => k' = k
  | .write _ _ => false
  | .start _ _ => false

/-- The stream that an action is about. -/
def target : WriteAction ι κ → κ
  | .write _ k => k
  | .start _ k => k
  | .proceed k => k

variable (acts : List (WriteAction ι κ)) (a : WriteAction ι κ)

/-- The writes to stream `k`, in the order in which they began. -/
def begun : List ι := acts.filterMap (begins k)

/-- The asynchronous ones among them. -/
def started : List ι := acts.filterMap (starts k)

/-- How often stream `k` was offered octets of those. -/
def offers : ℕ := acts.countP (proceeds k)

theorem begun_snoc : begun k (acts ++ [a]) = begun k acts ++ (a.begins k).toList := by
  rw [begun, begun, List.filterMap_append]
  cases h : a.begins k <;> simp [h]

theorem started_snoc : started k (acts ++ [a]) = started k acts ++ (a.starts k).toList := by
  rw [started, started, List.filterMap_append]
  cases h : a.starts k <;> simp [h]

theorem offers_snoc : offers k (acts ++ [a]) = offers k acts + (a.proceeds k).toNat := by
  rw [offers, offers, List.countP_append, List.countP_singleton]
  cases a.proceeds k <;> rfl

variable {k a}

/-- An action on another stream does not count. -/
theorem not_counted (ha : a.target ≠ k) :
    a.begins k = none ∧ a.starts k = none ∧ a.proceeds k = false := by
  cases a with
  | write i k' => exact ⟨if_neg ha, rfl, rfl⟩
  | start i k' => exact ⟨if_neg ha, if_neg ha, rfl⟩
  | proceed k' => exact ⟨rfl, rfl, decide_eq_false ha⟩

@[simp] theorem begins_write (i : ι) : begins k (write i k) = some i := if_pos rfl

@[simp] theorem begins_start (i : ι) : begins k (start i k) = some i := if_pos rfl

@[simp] theorem starts_start (i : ι) : starts k (start i k) = some i := if_pos rfl

@[simp] theorem proceeds_proceed : proceeds k (proceed k : WriteAction ι κ) = true :=
  decide_eq_true rfl

end WriteAction

end Model

/-- What a write with this result gets through of a message. -/
def Through (m : MessageT) : WriteResult → List Octet → Prop
  | .value n, part => n = m.frame.octets.length ∧ part = m.frame.octets
  | .error _, part => ∃ more, more ≠ [] ∧ m.frame.octets = part ++ more

section Writable

variable {m : MessageT} {w : WritableMessageOrCommand} {bufs : Bufs}

/-- The buffers lead to the message's frame, with the header in its place. -/
def Exposes (m : MessageT) (w : WritableMessageOrCommand) (bufs : Bufs) : Prop :=
  bufs = ⟨⟨0, m.header.octets.length⟩, m.base.buffer⟩ ∧
    ∃ rest, w.f_.framing_.toList = m.header.octets ++ rest

theorem Exposes.gather (h : Exposes m w bufs) (hw : w.data_ = .message m) :
    w.gather bufs = .ok m.frame.octets := by
  obtain ⟨rfl, rest, ht⟩ := h
  exact WritableMessageOrCommand.gather_message hw ht

/-- Framing a writable again leaves what the buffers of others lead to. -/
theorem bufferSequence_exposes (depth : ℕ) (hw : w.data_ = .message m) :
    ∃ bufs w', w.bufferSequence .ndebug (depth + 1) = .ok (bufs, w') ∧ w'.data_ = .message m ∧
      Exposes m w' bufs ∧ ∀ others, Exposes m w others → Exposes m w' others := by
  obtain ⟨w', rest, hbufs, hdata, -, ht⟩ :=
    WritableMessageOrCommand.bufferSequence_message (b := .ndebug) depth hw (by simp)
  exact ⟨_, w', hbufs, hdata.trans hw, ⟨rfl, rest, ht⟩, fun _ h => ⟨h.1, rest, ht⟩⟩

/-- A synchronous write, whether or not there is room for all of the frame. -/
theorem write_through {σ : Type} [WriteStream σ Octet ErrorCode] (depth : ℕ) (s : σ)
    (hw : w.data_ = .message m) :
    ∃ res w' s' part, write .ndebug (depth + 1) s w = .ok ((res, w'), s') ∧
      w'.data_ = .message m ∧ (∀ others, Exposes m w others → Exposes m w' others) ∧
      Through m res part ∧ sent s' = sent s ++ part := by
  obtain ⟨w', rest, hrun, hdata, ht⟩ := write_eq (b := .ndebug) depth s hw (fun h => nomatch h)
  have hothers : ∀ others, Exposes m w others → Exposes m w' others :=
    fun others h => ⟨h.1, rest, ht⟩
  by_cases hr : (m.frame.octets.length : ℕ∞) ≤ room s
  · obtain ⟨hres, hsent, -⟩ := Xasio.write_enough s hr
    rw [hres] at hrun
    exact ⟨_, w', _, m.frame.octets, hrun, hdata, hothers, ⟨rfl, rfl⟩, hsent⟩
  · obtain ⟨ec, n, hres, hn, hsent⟩ := Xasio.write_short s (not_le.mp hr)
    rw [hres] at hrun
    refine ⟨_, w', _, m.frame.octets.take n, hrun, hdata, hothers,
      ⟨m.frame.octets.drop n, ?_, (List.take_append_drop n _).symm⟩, hsent⟩
    intro hd
    rw [hn] at hr
    exact hr (by exact_mod_cast List.drop_eq_nil_iff.mp hd)

end Writable

namespace Channel

section Served

variable {ι κ σ : Type} [DecidableEq κ] [WriteStream σ Octet ErrorCode]

/-- What the stream has of the write that is going on. -/
def going (c : Channel ι σ) (m : ι → MessageT) : List Octet :=
  match c.pending with
  | none => []
  | some p => (m p.source).frame.octets.take p.taken

/-- How many octets the write that is going on has left. -/
def left (c : Channel ι σ) (m : ι → MessageT) : ℕ :=
  match c.pending with
  | none => 0
  | some p => (m p.source).frame.octets.length - p.taken

/-- What a stream has after some actions, and how often it may have been asked. -/
structure Served (m : ι → MessageT) (first : σ) (acts : List (WriteAction ι κ)) (k : κ)
    (c : Channel ι σ) : Prop where
  order : c.results.map Prod.fst ++ (c.pending.map PendingWrite.source).toList =
    WriteAction.begun k acts
  octets : ∃ parts, List.Forall₂ (fun r part => Through (m r.1) r.2 part) c.results parts ∧
    sent c.stream = sent first ++ (parts.flatten ++ c.going m)
  effort : WriteAction.offers k acts + c.left m ≤
    ((WriteAction.started k acts).map fun i => (m i).frame.octets.length).sum
  bounded : ∀ p, c.pending = some p → p.taken < (m p.source).frame.octets.length

variable {m : ι → MessageT} {first : σ} {acts : List (WriteAction ι κ)} {k : κ} {c : Channel ι σ}

theorem served_nil (m : ι → MessageT) (first : σ) (k : κ) :
    (⟨first, none, []⟩ : Channel ι σ).Served m first [] k where
  order := rfl
  octets := ⟨[], List.Forall₂.nil, (List.append_nil _).symm⟩
  effort := Nat.le_refl 0
  bounded p hp := by cases hp

/-- An action on another stream does not matter. -/
theorem Served.other (h : c.Served m first acts k) {a : WriteAction ι κ} (ha : a.target ≠ k) :
    c.Served m first (acts ++ [a]) k := by
  obtain ⟨hbegins, hstarts, hproceeds⟩ := WriteAction.not_counted ha
  constructor
  · rw [h.order, WriteAction.begun_snoc, hbegins, Option.toList_none, List.append_nil]
  · exact h.octets
  · rw [WriteAction.offers_snoc, WriteAction.started_snoc, hstarts, hproceeds, Option.toList_none,
      List.append_nil]
    exact h.effort
  · exact h.bounded

/-- A result adds to what the stream has what the write got through. -/
theorem through_snoc {results : List (ι × WriteResult)} {parts : List (List Octet)} {i : ι}
    {res : WriteResult} {part : List Octet}
    (h : List.Forall₂ (fun r part => Through (m r.1) r.2 part) results parts)
    (hp : Through (m i) res part) :
    List.Forall₂ (fun r part => Through (m r.1) r.2 part) (results ++ [(i, res)])
      (parts ++ [part]) :=
  List.rel_append h (List.Forall₂.cons hp List.Forall₂.nil)

theorem Served.write (h : c.Served m first acts k) (hc : c.pending = none) {i : ι}
    {res : WriteResult} {s : σ} {part : List Octet} (hp : Through (m i) res part)
    (hs : sent s = sent c.stream ++ part) :
    (⟨s, none, c.results ++ [(i, res)]⟩ : Channel ι σ).Served m first (acts ++ [.write i k]) k := by
  obtain ⟨horder, ⟨parts, hparts, hsent⟩, heffort, -⟩ := h
  simp only [going, left, hc, List.append_nil, Option.map_none, Option.toList_none]
    at horder hsent heffort
  constructor
  · rw [WriteAction.begun_snoc, ← horder]
    simp
  · refine ⟨parts ++ [part], through_snoc hparts hp, ?_⟩
    rw [hs, hsent]
    simp [going]
  · rw [WriteAction.offers_snoc, WriteAction.started_snoc]
    simpa [left, WriteAction.proceeds, WriteAction.starts] using heffort
  · intro p hp
    cases hp

theorem Served.start (h : c.Served m first acts k) (hc : c.pending = none) (i : ι) (bufs : Bufs)
    (hpos : 0 < (m i).frame.octets.length) :
    (⟨c.stream, some ⟨i, bufs, 0⟩, c.results⟩ : Channel ι σ).Served m first
      (acts ++ [.start i k]) k := by
  obtain ⟨horder, hoctets, heffort, -⟩ := h
  simp only [going, left, hc, List.append_nil, Option.map_none, Option.toList_none]
    at horder hoctets heffort
  constructor
  · rw [WriteAction.begun_snoc, ← horder]
    simp
  · simpa only [going, List.take_zero, List.append_nil] using hoctets
  · rw [WriteAction.offers_snoc, WriteAction.started_snoc]
    simp only [left, WriteAction.proceeds, WriteAction.starts_start, Option.toList_some,
      List.map_append, List.sum_append, List.map_cons, List.map_nil, List.sum_singleton,
      Bool.toNat_false]
    omega
  · intro p hp
    cases hp
    exact hpos

/-- What the stream does with the octets it is offered. -/
theorem proceed_cases (c : Channel ι σ) {w : WritableMessageOrCommand} {p : PendingWrite ι}
    {octets : List Octet} (hg : w.gather p.bufs = .ok octets) (hlt : p.taken < octets.length) :
    ∃ s, (∃ n, 0 < n ∧ p.taken + n < octets.length ∧
        c.proceed w p = .ok ⟨s, some ⟨p.source, p.bufs, p.taken + n⟩, c.results⟩ ∧
        sent s = sent c.stream ++ (octets.drop p.taken).take n) ∨
      (c.proceed w p = .ok ⟨s, none, c.results ++ [(p.source, .value octets.length)]⟩ ∧
        sent s = sent c.stream ++ octets.drop p.taken) ∨
      ∃ ec, c.proceed w p = .ok ⟨s, none, c.results ++ [(p.source, .error ec)]⟩ ∧
        sent s = sent c.stream := by
  have hne : octets.drop p.taken ≠ [] := by
    rw [Ne, List.drop_eq_nil_iff]
    omega
  refine ⟨(writeSome c.stream (octets.drop p.taken)).2, ?_⟩
  by_cases hroom : room c.stream = 0
  · obtain ⟨hres, hs⟩ := writeSome_fail c.stream hne hroom
    exact Or.inr (Or.inr ⟨failure c.stream, by simp [Channel.proceed, hg, hres], hs⟩)
  · obtain ⟨hec, hpos, hle, hs, -⟩ := writeSome_ok c.stream hne (pos_iff_ne_zero.mpr hroom)
    rw [List.length_drop] at hle
    by_cases hend : p.taken + (writeSome c.stream (octets.drop p.taken)).1.1 < octets.length
    · exact Or.inl ⟨_, hpos, hend, by simp [Channel.proceed, hg, hec, hend], hs⟩
    · have hall : p.taken + (writeSome c.stream (octets.drop p.taken)).1.1 = octets.length := by
        omega
      refine Or.inr (Or.inl ⟨by simp [Channel.proceed, hg, hec, hall], ?_⟩)
      rw [hs, List.take_of_length_le (by rw [List.length_drop]; omega)]

/-- What an offer counts for. -/
theorem offered (acts : List (WriteAction ι κ)) (k : κ) :
    WriteAction.begun k (acts ++ [.proceed k]) = WriteAction.begun k acts ∧
      WriteAction.started k (acts ++ [.proceed k]) = WriteAction.started k acts ∧
      WriteAction.offers k (acts ++ [.proceed k]) = WriteAction.offers k acts + 1 := by
  rw [WriteAction.begun_snoc, WriteAction.started_snoc, WriteAction.offers_snoc,
    WriteAction.proceeds_proceed]
  exact ⟨List.append_nil _, List.append_nil _, rfl⟩

/-- One more piece of the write that is going on. -/
theorem Served.piece (h : c.Served m first acts k) {p : PendingWrite ι} (hp : c.pending = some p)
    {n : ℕ} (hpos : 0 < n) (hend : p.taken + n < (m p.source).frame.octets.length) {s : σ}
    (hs : sent s = sent c.stream ++ ((m p.source).frame.octets.drop p.taken).take n) :
    (⟨s, some ⟨p.source, p.bufs, p.taken + n⟩, c.results⟩ : Channel ι σ).Served m first
      (acts ++ [.proceed k]) k := by
  obtain ⟨horder, ⟨parts, hparts, hsent⟩, heffort, -⟩ := h
  obtain ⟨hbegun, hstarted, hoffers⟩ := offered acts k
  simp only [going, left, hp] at horder hsent heffort
  constructor
  · rw [hbegun]
    exact horder
  · refine ⟨parts, hparts, ?_⟩
    rw [hs, hsent]
    simp [going, List.take_add]
  · rw [hoffers, hstarted]
    simp only [left]
    omega
  · rintro p' ⟨⟩
    exact hend

/-- The write that is going on ends, with some last octets or none. -/
theorem Served.finish (h : c.Served m first acts k) {p : PendingWrite ι} (hp : c.pending = some p)
    {res : WriteResult} {last : List Octet}
    (ht : Through (m p.source) res ((m p.source).frame.octets.take p.taken ++ last)) {s : σ}
    (hs : sent s = sent c.stream ++ last) :
    (⟨s, none, c.results ++ [(p.source, res)]⟩ : Channel ι σ).Served m first
      (acts ++ [.proceed k]) k := by
  have hlt := h.bounded p hp
  obtain ⟨horder, ⟨parts, hparts, hsent⟩, heffort, -⟩ := h
  obtain ⟨hbegun, hstarted, hoffers⟩ := offered acts k
  simp only [going, left, hp, Option.map_some, Option.toList_some] at horder hsent heffort
  constructor
  · rw [hbegun, ← horder]
    simp
  · refine ⟨_, through_snoc hparts ht, ?_⟩
    rw [hs, hsent]
    simp [going]
  · rw [hoffers, hstarted]
    simp only [left]
    omega
  · intro p' hp'
    cases hp'

/-- One more piece of the write that is going on, its end, or its failure. -/
theorem Served.proceed (h : c.Served m first acts k) {p : PendingWrite ι}
    (hp : c.pending = some p) {w : WritableMessageOrCommand}
    (hg : w.gather p.bufs = .ok (m p.source).frame.octets) :
    ∃ c', c.proceed w p = .ok c' ∧ c'.Served m first (acts ++ [.proceed k]) k ∧
      ∀ p', c'.pending = some p' → p'.source = p.source ∧ p'.bufs = p.bufs := by
  have hlt := h.bounded p hp
  obtain ⟨s, ⟨n, hpos, hend, hrun, hs⟩ | ⟨hrun, hs⟩ | ⟨ec, hrun, hs⟩⟩ := proceed_cases c hg hlt
  · refine ⟨_, hrun, h.piece hp hpos hend hs, ?_⟩
    rintro p' ⟨⟩
    exact ⟨rfl, rfl⟩
  · have hall : Through (m p.source) (.value (m p.source).frame.octets.length)
        ((m p.source).frame.octets.take p.taken ++ (m p.source).frame.octets.drop p.taken) :=
      ⟨rfl, List.take_append_drop _ _⟩
    exact ⟨_, hrun, h.finish hp hall hs, fun _ hp' => nomatch hp'⟩
  · have hcut : Through (m p.source) (.error ec)
        ((m p.source).frame.octets.take p.taken ++ []) := by
      refine ⟨(m p.source).frame.octets.drop p.taken, ?_, ?_⟩
      · rw [Ne, List.drop_eq_nil_iff]
        omega
      · rw [List.append_nil, List.take_append_drop]
    exact ⟨_, hrun, h.finish hp hcut (by rw [hs, List.append_nil]), fun _ hp' => nomatch hp'⟩

/-- Writes that succeeded have got whole frames through. -/
theorem flatten_of_through {results : List (ι × WriteResult)} {parts : List (List Octet)}
    (h : List.Forall₂ (fun r part => Through (m r.1) r.2 part) results parts)
    (hv : ∀ r ∈ results, ∃ n, r.2 = .value n) :
    parts.flatten = wireOctets (results.map fun r => m r.1) := by
  induction h with
  | nil => rfl
  | @cons r part results parts hp h ih =>
    obtain ⟨n, hn⟩ := hv r List.mem_cons_self
    rw [hn] at hp
    rw [List.flatten_cons, List.map_cons, wireOctets_cons, hp.2]
    exact congrArg (_ ++ ·) (ih fun r' hr => hv r' (List.mem_cons_of_mem r hr))

/-- The write that is going on has not got so far that a reader could tell. -/
theorem Served.undecided (h : c.Served m first acts k) {limit : ReadLimit}
    (hl : ∀ i ∈ WriteAction.begun k acts, ((m i).base.size : ℤ) ≤ limit.val_) :
    (frameReader limit.toSizeT).next (c.going m) = none := by
  cases hp : c.pending with
  | none =>
    rw [going, hp]
    rfl
  | some p =>
    have hlt := h.bounded p hp
    have horder := h.order
    rw [hp] at horder
    rw [going, hp]
    apply decideFrame_cut (List.take_append_drop p.taken _).symm
    · rw [Ne, List.drop_eq_nil_iff]
      omega
    · exact (m p.source).size_le_limit (hl p.source (by simp [← horder]))

/-- As long as no write to a stream fails, its reader gets the messages that were written. -/
theorem Served.readable (h : c.Served m first acts k) (hv : ∀ r ∈ c.results, ∃ n, r.2 = .value n)
    {ρ : Type} [ReadStream ρ Octet ErrorCode] (b : Build) (raw : Raw) {limit : ReadLimit}
    (hl : ∀ i ∈ WriteAction.begun k acts, ((m i).base.size : ℤ) ≤ limit.val_) (t : ρ) {fuel : ℕ}
    (ht : sent c.stream = sent first ++ ReadStream.content t) (hf : c.results.length < fuel) :
    ∃ t', readUntilError b raw limit fuel t =
      .ok ((c.results.map (fun r => .message (m r.1)), some (ReadStream.failure t)), t') := by
  obtain ⟨parts, hparts, hsent⟩ := h.octets
  rw [flatten_of_through hparts hv, ht, List.append_cancel_left_eq] at hsent
  have hsize : ∀ m' ∈ c.results.map (fun r => m r.1), (m'.base.size : ℤ) ≤ limit.val_ := by
    intro m' hm
    obtain ⟨r, hr, rfl⟩ := List.mem_map.mp hm
    apply hl r.1
    rw [← h.order]
    exact List.mem_append_left _ (List.mem_map_of_mem hr)
  obtain ⟨t', hrun, -⟩ := readUntilError_messages b raw t (c.results.map fun r => m r.1)
    (c.going m) hsent hsize (h.undecided hl) (by rwa [List.length_map])
  rw [List.map_map] at hrun
  exact ⟨t', hrun⟩

end Served

end Channel

section Broadcast

variable {ι κ : Type} [DecidableEq κ] {τ : κ → Type} [∀ k, WriteStream (τ k) Octet ErrorCode]

namespace Shared

/-- The messages are where they were, every write that is going on finds its frame behind its
buffers, and every stream is served. -/
structure Served (m : ι → MessageT) (s : ∀ k, τ k) (acts : List (WriteAction ι κ))
    (st : Shared ι κ τ) : Prop where
  data : ∀ i, (st.w i).data_ = .message (m i)
  exposes : ∀ k p, (st.channel k).pending = some p → Exposes (m p.source) (st.w p.source) p.bufs
  channels : ∀ k, (st.channel k).Served m (s k) acts k

variable {m : ι → MessageT} {s : ∀ k, τ k} {acts : List (WriteAction ι κ)} {st : Shared ι κ τ}

theorem served_init {w : ι → WritableMessageOrCommand} (hw : ∀ i, (w i).data_ = .message (m i))
    (s : ∀ k, τ k) : (init w s).Served m s [] where
  data := hw
  exposes _ _ hp := by cases hp
  channels k := Channel.served_nil m (s k) k

/-- What an action must leave, on its own stream and in the writables. -/
theorem served_setChannel {st' : Shared ι κ τ} {a : WriteAction ι κ} {c : Channel ι (τ a.target)}
    (h : st.Served m s acts) (hch : st'.channel = st.channel)
    (hdata : ∀ i, (st'.w i).data_ = .message (m i))
    (hexp : ∀ k p, (st.channel k).pending = some p → Exposes (m p.source) (st'.w p.source) p.bufs)
    (hown : ∀ p, c.pending = some p → Exposes (m p.source) (st'.w p.source) p.bufs)
    (hc : c.Served m (s a.target) (acts ++ [a]) a.target) :
    (st'.setChannel a.target c).Served m s (acts ++ [a]) := by
  constructor
  · exact hdata
  · intro k p hp
    by_cases hk : k = a.target
    · subst hk
      simp only [setChannel, Function.update_self] at hp
      exact hown p hp
    · simp only [setChannel, Function.update_of_ne hk, hch] at hp
      exact hexp k p hp
  · intro k
    by_cases hk : k = a.target
    · subst hk
      simpa only [setChannel, Function.update_self] using hc
    · simpa only [setChannel, Function.update_of_ne hk, hch] using
        (h.channels k).other (Ne.symm hk)

variable [DecidableEq ι]

/-- A writable that was framed again still serves the writes that use it. -/
theorem exposes_setWritable (h : st.Served m s acts) {i : ι} {w : WritableMessageOrCommand}
    (hothers : ∀ others, Exposes (m i) (st.w i) others → Exposes (m i) w others) {k : κ}
    {p : PendingWrite ι} (hp : (st.channel k).pending = some p) :
    Exposes (m p.source) ((st.setWritable i w).w p.source) p.bufs := by
  have hexp := h.exposes k p hp
  by_cases hi : p.source = i
  · subst hi
    simpa [setWritable] using hothers p.bufs hexp
  · simpa [setWritable, Function.update_of_ne hi] using hexp

theorem data_setWritable (h : st.Served m s acts) {i : ι} {w : WritableMessageOrCommand}
    (hw : w.data_ = .message (m i)) (i' : ι) :
    ((st.setWritable i w).w i').data_ = .message (m i') := by
  by_cases hi : i' = i
  · subst hi
    simpa [setWritable] using hw
  · simpa [setWritable, Function.update_of_ne hi] using h.data i'

/-- Every action that may be taken goes through and serves the streams on. -/
theorem act_served (depth : ℕ) (h : st.Served m s acts) {a : WriteAction ι κ} (ha : st.Enabled a) :
    ∃ st', st.act (depth + 1) a = .ok st' ∧ st'.Served m s (acts ++ [a]) := by
  cases a with
  | write i k =>
    obtain ⟨res, w, s', part, hrun, hdata, hothers, hp, hs⟩ :=
      write_through depth (st.channel k).stream (h.data i)
    refine ⟨_, by simp only [act, hrun, Run.ok_bind]; rfl, ?_⟩
    refine served_setChannel (a := .write i k) h rfl (data_setWritable h hdata)
      (fun k' p hp' => exposes_setWritable h hothers hp') ?_ ?_
    · intro p' hp'
      cases ha.symm.trans hp'
    · rw [show (st.channel k).pending = none from ha]
      exact (h.channels k).write ha hp hs
  | start i k =>
    obtain ⟨bufs, w, hrun, hdata, hexp, hothers⟩ := bufferSequence_exposes depth (h.data i)
    refine ⟨_, by simp only [act, hrun, Run.ok_bind]; rfl, ?_⟩
    refine served_setChannel (a := .start i k) h rfl (data_setWritable h hdata)
      (fun k' p hp' => exposes_setWritable h hothers hp') ?_ ?_
    · intro p hp
      obtain rfl := Option.some.inj hp
      simpa [setWritable] using hexp
    · exact (h.channels k).start ha i bufs (List.length_pos_of_ne_nil (WholeFrame.octets_ne_nil _))
  | proceed k =>
    obtain ⟨p, hp⟩ := Option.isSome_iff_exists.mp ha
    have hexp := h.exposes k p hp
    obtain ⟨c, hrun, hc, hsame⟩ := (h.channels k).proceed hp (hexp.gather (h.data p.source))
    refine ⟨st.setChannel k c, by simp [act, hp, hrun], ?_⟩
    refine served_setChannel (a := .proceed k) h rfl h.data h.exposes ?_ hc
    intro p' hp'
    obtain ⟨hsource, hbufs⟩ := hsame p' hp'
    rw [hsource, hbufs]
    exact hexp

theorem Reaches.served {depth : ℕ} {w : ι → WritableMessageOrCommand}
    (hw : ∀ i, (w i).data_ = .message (m i)) (h : Reaches (depth + 1) (init w s) acts st) :
    st.Served m s acts := by
  induction h with
  | start => exact served_init hw s
  | act hreach ha hrun ih =>
    obtain ⟨st', hrun', hserved⟩ := act_served depth ih ha
    rw [hrun] at hrun'
    cases hrun'
    exact hserved

end Shared

/-- However many streams the writables, which hold messages, are written to in a release build,
and in whatever order writes begin and streams take octets: no action goes wrong; writes to one
stream end in the order in which they began; a stream has the whole frame of every write that
succeeded and a proper part of one that failed or is going on; a write asks its stream no more
often than its frame has octets; and where none failed a reader whose limit lets through what was
begun gets the messages whose writes have ended. -/
theorem broadcast [DecidableEq ι] (depth : ℕ) (m : ι → MessageT) {w : ι → WritableMessageOrCommand}
    (hw : ∀ i, (w i).data_ = .message (m i)) {s : ∀ k, τ k} {acts : List (WriteAction ι κ)}
    {st : Shared ι κ τ} (h : Shared.Reaches (depth + 1) (.init w s) acts st) :
    (∀ a, st.Enabled a → ∃ st', st.act (depth + 1) a = .ok st') ∧
    ∀ k, (st.channel k).results.map Prod.fst ++
          ((st.channel k).pending.map PendingWrite.source).toList = WriteAction.begun k acts ∧
      (∃ parts, List.Forall₂ (fun r part => Through (m r.1) r.2 part) (st.channel k).results parts ∧
        sent (st.channel k).stream = sent (s k) ++ (parts.flatten ++ (st.channel k).going m)) ∧
      WriteAction.offers k acts + (st.channel k).left m ≤
        ((WriteAction.started k acts).map fun i => (m i).frame.octets.length).sum ∧
      (∀ p, (st.channel k).pending = some p → p.taken < (m p.source).frame.octets.length) ∧
      ∀ (σ : Type) [ReadStream σ Octet ErrorCode] (b : Build) (raw : Raw) (limit : ReadLimit)
          (t : σ) (fuel : ℕ), (∀ r ∈ (st.channel k).results, ∃ n, r.2 = .value n) →
        (∀ i ∈ WriteAction.begun k acts, ((m i).base.size : ℤ) ≤ limit.val_) →
        sent (st.channel k).stream = sent (s k) ++ ReadStream.content t →
        (st.channel k).results.length < fuel →
          ∃ t', readUntilError b raw limit fuel t =
            .ok (((st.channel k).results.map (fun r => .message (m r.1)),
              some (ReadStream.failure t)), t') := by
  have hserved := h.served hw
  constructor
  · intro a ha
    obtain ⟨st', hrun, -⟩ := Shared.act_served depth hserved ha
    exact ⟨st', hrun⟩
  · intro k
    have hk := hserved.channels k
    refine ⟨hk.order, hk.octets, hk.effort, hk.bounded, ?_⟩
    intro σ _ b raw limit t fuel hv hl ht hf
    exact hk.readable hv b raw hl t ht hf

/-- One writable and two streams; the second write begins while the first is going on. -/
theorem broadcast_two_streams :
    ∃ st, Shared.Reaches 1 (.init (fun _ : Unit => .ofMessage (.replicate maxFramingOctets 0xaa)
          ⟨⟨[0x61, 0x62], by decide⟩, true⟩)
        (fun k : Bool => (PieceSink.mk (bif k then 2 else 8) [] .eof : PieceSink Octet ErrorCode)))
        [.start () true, .proceed true, .start () false, .proceed false, .proceed true] st ∧
      ∀ k, (st.channel k).results = [((), .value 4)] ∧
        sent (st.channel k).stream = [0x01, 0x02, 0x61, 0x62] ∧
        (st.channel k).results.map Prod.fst ++
          ((st.channel k).pending.map PendingWrite.source).toList = [()] := by
  have h₀ : Shared.Reaches 1 _ [] (.init (fun _ : Unit => .ofMessage
      (.replicate maxFramingOctets 0xaa) ⟨⟨[0x61, 0x62], by decide⟩, true⟩)
    (fun k : Bool => (PieceSink.mk (bif k then 2 else 8) [] .eof : PieceSink Octet ErrorCode))) :=
    .start
  have h₁ := h₀.act (a := .start () true) rfl rfl
  have h₂ := h₁.act (a := .proceed true) rfl rfl
  have h₃ := h₂.act (a := .start () false) rfl rfl
  have h₄ := h₃.act (a := .proceed false) rfl rfl
  have h₅ := h₄.act (a := .proceed true) rfl rfl
  obtain ⟨-, hk⟩ := broadcast 0 (fun _ => ⟨⟨[0x61, 0x62], by decide⟩, true⟩) (fun _ => rfl) h₅
  refine ⟨_, h₅, ?_⟩
  rintro (_ | _)
  · exact ⟨rfl, rfl, (hk false).1⟩
  · exact ⟨rfl, rfl, (hk true).1⟩

end Broadcast

end Azmqn.Transport
