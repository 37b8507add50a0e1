import Azmqn.Transport.Incoming
import Azmqn.Transport.Peer

/-!
# What peers read from one another

However the calls of the peers interleave and however little a connection holds,
what one peer has read from another is, in order and unchanged, the beginning of
what the other one writes to it. The end of a stream shows up behind the last
message only. Each side of a connection has its own invariant; what ties them
together is that the octets taken are a beginning of the octets sent.
-/

namespace Azmqn.Transport

open Memory Xasio Streams Wire Network Relation

variable {ι : Type} [DecidableEq ι]

/-- The messages that a program writes to `j`. -/
def messagesTo (j : ι) (actions : List (Action ι)) : List MessageT :=
  actions.filterMap fun
    | .write dest m => if dest = j then some m else none
    | .read _ _ => none

/-- The messages whose writes to `j` have returned. -/
def writtenTo (j : ι) (log : List (Outcome ι)) : List MessageT :=
  log.filterMap fun
    | .wrote dest m _ => if dest = j then some m else none
    | .read _ _ => none
    | .failed _ => none

/-- What the reads from `i` have returned. -/
def resultsFrom (i : ι) (log : List (Outcome ι)) : List MessageOrCommandResult :=
  log.filterMap fun
    | .read source res => if source = i then some res else none
    | .wrote _ _ _ => none
    | .failed _ => none

namespace Activity

def before (j : ι) : Activity ι → List Octet
  | writing dest _ before _ _ => if dest = j then before else []
  | _ => []

def current (j : ι) : Activity ι → List MessageT
  | writing dest m _ _ _ => if dest = j then [m] else []
  | _ => []

def got (i : ι) : Activity ι → List Octet
  | reading source _ got => if source = i then got else []
  | _ => []

end Activity

theorem wireOctets_append (ms ms' : List MessageT) :
    wireOctets (ms ++ ms') = wireOctets ms ++ wireOctets ms' := by
  induction ms with
  | nil => rfl
  | cons m ms ih => rw [List.cons_append, wireOctets_cons, ih, wireOctets_cons, List.append_assoc]

theorem length_frame (m : MessageT) :
    m.frame.octets.length = (if 255 < m.base.size then 9 else 2) + m.base.size := by
  rw [← m.length_header]
  exact List.length_append

/-- What a peer has sent to `j` is the frames of the writes that returned and the beginning of
one more. -/
structure Writes (ms : List MessageT) (j : ι) (p : Peer ι) (xs : List Octet) : Prop where
  sent : xs = wireOctets (writtenTo j p.log) ++ p.activity.before j
  plan : writtenTo j p.log ++ p.activity.current j ++ messagesTo j p.todo <+: ms
  frame : ∀ {m before after res}, p.activity = .writing j m before after res →
    before ++ after = m.frame.octets

namespace Writes

variable {b : Build} {ms : List MessageT} {j : ι} {p p' : Peer ι} {xs : List Octet}

theorem silent (h : Writes ms j p xs) (hd : p.Does b (.silent p')) : Writes ms j p' xs := by
  have hsent := h.sent
  have hplan := h.plan
  cases hd with
  | @startsWrite dest m todo log =>
    by_cases hj : dest = j
    · subst hj
      refine ⟨?_, ?_, ?_⟩
      · simpa [Activity.before] using hsent
      · simpa [Activity.current, messagesTo] using hplan
      · intro m' before after res ha
        cases ha
        rfl
    · refine ⟨?_, ?_, ?_⟩
      · simpa [Activity.before, hj] using hsent
      · simpa [Activity.current, messagesTo, hj] using hplan
      · intro m' before after res ha
        cases ha
        exact absurd rfl hj
  | failsWrite _ _ =>
    refine ⟨?_, ?_, fun ha => nomatch ha⟩
    · simpa [writtenTo, Activity.before] using hsent
    · refine List.IsPrefix.trans ?_ hplan
      simp [writtenTo, Activity.current, messagesTo]
  | @finishesWrite dest m before res todo log =>
    by_cases hj : dest = j
    · subst hj
      have hf := h.frame rfl
      rw [List.append_nil] at hf
      refine ⟨?_, ?_, fun ha => nomatch ha⟩
      · have hw : writtenTo dest (log ++ [.wrote dest m res]) = writtenTo dest log ++ [m] := by
          simp [writtenTo]
        rw [hw, wireOctets_append, hsent]
        simp [Activity.before, hf]
      · simpa [writtenTo, Activity.current] using hplan
    · refine ⟨?_, ?_, fun ha => nomatch ha⟩
      · simpa [writtenTo, Activity.before, hj] using hsent
      · simpa [writtenTo, Activity.current, hj] using hplan
  | startsRead =>
    refine ⟨hsent, ?_, fun ha => nomatch ha⟩
    simpa [messagesTo, Activity.current] using hplan
  | finishesRead _ =>
    refine ⟨?_, ?_, fun ha => nomatch ha⟩
    · simpa [writtenTo, Activity.before] using hsent
    · simpa [writtenTo, Activity.current] using hplan

theorem send {dest : ι} {x : Octet} (h : Writes ms j p xs) (hd : p.Does b (.send dest x p')) :
    Writes ms j p' (if dest = j then xs ++ [x] else xs) := by
  have hsent := h.sent
  have hplan := h.plan
  cases hd with
  | @sends dest m x before after res todo log =>
    by_cases hj : dest = j
    · subst hj
      refine ⟨?_, ?_, ?_⟩
      · simp [hsent, Activity.before]
      · simpa [Activity.current] using hplan
      · intro m' before' after' res' ha
        cases ha
        rw [List.append_assoc]
        exact h.frame rfl
    · refine ⟨?_, ?_, ?_⟩
      · simpa [hj, Activity.before] using hsent
      · simpa [hj, Activity.current] using hplan
      · intro m' before' after' res' ha
        cases ha
        exact absurd rfl hj

theorem receive {source : ι} {arrives : Option Octet → Peer ι} (h : Writes ms j p xs)
    (hd : p.Does b (.receive source arrives)) (o : Option Octet) : Writes ms j (arrives o) xs := by
  have hsent := h.sent
  have hplan := h.plan
  cases hd with
  | waits _ octet eof =>
    cases o with
    | none =>
      rw [eof]
      refine ⟨?_, ?_, fun ha => nomatch ha⟩
      · simpa [writtenTo, Activity.before] using hsent
      · simpa [writtenTo, Activity.current] using hplan
    | some x =>
      rw [octet]
      exact ⟨hsent, hplan, fun ha => nomatch ha⟩

/-- Nothing is sent that the plan does not hold. -/
theorem prefix_plan (h : Writes ms j p xs) : xs <+: wireOctets ms := by
  have hplan := h.plan
  have hbefore : p.activity.before j <+: wireOctets (p.activity.current j) := by
    cases ha : p.activity with
    | idle => exact List.nil_prefix
    | reading source rlimit got => exact List.nil_prefix
    | writing dest m before after res =>
      by_cases hj : dest = j
      · subst hj
        simp [Activity.before, Activity.current, ← h.frame ha]
      · simp [Activity.before, hj]
  obtain ⟨later, hms⟩ := hplan
  obtain ⟨after, hafter⟩ := hbefore
  refine ⟨after ++ (wireOctets (messagesTo j p.todo) ++ wireOctets later), ?_⟩
  rw [h.sent, ← hms, wireOctets_append, wireOctets_append, wireOctets_append, ← hafter]
  simp only [List.append_assoc]

/-- A peer that has halted has sent whole frames. -/
theorem of_halt (h : Writes ms j p xs) (hd : p.Does b .halt) :
    xs = wireOctets (writtenTo j p.log) := by
  have hsent := h.sent
  cases hd
  simpa [Activity.before] using hsent

end Writes

/-- Octets of the next message, all of them at most. -/
def Heads (got : List Octet) : List MessageT → Prop
  | [] => got = []
  | m :: _ => got <+: m.frame.octets

section Heads

variable {got : List Octet} {rest : List MessageT} {limit : ReadLimit}

theorem readSpec_of_cut {m : MessageT} {ys : List Octet} (error : ErrorCode)
    (h : m.frame.octets = got ++ ys) (hy : ys ≠ []) (hl : (m.base.size : ℤ) ≤ limit.val_) :
    (readSpec limit.toSizeT error got).1 = .error error := by
  have hcut : (frameReader limit.toSizeT).next got = none :=
    decideFrame_cut h hy (m.size_le_limit hl)
  rw [readSpec_eq_decide, hcut]
  rfl

theorem readSpec_message {m : MessageT} (error : ErrorCode)
    (hl : (m.base.size : ℤ) ≤ limit.val_) :
    (readSpec limit.toSizeT error m.frame.octets).1 = .value (.message m) := by
  have hspec : readSpec limit.toSizeT error (m.frame.octets ++ []) = _ :=
    readSpec_frame error (m.size_le_limit hl)
  rw [List.append_nil, m.content_frame] at hspec
  rw [hspec]

/-- A read is decided by a whole frame, and by nothing less. -/
theorem Heads.decided (h : Heads got rest) (hl : ∀ m ∈ rest, (m.base.size : ℤ) ≤ limit.val_)
    (error : ErrorCode) :
    (∃ m rest', rest = m :: rest' ∧ got = m.frame.octets ∧
      (readSpec limit.toSizeT error got).1 = .value (.message m)) ∨
    (readSpec limit.toSizeT error got).1 = .error error ∧ WholeFrame.parse got = none := by
  cases rest with
  | nil =>
    obtain rfl : got = [] := h
    exact Or.inr ⟨rfl, rfl⟩
  | cons m rest =>
    have hm := hl m List.mem_cons_self
    obtain ⟨ys, hys⟩ : got <+: m.frame.octets := h
    by_cases hy : ys = []
    · rw [hy, List.append_nil] at hys
      refine Or.inl ⟨m, rest, rfl, hys, ?_⟩
      rw [hys]
      exact readSpec_message error hm
    · exact Or.inr ⟨readSpec_of_cut error hys.symm hy hm,
        WholeFrame.code.parse_of_cut hys.symm hy⟩

/-- What arrives while a read is undecided belongs to the same message. -/
theorem Heads.snoc {x : Octet} (h : Heads got rest) (hx : got ++ [x] <+: wireOctets rest)
    (hu : WholeFrame.parse got = none) : Heads (got ++ [x]) rest := by
  cases rest with
  | nil => exact List.prefix_nil.mp hx
  | cons m rest =>
    obtain ⟨ys, hys⟩ : got <+: m.frame.octets := h
    cases ys with
    | nil =>
      rw [List.append_nil] at hys
      have hp := WholeFrame.parse_octets m.frame []
      rw [List.append_nil, ← hys, hu] at hp
      cases hp
    | cons y ys =>
      rw [wireOctets_cons, ← hys, List.append_assoc, List.prefix_append_right_inj] at hx
      obtain ⟨zs, hzs⟩ := hx
      simp only [List.cons_append, List.nil_append, List.cons.injEq] at hzs
      refine ⟨ys, ?_⟩
      rw [← hys, hzs.1, List.append_assoc]
      rfl

end Heads

/-- What a peer has taken from `i` is the frames of the messages it has read and the beginning
of one more; after the end of the stream, which carries `final`, there is nothing more. -/
structure Reads (ms : List MessageT) (final : Option (List MessageT)) (i : ι) (p : Peer ι)
    (xs : List Octet) : Prop where
  planned : ∀ {l}, .read i l ∈ p.todo → ∀ m ∈ ms, (m.base.size : ℤ) ≤ l.val_
  admitted : ∀ {l got}, p.activity = .reading i l got → ∀ m ∈ ms, (m.base.size : ℤ) ≤ l.val_
  taken : ∃ read rest n, ms = read ++ rest ∧ xs = wireOctets read ++ p.activity.got i ∧
    Heads (p.activity.got i) rest ∧
    resultsFrom i p.log = read.map (fun m => .value (.message m)) ++ .replicate n (.error .eof) ∧
    (n ≠ 0 → final = some read ∧ p.activity.got i = [])

namespace Reads

variable {b : Build} {ms : List MessageT} {final final' : Option (List MessageT)} {i : ι}
  {p p' : Peer ι} {xs : List Octet}

theorem mono (h : Reads ms final i p xs) (hf : ∀ read, final = some read → final' = some read) :
    Reads ms final' i p xs := by
  refine ⟨h.planned, h.admitted, ?_⟩
  obtain ⟨read, rest, n, hms, hxs, hheads, hlog, hn⟩ := h.taken
  exact ⟨read, rest, n, hms, hxs, hheads, hlog, fun h => ⟨hf _ (hn h).1, (hn h).2⟩⟩

/-- A step that reads nothing from `i`. -/
theorem frame (h : Reads ms final i p xs) (htodo : p'.todo ⊆ p.todo)
    (hact : ∀ {l got}, p'.activity = .reading i l got → .read i l ∈ p.todo)
    (hgot : p'.activity.got i = p.activity.got i)
    (hlog : resultsFrom i p'.log = resultsFrom i p.log) : Reads ms final i p' xs := by
  refine ⟨fun hl => h.planned (htodo hl), fun ha => h.planned (hact ha), ?_⟩
  rw [hgot, hlog]
  exact h.taken

theorem silent (h : Reads ms final i p xs) (hd : p.Does b (.silent p')) :
    Reads ms final i p' xs := by
  cases hd with
  | startsWrite =>
    exact h.frame (List.subset_cons_self _ _) (fun ha => nomatch ha) rfl rfl
  | failsWrite _ _ =>
    exact h.frame (List.nil_subset _) (fun ha => nomatch ha) rfl (by simp [resultsFrom])
  | finishesWrite =>
    exact h.frame (List.Subset.refl _) (fun ha => nomatch ha) rfl (by simp [resultsFrom])
  | @startsRead source rlimit todo log =>
    refine h.frame (List.subset_cons_self _ _) ?_ ?_ rfl
    · intro l got ha
      cases ha
      exact List.mem_cons_self
    · simp [Activity.got]
  | @finishesRead source rlimit got todo log decided =>
    by_cases hi : source = i
    · subst hi
      refine ⟨h.planned, (fun ha => nomatch ha), ?_⟩
      obtain ⟨read, rest, n, hms, hxs, hheads, hlog, hn⟩ := h.taken
      simp only [Activity.got, if_true] at hxs hheads hn
      have hl : ∀ m ∈ rest, (m.base.size : ℤ) ≤ rlimit.val_ := by
        intro m hm
        exact h.admitted rfl m (by simp [hms, hm])
      rcases hheads.decided hl wouldBlock with ⟨m, rest', rfl, hg, hres⟩ | ⟨hres, -⟩
      · have h0 : n = 0 := by
          by_contra h0
          exact m.frame.octets_ne_nil (hg.symm.trans (hn h0).2)
        refine ⟨read ++ [m], rest', 0, by simp [hms], ?_, ?_, ?_, fun h => absurd rfl h⟩
        · simp [hxs, hg, wireOctets_append, Activity.got]
        · cases rest' with
          | nil => rfl
          | cons m' rest' => exact List.nil_prefix
        · subst h0
          simp only [List.replicate_zero, List.append_nil] at hlog
          simp only [resultsFrom] at hlog
          simp [resultsFrom, List.filterMap_append, hlog, hres]
      · exact absurd hres decided
    · refine h.frame (List.Subset.refl _) (fun ha => nomatch ha) ?_ ?_
      · simp [Activity.got, hi]
      · simp [resultsFrom, hi]

theorem send {dest : ι} {x : Octet} (h : Reads ms final i p xs)
    (hd : p.Does b (.send dest x p')) : Reads ms final i p' xs := by
  cases hd
  exact h.frame (List.Subset.refl _) (fun ha => nomatch ha) rfl rfl

theorem receive_other {source : ι} {arrives : Option Octet → Peer ι} (h : Reads ms final i p xs)
    (hd : p.Does b (.receive source arrives)) (hi : source ≠ i) (o : Option Octet) :
    Reads ms final i (arrives o) xs := by
  cases hd with
  | waits _ octet eof =>
    cases o with
    | none =>
      rw [eof]
      refine h.frame (List.Subset.refl _) (fun ha => nomatch ha) ?_ ?_
      · simp [Activity.got, hi]
      · simp [resultsFrom, hi]
    | some x =>
      rw [octet]
      refine h.frame (List.Subset.refl _) ?_ ?_ rfl
      · intro l got ha
        cases ha
        exact absurd rfl hi
      · simp [Activity.got, hi]

/-- An octet arrives, so the stream has not ended. -/
theorem receive {arrives : Option Octet → Peer ι} {x : Octet} (h : Reads ms final i p xs)
    (hd : p.Does b (.receive i arrives)) (hx : xs ++ [x] <+: wireOctets ms)
    (hopen : ∀ read, final = some read → xs.length < (wireOctets read).length) :
    Reads ms final i (arrives (some x)) (xs ++ [x]) := by
  cases hd with
  | @waits _ rlimit got todo log _ undecided octet eof =>
    rw [octet]
    refine ⟨h.planned, ?_, ?_⟩
    · intro l g ha
      cases ha
      exact h.admitted rfl
    · obtain ⟨read, rest, n, hms, hxs, hheads, hlog, hn⟩ := h.taken
      simp only [Activity.got, if_true] at hxs hheads hn ⊢
      have h0 : n = 0 := by
        by_contra h0
        have hlt := hopen read (hn h0).1
        rw [hxs, (hn h0).2, List.append_nil] at hlt
        exact lt_irrefl _ hlt
      have hl : ∀ m ∈ rest, (m.base.size : ℤ) ≤ rlimit.val_ := by
        intro m hm
        exact h.admitted rfl m (by simp [hms, hm])
      refine ⟨read, rest, n, hms, by rw [hxs, List.append_assoc], ?_, hlog, fun h => absurd h0 h⟩
      rcases hheads.decided hl wouldBlock with ⟨m, rest', -, -, hres⟩ | ⟨-, hu⟩
      · rw [hres] at undecided
        cases undecided
      · refine hheads.snoc ?_ hu
        rw [hxs, hms, wireOctets_append, List.append_assoc, List.prefix_append_right_inj] at hx
        exact hx

/-- The stream ends between two messages. -/
theorem close {arrives : Option Octet → Peer ι} {done : List MessageT} (h : Reads ms final i p xs)
    (hd : p.Does b (.receive i arrives)) (hf : final = some done) (hxs : xs = wireOctets done) :
    Reads ms final i (arrives none) xs := by
  cases hd with
  | @waits _ rlimit got todo log _ undecided octet eof =>
    rw [eof]
    refine ⟨h.planned, (fun ha => nomatch ha), ?_⟩
    obtain ⟨read, rest, n, hms, hread, hheads, hlog, hn⟩ := h.taken
    simp only [Activity.got, if_true] at hread hheads hn ⊢
    have hl : ∀ m ∈ rest, (m.base.size : ℤ) ≤ rlimit.val_ := by
      intro m hm
      exact h.admitted rfl m (by simp [hms, hm])
    rcases hheads.decided hl .eof with ⟨m, rest', -, hg, hres⟩ | ⟨hres, hu⟩
    · have hblock := hheads.decided hl wouldBlock
      rcases hblock with ⟨m', rest', -, -, hres'⟩ | ⟨-, hu⟩
      · rw [hres'] at undecided
        cases undecided
      · have hp := WholeFrame.parse_octets m.frame []
        rw [List.append_nil, ← hg, hu] at hp
        cases hp
    · have hsplit : WholeFrame.code.encodeAll (read.map MessageT.frame) ++ got =
          WholeFrame.code.encodeAll (done.map MessageT.frame) ++ [] := by
        rw [List.append_nil]
        exact hread.symm.trans hxs
      obtain ⟨hdone, hgot⟩ := WholeFrame.code.encodeAll_append_injective hu
        WholeFrame.code.parse_nil hsplit
      subst hgot
      have hinj : Function.Injective MessageT.frame := by
        intro m m' h
        have hc := congrArg WholeFrame.content h
        rw [m.content_frame, m'.content_frame, MessageOrCommand.message.injEq] at hc
        exact hc
      obtain rfl : read = done := List.map_injective_iff.mpr hinj hdone
      refine ⟨read, rest, n + 1, hms, hread, hheads, ?_, fun _ => ⟨hf, trivial⟩⟩
      simp only [resultsFrom] at hlog
      simp [resultsFrom, List.filterMap_append, hlog, hres, List.replicate_succ']

end Reads

variable {b : Build} {depth : ℕ} {raw : Raw} {cap : ι → ι → ℕ∞} {program : ι → List (Action ι)}
  {net net' : ι → Node ι Octet (Peer ι)}

/-- Nobody has called anything, and all connections are empty. -/
def start (program : ι → List (Action ι)) (i : ι) : Node ι Octet (Peer ι) :=
  ⟨⟨program i, .idle, []⟩, fun _ => [], fun _ => 0⟩

/-- What the stream from `i` to `j` carries in all, once that is known. -/
def finalTo (b : Build) (depth : ℕ) (raw : Raw) (net : ι → Node ι Octet (Peer ι)) (i j : ι) :
    Option (List MessageT) :=
  match (net i).state.next b depth raw with
  | .halt => some (writtenTo j (net i).state.log)
  | _ => none

/-- The invariant of the connection from `i` to `j`. -/
structure Delivers (b : Build) (depth : ℕ) (raw : Raw) (ms : List MessageT)
    (net : ι → Node ι Octet (Peer ι)) (i j : ι) : Prop where
  writes : Writes ms j (net i).state ((net i).sent j)
  reads : Reads ms (finalTo b depth raw net i j) i (net j).state
    (((net i).sent j).take ((net j).taken i))

/-- Every body that is written to a peer passes the limits of its reads. -/
def Admissible (program : ι → List (Action ι)) : Prop :=
  ∀ i j l, .read i l ∈ program j → ∀ m ∈ messagesTo j (program i), (m.base.size : ℤ) ≤ l.val_

theorem delivers_start (h : Admissible program) (i j : ι) :
    Delivers b depth raw (messagesTo j (program i)) (start program) i j := by
  refine ⟨⟨rfl, List.prefix_rfl, fun ha => nomatch ha⟩, fun hl => h i j _ hl,
    (fun ha => nomatch ha), [], messagesTo j (program i), 0, rfl, rfl, ?_, rfl,
    fun h => absurd rfl h⟩
  cases messagesTo j (program i) with
  | nil => rfl
  | cons m ms => exact List.nil_prefix

section Step

variable {ms : List MessageT} {i j k : ι} {n : Node ι Octet (Peer ι)}

theorem finalTo_eq_some {read : List MessageT}
    (h : finalTo b depth raw net i j = some read) :
    (net i).state.next b depth raw = .halt ∧ writtenTo j (net i).state.log = read := by
  unfold finalTo at h
  split at h
  · exact ⟨by assumption, Option.some.inj h⟩
  · cases h

theorem finalTo_of_halt (h : (net i).state.next b depth raw = .halt) :
    finalTo b depth raw net i j = some (writtenTo j (net i).state.log) := by
  simp [finalTo, h]

theorem Writes.act (h : Writes ms j (net k).state ((net k).sent j))
    (ha : Act (Peer.next b (depth + 1) raw) cap net k n) : Writes ms j n.state (n.sent j) := by
  have hd := (net k).state.next_does b depth raw
  cases ha with
  | silent move =>
    rw [move] at hd
    exact h.silent hd
  | @send dest x p' move room =>
    rw [move] at hd
    have hs := h.send hd
    by_cases hj : dest = j
    · subst hj
      simpa [Node.send] using hs
    · simpa [Node.send, hj, Ne.symm hj] using hs
  | receive move _ =>
    rw [move] at hd
    exact h.receive hd _
  | closed move _ _ =>
    rw [move] at hd
    exact h.receive hd _

theorem take_of_begins {xs ys : List Octet} {t : ℕ} (h : xs <+: ys) (ht : t ≤ xs.length) :
    ys.take t = xs.take t := by
  obtain ⟨zs, rfl⟩ := h
  exact List.take_append_of_le_length ht

/-- The receiving side of a connection moves. -/
theorem Delivers.act (h : Delivers b (depth + 1) raw ms net i k)
    (ht : (net k).taken i ≤ ((net i).sent k).length)
    (ha : Act (Peer.next b (depth + 1) raw) cap net k n) :
    Reads ms (finalTo b (depth + 1) raw net i k) i n.state (((net i).sent k).take (n.taken i)) := by
  have hd := (net k).state.next_does b depth raw
  have hw := h.writes
  have hr := h.reads
  cases ha with
  | silent move =>
    rw [move] at hd
    exact hr.silent hd
  | send move room =>
    rw [move] at hd
    exact hr.send hd
  | @receive source arrives x move arrived =>
    rw [move] at hd
    by_cases hi : source = i
    · subst hi
      have hlt := (List.getElem?_eq_some_iff.mp arrived).1
      have htake : ((net source).sent k).take ((net k).taken source + 1) =
          ((net source).sent k).take ((net k).taken source) ++ [x] := by
        rw [List.take_add_one, arrived]
        rfl
      simp only [Node.receive, Function.update_self, htake]
      apply hr.receive hd
      · rw [← htake]
        exact (List.take_prefix _ _).trans hw.prefix_plan
      · intro read hf
        obtain ⟨hhalt, rfl⟩ := finalTo_eq_some hf
        have hs := (net source).state.next_does b depth raw
        rw [hhalt] at hs
        rw [← hw.of_halt hs, List.length_take]
        omega
    · simpa [Node.receive, hi, Ne.symm hi] using hr.receive_other hd hi (some x)
  | @closed source arrives move halted drained =>
    rw [move] at hd
    by_cases hi : source = i
    · subst hi
      have hs := (net source).state.next_does b depth raw
      rw [halted] at hs
      apply hr.close hd (finalTo_of_halt halted)
      rw [List.take_of_length_le drained]
      exact hw.of_halt hs
    · exact hr.receive_other hd hi none

theorem Delivers.step (h : Delivers b (depth + 1) raw ms net i j) (hsound : Sound net)
    (hs : Step (Peer.next b (depth + 1) raw) cap net net') :
    Delivers b (depth + 1) raw ms net' i j := by
  have hg := hs.grows i
  have ht := hsound.step_taken_le hs i j
  rcases hs with @⟨k, n, act⟩
  constructor
  · by_cases hi : i = k
    · subst hi
      rw [Function.update_self]
      exact h.writes.act act
    · rw [Function.update_of_ne hi]
      exact h.writes
  · rw [take_of_begins (hg.sent j) ht]
    have hr : Reads ms (finalTo b (depth + 1) raw net i j) i (Function.update net k n j).state
        (((net i).sent j).take ((Function.update net k n j).taken i)) := by
      by_cases hj : j = k
      · subst hj
        rw [Function.update_self]
        exact h.act (hsound i j) act
      · rw [Function.update_of_ne hj]
        exact h.reads
    apply hr.mono
    intro read hf
    obtain ⟨hhalt, rfl⟩ := finalTo_eq_some hf
    have heq := hg.halt hhalt
    rw [← heq] at hhalt ⊢
    exact finalTo_of_halt hhalt

theorem Delivers.run (h : Delivers b (depth + 1) raw ms net i j) (hsound : Sound net)
    (hr : ReflTransGen (Step (Peer.next b (depth + 1) raw) cap) net net') :
    Delivers b (depth + 1) raw ms net' i j := by
  induction hr with
  | refl => exact h
  | tail hrun hs ih => exact ih.step (hsound.run hrun) hs

end Step

/-- Where the limits of a peer's reads let through what is written to it: in every state that any
schedule reaches, with any room in the connections, the reads of `j` from `i` have returned the
first of the messages that `i` writes to `j`, unchanged and in order, and after them nothing but the
end of the stream, which shows up when `i` is through and all that it wrote has been read. -/
theorem delivery (b : Build) (depth : ℕ) (raw : Raw) (cap : ι → ι → ℕ∞)
    {program : ι → List (Action ι)} (hp : Admissible program)
    (h : ReflTransGen (Step (Peer.next b (depth + 1) raw) cap) (start program) net) (i j : ι) :
    ∃ read n, read <+: messagesTo j (program i) ∧
      wireOctets read <+: (net i).sent j ∧
      writtenTo j (net i).state.log <+: messagesTo j (program i) ∧
      resultsFrom i (net j).state.log =
        read.map (fun m => .value (.message m)) ++ .replicate n (.error .eof) ∧
      (n ≠ 0 → (net i).state.next b (depth + 1) raw = .halt ∧
        read = writtenTo j (net i).state.log) := by
  have hsound : Sound (start program) := fun _ _ => le_rfl
  obtain ⟨hw, hr⟩ := (delivers_start hp i j).run hsound h
  obtain ⟨read, rest, n, hms, hxs, -, hlog, hn⟩ := hr.taken
  refine ⟨read, n, ⟨rest, hms.symm⟩, ?_, ?_, hlog, ?_⟩
  · have hpre : wireOctets read <+: ((net i).sent j).take ((net j).taken i) := by
      rw [hxs]
      exact List.prefix_append _ _
    exact hpre.trans (List.take_prefix _ _)
  · have hplan := hw.plan
    rw [List.append_assoc] at hplan
    exact (List.prefix_append _ _).trans hplan
  · intro h0
    obtain ⟨hhalt, hread⟩ := finalTo_eq_some (hn h0).1
    exact ⟨hhalt, hread.symm⟩

theorem admissible_oneMessage : Admissible oneMessage := by
  intro i j l hl m hm
  cases j with
  | false => simp [oneMessage] at hl
  | true =>
    obtain ⟨rfl, rfl⟩ : i = false ∧ l = ⟨10, by decide, by decide⟩ := by
      simpa [oneMessage] using hl
    obtain rfl : m = ⟨⟨[0x61], by decide⟩, false⟩ := by
      simpa [oneMessage, messagesTo] using hm
    decide

/-- A message and then the end of the stream, over a connection that holds two octets. -/
theorem delivery_of_message :
    ∃ net read n, ReflTransGen (Step (Peer.next .debug 1
        ⟨.replicate maxFramingOctets 0, fun _ => 0⟩) fun _ _ => (2 : ℕ)) (start oneMessage) net ∧
      (net true).state.log = [.read false (.value (.message ⟨⟨[0x61], by decide⟩, false⟩)),
        .read false (.error .eof)] ∧
      resultsFrom false (net true).state.log =
        List.map (fun m => .value (.message m)) read ++ .replicate n (.error .eof) ∧
      read = [⟨⟨[0x61], by decide⟩, false⟩] := by
  have hrun := takeTurns_run (Peer.next .debug 1 ⟨.replicate maxFramingOctets 0, fun _ => 0⟩)
    (fun _ _ => 2) [false, false, false, true, true, true, false, false, true, true, true, true]
    (start oneMessage)
  obtain ⟨read, n, -, -, -, hlog, hn⟩ :=
    delivery .debug 0 _ _ admissible_oneMessage hrun false true
  refine ⟨_, read, n, hrun, rfl, hlog, (hn ?_).2⟩
  rintro rfl
  have hlast := congrArg List.getLast? hlog
  rw [List.replicate_zero, List.append_nil, List.getLast?_map] at hlast
  cases hr : read.getLast? <;> rw [hr] at hlast <;> cases hlast

end Azmqn.Transport
