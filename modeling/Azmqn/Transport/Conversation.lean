import Azmqn.Transport.Delivery

/-!
# Conversations

A conversation is a list of messages between peers. Each peer runs its own part
of it: it writes what it is the source of and reads what it is the destination
of, in the order of the list. The parts need not keep in step, but connections
that hold a single octet are enough for all of them to finish, and they all end
the same way.
-/

namespace Azmqn.Transport

open Memory Xasio Streams Wire Network Relation

/-- A message from one peer to another, which the limit of its read lets through. -/
structure Exchange (ι : Type) where
  source : ι
  dest : ι
  m : MessageT
  rlimit : ReadLimit
  distinct : source ≠ dest
  admitted : (m.base.size : ℤ) ≤ rlimit.val_

variable {ι : Type} [DecidableEq ι]

namespace Exchange

/-- What a peer does for an exchange. -/
def action (k : ι) (e : Exchange ι) : List (Action ι) :=
  if e.source = k then [.write e.dest e.m]
  else if e.dest = k then [.read e.source e.rlimit] else []

/-- What a peer notes of it. -/
def outcome (k : ι) (e : Exchange ι) : List (Outcome ι) :=
  if e.source = k then [.wrote e.dest e.m (.value e.m.frame.octets.length)]
  else if e.dest = k then [.read e.source (.value (.message e.m))] else []

end Exchange

/-- The part of a peer. -/
def part (k : ι) (es : List (Exchange ι)) : List (Action ι) := es.flatMap (Exchange.action k)

def outcomes (k : ι) (es : List (Exchange ι)) : List (Outcome ι) :=
  es.flatMap (Exchange.outcome k)

/-- The octets that a conversation sends from one peer to another. -/
def traffic (i j : ι) (es : List (Exchange ι)) : List Octet :=
  es.flatMap fun e => if e.source = i ∧ e.dest = j then e.m.frame.octets else []

/-- Some exchanges are over and the others have not begun. -/
def between (done rest : List (Exchange ι)) (k : ι) : Node ι Octet (Peer ι) :=
  ⟨⟨part k rest, .idle, outcomes k done⟩, fun j => traffic k j done,
    fun i => (traffic i k done).length⟩

section Calls

variable {b : Build} {depth : ℕ} {raw : Raw} {todo : List (Action ι)} {log : List (Outcome ι)}
  {dest source : ι} {m : MessageT} {rlimit : ReadLimit} {got : List Octet}

omit [DecidableEq ι]

theorem Peer.next_startWrite (hb : b = .debug → m.base.size ≠ 0) :
    Peer.next b (depth + 1) raw ⟨.write dest m :: todo, .idle, log⟩ = .silent
      ⟨todo, .writing dest m [] m.frame.octets (.value m.frame.octets.length), log⟩ := by
  have hd := Peer.next_does b depth raw (⟨.write dest m :: todo, .idle, log⟩ : Peer ι)
  generalize hn : Peer.next b (depth + 1) raw _ = mv at hd
  cases hd with
  | startsWrite => rfl
  | failsWrite debug empty => exact absurd empty (hb debug)

theorem Peer.next_wait (h : (readSpec rlimit.toSizeT wouldBlock got).1 = .error wouldBlock) :
    Peer.next b depth raw ⟨todo, .reading source rlimit got, log⟩ = .receive source
      (Peer.arrive b raw ⟨todo, .reading source rlimit got, log⟩ source rlimit got) := by
  simp [next, attempt_eq, h]

theorem Peer.next_finishRead {m : MessageOrCommand}
    (h : (readSpec rlimit.toSizeT wouldBlock got).1 = .value m) :
    Peer.next b depth raw ⟨todo, .reading source rlimit got, log⟩ =
      .silent ⟨todo, .idle, log ++ [.read source (.value m)]⟩ := by
  simp [next, attempt_eq, h, finish]

end Calls

/-- A node in the middle of a write. -/
def sender (n : Node ι Octet (Peer ι)) (todo : List (Action ι)) (dest : ι) (m : MessageT)
    (before after : List Octet) : Node ι Octet (Peer ι) :=
  ⟨⟨todo, .writing dest m before after (.value m.frame.octets.length), n.state.log⟩,
    Function.update n.sent dest (n.sent dest ++ before), n.taken⟩

/-- A node in the middle of a read. -/
def receiver (n : Node ι Octet (Peer ι)) (todo : List (Action ι)) (source : ι)
    (rlimit : ReadLimit) (got : List Octet) : Node ι Octet (Peer ι) :=
  ⟨⟨todo, .reading source rlimit got, n.state.log⟩, n.sent,
    Function.update n.taken source (n.taken source + got.length)⟩

theorem sender_send (n : Node ι Octet (Peer ι)) (todo : List (Action ι)) (dest : ι) (m : MessageT)
    (before after : List Octet) (x : Octet) :
    (sender n todo dest m before (x :: after)).send dest x
        ⟨todo, .writing dest m (before ++ [x]) after (.value m.frame.octets.length), n.state.log⟩ =
      sender n todo dest m (before ++ [x]) after := by
  simp [sender, Node.send]

theorem receiver_receive (n : Node ι Octet (Peer ι)) (todo : List (Action ι)) (source : ι)
    (rlimit : ReadLimit) (got : List Octet) (x : Octet) :
    (receiver n todo source rlimit got).receive source
        ⟨todo, .reading source rlimit (got ++ [x]), n.state.log⟩ =
      receiver n todo source rlimit (got ++ [x]) := by
  simp [receiver, Node.receive, Nat.add_assoc]

theorem silent_sender (n : Node ι Octet (Peer ι)) (todo : List (Action ι)) (dest : ι)
    (m : MessageT) :
    n.silent ⟨todo, .writing dest m [] m.frame.octets (.value m.frame.octets.length), n.state.log⟩ =
      sender n todo dest m [] m.frame.octets := by
  simp [sender, Node.silent]

theorem silent_receiver (n : Node ι Octet (Peer ι)) (todo : List (Action ι)) (source : ι)
    (rlimit : ReadLimit) :
    n.silent ⟨todo, .reading source rlimit [], n.state.log⟩ =
      receiver n todo source rlimit [] := by
  simp [receiver, Node.silent]

/-- A node behind a write. -/
def hasWritten (n : Node ι Octet (Peer ι)) (todo : List (Action ι)) (e : Exchange ι) :
    Node ι Octet (Peer ι) :=
  ⟨⟨todo, .idle, n.state.log ++ [.wrote e.dest e.m (.value e.m.frame.octets.length)]⟩,
    Function.update n.sent e.dest (n.sent e.dest ++ e.m.frame.octets), n.taken⟩

/-- A node behind a read. -/
def hasRead (n : Node ι Octet (Peer ι)) (todo : List (Action ι)) (e : Exchange ι) :
    Node ι Octet (Peer ι) :=
  ⟨⟨todo, .idle, n.state.log ++ [.read e.source (.value (.message e.m))]⟩, n.sent,
    Function.update n.taken e.source (n.taken e.source + e.m.frame.octets.length)⟩

section Exchange

variable {b : Build} {depth : ℕ} {raw : Raw} {cap : ι → ι → ℕ∞}
  (net : ι → Node ι Octet (Peer ι)) {n₁ n₂ : Node ι Octet (Peer ι)}
  {todo₁ todo₂ : List (Action ι)}

/-- One octet crosses a connection that was empty. -/
theorem octet_crosses (e : Exchange ι) {x : Octet} {before after : List Octet}
    (hcap : 1 ≤ cap e.source e.dest) (hempty : n₂.taken e.source = (n₁.sent e.dest).length)
    (hframe : e.m.frame.octets = before ++ x :: after) :
    ReflTransGen (Step (Peer.next b depth raw) cap)
      (setPair net e.source e.dest (sender n₁ todo₁ e.dest e.m before (x :: after))
        (receiver n₂ todo₂ e.source e.rlimit before))
      (setPair net e.source e.dest (sender n₁ todo₁ e.dest e.m (before ++ [x]) after)
        (receiver n₂ todo₂ e.source e.rlimit (before ++ [x]))) := by
  have hlen : ((sender n₁ todo₁ e.dest e.m before (x :: after)).sent e.dest).length =
      (receiver n₂ todo₂ e.source e.rlimit before).taken e.source := by
    simp [sender, receiver, hempty]
  have hroom : (((sender n₁ todo₁ e.dest e.m before (x :: after)).sent e.dest).length : ℕ∞) <
      (receiver n₂ todo₂ e.source e.rlimit before).taken e.source + cap e.source e.dest := by
    rw [hlen]
    exact (ENat.add_one_le_iff (ENat.natCast_ne_top _)).mp (add_le_add_right hcap _)
  have harrived : ((sender n₁ todo₁ e.dest e.m (before ++ [x]) after).sent e.dest)[(receiver n₂
      todo₂ e.source e.rlimit before).taken e.source]? = some x := by
    simp [sender, receiver, hempty, ← List.append_assoc]
  have hcut : (readSpec e.rlimit.toSizeT wouldBlock before).1 = .error wouldBlock :=
    readSpec_of_cut wouldBlock hframe (List.cons_ne_nil x after) e.admitted
  have hsend : Step (Peer.next b depth raw) cap
      (setPair net e.source e.dest (sender n₁ todo₁ e.dest e.m before (x :: after))
        (receiver n₂ todo₂ e.source e.rlimit before)) _ :=
    Step.left_send net e.distinct rfl hroom
  have hreceive : Step (Peer.next b depth raw) cap
      (setPair net e.source e.dest (sender n₁ todo₁ e.dest e.m (before ++ [x]) after)
        (receiver n₂ todo₂ e.source e.rlimit before)) _ :=
    Step.right_receive net e.distinct (Peer.next_wait hcut) harrived
  have hsent := sender_send n₁ todo₁ e.dest e.m before after x
  have hreceived := receiver_receive n₂ todo₂ e.source e.rlimit before x
  exact .head (hsent ▸ hsend) (.single (hreceived ▸ hreceive))

/-- And so does the rest of the frame. -/
theorem frame_crosses (e : Exchange ι) {before after : List Octet}
    (hcap : 1 ≤ cap e.source e.dest) (hempty : n₂.taken e.source = (n₁.sent e.dest).length)
    (hframe : e.m.frame.octets = before ++ after) :
    ReflTransGen (Step (Peer.next b depth raw) cap)
      (setPair net e.source e.dest (sender n₁ todo₁ e.dest e.m before after)
        (receiver n₂ todo₂ e.source e.rlimit before))
      (setPair net e.source e.dest (sender n₁ todo₁ e.dest e.m e.m.frame.octets [])
        (receiver n₂ todo₂ e.source e.rlimit e.m.frame.octets)) := by
  induction after generalizing before with
  | nil =>
    rw [List.append_nil] at hframe
    rw [hframe]
  | cons x after ih =>
    have hnext : e.m.frame.octets = (before ++ [x]) ++ after := by
      rw [hframe, List.append_assoc]
      rfl
    exact (octet_crosses net e hcap hempty hframe).trans (ih hnext)

/-- An exchange can be carried through while nobody else moves. -/
theorem exchange_runs (e : Exchange ι) (hb : b = .debug → e.m.base.size ≠ 0)
    (hcap : 1 ≤ cap e.source e.dest) (hempty : n₂.taken e.source = (n₁.sent e.dest).length)
    (h₁ : n₁.state = ⟨.write e.dest e.m :: todo₁, .idle, n₁.state.log⟩)
    (h₂ : n₂.state = ⟨.read e.source e.rlimit :: todo₂, .idle, n₂.state.log⟩) :
    ReflTransGen (Step (Peer.next b (depth + 1) raw) cap) (setPair net e.source e.dest n₁ n₂)
      (setPair net e.source e.dest (hasWritten n₁ todo₁ e) (hasRead n₂ todo₂ e)) := by
  have hstart : Step (Peer.next b (depth + 1) raw) cap (setPair net e.source e.dest n₁ n₂)
      (setPair net e.source e.dest (sender n₁ todo₁ e.dest e.m [] e.m.frame.octets) n₂) := by
    rw [← silent_sender]
    apply Step.left_silent net e.distinct
    rw [h₁]
    exact Peer.next_startWrite hb
  have hwait : Step (Peer.next b (depth + 1) raw) cap
      (setPair net e.source e.dest (sender n₁ todo₁ e.dest e.m [] e.m.frame.octets) n₂)
      (setPair net e.source e.dest (sender n₁ todo₁ e.dest e.m [] e.m.frame.octets)
        (receiver n₂ todo₂ e.source e.rlimit [])) := by
    rw [← silent_receiver]
    apply Step.right_silent net
    rw [h₂]
    rfl
  have hcross : ReflTransGen (Step (Peer.next b (depth + 1) raw) cap)
      (setPair net e.source e.dest (sender n₁ todo₁ e.dest e.m [] e.m.frame.octets)
        (receiver n₂ todo₂ e.source e.rlimit []))
      (setPair net e.source e.dest (sender n₁ todo₁ e.dest e.m e.m.frame.octets [])
        (receiver n₂ todo₂ e.source e.rlimit e.m.frame.octets)) :=
    frame_crosses net e hcap hempty (List.nil_append e.m.frame.octets).symm
  have hwrote : Step (Peer.next b (depth + 1) raw) cap
      (setPair net e.source e.dest (sender n₁ todo₁ e.dest e.m e.m.frame.octets [])
        (receiver n₂ todo₂ e.source e.rlimit e.m.frame.octets))
      (setPair net e.source e.dest (hasWritten n₁ todo₁ e)
        (receiver n₂ todo₂ e.source e.rlimit e.m.frame.octets)) :=
    Step.left_silent net e.distinct rfl
  have hread : Step (Peer.next b (depth + 1) raw) cap
      (setPair net e.source e.dest (hasWritten n₁ todo₁ e)
        (receiver n₂ todo₂ e.source e.rlimit e.m.frame.octets))
      (setPair net e.source e.dest (hasWritten n₁ todo₁ e) (hasRead n₂ todo₂ e)) :=
    Step.right_silent net (Peer.next_finishRead (readSpec_message wouldBlock e.admitted))
  exact .head hstart (.head hwait (hcross.trans (.head hwrote (.single hread))))

end Exchange

section Conversation

variable {b : Build} {depth : ℕ} {raw : Raw} {cap : ι → ι → ℕ∞}

theorem outcomes_snoc (k : ι) (done : List (Exchange ι)) (e : Exchange ι) :
    outcomes k (done ++ [e]) = outcomes k done ++ e.outcome k := by
  simp [outcomes]

theorem traffic_snoc (i j : ι) (done : List (Exchange ι)) (e : Exchange ι) :
    traffic i j (done ++ [e]) = traffic i j done ++
      if e.source = i ∧ e.dest = j then e.m.frame.octets else [] := by
  simp [traffic]

/-- The two nodes that an exchange changes are the only ones that have a part in it. -/
theorem setPair_between (e : Exchange ι) (done rest : List (Exchange ι)) :
    setPair (between done (e :: rest)) e.source e.dest
        (hasWritten (between done (e :: rest) e.source) (part e.source rest) e)
        (hasRead (between done (e :: rest) e.dest) (part e.dest rest) e) =
      between (done ++ [e]) rest := by
  have hne := e.distinct
  funext k
  by_cases hd : k = e.dest
  · subst hd
    have hsent : (fun j => traffic e.dest j (done ++ [e])) = fun j => traffic e.dest j done := by
      funext j
      simp [traffic_snoc, hne]
    have htaken : (fun i => (traffic i e.dest (done ++ [e])).length) =
        Function.update (fun i => (traffic i e.dest done).length) e.source
          ((traffic e.source e.dest done).length + e.m.frame.octets.length) := by
      funext i
      by_cases hi : i = e.source
      · subst hi
        simp [traffic_snoc]
      · simp [traffic_snoc, hi, Ne.symm hi]
    rw [setPair_right]
    simp only [between, hasRead, hsent, htaken, outcomes_snoc]
    simp [Exchange.outcome, hne]
  · by_cases hs : k = e.source
    · subst hs
      have hsent : (fun j => traffic e.source j (done ++ [e])) =
          Function.update (fun j => traffic e.source j done) e.dest
            (traffic e.source e.dest done ++ e.m.frame.octets) := by
        funext j
        by_cases hj : j = e.dest
        · subst hj
          simp [traffic_snoc]
        · simp [traffic_snoc, hj, Ne.symm hj]
      have htaken : (fun i => (traffic i e.source (done ++ [e])).length) =
          fun i => (traffic i e.source done).length := by
        funext i
        simp [traffic_snoc, Ne.symm hne]
      rw [setPair_left hne]
      simp only [between, hasWritten, hsent, htaken, outcomes_snoc]
      simp [Exchange.outcome]
    · rw [setPair, Function.update_of_ne hd, Function.update_of_ne hs]
      simp [between, part, Exchange.action, outcomes_snoc, Exchange.outcome, traffic_snoc,
        Ne.symm hd, Ne.symm hs]

theorem between_step (e : Exchange ι) (done rest : List (Exchange ι))
    (hb : b = .debug → e.m.base.size ≠ 0) (hcap : 1 ≤ cap e.source e.dest) :
    ReflTransGen (Step (Peer.next b (depth + 1) raw) cap) (between done (e :: rest))
      (between (done ++ [e]) rest) := by
  have hrun : ReflTransGen (Step (Peer.next b (depth + 1) raw) cap)
      (setPair (between done (e :: rest)) e.source e.dest (between done (e :: rest) e.source)
        (between done (e :: rest) e.dest))
      (setPair (between done (e :: rest)) e.source e.dest
        (hasWritten (between done (e :: rest) e.source) (part e.source rest) e)
        (hasRead (between done (e :: rest) e.dest) (part e.dest rest) e)) := by
    apply exchange_runs (between done (e :: rest)) e hb hcap rfl
    · simp [between, part, Exchange.action]
    · simp [between, part, Exchange.action, e.distinct]
  have hbegin : setPair (between done (e :: rest)) e.source e.dest
      (between done (e :: rest) e.source) (between done (e :: rest) e.dest) =
      between done (e :: rest) := by
    simp [setPair]
  rwa [hbegin, setPair_between] at hrun

theorem between_run (done rest : List (Exchange ι))
    (hb : b = .debug → ∀ e ∈ rest, e.m.base.size ≠ 0)
    (hcap : ∀ e ∈ rest, 1 ≤ cap e.source e.dest) :
    ReflTransGen (Step (Peer.next b (depth + 1) raw) cap) (between done rest)
      (between (done ++ rest) []) := by
  induction rest generalizing done with
  | nil =>
    rw [List.append_nil]
  | cons e rest ih =>
    have hfirst : ReflTransGen (Step (Peer.next b (depth + 1) raw) cap) (between done (e :: rest))
        (between (done ++ [e]) rest) :=
      between_step e done rest (fun h => hb h e List.mem_cons_self) (hcap e List.mem_cons_self)
    have hrest := ih (done ++ [e]) (fun h e' he' => hb h e' (List.mem_cons_of_mem e he'))
      (fun e' he' => hcap e' (List.mem_cons_of_mem e he'))
    rw [List.append_assoc] at hrest
    exact hfirst.trans hrest

/-- The nodes when a conversation is over. -/
def finished (es : List (Exchange ι)) : ι → Node ι Octet (Peer ι) := between es []

theorem finished_halts (es : List (Exchange ι)) (k : ι) :
    (finished es k).state.next b depth raw = .halt := by
  simp [finished, between, part, Peer.next]

/-- A conversation cannot go wrong, if the limit of each read lets its message through and, in a
debug build, no message is empty: whatever the order in which the peers move and however little
the connections hold, as long as each holds an octet, every run ends, no run gets stuck before
the end, and at the end each peer has noted its own exchanges, in order and successful, and no
octet is left over. -/
theorem conversation (b : Build) (depth : ℕ) (raw : Raw) (cap : ι → ι → ℕ∞)
    (es : List (Exchange ι)) (hb : b = .debug → ∀ e ∈ es, e.m.base.size ≠ 0)
    (hcap : ∀ e ∈ es, 1 ≤ cap e.source e.dest) :
    Acc (fun net' net => Step (Peer.next b (depth + 1) raw) cap net net')
        (start fun k => part k es) ∧
      (∀ net, ReflTransGen (Step (Peer.next b (depth + 1) raw) cap) (start fun k => part k es) net →
        ReflTransGen (Step (Peer.next b (depth + 1) raw) cap) net (finished es) ∧
        ((∀ net', ¬ Step (Peer.next b (depth + 1) raw) cap net net') → net = finished es)) ∧
      ∀ k, (finished es k).state = ⟨[], .idle, outcomes k es⟩ ∧
        ∀ i, inFlight (finished es) i k = [] := by
  have hrun : ReflTransGen (Step (Peer.next b (depth + 1) raw) cap)
      (start fun k => part k es) (finished es) := between_run [] es hb hcap
  have hend : ∀ net', ¬ Step (Peer.next b (depth + 1) raw) cap (finished es) net' :=
    fun _ => Step.not_step (finished_halts es)
  have hall := (Step.diamondOn (Peer.next b (depth + 1) raw) cap).inevitable trivial hrun hend
  refine ⟨hall.acc, ?_, ?_⟩
  · intro net hnet
    have h := hall.of_reflTransGen hnet
    exact ⟨h.reflTransGen, h.eq_of_final⟩
  · intro k
    refine ⟨rfl, ?_⟩
    intro i
    exact List.drop_length

/-- A request of 300 octets and its reply, over connections that hold one octet each. -/
theorem conversation_request_reply :
    ∃ net, ReflTransGen (Step (Peer.next .debug 1 ⟨.replicate maxFramingOctets 0, fun _ => 0⟩)
        fun _ _ => 1) (start fun k => part k
          [⟨false, true, ⟨.ofCapacity (fun _ => 0x71) 300, true⟩, ⟨1000, by decide, by decide⟩,
            by decide, by simp⟩,
          ⟨true, false, ⟨.ofCapacity (fun _ => 0x61) 2, false⟩, ⟨10, by decide, by decide⟩,
            by decide, by simp⟩]) net ∧
      (net false).state.log = [.wrote true ⟨.ofCapacity (fun _ => 0x71) 300, true⟩ (.value 309),
        .read true (.value (.message ⟨.ofCapacity (fun _ => 0x61) 2, false⟩))] := by
  obtain ⟨-, hrun, hfinal⟩ := conversation .debug 0 ⟨.replicate maxFramingOctets 0, fun _ => 0⟩
    (fun _ _ => 1)
    [⟨false, true, ⟨.ofCapacity (fun _ => 0x71) 300, true⟩, ⟨1000, by decide, by decide⟩,
      by decide, by simp⟩,
    ⟨true, false, ⟨.ofCapacity (fun _ => 0x61) 2, false⟩, ⟨10, by decide, by decide⟩,
      by decide, by simp⟩] (by simp) (by simp)
  refine ⟨_, (hrun _ .refl).1, ?_⟩
  rw [(hfinal false).1]
  have hsize : (BackedBuffer.ofCapacity (fun _ => 0x71) 300).size = 300 :=
    BackedBuffer.size_ofCapacity _ _
  have hlen : (MessageT.mk (.ofCapacity (fun _ => 0x71) 300) true).frame.octets.length = 309 := by
    rw [length_frame, hsize]
    rfl
  change [Outcome.wrote true _ (.value _), Outcome.read true _] = _
  rw [hlen]

end Conversation

end Azmqn.Transport
