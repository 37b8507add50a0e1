import Azmqn.Transport.ReadExact
import Azmqn.Wire.MessageFraming

/-!
# Writing messages and reading them back

A sequence of messages is sent with one `write` each and fetched with one `read`
each. The octets in between are the frames of the messages, one after another,
so every read finds what one write left, however the two streams cut them up.
-/

namespace Azmqn.Transport

open Xasio Streams Wire

/-- The octets of a sequence of messages on the wire. -/
def wireOctets (ms : List MessageT) : List Octet :=
  WholeFrame.code.encodeAll (ms.map MessageT.frame)

@[simp] theorem wireOctets_nil : wireOctets [] = [] := rfl

@[simp] theorem wireOctets_cons (m : MessageT) (ms : List MessageT) :
    wireOctets (m :: ms) = m.frame.octets ++ wireOctets ms := rfl

section Write

variable {τ : Type} [WriteStream τ Octet ErrorCode]

open WriteStream

/-- Write one after another; each result comes with the stream it leaves. -/
def writeAll (b : Build) (depth : ℕ) : τ → List WritableMessageOrCommand →
    Run (List (WriteResult × τ) × τ)
  | s, [] => pure ([], s)
  | s, w :: ws => do
    let ((res, _), s) ← write b depth s w
    let (outs, s') ← writeAll b depth s ws
    pure ((res, s) :: outs, s')

/-- A write sends the frame of the message and returns how many octets that are. -/
theorem write_message (depth : ℕ) (s : τ) {w : WritableMessageOrCommand} {m : MessageT}
    (hw : w.data_ = .message m) (hr : (m.frame.octets.length : ℕ∞) ≤ room s) :
    ∃ w' s', write .ndebug (depth + 1) s w = .ok ((.value m.frame.octets.length, w'), s') ∧
      sent s' = sent s ++ m.frame.octets ∧ room s = m.frame.octets.length + room s' := by
  obtain ⟨w', rest, hbufs, hdata, -, ht⟩ :=
    WritableMessageOrCommand.bufferSequence_message (b := .ndebug) depth hw (by simp)
  have hgather := WritableMessageOrCommand.gather_message (hdata.trans hw) ht
  obtain ⟨h₁, h₂, h₃⟩ := Xasio.write_enough s hr
  exact ⟨w', (Xasio.write s m.frame.octets).2, by simp [write, hbufs, hgather, h₁], h₂, h₃⟩

/-- A write hands the frame of the message over and leaves the header in the writable, whatever
the stream makes of it. -/
theorem write_eq {b : Build} (depth : ℕ) (s : τ) {w : WritableMessageOrCommand} {m : MessageT}
    (hw : w.data_ = .message m) (hb : b = .debug → m.base.size ≠ 0) :
    ∃ w' rest, write b (depth + 1) s w =
        .ok (((Xasio.write s m.frame.octets).1, w'), (Xasio.write s m.frame.octets).2) ∧
      w'.data_ = .message m ∧ w'.f_.framing_.toList = m.header.octets ++ rest := by
  obtain ⟨w', rest, hbufs, hdata, -, ht⟩ :=
    WritableMessageOrCommand.bufferSequence_message depth hw hb
  have hgather := WritableMessageOrCommand.gather_message (hdata.trans hw) ht
  exact ⟨w', rest, by simp [write, hbufs, hgather], hdata.trans hw, ht⟩

/-- A run of writes sends the frames one after another. -/
theorem writeAll_messages (depth : ℕ) (s : τ) (ws : List WritableMessageOrCommand)
    (ms : List MessageT) (hws : ws.map (·.data_) = ms.map .message)
    (hr : ((wireOctets ms).length : ℕ∞) ≤ room s) :
    ∃ outs s', writeAll .ndebug (depth + 1) s ws = .ok (outs, s') ∧
      outs.map Prod.fst = ms.map (fun m => .value m.frame.octets.length) ∧
      outs.map (fun out => sent out.2) = ms.inits.tail.map (fun pre => sent s ++ wireOctets pre) ∧
      sent s' = sent s ++ wireOctets ms := by
  induction ms generalizing s ws with
  | nil =>
    obtain rfl : ws = [] := List.map_eq_nil_iff.mp hws
    exact ⟨[], s, rfl, rfl, rfl, (List.append_nil _).symm⟩
  | cons m ms ih =>
    cases ws with
    | nil => cases hws
    | cons w ws =>
      rw [List.map_cons, List.map_cons, List.cons.injEq] at hws
      rw [wireOctets_cons, List.length_append, Nat.cast_add] at hr
      obtain ⟨w', s₁, hw, hsent, hroom⟩ := write_message depth s hws.1 (le_trans le_self_add hr)
      rw [hroom] at hr
      obtain ⟨outs, s₂, hall, hcounts, hsents, hfinal⟩ := ih s₁ ws hws.2
        ((ENat.add_le_add_iff_left (ENat.natCast_ne_top _)).mp hr)
      refine ⟨(.value m.frame.octets.length, s₁) :: outs, s₂, ?_, ?_, ?_, ?_⟩
      · simp [writeAll, hw, hall]
      · rw [List.map_cons, hcounts, List.map_cons]
      · rw [List.map_cons, hsents]
        cases ms with
        | nil => simp [hsent]
        | cons m' ms' => simp [hsent]
      · rw [hfinal, hsent, wireOctets_cons, List.append_assoc]

end Write

section Read

variable {σ : Type} [ReadStream σ Octet ErrorCode]

open ReadStream

/-- Read once for each element of `raws`; each result comes with the stream it leaves. -/
def readAll (b : Build) (rlimit : ReadLimit) : σ → List Raw →
    Run (List (MessageOrCommandResult × σ) × σ)
  | s, [] => pure ([], s)
  | s, raw :: raws => do
    let (res, s) ← read b raw s rlimit
    let (outs, s') ← readAll b rlimit s raws
    pure ((res, s) :: outs, s')

/-- A read takes exactly the octets of one frame. -/
theorem read_message (b : Build) (raw : Raw) (s : σ) {limit : ReadLimit} {m : MessageT}
    {rest : List Octet} (hc : content s = m.frame.octets ++ rest)
    (hl : (m.base.size : ℤ) ≤ limit.val_) :
    ∃ s', read b raw s limit = .ok (.value (.message m), s') ∧ content s' = rest := by
  rw [← m.size_header] at hl
  have h := read_frame b raw s hc hl
  rwa [m.content_frame] at h

theorem readAll_messages (b : Build) {limit : ReadLimit} (s : σ) (raws : List Raw)
    (ms : List MessageT) (hraws : raws.length = ms.length) (hc : content s = wireOctets ms)
    (hl : ∀ m ∈ ms, (m.base.size : ℤ) ≤ limit.val_) :
    ∃ outs s', readAll b limit s raws = .ok (outs, s') ∧
      outs.map Prod.fst = ms.map (fun m => .value (.message m)) ∧
      outs.map (fun out => content out.2) = ms.tails.tail.map wireOctets ∧
      content s' = [] := by
  induction ms generalizing s raws with
  | nil =>
    obtain rfl : raws = [] := List.eq_nil_of_length_eq_zero hraws
    exact ⟨[], s, rfl, rfl, rfl, hc⟩
  | cons m ms ih =>
    cases raws with
    | nil => cases hraws
    | cons raw raws =>
      rw [wireOctets_cons] at hc
      obtain ⟨s₁, hread, hc₁⟩ := read_message b raw s hc (hl m List.mem_cons_self)
      obtain ⟨outs, s₂, hall, hres, hrest, hend⟩ := ih s₁ raws (Nat.succ.inj hraws) hc₁
        (fun m' h => hl m' (List.mem_cons_of_mem m h))
      refine ⟨(.value (.message m), s₁) :: outs, s₂, ?_, ?_, ?_, hend⟩
      · simp [readAll, hread, hall]
      · rw [List.map_cons, hres, List.map_cons]
      · rw [List.map_cons, hrest]
        cases ms with
        | nil => simp [hc₁]
        | cons m' ms' => simp [hc₁]

end Read

section RoundTrip

variable {τ : Type} [WriteStream τ Octet ErrorCode]

open WriteStream ReadStream

/-- Writing messages and reading what was sent gives the messages back, one write's octets
for each read and nothing in the end. -/
theorem write_read_identity (depth : ℕ) (s : τ) (ws : List WritableMessageOrCommand)
    (ms : List MessageT) (hws : ws.map (·.data_) = ms.map .message)
    (hr : ((wireOctets ms).length : ℕ∞) ≤ room s) (limit : ReadLimit)
    (hl : ∀ m ∈ ms, (m.base.size : ℤ) ≤ limit.val_) :
    ∃ outs s', writeAll .ndebug (depth + 1) s ws = .ok (outs, s') ∧
      outs.map Prod.fst = ms.map (fun m => .value (m.header.octets.length + m.base.size)) ∧
      outs.map (fun out => sent out.2) = ms.inits.tail.map (fun pre => sent s ++ wireOctets pre) ∧
      ∀ (σ : Type) [ReadStream σ Octet ErrorCode] (b : Build) (t : σ) (raws : List Raw),
        sent s' = sent s ++ content t → raws.length = ms.length →
          ∃ ins t', readAll b limit t raws = .ok (ins, t') ∧
            ins.map Prod.fst = ms.map (fun m => .value (.message m)) ∧
            ins.map (fun out => content out.2) = ms.tails.tail.map wireOctets ∧
            content t' = [] := by
  obtain ⟨outs, s', hall, hcounts, hsents, hfinal⟩ := writeAll_messages depth s ws ms hws hr
  have hlength (m : MessageT) : m.frame.octets.length = m.header.octets.length + m.base.size :=
    List.length_append
  simp only [hlength] at hcounts
  refine ⟨outs, s', hall, hcounts, hsents, ?_⟩
  intro σ _ b t raws ht hraws
  rw [hfinal, List.append_cancel_left_eq] at ht
  exact readAll_messages b t raws ms hraws ht.symm hl

/-- A stream on which these octets have arrived, one at a time. -/
def arrived (got : List Octet) (error : ErrorCode) : ChunkSource Octet ErrorCode :=
  ⟨got.map fun x => ⟨[x], List.cons_ne_nil x []⟩, error⟩

@[simp] theorem content_arrived (got : List Octet) (error : ErrorCode) :
    content (arrived got error) = got := by
  change ((got.map fun x => (⟨[x], List.cons_ne_nil x []⟩ : {c : List Octet // c ≠ []})).map
    Subtype.val).flatten = got
  induction got with
  | nil => rfl
  | cons x got ih => simpa using ih

@[simp] theorem failure_arrived (got : List Octet) (error : ErrorCode) :
    failure (arrived got error) = error := rfl

/-- A long message with more to come and an empty one, written in pieces of at most three octets
and read octet by octet. -/
theorem write_read_identity_long_empty :
    ∃ outs s' ins t', writeAll .ndebug 1 (PieceSink.mk 2 [] .eof : PieceSink Octet ErrorCode)
          [.ofMessage (.replicate maxFramingOctets 0xaa) ⟨.ofCapacity (fun _ => 0x61) 300, true⟩,
            .ofMessage (.replicate maxFramingOctets 0xaa) ⟨.ofCapacity (fun _ => 0x61) 0, false⟩] =
        .ok (outs, s') ∧
      outs.map Prod.fst = [.value (9 + 300), .value (2 + 0)] ∧
      readAll .debug ⟨300, by decide, by decide⟩ (arrived (sent s') .eof)
          (.replicate 2 ⟨.replicate maxFramingOctets 0xaa, fun _ => 0xaa⟩) = .ok (ins, t') ∧
      ins.map Prod.fst = [.value (.message ⟨.ofCapacity (fun _ => 0x61) 300, true⟩),
        .value (.message ⟨.ofCapacity (fun _ => 0x61) 0, false⟩)] ∧
      content t' = [] := by
  have hlong : (BackedBuffer.ofCapacity (fun _ => 0x61) 300).size = 300 :=
    BackedBuffer.size_ofCapacity _ _
  have hempty : (BackedBuffer.ofCapacity (fun _ => 0x61) 0).size = 0 :=
    BackedBuffer.size_ofCapacity _ _
  obtain ⟨outs, s', h, hcounts, -, hreads⟩ := write_read_identity 0
    (PieceSink.mk 2 [] .eof : PieceSink Octet ErrorCode)
    [.ofMessage (.replicate maxFramingOctets 0xaa) ⟨.ofCapacity (fun _ => 0x61) 300, true⟩,
      .ofMessage (.replicate maxFramingOctets 0xaa) ⟨.ofCapacity (fun _ => 0x61) 0, false⟩]
    [⟨.ofCapacity (fun _ => 0x61) 300, true⟩, ⟨.ofCapacity (fun _ => 0x61) 0, false⟩] rfl le_top
    ⟨300, by decide, by decide⟩ (by simp [hlong, hempty])
  have hsent : sent s' = [] ++ content (arrived (sent s') .eof) := by
    rw [List.nil_append, content_arrived]
  obtain ⟨ins, t', hread, hresults, -, hrest⟩ := hreads (ChunkSource Octet ErrorCode) .debug _
    (.replicate 2 ⟨.replicate maxFramingOctets 0xaa, fun _ => 0xaa⟩) hsent rfl
  refine ⟨outs, s', ins, t', h, ?_, hread, hresults, hrest⟩
  rw [hcounts]
  simp [MessageT.length_header, hlong, hempty]

end RoundTrip

end Azmqn.Transport
