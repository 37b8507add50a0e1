import Azmqn.Transport.Incoming
import Azmqn.Transport.WriteRead

/-!
# Connections that break

A stream takes as many octets as it has room for and then fails, in the middle
of a frame as well as between two. The writer stops at the first write that
reports it. What it was told had been written is what the other end can read,
neither more nor less.
-/

namespace Azmqn.Transport

open Memory Xasio Streams Wire

section Write

variable {τ : Type} [WriteStream τ Octet ErrorCode]

open WriteStream

/-- Write one after another until a write fails. -/
def writeUntilError (b : Build) (depth : ℕ) :
    τ → List WritableMessageOrCommand → Run (List WriteResult × τ)
  | s, [] => pure ([], s)
  | s, w :: ws => do
    let ((res, _), s) ← write b depth s w
    match res with
    | .error ec => pure ([.error ec], s)
    | .value n => do
      let (outs, s) ← writeUntilError b depth s ws
      pure (.value n :: outs, s)

/-- Without room for all of its frame a message is cut off, and the write says so. -/
theorem write_message_short (depth : ℕ) (s : τ) {w : WritableMessageOrCommand} {m : MessageT}
    (hw : w.data_ = .message m) (hr : room s < m.frame.octets.length) :
    ∃ ec n w' s', write .ndebug (depth + 1) s w = .ok ((.error ec, w'), s') ∧
      room s = (n : ℕ) ∧ sent s' = sent s ++ m.frame.octets.take n := by
  obtain ⟨w', -, hrun, -⟩ := write_eq (b := .ndebug) depth s hw (fun h => nomatch h)
  obtain ⟨ec, n, hres, hn, hsent⟩ := Xasio.write_short s hr
  rw [hres] at hrun
  exact ⟨ec, n, w', _, hrun, hn, hsent⟩

/-- The writes that succeed, the one that does not, and what they leave on the stream. -/
theorem writeUntilError_messages (depth : ℕ) (s : τ) (ws : List WritableMessageOrCommand)
    (ms : List MessageT) (hws : ws.map (·.data_) = ms.map .message) :
    ∃ done lost outs s', ms = done ++ lost ∧
      writeUntilError .ndebug (depth + 1) s ws = .ok (outs, s') ∧
      ((lost = [] ∧ outs = done.map (fun m => .value m.frame.octets.length) ∧
          sent s' = sent s ++ wireOctets done) ∨
        ∃ m later ec part more, lost = m :: later ∧
          outs = done.map (fun m => .value m.frame.octets.length) ++ [.error ec] ∧
          sent s' = sent s ++ (wireOctets done ++ part) ∧ m.frame.octets = part ++ more ∧
          more ≠ []) := by
  induction ms generalizing s ws with
  | nil =>
    obtain rfl : ws = [] := List.map_eq_nil_iff.mp hws
    exact ⟨[], [], [], s, rfl, rfl, Or.inl ⟨rfl, rfl, (List.append_nil _).symm⟩⟩
  | cons m ms ih =>
    cases ws with
    | nil => cases hws
    | cons w ws =>
      rw [List.map_cons, List.map_cons, List.cons.injEq] at hws
      by_cases hroom : (m.frame.octets.length : ℕ∞) ≤ room s
      · obtain ⟨w', s₁, hw, hsent, -⟩ := write_message depth s hws.1 hroom
        obtain ⟨done, lost, outs, s', rfl, hrun, hcase⟩ := ih s₁ ws hws.2
        refine ⟨m :: done, lost, .value m.frame.octets.length :: outs, s', rfl, ?_, ?_⟩
        · simp [writeUntilError, hw, hrun]
        · rcases hcase with ⟨hl, ho, hs⟩ | ⟨m', later, ec, part, more, hl, ho, hs, hm, hne⟩
          · refine Or.inl ⟨hl, by rw [ho, List.map_cons], ?_⟩
            rw [hs, hsent, wireOctets_cons, List.append_assoc]
          · refine Or.inr ⟨m', later, ec, part, more, hl, ?_, ?_, hm, hne⟩
            · rw [ho, List.map_cons, List.cons_append]
            · rw [hs, hsent, wireOctets_cons]
              simp only [List.append_assoc]
      · obtain ⟨ec, n, w', s₁, hw, hn, hsent⟩ := write_message_short depth s hws.1 (not_le.mp hroom)
        refine ⟨[], m :: ms, [.error ec], s₁, rfl, by simp [writeUntilError, hw],
          Or.inr ⟨m, ms, ec, m.frame.octets.take n, m.frame.octets.drop n, rfl, rfl, hsent,
            (List.take_append_drop n _).symm, ?_⟩⟩
        intro hd
        rw [hn] at hroom
        exact hroom (by exact_mod_cast List.drop_eq_nil_iff.mp hd)

end Write

section Read

variable {σ : Type} [ReadStream σ Octet ErrorCode]

open ReadStream

/-- Whole frames and a part that decides nothing. -/
theorem readUntilError_messages (b : Build) (raw : Raw) {limit : ReadLimit} (t : σ)
    (ms : List MessageT) (part : List Octet) {fuel : ℕ} (hc : content t = wireOctets ms ++ part)
    (hl : ∀ m ∈ ms, (m.base.size : ℤ) ≤ limit.val_)
    (hpart : (frameReader limit.toSizeT).next part = none) (hf : ms.length < fuel) :
    ∃ t', readUntilError b raw limit fuel t = .ok ((ms.map .message, some (failure t)), t') ∧
      content t' = [] := by
  induction ms generalizing t fuel with
  | nil =>
    cases fuel with
    | zero => omega
    | succ fuel =>
      rw [wireOctets_nil, List.nil_append] at hc
      obtain ⟨t', hr, ht⟩ := read_undecided b raw t limit (hc ▸ hpart)
      exact ⟨t', by simp [readUntilError, hr], ht⟩
  | cons m ms ih =>
    cases fuel with
    | zero => omega
    | succ fuel =>
      rw [wireOctets_cons, List.append_assoc] at hc
      obtain ⟨t₁, hr, ht₁⟩ := read_message b raw t hc (hl m List.mem_cons_self)
      obtain ⟨t', hrun, ht⟩ := ih t₁ ht₁ (fun m' h => hl m' (List.mem_cons_of_mem m h))
        (Nat.lt_of_succ_lt_succ hf)
      refine ⟨t', ?_, ht⟩
      rw [read_failure b raw hr] at hrun
      simp [readUntilError, hr, hrun]

end Read

section Loss

variable {τ : Type} [WriteStream τ Octet ErrorCode]

open WriteStream ReadStream

/-- Whatever room a stream has for the writes of a release build, the other end, with a limit that
lets all messages through, reads exactly those whose writes succeeded, in order, and then the
failure of its stream; the message whose write failed and those behind it do not show up, in part
or in whole. -/
theorem loss_agreement (depth : ℕ) (s : τ) (ws : List WritableMessageOrCommand)
    (ms : List MessageT) (hws : ws.map (·.data_) = ms.map .message) (limit : ReadLimit)
    (hl : ∀ m ∈ ms, (m.base.size : ℤ) ≤ limit.val_) :
    ∃ done lost outs s', ms = done ++ lost ∧
      writeUntilError .ndebug (depth + 1) s ws = .ok (outs, s') ∧
      ((lost = [] ∧ outs = done.map fun m => .value (m.header.octets.length + m.base.size)) ∨
        (lost ≠ [] ∧ ∃ ec, outs = done.map (fun m => .value (m.header.octets.length + m.base.size))
          ++ [.error ec])) ∧
      ∀ (σ : Type) [ReadStream σ Octet ErrorCode] (b : Build) (raw : Raw) (t : σ) (fuel : ℕ),
        sent s' = sent s ++ content t → done.length < fuel →
          ∃ t', readUntilError b raw limit fuel t =
            .ok ((done.map .message, some (failure t)), t') ∧ content t' = [] := by
  obtain ⟨done, lost, outs, s', rfl, hrun, hcase⟩ := writeUntilError_messages depth s ws ms hws
  have hlength (m : MessageT) : m.frame.octets.length = m.header.octets.length + m.base.size :=
    List.length_append
  simp only [hlength] at hcase
  have hdone : ∀ m ∈ done, (m.base.size : ℤ) ≤ limit.val_ := by
    intro m hm
    exact hl m (List.mem_append_left lost hm)
  rcases hcase with ⟨rfl, ho, hs⟩ | ⟨m, later, ec, part, more, rfl, ho, hs, hm, hne⟩
  · refine ⟨done, [], outs, s', rfl, hrun, Or.inl ⟨rfl, ho⟩, ?_⟩
    intro σ _ b raw t fuel ht hf
    rw [hs, List.append_cancel_left_eq] at ht
    refine readUntilError_messages b raw t done [] ?_ hdone ?_ hf
    · rw [List.append_nil, ht]
    · rfl
  · refine ⟨done, m :: later, outs, s', rfl, hrun, Or.inr ⟨List.cons_ne_nil m later, ec, ho⟩, ?_⟩
    intro σ _ b raw t fuel ht hf
    rw [hs, List.append_cancel_left_eq] at ht
    refine readUntilError_messages b raw t done part ht.symm hdone ?_ hf
    exact decideFrame_cut hm hne (m.size_le_limit (hl m (by simp)))

/-- Room for the first message and for three octets of the second one. -/
theorem loss_agreement_second_cut :
    ∃ done lost outs s',
      [MessageT.mk ⟨[0x61], by decide⟩ true, ⟨⟨[0x62, 0x63], by decide⟩, false⟩] = done ++ lost ∧
      writeUntilError .ndebug 1 (BoundedSink.mk 1 6 [] .eof : BoundedSink Octet ErrorCode)
        [.ofMessage (.replicate maxFramingOctets 0xaa) ⟨⟨[0x61], by decide⟩, true⟩,
          .ofMessage (.replicate maxFramingOctets 0xaa) ⟨⟨[0x62, 0x63], by decide⟩, false⟩] =
        .ok (outs, s') ∧
      outs = [.value 3, .error .eof] ∧ done.length = 1 := by
  obtain ⟨done, lost, outs, s', hms, hrun, hcase, -⟩ := loss_agreement 0
    (BoundedSink.mk 1 6 [] .eof : BoundedSink Octet ErrorCode)
    [.ofMessage (.replicate maxFramingOctets 0xaa) ⟨⟨[0x61], by decide⟩, true⟩,
      .ofMessage (.replicate maxFramingOctets 0xaa) ⟨⟨[0x62, 0x63], by decide⟩, false⟩]
    [⟨⟨[0x61], by decide⟩, true⟩, ⟨⟨[0x62, 0x63], by decide⟩, false⟩] rfl
    ⟨10, by decide, by decide⟩ (by decide)
  have hout : writeUntilError .ndebug 1 (BoundedSink.mk 1 6 [] .eof : BoundedSink Octet ErrorCode)
      [.ofMessage (.replicate maxFramingOctets 0xaa) ⟨⟨[0x61], by decide⟩, true⟩,
        .ofMessage (.replicate maxFramingOctets 0xaa) ⟨⟨[0x62, 0x63], by decide⟩, false⟩] =
      .ok ([.value 3, .error .eof], ⟨1, 0, [0x01, 0x01, 0x61, 0x00, 0x02, 0x62], .eof⟩) := rfl
  rw [hrun] at hout
  simp only [Except.ok.injEq, Prod.mk.injEq] at hout
  refine ⟨done, lost, outs, s', hms, hrun, hout.1, ?_⟩
  rcases hcase with ⟨-, ho⟩ | ⟨-, ec, ho⟩
  · have hmem : Expected.error ErrorCode.eof ∈ outs := by simp [hout.1]
    rw [ho] at hmem
    simp at hmem
  · have hlen := congrArg List.length ho
    rw [hout.1] at hlen
    simp at hlen
    omega

end Loss

end Azmqn.Transport
