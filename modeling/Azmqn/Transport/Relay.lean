import Azmqn.Library.NormalForm
import Azmqn.Transport.Loss

/-!
# Passing messages on

Whoever reads messages and writes them to another stream rewrites their frames.
The content of a message stays what it is; the frame becomes the one that the
writer chooses, which is shorter where the long size was not needed and has the
reserved flags cleared. A second relay changes nothing more.
-/

namespace Azmqn.Wire

theorem Header.announce_eq {hdr : Header} {flags : Octet} {n : ℕ} (hf : hdr.flags = flags)
    (hn : hdr.size = n) : announce flags n = hdr := by
  subst hf hn
  rcases hdr with ⟨flags, field, hlen⟩
  have hfield : BigEndian.encode (sizeOctets flags) (BigEndian.decode field) = field := by
    rw [← hlen, BigEndian.encode_decode]
  simp [announce, size, hfield]

namespace WholeFrame

theorem ext_of_header {frame frame' : WholeFrame} (hh : frame.header = frame'.header)
    (hb : frame.body = frame'.body) : frame = frame' := by
  cases frame
  cases frame'
  cases hh
  cases hb
  rfl

/-- The frame that the writer chooses for the message in a frame; commands are not written. -/
def rewritten (frame : WholeFrame) : Option WholeFrame :=
  match frame.content with
  | .message m => some m.frame
  | .command _ => none

/-- A message under no reserved flag, with the long size only where the short one is too small. -/
def IsCanonical (frame : WholeFrame) : Prop :=
  frame.header.flags &&& 0xfc = 0 ∧ isLong frame.header.flags = decide (255 < frame.body.length)

theorem rewritten_frame (m : MessageT) : m.frame.rewritten = some m.frame := by
  rw [rewritten, m.content_frame]

theorem exists_message {frame frame' : WholeFrame} (h : frame.rewritten = some frame') :
    ∃ m, frame.content = .message m ∧ frame' = m.frame := by
  unfold rewritten at h
  cases hc : frame.content with
  | message m =>
    rw [hc] at h
    exact ⟨m, rfl, (Option.some.inj h).symm⟩
  | command c =>
    rw [hc] at h
    cases h

/-- A message has the payload and the MORE flag of its frame. -/
theorem eq_of_content {frame : WholeFrame} {m : MessageT} (h : frame.content = .message m) :
    isCommand frame.header.flags = false ∧ m = ⟨frame.payload, isMore frame.header.flags⟩ := by
  unfold content at h
  split_ifs at h with hc
  cases h
  exact ⟨Bool.not_eq_true _ ▸ hc, rfl⟩

/-- A size of one octet does not reach beyond 255. -/
theorem isLong_of_lt {frame : WholeFrame} (h : 255 < frame.body.length) :
    isLong frame.header.flags = true := by
  by_contra hl
  have hfield : frame.header.sizeField.length = 1 := by
    rw [frame.header.length_eq, Header.sizeOctets_of_short (Bool.not_eq_true _ ▸ hl)]
  have hlt := BigEndian.decode_lt frame.header.sizeField
  rw [hfield] at hlt
  have hsize : frame.body.length = BigEndian.decode frame.header.sizeField := frame.length_eq
  omega

theorem length_rewritten_le {frame frame' : WholeFrame} (h : frame.rewritten = some frame') :
    frame'.octets.length ≤ frame.octets.length := by
  obtain ⟨m, hm, rfl⟩ := exists_message h
  obtain ⟨-, rfl⟩ := eq_of_content hm
  have hsize : (MessageT.mk frame.payload (isMore frame.header.flags)).base.size =
      frame.body.length := rfl
  have hlen := MessageT.length_header ⟨frame.payload, isMore frame.header.flags⟩
  rw [hsize] at hlen
  have hold := frame.header.length_octets
  have hone := Transport.one_le_sizeOctets frame.header.flags
  have hbody : (MessageT.mk frame.payload (isMore frame.header.flags)).frame.octets.length =
      (MessageT.mk frame.payload (isMore frame.header.flags)).header.octets.length +
        frame.body.length := List.length_append
  rw [hbody, octets, List.length_append, hlen, hold]
  by_cases h255 : 255 < frame.body.length
  · rw [if_pos h255, Header.sizeOctets_of_long (isLong_of_lt h255)]
  · rw [if_neg h255]
    omega

/-- The writer's flags are those of the frame if none but MORE and a LONG bit that is called for
are set. -/
theorem flags_eq_iff (flags : Octet) (long : Bool) :
    isCommand flags = false ∧
        (if isMore flags then 0x1 else 0x0) ||| (if long then 0x2 else 0x0) = flags ↔
      flags &&& 0xfc = 0 ∧ isLong flags = long := by
  cases flags with
  | ofBitVec flags =>
    cases flags with
    | ofFin flags =>
      revert flags long
      decide +kernel

/-- Exactly the canonical frames are left alone. -/
theorem rewritten_eq_self_iff (frame : WholeFrame) :
    frame.rewritten = some frame ↔ frame.IsCanonical := by
  have hiff := flags_eq_iff frame.header.flags (decide (255 < frame.body.length))
  simp only [decide_eq_true_eq] at hiff
  rw [IsCanonical, ← hiff]
  constructor
  · intro h
    obtain ⟨m, hm, heq⟩ := exists_message h
    obtain ⟨hc, rfl⟩ := eq_of_content hm
    refine ⟨hc, ?_⟩
    have hflags := congrArg (fun frame => frame.header.flags) heq
    exact hflags.symm
  · rintro ⟨hc, hflags⟩
    have hcontent : frame.content = .message ⟨frame.payload, isMore frame.header.flags⟩ := by
      rw [content, hc]
      rfl
    rw [rewritten, hcontent]
    have hheader : (MessageT.mk frame.payload (isMore frame.header.flags)).header = frame.header :=
      Header.announce_eq hflags.symm frame.length_eq.symm
    exact congrArg some (ext_of_header hheader rfl)

end WholeFrame

end Azmqn.Wire

namespace Azmqn.Transport

open Xasio Streams Wire ReadStream WriteStream

/-- The writer's frames as the normal forms of all frames. -/
def relayForm : NormalForm WholeFrame.code where
  rewrite := WholeFrame.rewritten
  rewrite_again h := by
    obtain ⟨m, -, rfl⟩ := WholeFrame.exists_message h
    exact WholeFrame.rewritten_frame m
  length_le h := WholeFrame.length_rewritten_le h

/-- The messages among what was read. -/
def messages (ms : List MessageOrCommand) : List MessageT :=
  ms.filterMap fun
    | .message m => some m
    | .command _ => none

theorem relay_message {frame : WholeFrame} {m : MessageT} (hc : frame.content = .message m) :
    relayForm.rewrite frame = some m.frame := by
  change frame.rewritten = _
  rw [WholeFrame.rewritten, hc]

theorem relay_command {frame : WholeFrame} {c : CommandT} (hc : frame.content = .command c) :
    relayForm.rewrite frame = none := by
  change frame.rewritten = _
  rw [WholeFrame.rewritten, hc]

theorem wireOctets_messages (frames : List WholeFrame) :
    wireOctets (messages (frames.map WholeFrame.content)) =
      WholeFrame.code.encodeAll (relayForm.rewriteAll frames) := by
  induction frames with
  | nil => rfl
  | cons frame frames ih =>
    cases hc : frame.content with
    | message m =>
      rw [relayForm.rewriteAll_cons_some (relay_message hc), PrefixCode.encodeAll_cons, ← ih,
        List.map_cons, hc]
      rfl
    | command c =>
      rw [relayForm.rewriteAll_cons_none (relay_command hc), ← ih, List.map_cons, hc]
      rfl

theorem exists_frame_of_mem {frames : List WholeFrame} {m : MessageT}
    (hm : m ∈ messages (frames.map WholeFrame.content)) :
    ∃ frame ∈ frames, m.base.size = frame.header.size := by
  obtain ⟨mc, hmc, hm⟩ := List.mem_filterMap.mp hm
  obtain ⟨frame, hframe, rfl⟩ := List.mem_map.mp hmc
  cases hc : frame.content with
  | message m' =>
    rw [hc] at hm
    obtain rfl : m' = m := Option.some.inj hm
    obtain ⟨-, rfl⟩ := WholeFrame.eq_of_content hc
    exact ⟨frame, hframe, frame.length_eq⟩
  | command c =>
    rw [hc] at hm
    cases hm

/-- What is read where the messages of some frames were written. -/
theorem content_rewriteAll (frames : List WholeFrame) :
    (relayForm.rewriteAll frames).map WholeFrame.content =
      (messages (frames.map WholeFrame.content)).map MessageOrCommand.message := by
  induction frames with
  | nil => rfl
  | cons frame frames ih =>
    cases hc : frame.content with
    | message m =>
      rw [relayForm.rewriteAll_cons_some (relay_message hc), List.map_cons, m.content_frame, ih,
        List.map_cons, hc]
      rfl
    | command c =>
      rw [relayForm.rewriteAll_cons_none (relay_command hc), ih, List.map_cons, hc]
      rfl

section Relay

variable {σ τ : Type} [ReadStream σ Octet ErrorCode] [WriteStream τ Octet ErrorCode]

/-- Read from one stream and write to another, until either fails. A command is for the party
that reads it and is not passed on. -/
def relay (b : Build) (depth : ℕ) (raw : Raw) (rlimit : ReadLimit) :
    ℕ → σ → τ → Run (Option ErrorCode × σ × τ)
  | 0, s, t => pure (none, s, t)
  | fuel + 1, s, t => do
    let (res, s) ← read b raw s rlimit
    match res with
    | .error ec => pure (some ec, s, t)
    | .value (.command _) => relay b depth raw rlimit fuel s t
    | .value (.message m) => do
      let ((res, _), t) ← write b depth t (.ofMessage raw.framing m)
      match res with
      | .error ec => pure (some ec, s, t)
      | .value _ => relay b depth raw rlimit fuel s t

/-- A relay with room enough reads what is there and writes the messages among it. -/
theorem relay_of_read (depth : ℕ) (raw : Raw) (limit : ReadLimit) {fuel : ℕ} {s s' : σ}
    {ms : List MessageOrCommand} {ec : Option ErrorCode} (t : τ)
    (hread : readUntilError .ndebug raw limit fuel s = .ok ((ms, ec), s'))
    (hroom : ((wireOctets (messages ms)).length : ℕ∞) ≤ room t) :
    ∃ t', relay .ndebug (depth + 1) raw limit fuel s t = .ok (ec, s', t') ∧
      sent t' = sent t ++ wireOctets (messages ms) := by
  induction fuel generalizing s t ms with
  | zero =>
    cases hread
    exact ⟨t, rfl, (List.append_nil _).symm⟩
  | succ fuel ih =>
    obtain ⟨⟨res, s₁⟩, hr, hread⟩ := Run.bind_eq_ok hread
    cases res with
    | error e =>
      cases hread
      exact ⟨t, by simp [relay, hr], (List.append_nil _).symm⟩
    | value mc =>
      obtain ⟨⟨⟨rest, ec'⟩, s₂⟩, hrest, hread⟩ := Run.bind_eq_ok hread
      cases hread
      cases mc with
      | command c =>
        obtain ⟨t', hrun, hsent⟩ := ih t hrest hroom
        exact ⟨t', by simp [relay, hr, hrun], hsent⟩
      | message m =>
        have hcons : wireOctets (messages (.message m :: rest)) =
            m.frame.octets ++ wireOctets (messages rest) := rfl
        rw [hcons, List.length_append, Nat.cast_add] at hroom
        obtain ⟨w, t₁, hw, hsent₁, hroom₁⟩ := write_message depth t
          (w := .ofMessage raw.framing m) rfl (le_trans le_self_add hroom)
        rw [hroom₁] at hroom
        obtain ⟨t', hrun, hsent⟩ := ih t₁ hrest
          ((ENat.add_le_add_iff_left (ENat.natCast_ne_top _)).mp hroom)
        refine ⟨t', by simp [relay, hr, hw, hrun], ?_⟩
        rw [hsent, hsent₁, hcons, List.append_assoc]

/-- What a relay has written is passed on as it is. -/
theorem relay_again (depth : ℕ) (raw : Raw) {limit : ReadLimit} {frames : List WholeFrame}
    (hlim : ∀ frame ∈ frames, (frame.header.size : ℤ) ≤ limit.val_) {fuel : ℕ}
    (hf : frames.length < fuel) (u : σ) (v : τ)
    (hu : content u = wireOctets (messages (frames.map WholeFrame.content)))
    (hv : ((wireOctets (messages (frames.map WholeFrame.content))).length : ℕ∞) ≤ room v) :
    ∃ u' v', relay .ndebug (depth + 1) raw limit fuel u v = .ok (some (failure u), u', v') ∧
      content u' = [] ∧
      sent v' = sent v ++ wireOctets (messages (frames.map WholeFrame.content)) := by
  have hsize : ∀ m ∈ messages (frames.map WholeFrame.content), (m.base.size : ℤ) ≤ limit.val_ := by
    intro m hm
    obtain ⟨frame, hframe, hsize⟩ := exists_frame_of_mem hm
    rw [hsize]
    exact hlim frame hframe
  have hcount : (messages (frames.map WholeFrame.content)).length < fuel := by
    have hle : (messages (frames.map WholeFrame.content)).length ≤ frames.length :=
      (List.length_filterMap_le _ _).trans (List.length_map _).le
    omega
  obtain ⟨u', hu', hend⟩ := readUntilError_messages .ndebug raw u
    (messages (frames.map WholeFrame.content)) [] (by rw [List.append_nil]; exact hu) hsize rfl
    hcount
  -- what is read here is in normal form already
  have hagain := wireOctets_messages (relayForm.rewriteAll frames)
  rw [relayForm.rewriteAll_again, ← wireOctets_messages, content_rewriteAll] at hagain
  rw [← hagain] at hv ⊢
  obtain ⟨v', hrun', hsent'⟩ := relay_of_read depth raw limit v hu' hv
  exact ⟨u', v', hrun', hend, hsent'⟩

/-- Whatever comes in, a relay whose output has room for as much writes the frames that it is let
through in the form that the writer chooses, without commands. It never writes more octets than it
read, writes the very same ones exactly when all frames were canonical messages, and the next relay
passes them on as they are. -/
theorem relay_normalises (depth : ℕ) (raw : Raw) (limit : ReadLimit) (s : σ) (t : τ) {fuel : ℕ}
    (hf : (content s).length < 2 * fuel) (hroom : ((content s).length : ℕ∞) ≤ room t) :
    ∃ (frames : List WholeFrame) (rest : List Octet) (ec : ErrorCode) (s' : σ) (t' : τ)
        (out : List Octet),
      content s = WholeFrame.code.encodeAll frames ++ rest ∧
      readUntilError .ndebug raw limit fuel s =
        .ok ((frames.map WholeFrame.content, some ec), s') ∧
      relay .ndebug (depth + 1) raw limit fuel s t = .ok (some ec, s', t') ∧
      sent t' = sent t ++ out ∧
      out = wireOctets (messages (frames.map WholeFrame.content)) ∧
      out.length ≤ (WholeFrame.code.encodeAll frames).length ∧
      (out = WholeFrame.code.encodeAll frames ↔ ∀ frame ∈ frames, frame.IsCanonical) ∧
      ∀ (σ' τ' : Type) [ReadStream σ' Octet ErrorCode] [WriteStream τ' Octet ErrorCode] (u : σ')
        (v : τ'), content u = out → (out.length : ℕ∞) ≤ room v →
          ∃ u' v', relay .ndebug (depth + 1) raw limit fuel u v = .ok (some (failure u), u', v') ∧
            content u' = [] ∧ sent v' = sent v ++ out := by
  obtain ⟨frames, rest, ec, s', hread, hc, hlim, hlen, -⟩ := read_hostile .ndebug raw limit s hf
  have hout := wireOctets_messages frames
  have hle := relayForm.length_encodeAll_le frames
  rw [← hout] at hle
  have htotal := congrArg List.length hc
  rw [List.length_append] at htotal
  have hroom' : ((wireOctets (messages (frames.map WholeFrame.content))).length : ℕ∞) ≤ room t :=
    le_trans (Nat.cast_le.mpr (by omega)) hroom
  obtain ⟨t', hrun, hsent⟩ := relay_of_read depth raw limit t hread hroom'
  refine ⟨frames, rest, ec, s', t', _, hc, hread, hrun, hsent, rfl, hle, ?_, ?_⟩
  · rw [hout, relayForm.encodeAll_eq_iff]
    exact forall₂_congr fun frame _ => frame.rewritten_eq_self_iff
  · intro σ' τ' _ _ u v hu hv
    exact relay_again depth raw hlim (by omega) u v hu hv

/-- A message in a long frame that did not need one, under a reserved flag, and a command. -/
def longAndCommand : ChunkSource Octet ErrorCode :=
  ⟨[⟨[0x82, 0, 0, 0, 0, 0, 0, 0, 1, 0x61], by simp⟩, ⟨[0x04, 0x01, 0x62], by simp⟩], .eof⟩

theorem relay_normalises_longAndCommand :
    ∃ frames rest s' t', content longAndCommand = WholeFrame.code.encodeAll frames ++ rest ∧
      relay .ndebug 1 ⟨.replicate maxFramingOctets 0, fun _ => 0⟩ ⟨10, by decide, by decide⟩ 8
        longAndCommand (PieceSink.mk 2 [] .eof : PieceSink Octet ErrorCode) =
          .ok (some .eof, s', t') ∧
      sent t' = [0x00, 0x01, 0x61] ∧ 3 ≤ (WholeFrame.code.encodeAll frames).length := by
  obtain ⟨frames, rest, ec, s', t', out, hc, -, hrun, hsent, -, hle, -⟩ := relay_normalises 0
    ⟨.replicate maxFramingOctets 0, fun _ => 0⟩ ⟨10, by decide, by decide⟩ longAndCommand
    (PieceSink.mk 2 [] .eof : PieceSink Octet ErrorCode) (show _ < 2 * 8 by decide) le_top
  have heval : relay .ndebug 1 ⟨.replicate maxFramingOctets 0, fun _ => 0⟩
      ⟨10, by decide, by decide⟩ 8 longAndCommand
      (PieceSink.mk 2 [] .eof : PieceSink Octet ErrorCode) =
        .ok (some .eof, ⟨[], .eof⟩, ⟨2, [0x00, 0x01, 0x61], .eof⟩) := rfl
  rw [heval] at hrun
  simp only [Except.ok.injEq, Prod.mk.injEq] at hrun
  obtain ⟨-, rfl, rfl⟩ := hrun
  have hout : [0x00, 0x01, 0x61] = out := hsent
  refine ⟨frames, rest, _, _, hc, heval, rfl, ?_⟩
  rw [← hout] at hle
  exact hle

end Relay

end Azmqn.Transport
