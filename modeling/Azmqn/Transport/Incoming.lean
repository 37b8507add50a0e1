import Azmqn.Library.Incremental
import Azmqn.Transport.ReadExact

/-!
# Reading whatever comes in

`read` is an incremental reader: it takes exactly the octets that decide its
result and waits for none that it does not need. Reading until something fails
therefore takes apart any input, also a hostile one, into the frames that are
let through and whatever stopped the reader.
-/

namespace Azmqn.Transport

open Memory Xasio Streams Wire ReadStream

/-- Headers are self-delimiting, too. -/
def headerCode : ExactCode Header Octet where
  encode := Header.octets
  parse := Header.parse
  encode_ne_nil hdr := by simp [Header.octets]
  parse_encode := Header.parse_octets
  encode_parse := Header.eq_of_parse

/-- What the front of a string decides: a frame, or that its body is not let through. -/
def decideFrame (limit : ℕ) (xs : List Octet) : Option (MessageOrCommandResult × List Octet) :=
  match Header.parse xs with
  | none => none
  | some (hdr, rest) =>
    if limit < hdr.size then some (.error .messageSize, rest)
    else match WholeFrame.parse xs with
      | none => none
      | some (frame, rest) => some (.value frame.content, rest)

section Decide

variable {limit : ℕ} {xs rest : List Octet} {hdr : Header} {frame : WholeFrame}

theorem decideFrame_oversized (h : limit < hdr.size) (rest : List Octet) :
    decideFrame limit (hdr.octets ++ rest) = some (.error .messageSize, rest) := by
  simp [decideFrame, Header.parse_octets, h]

theorem decideFrame_frame (h : frame.header.size ≤ limit) (rest : List Octet) :
    decideFrame limit (frame.octets ++ rest) = some (.value frame.content, rest) := by
  have hp : Header.parse (frame.octets ++ rest) = some (frame.header, frame.body ++ rest) := by
    rw [WholeFrame.octets, List.append_assoc, Header.parse_octets]
  simp [decideFrame, hp, Nat.not_lt.mpr h, WholeFrame.parse_octets]

theorem decideFrame_of_header_none (h : Header.parse xs = none) : decideFrame limit xs = none := by
  simp [decideFrame, h]

/-- A beginning of a frame that is let through decides nothing. -/
theorem decideFrame_cut {ys : List Octet} (h : frame.octets = xs ++ ys) (hy : ys ≠ [])
    (hl : frame.header.size ≤ limit) : decideFrame limit xs = none := by
  have hcut : WholeFrame.parse xs = none := WholeFrame.code.parse_of_cut h hy
  cases hp : Header.parse xs with
  | none => exact decideFrame_of_header_none hp
  | some r =>
    rcases r with ⟨hdr, tail⟩
    have hx := Header.eq_of_parse hp
    have hf := Header.parse_octets frame.header frame.body
    change Header.parse frame.octets = _ at hf
    rw [h, hx, List.append_assoc, Header.parse_octets] at hf
    simp only [Option.some.injEq, Prod.mk.injEq] at hf
    rw [← hf.1] at hl
    simp [decideFrame, hp, Nat.not_lt.mpr hl, hcut]

/-- A header with all of its body behind it is decided one way or the other. -/
theorem decideFrame_ne_none (h : hdr.size ≤ rest.length) :
    decideFrame limit (hdr.octets ++ rest) ≠ none := by
  by_cases hl : limit < hdr.size
  · simp [decideFrame_oversized hl]
  · have hw : WholeFrame.parse (hdr.octets ++ rest) ≠ none := by
      simp [WholeFrame.parse, Header.parse_octets, h]
    cases hp : WholeFrame.parse (hdr.octets ++ rest) with
    | none => exact absurd hp hw
    | some r => simp [decideFrame, Header.parse_octets, hl, hp]

/-- Where a limit leaves the decision open, a larger one does. -/
theorem decideFrame_none_mono {limit' : ℕ} (hle : limit ≤ limit')
    (h : decideFrame limit xs = none) : decideFrame limit' xs = none := by
  cases hp : Header.parse xs with
  | none => exact decideFrame_of_header_none hp
  | some r =>
    rcases r with ⟨hdr, rest⟩
    by_cases hl : limit < hdr.size
    · simp [decideFrame, hp, hl] at h
    · have hl' : ¬ limit' < hdr.size := by omega
      simpa [decideFrame, hp, hl, hl'] using h

/-- The three ways to decide. -/
theorem decideFrame_cases (limit : ℕ) (xs : List Octet) :
    decideFrame limit xs = none ∨
    (∃ (hdr : Header) (rest : List Octet), xs = hdr.octets ++ rest ∧ limit < hdr.size) ∨
    ∃ (frame : WholeFrame) (rest : List Octet), xs = frame.octets ++ rest ∧
      frame.header.size ≤ limit := by
  cases hp : Header.parse xs with
  | none => exact Or.inl (decideFrame_of_header_none hp)
  | some r =>
    rcases r with ⟨hdr, tail⟩
    have hx := Header.eq_of_parse hp
    by_cases hl : limit < hdr.size
    · exact Or.inr (Or.inl ⟨hdr, tail, hx, hl⟩)
    · cases hw : WholeFrame.parse xs with
      | none =>
        apply Or.inl
        simp [decideFrame, hp, hl, hw]
      | some r =>
        rcases r with ⟨frame, rest⟩
        have hf := WholeFrame.eq_of_parse hw
        refine Or.inr (Or.inr ⟨frame, rest, hf, ?_⟩)
        rw [hf, WholeFrame.octets, List.append_assoc, Header.parse_octets] at hp
        simp only [Option.some.injEq, Prod.mk.injEq] at hp
        rw [hp.1]
        exact Nat.not_lt.mp hl

end Decide

/-- The reader of frames with bodies up to a limit. -/
def frameReader (limit : ℕ) : Incremental Octet MessageOrCommandResult where
  next := decideFrame limit
  taken := by
    intro xs r rest h
    rcases decideFrame_cases limit xs with hn | ⟨hdr, tail, rfl, hl⟩ | ⟨frame, tail, rfl, hl⟩
    · rw [hn] at h
      cases h
    · rw [decideFrame_oversized hl] at h
      simp only [Option.some.injEq, Prod.mk.injEq] at h
      obtain ⟨rfl, rfl⟩ := h
      refine ⟨hdr.octets, headerCode.encode_ne_nil hdr, rfl, decideFrame_oversized hl, ?_⟩
      rintro pre ⟨ys, hys⟩ hne
      exact decideFrame_of_header_none
        (headerCode.parse_of_cut hys.symm (Incremental.missing_ne_nil hys hne))
    · rw [decideFrame_frame hl] at h
      simp only [Option.some.injEq, Prod.mk.injEq] at h
      obtain ⟨rfl, rfl⟩ := h
      refine ⟨frame.octets, frame.octets_ne_nil, rfl, decideFrame_frame hl, ?_⟩
      rintro pre ⟨ys, hys⟩ hne
      exact decideFrame_cut hys.symm (Incremental.missing_ne_nil hys hne) hl

/-- What reading means is what is decided, or the failure of the stream. -/
theorem readSpec_eq_decide (limit : ℕ) (failure : ErrorCode) (xs : List Octet) :
    readSpec limit failure xs = ((frameReader limit).next xs).getD (.error failure, []) := by
  change _ = (decideFrame limit xs).getD _
  unfold readSpec decideFrame
  cases Header.parse xs with
  | none => rfl
  | some r =>
    rcases r with ⟨hdr, rest⟩
    dsimp only
    split_ifs with hl
    · rfl
    · cases WholeFrame.parse xs <;> rfl

section Read

variable {σ : Type} [ReadStream σ Octet ErrorCode] {s : σ}

theorem read_decided (b : Build) (raw : Raw) (s : σ) (limit : ReadLimit)
    {res : MessageOrCommandResult} {rest : List Octet}
    (h : (frameReader limit.toSizeT).next (content s) = some (res, rest)) :
    ∃ s', read b raw s limit = .ok (res, s') ∧ content s' = rest := by
  obtain ⟨s', hr, hs⟩ := read_eq_spec b raw s limit
  rw [readSpec_eq_decide, h] at hr hs
  exact ⟨s', hr, hs⟩

theorem read_undecided (b : Build) (raw : Raw) (s : σ) (limit : ReadLimit)
    (h : (frameReader limit.toSizeT).next (content s) = none) :
    ∃ s', read b raw s limit = .ok (.error (failure s), s') ∧ content s' = [] := by
  obtain ⟨s', hr, hs⟩ := read_eq_spec b raw s limit
  rw [readSpec_eq_decide, h] at hr hs
  exact ⟨s', hr, hs⟩

/-- `read` takes the octets that decide its result and no others: any stream that begins with
them gives the same result and keeps what is behind them, and any stream that holds a part of
them only still waits. Without such octets it waits for the end of the stream. -/
theorem read_takes_what_decides (b : Build) (raw : Raw) (s : σ) (limit : ReadLimit) :
    ∃ res s', read b raw s limit = .ok (res, s') ∧
      ((∃ used, used ≠ [] ∧ content s = used ++ content s' ∧
          (∀ (σ' : Type) [ReadStream σ' Octet ErrorCode] (b' : Build) (raw' : Raw) (t : σ')
            (rest : List Octet), content t = used ++ rest →
              ∃ t', read b' raw' t limit = .ok (res, t') ∧ content t' = rest) ∧
          ∀ (σ' : Type) [ReadStream σ' Octet ErrorCode] (b' : Build) (raw' : Raw) (t : σ'),
            content t <+: used → content t ≠ used →
              ∃ t', read b' raw' t limit = .ok (.error (failure t), t') ∧ content t' = []) ∨
        res = .error (failure s) ∧ content s' = [] ∧
          ∀ (σ' : Type) [ReadStream σ' Octet ErrorCode] (b' : Build) (raw' : Raw) (t : σ'),
            content t <+: content s →
              ∃ t', read b' raw' t limit = .ok (.error (failure t), t') ∧ content t' = []) := by
  cases h : (frameReader limit.toSizeT).next (content s) with
  | none =>
    obtain ⟨s', hr, hs⟩ := read_undecided b raw s limit h
    refine ⟨_, s', hr, Or.inr ⟨rfl, hs, ?_⟩⟩
    rintro σ' _ b' raw' t ⟨ys, hys⟩
    apply read_undecided b' raw' t limit
    -- a decision about a part would be one about the whole
    cases ht : (frameReader limit.toSizeT).next (content t) with
    | none => rfl
    | some p =>
      rcases p with ⟨res, rest⟩
      have happ := (frameReader limit.toSizeT).next_append ht ys
      rw [hys, h] at happ
      cases happ
  | some p =>
    rcases p with ⟨res, rest⟩
    obtain ⟨s', hr, hs⟩ := read_decided b raw s limit h
    obtain ⟨used, hne, hused, hsame, hpart⟩ := (frameReader limit.toSizeT).taken h
    refine ⟨res, s', hr, Or.inl ⟨used, hne, by rw [hs]; exact hused, ?_, ?_⟩⟩
    · intro σ' _ b' raw' t rest' ht
      apply read_decided b' raw' t limit
      rw [ht]
      exact hsame rest'
    · intro σ' _ b' raw' t hpre hne'
      exact read_undecided b' raw' t limit (hpart _ hpre hne')

/-- A read that succeeds leaves the stream to fail as it would have failed. -/
theorem readInto_failure (b : Build) (raw : ℕ → Octet) {r r' : ReadableMessageOrCommand}
    (hr : r.f_.empty = true) {limit : ReadLimit} {m : MessageOrCommand} {s' : σ}
    (h : readInto b raw r s limit = .ok ((.value m, r'), s')) : failure s' = failure s := by
  obtain ⟨r₀, s₀, hspec, -⟩ := readInto_eq_spec b raw hr s limit
  rw [h] at hspec
  simp only [Except.ok.injEq, Prod.mk.injEq] at hspec
  have hres := hspec.1.1
  rw [readSpec_eq_decide] at hres
  change _ = ((decideFrame _ _).getD _).1 at hres
  rcases decideFrame_cases limit.toSizeT (content s) with hn | ⟨hdr, rest, hc, hl⟩ |
    ⟨frame, rest, hc, hl⟩
  · rw [hn] at hres
    cases hres
  · rw [hc, decideFrame_oversized hl] at hres
    cases hres
  · rw [WholeFrame.octets, List.append_assoc] at hc
    obtain ⟨f, s₁, hs₁, hfail, heq⟩ := readInto_admitted b raw hr hc hl
    have hbody : (Region.mk 0 frame.header.size).size = frame.body.length := frame.length_eq.symm
    obtain ⟨hread, -, hfail'⟩ := Xasio.read_append s₁ hs₁ hbody
    rw [heq] at h
    rcases hout : Xasio.read s₁ ⟨0, frame.header.size⟩ with ⟨⟨rr, octets⟩, s₃⟩
    rw [hout] at hread hfail'
    simp only [hout] at h
    obtain ⟨rfl, rfl⟩ := Prod.mk.inj hread
    obtain ⟨r₂, -, hfilled⟩ := Run.bind_eq_ok h
    obtain ⟨m', -, hdetached⟩ := Run.bind_eq_ok hfilled
    cases hdetached
    exact hfail'.trans hfail

theorem read_failure (b : Build) (raw : Raw) {limit : ReadLimit} {m : MessageOrCommand} {s' : σ}
    (h : read b raw s limit = .ok (.value m, s')) : failure s' = failure s := by
  obtain ⟨⟨⟨res, r'⟩, s₂⟩, hinto, h⟩ := Run.bind_eq_ok h
  cases h
  exact readInto_failure b raw.body rfl hinto

theorem one_le_sizeOctets (flags : Octet) : 1 ≤ sizeOctets flags := by
  unfold sizeOctets
  split_ifs <;> omega

theorem WholeFrame.two_add_length_le (frame : WholeFrame) :
    2 + frame.body.length ≤ frame.octets.length := by
  have h := one_le_sizeOctets frame.header.flags
  rw [WholeFrame.octets, List.length_append, Header.length_octets]
  omega

/-- Read until a read fails, `fuel` times at most. -/
def readUntilError (b : Build) (raw : Raw) (rlimit : ReadLimit) :
    ℕ → σ → Run ((List MessageOrCommand × Option ErrorCode) × σ)
  | 0, s => pure (([], none), s)
  | fuel + 1, s => do
    let (res, s) ← read b raw s rlimit
    match res with
    | .error ec => pure (([], some ec), s)
    | .value m => do
      let ((ms, ec), s) ← readUntilError b raw rlimit fuel s
      pure ((m :: ms, ec), s)

/-- Any input is some frames that are let through and something that stops the reader: a
header whose body is not let through, behind which the stream is left, or a part of a frame
at the end of the stream. The reader returns what the frames carry and never more octets of
bodies than came in. -/
theorem read_hostile (b : Build) (raw : Raw) (limit : ReadLimit) (s : σ) {fuel : ℕ}
    (hf : (content s).length < 2 * fuel) :
    ∃ (frames : List WholeFrame) (rest : List Octet) (ec : ErrorCode) (s' : σ),
      readUntilError b raw limit fuel s =
        .ok ((frames.map WholeFrame.content, some ec), s') ∧
      content s = WholeFrame.code.encodeAll frames ++ rest ∧
      (∀ frame ∈ frames, (frame.header.size : ℤ) ≤ limit.val_) ∧
      2 * frames.length + (frames.map fun frame => frame.body.length).sum ≤ (content s).length ∧
      ((∃ hdr, rest = Header.octets hdr ++ content s' ∧ limit.val_ < hdr.size ∧
          ec = .messageSize) ∨
        (∀ hdr tail, rest = Header.octets hdr ++ tail →
          (hdr.size : ℤ) ≤ limit.val_ ∧ tail.length < hdr.size) ∧
          ec = failure s ∧ content s' = []) := by
  induction fuel generalizing s with
  | zero => omega
  | succ fuel ih =>
    rcases decideFrame_cases limit.toSizeT (content s) with hn | ⟨hdr, rest, hc, hl⟩ |
      ⟨frame, rest, hc, hl⟩
    · obtain ⟨s', hr, hs'⟩ := read_undecided b raw s limit hn
      refine ⟨[], content s, failure s, s', by simp [readUntilError, hr], rfl, by simp, by simp,
        Or.inr ⟨?_, rfl, hs'⟩⟩
      intro hdr tail hc
      rw [hc] at hn
      constructor
      · rw [← Int.not_lt, ← limit.toSizeT_lt_iff]
        intro hl
        rw [decideFrame_oversized hl] at hn
        cases hn
      · by_contra hlen
        exact decideFrame_ne_none (Nat.not_lt.mp hlen) hn
    · obtain ⟨s', hr, hs'⟩ := read_decided b raw s limit
        (hc ▸ decideFrame_oversized hl rest)
      refine ⟨[], content s, .messageSize, s', by simp [readUntilError, hr], rfl, by simp,
        by simp, Or.inl ⟨hdr, by rw [hs']; exact hc, limit.toSizeT_lt_iff.mp hl, rfl⟩⟩
    · obtain ⟨s₁, hr, hs₁⟩ := read_decided b raw s limit
        (hc ▸ decideFrame_frame hl rest)
      have hfail := read_failure b raw hr
      have hlen := WholeFrame.two_add_length_le frame
      have htotal := congrArg List.length hc
      rw [List.length_append] at htotal
      obtain ⟨frames, last, ec, s', hrun, hrest, hlim, hsum, hstop⟩ := ih s₁ (by rw [hs₁]; omega)
      rw [hs₁] at hrest hsum
      refine ⟨frame :: frames, last, ec, s', by simp [readUntilError, hr, hrun], ?_, ?_, ?_, ?_⟩
      · rw [hc, hrest, PrefixCode.encodeAll_cons, List.append_assoc]
        rfl
      · intro frame' hframe'
        rcases List.mem_cons.mp hframe' with rfl | hmem
        · rw [← Int.not_lt, ← limit.toSizeT_lt_iff, Nat.not_lt]
          exact hl
        · exact hlim frame' hmem
      · simp only [List.length_cons, List.map_cons, List.sum_cons]
        omega
      · rwa [hfail] at hstop

/-- A message, and a header that announces more octets than there can be. -/
theorem read_hostile_huge :
    ∃ frames rest ec s', readUntilError .debug ⟨.replicate maxFramingOctets 0, fun _ => 0⟩
        ⟨10, by decide, by decide⟩ 10 (ChunkSource.mk [⟨[0x01, 0x01, 0x61, 0x02], by simp⟩,
          ⟨List.replicate 8 0xff, by decide⟩] .eof : ChunkSource Octet ErrorCode) =
        .ok ((frames.map WholeFrame.content, some ec), s') ∧
      [0x01, 0x01, 0x61, 0x02] ++ List.replicate 8 0xff =
        WholeFrame.code.encodeAll frames ++ rest := by
  obtain ⟨frames, rest, ec, s', hrun, hc, -⟩ := read_hostile .debug
    ⟨.replicate maxFramingOctets 0, fun _ => 0⟩ ⟨10, by decide, by decide⟩
    (ChunkSource.mk [⟨[0x01, 0x01, 0x61, 0x02], by simp⟩, ⟨List.replicate 8 0xff, by decide⟩] .eof :
      ChunkSource Octet ErrorCode) (show _ < 2 * 10 by decide)
  exact ⟨frames, rest, ec, s', hrun, hc⟩

/-- On the same octets with the same error behind them a reader with a larger limit gets what one
with a smaller limit gets, and perhaps more. They come to different ends only where the first one
stops at a header that announces more than its own limit and no more than the other. -/
theorem limits_agree {σ' : Type} [ReadStream σ' Octet ErrorCode] (b b' : Build) (raw raw' : Raw)
    (limit limit' : ReadLimit) (hle : limit.val_ ≤ limit'.val_) (s : σ) (t : σ')
    (hc : content t = content s) (he : failure t = failure s) {fuel : ℕ}
    (hf : (content s).length < 2 * fuel) :
    ∃ ms ec s' more ec' t',
      readUntilError b raw limit fuel s = .ok ((ms, some ec), s') ∧
      readUntilError b' raw' limit' fuel t = .ok ((ms ++ more, some ec'), t') ∧
      ((more = [] ∧ ec' = ec ∧ content t' = content s') ∨
        ec = .messageSize ∧ ∃ hdr, Header.octets hdr ++ content s' <:+ content s ∧
          limit.val_ < hdr.size ∧ (hdr.size : ℤ) ≤ limit'.val_) := by
  have hle' : (limit.toSizeT : ℕ) ≤ limit'.toSizeT := by
    have h := limit.toSizeT_val
    have h' := limit'.toSizeT_val
    omega
  induction fuel generalizing s t with
  | zero => omega
  | succ fuel ih =>
    rcases decideFrame_cases limit.toSizeT (content s) with hn | ⟨hdr, rest, hs, hl⟩ |
      ⟨frame, rest, hs, hl⟩
    · obtain ⟨s', hr, hs'⟩ := read_undecided b raw s limit hn
      have hn' := decideFrame_none_mono hle' hn
      rw [← hc] at hn'
      obtain ⟨t', hr', ht'⟩ := read_undecided b' raw' t limit' hn'
      exact ⟨[], failure s, s', [], failure t, t', by simp [readUntilError, hr],
        by simp [readUntilError, hr'], Or.inl ⟨rfl, he, by rw [ht', hs']⟩⟩
    · obtain ⟨s', hr, hs'⟩ := read_decided b raw s limit (hs ▸ decideFrame_oversized hl rest)
      have hrun : readUntilError b raw limit (fuel + 1) s = .ok (([], some .messageSize), s') := by
        simp [readUntilError, hr]
      by_cases hl' : limit'.toSizeT < hdr.size
      · obtain ⟨t', hr', ht'⟩ := read_decided b' raw' t limit'
          (hc ▸ hs ▸ decideFrame_oversized hl' rest)
        exact ⟨[], .messageSize, s', [], .messageSize, t', hrun, by simp [readUntilError, hr'],
          Or.inl ⟨rfl, rfl, by rw [ht', hs']⟩⟩
      · rw [← hc] at hf
        obtain ⟨frames, -, ec', t', hrun', -⟩ := read_hostile b' raw' limit' t hf
        refine ⟨[], .messageSize, s', _, ec', t', hrun, hrun', Or.inr ⟨rfl, hdr, ?_, ?_, ?_⟩⟩
        · rw [hs', hs]
        · exact limit.toSizeT_lt_iff.mp hl
        · rwa [← Int.not_lt, ← limit'.toSizeT_lt_iff]
    · obtain ⟨s₁, hr, hs₁⟩ := read_decided b raw s limit (hs ▸ decideFrame_frame hl rest)
      obtain ⟨t₁, hr', ht₁⟩ := read_decided b' raw' t limit'
        (hc ▸ hs ▸ decideFrame_frame (hl.trans hle') rest)
      have hlen := WholeFrame.two_add_length_le frame
      have htotal := congrArg List.length hs
      rw [List.length_append] at htotal
      obtain ⟨ms, ec, s', more, ec', t', hrun, hrun', hend⟩ := ih s₁ t₁ (ht₁.trans hs₁.symm)
        (by rw [read_failure b' raw' hr', read_failure b raw hr, he]) (by rw [hs₁]; omega)
      refine ⟨frame.content :: ms, ec, s', more, ec', t', by simp [readUntilError, hr, hrun],
        by simp [readUntilError, hr', hrun'], ?_⟩
      rcases hend with hsame | ⟨hec, hdr, hsuffix, hlo, hhi⟩
      · exact Or.inl hsame
      · refine Or.inr ⟨hec, hdr, ?_, hlo, hhi⟩
        rw [hs₁] at hsuffix
        rw [hs]
        exact hsuffix.trans (List.suffix_append _ _)

/-- A message of two octets, under a limit of one and a limit of two. -/
theorem limits_agree_two_octets :
    ∃ ms ec s' more ec' t', readUntilError .debug ⟨.replicate maxFramingOctets 0, fun _ => 0⟩
        ⟨1, by decide, by decide⟩ 5 (ChunkSource.mk [⟨[0x00, 0x02, 0x61, 0x62], by simp⟩] .eof :
          ChunkSource Octet ErrorCode) = .ok ((ms, some ec), s') ∧
      readUntilError .debug ⟨.replicate maxFramingOctets 0, fun _ => 0⟩
        ⟨2, by decide, by decide⟩ 5 (ChunkSource.mk [⟨[0x00, 0x02, 0x61, 0x62], by simp⟩] .eof :
          ChunkSource Octet ErrorCode) = .ok ((ms ++ more, some ec'), t') := by
  obtain ⟨ms, ec, s', more, ec', t', hrun, hrun', -⟩ := limits_agree .debug .debug
    ⟨.replicate maxFramingOctets 0, fun _ => 0⟩ ⟨.replicate maxFramingOctets 0, fun _ => 0⟩
    ⟨1, by decide, by decide⟩ ⟨2, by decide, by decide⟩ (by decide)
    (ChunkSource.mk [⟨[0x00, 0x02, 0x61, 0x62], by simp⟩] .eof : ChunkSource Octet ErrorCode)
    (ChunkSource.mk [⟨[0x00, 0x02, 0x61, 0x62], by simp⟩] .eof : ChunkSource Octet ErrorCode)
    rfl rfl (show _ < 2 * 5 by decide)
  exact ⟨ms, ec, s', more, ec', t', hrun, hrun'⟩

end Read

end Azmqn.Transport
