import Azmqn.Transport.WriteRead

/-!
# Commands cannot be written

`traffic::get_flags` asks whether the derived class has a `get_flags` and calls
it if so. The question is asked inside `traffic`, where its own private
`get_flags` is accessible, so the answer is yes for every class, and a class
that declares none is sent back to the function that asked. `command_t` is such
a class. The octets of a command frame are read back as that command all the same.
-/

namespace Azmqn.Wire

namespace Traffic

variable (T : Type) [Traffic T]

theorem hasFlags_eq_true : hasFlags T = true := by
  unfold hasFlags lookupGetFlags
  cases declaredGetFlags (T := T) <;> rfl

variable {T}

/-- Without a declaration of its own, each call leads to one more. -/
theorem getFlags_of_undeclared (h : declaredGetFlags (T := T) = none) (depth : ℕ) (x : T) :
    getFlags depth x = .error .callDepth := by
  induction depth with
  | zero => rfl
  | succ depth ih =>
    unfold getFlags
    rw [if_pos (hasFlags_eq_true T), h]
    exact ih

end Traffic

namespace CommandT

/-- The flags octet that a command travels under. -/
def flags (c : CommandT) : Octet := 0x4 ||| (if 255 < c.base.size then 0x2 else 0x0)

theorem isLong_flags (c : CommandT) : isLong c.flags = decide (255 < c.base.size) := by
  unfold flags
  by_cases h : 255 < c.base.size <;> simp only [h] <;> decide

theorem isCommand_flags (c : CommandT) : isCommand c.flags = true := by
  unfold flags
  by_cases h : 255 < c.base.size <;> simp only [h] <;> decide

def header (c : CommandT) : Header := Header.announce c.flags c.base.size

theorem size_header (c : CommandT) : c.header.size = c.base.size := by
  apply Header.size_announce_of_isLong
  · exact c.isLong_flags
  · exact c.base.size_lt

/-- The frame that carries a command. -/
def frame (c : CommandT) : WholeFrame := ⟨c.header, c.base.v_, c.size_header.symm⟩

theorem content_frame (c : CommandT) : c.frame.content = .command c := by
  have hc : isCommand c.frame.header.flags = true := c.isCommand_flags
  unfold WholeFrame.content
  rw [hc]
  rfl

end CommandT

theorem WritableMessageOrCommand.bufferSequence_command (depth : ℕ) {c : CommandT}
    {w : WritableMessageOrCommand} (h : w.data_ = .command c) :
    w.bufferSequence .ndebug depth = .error .callDepth := by
  have hflags : Traffic.getFlags depth c = .error .callDepth :=
    Traffic.getFlags_of_undeclared rfl depth c
  simp [bufferSequence, h, MaybeMessageOrCommand.setFraming, Traffic.setFraming,
    Xasio.atLeastBuffer, hflags]

end Azmqn.Wire

namespace Azmqn.Transport

open Xasio Streams Wire ReadStream WriteStream

/-- The frame of a command is read back as that command. -/
theorem read_command {σ : Type} [ReadStream σ Octet ErrorCode] (b : Build) (raw : Raw) (s : σ)
    {limit : ReadLimit} {c : CommandT} {rest : List Octet}
    (hc : content s = c.frame.octets ++ rest) (hl : (c.base.size : ℤ) ≤ limit.val_) :
    ∃ s', read b raw s limit = .ok (.value (.command c), s') ∧ content s' = rest := by
  rw [← c.size_header] at hl
  have h := read_frame b raw s hc hl
  rwa [c.content_frame] at h

section Write

variable {τ : Type} [WriteStream τ Octet ErrorCode]

/-- What writing a command to a stream and reading it back should do: the write returns
within some depth of calls, sends the command's frame and counts its octets, and a read
of them returns the command. -/
def CommandComesBack (s : τ) (raw : Vector Octet maxFramingOctets) (c : CommandT) : Prop :=
  ∃ depth w s', write .ndebug depth s (.ofCommand raw c) =
      .ok ((.value c.frame.octets.length, w), s') ∧
    sent s' = sent s ++ c.frame.octets ∧
    ∀ (σ : Type) [ReadStream σ Octet ErrorCode] (raw' : Raw) (t : σ) (limit : ReadLimit),
      content t = c.frame.octets → (c.base.size : ℤ) ≤ limit.val_ →
        ∃ t', Transport.read .ndebug raw' t limit = .ok (.value (.command c), t') ∧
          content t' = []

theorem write_command (depth : ℕ) (s : τ) (raw : Vector Octet maxFramingOctets) (c : CommandT) :
    write .ndebug depth s (.ofCommand raw c) = .error .callDepth := by
  have hdata : (WritableMessageOrCommand.ofCommand raw c).data_ = .command c := rfl
  have h := WritableMessageOrCommand.bufferSequence_command depth hdata
  simp [write, h]

/-- No command comes back: its write exceeds every depth of calls. -/
theorem command_never_comes_back (s : τ) (raw : Vector Octet maxFramingOctets) (c : CommandT) :
    ¬ CommandComesBack s raw c := by
  rintro ⟨depth, w, s', h, -⟩
  rw [write_command] at h
  cases h

end Write

/-- A command of three octets, to a stream that takes everything. A read of the octets that should
have been sent does return it. -/
theorem three_octet_command_stuck :
    ¬ CommandComesBack (PieceSink.mk 63 [] .eof : PieceSink Octet ErrorCode)
        (.replicate maxFramingOctets 0) ⟨⟨[0x61, 0x62, 0x63], by decide⟩⟩ ∧
      ∃ s', Transport.read .ndebug ⟨.replicate maxFramingOctets 0, fun _ => 0⟩
          (arrived (CommandT.mk ⟨[0x61, 0x62, 0x63], by decide⟩).frame.octets .eof)
          ⟨3, by decide, by decide⟩ =
        .ok (.value (.command ⟨⟨[0x61, 0x62, 0x63], by decide⟩⟩), s') ∧ content s' = [] := by
  constructor
  · rintro ⟨depth, w, s', h, -⟩
    rw [write_command] at h
    cases h
  · apply read_command
    · rw [content_arrived, List.append_nil]
    · decide

end Azmqn.Transport
