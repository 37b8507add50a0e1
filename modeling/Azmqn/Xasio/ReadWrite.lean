import Azmqn.Library.Stream
import Azmqn.Utility.Expected
import Azmqn.Xasio.Buffer

/-!
# `xasio::read` and `xasio::write`

The composed Boost.Asio operations with their error code turned into an
`expected`. A read returns the octets it placed at the front of its buffer next
to its result, also when it fails part of the way.
-/

namespace Azmqn.Xasio

open Streams

abbrev ReadResult := Expected ℕ ErrorCode
abbrev WriteResult := Expected ℕ ErrorCode

variable {σ τ : Type}

def read [ReadStream σ Octet ErrorCode] (s : σ) (buffers : MutableBuffer) :
    (ReadResult × List Octet) × σ :=
  let res := Streams.read s buffers.size
  match res.1.2 with
  | some ec => ((.error ec, res.1.1), res.2)
  | none => ((.value res.1.1.length, res.1.1), res.2)

def write [WriteStream τ Octet ErrorCode] (s : τ) (octets : List Octet) : WriteResult × τ :=
  let res := Streams.write s octets
  match res.1.2 with
  | some ec => (.error ec, res.2)
  | none => (.value res.1.1, res.2)

section Read

variable [ReadStream σ Octet ErrorCode] (s : σ) {buffers : MutableBuffer}

open ReadStream

theorem read_enough (h : buffers.size ≤ (content s).length) :
    (read s buffers).1 = (.value buffers.size, (content s).take buffers.size) ∧
      content (read s buffers).2 = (content s).drop buffers.size ∧
      failure (read s buffers).2 = failure s := by
  obtain ⟨h1, h2, h3⟩ := Streams.read_enough s h
  simp [read, h1, h2, h3, h]

theorem read_short (h : (content s).length < buffers.size) :
    (read s buffers).1 = (.error (failure s), content s) ∧ content (read s buffers).2 = [] := by
  obtain ⟨h1, h2⟩ := Streams.read_short s h
  simp [read, h1, h2]

/-- A buffer as long as the front of the stream is filled with it. -/
theorem read_append {xs rest : List Octet} (hc : content s = xs ++ rest)
    (hb : buffers.size = xs.length) :
    (read s buffers).1 = (.value xs.length, xs) ∧ content (read s buffers).2 = rest ∧
      failure (read s buffers).2 = failure s := by
  obtain ⟨h1, h2, h3⟩ := Streams.read_append s hc
  simp [read, hb, h1, h2, h3]

end Read

theorem write_enough [WriteStream τ Octet ErrorCode] (s : τ) {octets : List Octet}
    (h : (octets.length : ℕ∞) ≤ WriteStream.room s) :
    (write s octets).1 = .value octets.length ∧
      WriteStream.sent (write s octets).2 = WriteStream.sent s ++ octets ∧
      WriteStream.room s = octets.length + WriteStream.room (write s octets).2 := by
  obtain ⟨h1, h2, h3⟩ := Streams.write_enough s h
  refine ⟨by simp [write, h1], ?_, ?_⟩
  · simpa [write, h1] using h2
  · simpa [write, h1] using h3

theorem write_short [WriteStream τ Octet ErrorCode] (s : τ) {octets : List Octet}
    (h : WriteStream.room s < octets.length) :
    ∃ ec n, (write s octets).1 = .error ec ∧ WriteStream.room s = (n : ℕ) ∧
      WriteStream.sent (write s octets).2 = WriteStream.sent s ++ octets.take n := by
  obtain ⟨n, ec, h1, h2, h3⟩ := Streams.write_short s h
  refine ⟨ec, n, by simp [write, h1], h2, ?_⟩
  simpa [write, h1] using h3

end Azmqn.Xasio
