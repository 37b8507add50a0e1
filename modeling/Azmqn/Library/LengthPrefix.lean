import Azmqn.Library.BigEndian
import Azmqn.Library.PrefixCode

/-!
# Length-prefixed fields

A field is a string whose length fits a given number of bytes. It is encoded as
that length in big-endian order, followed by the string itself. The encodings
form an exact code: what does not parse is cut off, inside the length or behind it.
-/

/-- A string of bytes whose length fits `w` bytes. -/
structure LengthPrefixed (w : ℕ) where
  octets : List UInt8
  length_lt : octets.length < 256 ^ w
  deriving DecidableEq, Repr

namespace LengthPrefixed

variable {w : ℕ}

def encode (field : LengthPrefixed w) : List UInt8 :=
  BigEndian.encode w field.octets.length ++ field.octets

/-- Split a field off the front of a string. -/
def parse (w : ℕ) (xs : List UInt8) : Option (LengthPrefixed w × List UInt8) :=
  if h : w ≤ xs.length ∧ BigEndian.decode (xs.take w) ≤ (xs.drop w).length then
    some (⟨(xs.drop w).take (BigEndian.decode (xs.take w)), by
        have hlt := BigEndian.decode_lt (xs.take w)
        rwa [List.length_take, Nat.min_eq_left h.1, ← Nat.min_eq_left h.2,
          ← List.length_take] at hlt⟩,
      (xs.drop w).drop (BigEndian.decode (xs.take w)))
  else none

theorem length_encode (field : LengthPrefixed w) :
    field.encode.length = w + field.octets.length := by
  simp [encode]

theorem decode_length (field : LengthPrefixed w) :
    BigEndian.decode (BigEndian.encode w field.octets.length) = field.octets.length :=
  BigEndian.decode_encode_of_lt field.length_lt

theorem parse_encode (field : LengthPrefixed w) (rest : List UInt8) :
    parse w (field.encode ++ rest) = some (field, rest) := by
  have htake : (field.encode ++ rest).take w = BigEndian.encode w field.octets.length := by
    rw [encode, List.append_assoc, List.take_left' (BigEndian.length_encode w _)]
  have hdrop : (field.encode ++ rest).drop w = field.octets ++ rest := by
    rw [encode, List.append_assoc, List.drop_left' (BigEndian.length_encode w _)]
  simp only [parse, htake, hdrop, decode_length]
  simp [length_encode, Nat.add_assoc]

theorem eq_of_parse {xs rest : List UInt8} {field : LengthPrefixed w}
    (h : parse w xs = some (field, rest)) : xs = field.encode ++ rest := by
  unfold parse at h
  split_ifs at h with hle
  simp only [Option.some.injEq, Prod.mk.injEq] at h
  rcases h with ⟨rfl, rfl⟩
  have hw : (xs.take w).length = w := by
    rw [List.length_take, Nat.min_eq_left hle.1]
  have hlen := BigEndian.encode_decode (xs.take w)
  rw [hw] at hlen
  rw [encode, List.length_take, Nat.min_eq_left hle.2, hlen, List.append_assoc,
    List.take_append_drop, List.take_append_drop]

/-- The exact code of fields whose lengths take at least one byte. -/
def code (w : ℕ) (hw : 0 < w) : ExactCode (LengthPrefixed w) UInt8 where
  encode := encode
  parse := parse w
  encode_ne_nil field := by
    intro h
    have hlen := field.length_encode
    rw [h, List.length_nil] at hlen
    omega
  parse_encode := parse_encode
  encode_parse := eq_of_parse

/-- Nothing parses exactly when the string ends inside the length or the announced bytes. -/
theorem parse_eq_none_iff {xs : List UInt8} :
    parse w xs = none ↔ xs.length < w ∨
      ∃ len tail, xs = len ++ tail ∧ len.length = w ∧ tail.length < BigEndian.decode len := by
  unfold parse
  rw [dite_eq_right_iff]
  constructor
  · intro h
    by_cases hw : w ≤ xs.length
    · right
      refine ⟨xs.take w, xs.drop w, (List.take_append_drop w xs).symm, ?_, ?_⟩
      · rw [List.length_take, Nat.min_eq_left hw]
      · by_contra hn
        exact absurd (h ⟨hw, Nat.not_lt.mp hn⟩) (Option.some_ne_none _)
    · exact Or.inl (Nat.not_le.mp hw)
  · rintro (h | ⟨len, tail, rfl, rfl, h⟩) hle
    · omega
    · rw [List.take_left, List.drop_left] at hle
      omega

end LengthPrefixed
