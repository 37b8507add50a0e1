import Mathlib.Tactic

/-!
# Fixed-width big-endian encodings

A natural number becomes exactly `w` bytes, most significant first, and a list
of bytes becomes a natural number. Encoding is reduction modulo `256 ^ w`, so
the two maps are inverse on values that fit and on lists of length `w`.
-/

namespace BigEndian

/-- The `w` big-endian bytes of `n`; digits above `256 ^ w` are dropped. -/
def encode : ℕ → ℕ → List UInt8
  | 0, _ => []
  | w + 1, n => UInt8.ofNat (n / 256 ^ w % 256) :: encode w n

/-- The number whose big-endian bytes are given. -/
def decode : List UInt8 → ℕ
  | [] => 0
  | b :: bs => b.toNat * 256 ^ bs.length + decode bs

@[simp] theorem length_encode (w n : ℕ) : (encode w n).length = w := by
  induction w with
  | zero => rfl
  | succ w ih => simp [encode, ih]

theorem toNat_digit (n : ℕ) : (UInt8.ofNat (n % 256)).toNat = n % 256 := by
  rw [UInt8.toNat_ofNat']
  exact Nat.mod_eq_of_lt (Nat.mod_lt n (by decide))

theorem decode_encode (w n : ℕ) : decode (encode w n) = n % 256 ^ w := by
  induction w with
  | zero => simp [encode, decode, Nat.mod_one]
  | succ w ih =>
    rw [encode, decode, length_encode, toNat_digit, ih, Nat.mod_pow_succ]
    ring

theorem decode_encode_of_lt {w n : ℕ} (h : n < 256 ^ w) : decode (encode w n) = n := by
  rw [decode_encode, Nat.mod_eq_of_lt h]

theorem decode_lt (bs : List UInt8) : decode bs < 256 ^ bs.length := by
  induction bs with
  | nil => simp [decode]
  | cons b bs ih =>
    have hb : b.toNat + 1 ≤ 256 := b.toNat_lt
    have hm := Nat.mul_le_mul_right (256 ^ bs.length) hb
    rw [Nat.add_mul, Nat.one_mul] at hm
    rw [decode, List.length_cons, pow_succ, Nat.mul_comm (256 ^ bs.length)]
    omega

/-- Digits above the encoded width do not matter. -/
theorem encode_add_mul (w n m : ℕ) : encode w (m * 256 ^ w + n) = encode w n := by
  induction w generalizing m with
  | zero => rfl
  | succ w ih =>
    have hs : m * 256 ^ (w + 1) + n = n + 256 ^ w * (m * 256) := by rw [pow_succ]; ring
    have ht : m * 256 ^ (w + 1) + n = m * 256 * 256 ^ w + n := by rw [pow_succ]; ring
    have hd : (m * 256 ^ (w + 1) + n) / 256 ^ w % 256 = n / 256 ^ w % 256 := by
      rw [hs, Nat.add_mul_div_left _ _ (by positivity), Nat.add_mul_mod_self_right]
    rw [encode, encode, hd, ht, ih]

theorem encode_decode (bs : List UInt8) : encode bs.length (decode bs) = bs := by
  induction bs with
  | nil => rfl
  | cons b bs ih =>
    have hd : (b.toNat * 256 ^ bs.length + decode bs) / 256 ^ bs.length = b.toNat := by
      rw [Nat.add_comm, Nat.add_mul_div_right _ _ (by positivity),
        Nat.div_eq_of_lt (decode_lt bs), Nat.zero_add]
    rw [List.length_cons, encode, decode, hd, encode_add_mul, ih,
      Nat.mod_eq_of_lt b.toNat_lt, UInt8.ofNat_toNat]

/-- A value that fits fewer bytes has a leading zero. -/
theorem encode_succ_of_lt {w n : ℕ} (h : n < 256 ^ w) : encode (w + 1) n = 0 :: encode w n := by
  rw [encode, Nat.div_eq_of_lt h]
  rfl

/-- A wider encoding of a value has zeros in front. -/
theorem encode_add_of_lt (k : ℕ) {w n : ℕ} (h : n < 256 ^ w) :
    encode (k + w) n = List.replicate k 0 ++ encode w n := by
  induction k with
  | zero => rw [Nat.zero_add, List.replicate_zero, List.nil_append]
  | succ k ih =>
    have hle : 256 ^ w ≤ 256 ^ (k + w) := Nat.pow_le_pow_right (by decide) (Nat.le_add_left w k)
    rw [Nat.add_right_comm, encode_succ_of_lt (lt_of_lt_of_le h hle), ih, List.replicate_succ,
      List.cons_append]

end BigEndian
