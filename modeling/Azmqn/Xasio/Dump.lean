import Azmqn.Library.PrefixCode
import Azmqn.Xasio.Buffer

/-!
# Buffers as text

An octet is shown as two hexadecimal digits and a buffer as its octets between
braces, with a blank between any two of them. The text tells the octets: with the
blank counted as part of the octet behind it, it is a self-delimiting code.
-/

namespace Azmqn.Xasio

def hex : List Char := "0123456789abcdef".toList

/-- What `operator<<` puts out for an octet. -/
def octetText (that : Octet) : List Char :=
  [hex.getD (that.toNat / 16) ' ', hex.getD (that.toNat % 16) ' ']

/-- The loop of `dump_buffer`, with the separator for the next octet. -/
def dumpLoop : List Char → List Octet → List Char
  | _, [] => []
  | sep, o :: os => sep ++ octetText o ++ dumpLoop " ".toList os

def dumpBuffer (buf : List Octet) : List Char :=
  ['{', ' '] ++ dumpLoop "".toList buf ++ [' ', '}']

/-- The octet that two digits stand for. -/
def octetOfText (high low : Char) : Octet :=
  UInt8.ofNat (16 * hex.idxOf high + hex.idxOf low)

theorem octetOfText_octetText (o : Octet) :
    octetOfText (hex.getD (o.toNat / 16) ' ') (hex.getD (o.toNat % 16) ' ') = o := by
  cases o with
  | ofBitVec o =>
    cases o with
    | ofFin o =>
      revert o
      decide +kernel

/-- A blank and two digits. -/
def dumpCode : PrefixCode Octet Char where
  encode o := ' ' :: octetText o
  parse
    | _ :: high :: low :: rest => some (octetOfText high low, rest)
    | _ => none
  encode_ne_nil _ := List.cons_ne_nil _ _
  parse_encode o rest := by
    change some (octetOfText _ _, rest) = some (o, rest)
    rw [octetOfText_octetText]

theorem dumpLoop_blank (os : List Octet) : dumpLoop " ".toList os = dumpCode.encodeAll os := by
  induction os with
  | nil => rfl
  | cons o os ih =>
    rw [dumpLoop, ih]
    rfl

/-- With one more blank in front the text is the code. -/
theorem dumpLoop_cons (o : Octet) (os : List Octet) :
    ' ' :: dumpLoop "".toList (o :: os) = dumpCode.encodeAll (o :: os) := by
  rw [dumpLoop, dumpLoop_blank]
  rfl

theorem length_encodeAll_dumpCode (os : List Octet) :
    (dumpCode.encodeAll os).length = 3 * os.length := by
  induction os with
  | nil => rfl
  | cons o os ih =>
    rw [PrefixCode.encodeAll_cons, List.length_append, ih, List.length_cons]
    change 3 + _ = _
    omega

theorem length_dumpLoop (os : List Octet) : (dumpLoop "".toList os).length = 3 * os.length - 1 := by
  cases os with
  | nil => rfl
  | cons o os =>
    have h := congrArg List.length (dumpLoop_cons o os)
    rw [List.length_cons, length_encodeAll_dumpCode] at h
    omega

theorem dumpLoop_injective : Function.Injective (dumpLoop "".toList) := by
  intro os os' h
  have hlen := congrArg List.length h
  rw [length_dumpLoop, length_dumpLoop] at hlen
  cases os with
  | nil =>
    cases os' with
    | nil => rfl
    | cons o' os' =>
      simp only [List.length_nil, List.length_cons] at hlen
      omega
  | cons o os =>
    cases os' with
    | nil =>
      simp only [List.length_nil, List.length_cons] at hlen
      omega
    | cons o' os' =>
      have hcode := congrArg (' ' :: ·) h
      rw [dumpLoop_cons, dumpLoop_cons] at hcode
      have hnil : dumpCode.parse [] = none := rfl
      have hrest := congrArg (· ++ ([] : List Char)) hcode
      exact (dumpCode.encodeAll_append_injective hnil hnil hrest).1

/-- Two buffers look the same only if they are; the text of a buffer is three characters for
each octet, three around them, and a fourth if there is none. -/
theorem dump_faithful :
    Function.Injective dumpBuffer ∧
      ∀ buf, (dumpBuffer buf).length = if buf = [] then 4 else 3 * buf.length + 3 := by
  constructor
  · intro os os' h
    unfold dumpBuffer at h
    rw [List.append_left_inj, List.append_right_inj] at h
    exact dumpLoop_injective h
  · intro buf
    have hlen : (dumpBuffer buf).length = 2 + (3 * buf.length - 1) + 2 := by
      rw [dumpBuffer, List.length_append, List.length_append, length_dumpLoop]
      rfl
    rw [hlen]
    split_ifs with hnil
    · rw [hnil]
      rfl
    · have hpos := List.length_pos_of_ne_nil hnil
      omega

end Azmqn.Xasio
