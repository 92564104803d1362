/-
Messages behind a four-byte big-endian length.

The encoder writes the length most significant byte first.  The decoder of this
file is the one C programs get when the four bytes are summed as `char`: where
`char` is signed a byte of 128 or more counts as negative.  The two agree
exactly on the lengths whose three low bytes are below 128.
-/

import Mathlib.Data.List.Basic

namespace Library

/-- The four bytes of a 32-bit length, most significant first. -/
def bigEndian (length : Nat) : List UInt8 :=
  [UInt8.ofNat (length / 16777216), UInt8.ofNat (length / 65536),
    UInt8.ofNat (length / 256), UInt8.ofNat length]

/-- A message as it goes over the wire. -/
def frame (payload : List UInt8) : List UInt8 :=
  bigEndian payload.length ++ payload

@[simp] theorem bigEndian_length (length : Nat) : (bigEndian length).length = 4 :=
  rfl

@[simp] theorem frame_length (payload : List UInt8) :
    (frame payload).length = payload.length + 4 := by
  simp only [frame, List.length_append, bigEndian_length]
  omega

theorem frame_drop (payload : List UInt8) : (frame payload).drop 4 = payload := by
  simp [frame, bigEndian]

theorem frame_ne_nil (payload : List UInt8) : frame payload ≠ [] := by
  simp [frame, bigEndian]

/-- The messages of one sender, one behind the other. -/
def stream (payloads : List (List UInt8)) : List UInt8 :=
  (payloads.map frame).flatten

@[simp] theorem stream_nil : stream [] = [] :=
  rfl

@[simp] theorem stream_cons (payload : List UInt8) (rest : List (List UInt8)) :
    stream (payload :: rest) = frame payload ++ stream rest :=
  rfl

/-- Every message leaves room for its own prefix and those of the others. -/
theorem length_add_prefixes_le_stream {payloads : List (List UInt8)} {payload : List UInt8}
    (sent : payload ∈ payloads) :
    payload.length + 4 * payloads.length ≤ (stream payloads).length := by
  induction payloads with
  | nil => cases sent
  | cons first rest ih =>
      rw [stream_cons, List.length_append, frame_length, List.length_cons]
      rcases List.mem_cons.mp sent with rfl | later
      · have prefixes : 4 * rest.length ≤ (stream rest).length := by
          clear ih sent
          induction rest with
          | nil => exact Nat.le_refl 0
          | cons second rest ih =>
              rw [stream_cons, List.length_append, frame_length, List.length_cons]
              omega
        omega
      · have room := ih later
        omega

/-- A way a stream of messages is cut into the nonempty pieces it is received
in. -/
structure Segmented (payloads : List (List UInt8)) where
  chunks : List (List UInt8)
  received : ∀ chunk ∈ chunks, chunk ≠ []
  whole : chunks.flatten = stream payloads

/-- The value of a byte as `signed char`. -/
def signedChar (byte : UInt8) : Int :=
  if byte.toNat < 128 then byte.toNat else (byte.toNat : Int) - 256

/-- `b3 + (b2 << 8) + (b1 << 16) + (b0 << 24)` over `signed char`, stored in an
`unsigned int`. -/
def signedDecode (b0 b1 b2 b3 : UInt8) : Nat :=
  ((signedChar b3 + signedChar b2 * 256 + signedChar b1 * 65536 +
    signedChar b0 * 16777216) % 4294967296).toNat

/-- The length a decoder reads off the first four bytes of a buffer. -/
def decodedLength (bytes : List UInt8) : Nat :=
  signedDecode (bytes.getD 0 0) (bytes.getD 1 0) (bytes.getD 2 0) (bytes.getD 3 0)

theorem ofNat_toNat_mod (n : Nat) : (UInt8.ofNat n).toNat = n % 256 := by
  simp

/-- Sign extension spares a length exactly when its three low bytes are below
128; the sign of the top byte is lost again modulo `2 ^ 32`. -/
theorem signedDecode_bigEndian_iff (length : Nat) (small : length < 4294967296) :
    signedDecode (UInt8.ofNat (length / 16777216)) (UInt8.ofNat (length / 65536))
        (UInt8.ofNat (length / 256)) (UInt8.ofNat length) = length ↔
      length % 256 < 128 ∧ length / 256 % 256 < 128 ∧
        length / 65536 % 256 < 128 := by
  unfold signedDecode signedChar
  simp only [ofNat_toNat_mod]
  split <;> split <;> split <;> split <;> omega

theorem decodedLength_bigEndian_iff (length : Nat) (rest : List UInt8)
    (small : length < 4294967296) :
    decodedLength (bigEndian length ++ rest) = length ↔
      length % 256 < 128 ∧ length / 256 % 256 < 128 ∧
        length / 65536 % 256 < 128 :=
  signedDecode_bigEndian_iff length small

theorem signedDecode_low_byte (low : UInt8) :
    signedDecode 0 0 0 low =
      if low.toNat < 128 then low.toNat else 4294967040 + low.toNat := by
  have bound := low.toNat_lt
  unfold signedDecode signedChar
  simp only [UInt8.toNat_zero]
  split <;> omega

end Library
