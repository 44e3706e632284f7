/-
# `Vertices.Base32` — `src/utils/base32.c`
-/
import Vertices.Types

namespace Vertices

/-! ## Encoding -/

/-- The characters of the digits. -/
def b32Alphabet : List UInt8 := lit "ABCDEFGHIJKLMNOPQRSTUVWXYZ234567"

/-- `if (bitsLeft < 5)`: the bytes left, the buffer and its bits, when a digit can be
taken. -/
def b32Fill (data : List UInt8) (buffer : Int32) (bitsLeft : Nat) : List UInt8 × Int32 × Nat :=
  if bitsLeft < 5 then
    match data with
    | next :: rest => (rest, buffer <<< 8 ||| next.toUInt32.toInt32, bitsLeft + 8)
    | [] => ([], buffer <<< Int32.ofNat (5 - bitsLeft), 5)
  else (data, buffer, bitsLeft)

/-- The loop of `b32_encode`, with room for `room` more characters. -/
def b32EncodeLoop (data : List UInt8) (buffer : Int32) (bitsLeft : Nat) : Nat → List UInt8
  | 0 => []
  | room + 1 =>
      if 0 < bitsLeft ∨ data ≠ [] then
        let (data, buffer, bitsLeft) := b32Fill data buffer bitsLeft
        let index := 0x1f &&& (buffer >>> Int32.ofNat (bitsLeft - 5))
        b32Alphabet.getD index.toNatClampNeg 0 :: b32EncodeLoop data buffer (bitsLeft - 5) room
      else []

/-- The padding behind `count` characters, with room for `room` more. -/
def b32Pad (count : Nat) : Nat → List UInt8
  | 0 => []
  | room + 1 => if count % 8 ≠ 0 then 0x3d :: b32Pad (count + 1) room else []

/-- `b32_encode`: its code and the characters written; `char` is signed. -/
def b32Encode (data : List UInt8) (outputSize : Nat) : RetCode × List UInt8 :=
  match data with
  | [] => (.success, [])
  | first :: rest =>
      if 2 ^ 28 < data.length then (.errorInvalidParam, [])
      else
        let encoded := b32EncodeLoop rest first.toInt8.toInt32 8 outputSize
        (.success, encoded ++ b32Pad encoded.length (outputSize - encoded.length))

/-- `*output_size` after `b32_encode`; data that is too long leaves it as it is. -/
def b32EncodeSize (data : List UInt8) (outputSize : Nat) : Nat :=
  match (b32Encode data outputSize).1 with
  | .success => (b32Encode data outputSize).2.length
  | _ => outputSize

/-- `BASE32_ENCODE_LEN`. -/
def base32EncodeLen (binLen : Nat) : Nat :=
  if ((binLen * 8 + 4) / 5) % 8 ≠ 0 then
    ((binLen * 8 + 4) / 5) + (8 - ((binLen * 8 + 4) / 5) % 8)
  else (binLen * 8 + 4) / 5

/-! ## Decoding -/

/-- The digit a character stands for, the commonly mistyped ones included. -/
def b32Digit (ch : UInt8) : Option UInt8 :=
  let ch : UInt8 := if ch = 0x30 then 0x4f else if ch = 0x31 then 0x4c
    else if ch = 0x38 then 0x42 else ch
  if (0x41 ≤ ch ∧ ch ≤ 0x5a) ∨ (0x61 ≤ ch ∧ ch ≤ 0x7a) then some ((ch &&& 0x1f) - 1)
  else if 0x32 ≤ ch ∧ ch ≤ 0x37 then some (ch - (0x32 - 26))
  else none

/-- Characters that are passed over: blank, tab, carriage return, newline, dash. -/
def b32Skipped (ch : UInt8) : Bool :=
  ch == 0x20 || ch == 0x09 || ch == 0x0d || ch == 0x0a || ch == 0x2d

/-- The loop of `b32_decode`, with room for `room` more bytes: the bytes it writes, and
whether it reached the end without meeting a foreign character. -/
def b32Loop : List UInt8 → Int32 → Nat → Nat → List UInt8 × Bool
  | [], _, _, _ => ([], true)
  | ch :: rest, buffer, bitsLeft, room =>
      if room = 0 ∨ ch = 0x3d then ([], true)
      else if b32Skipped ch then b32Loop rest buffer bitsLeft room
      else match b32Digit ch with
        | none => ([], false)
        | some digit =>
            let buffer := buffer <<< 5 ||| digit.toInt8.toInt32
            let bitsLeft := bitsLeft + 5
            if 8 ≤ bitsLeft then
              let byte := (buffer >>> Int32.ofNat (bitsLeft - 8)).toInt8.toUInt8
              let (out, ok) := b32Loop rest buffer (bitsLeft - 8) (room - 1)
              (byte :: out, ok)
            else b32Loop rest buffer bitsLeft room

/-- `b32_decode`: its code and the bytes written, without the `\0` it adds when there
is room for one. -/
def b32Decode (encoded : CStr) (outputSize : Nat) : RetCode × List UInt8 :=
  let (out, ok) := b32Loop encoded.bytes 0 0 outputSize
  (if ok then .success else .errorInvalidParam, out)

/-- `*output_size` after `b32_decode`; a foreign character leaves it as it is. -/
def b32DecodeSize (encoded : CStr) (outputSize : Nat) : Nat :=
  match (b32Decode encoded outputSize).1 with
  | .success => (b32Decode encoded outputSize).2.length
  | _ => outputSize

/-- All that `b32_decode` writes from `decoded_data` on, the `\0` included. -/
def b32DecodeWritten (encoded : CStr) (outputSize : Nat) : List UInt8 :=
  match b32Decode encoded outputSize with
  | (.success, out) => if out.length < outputSize then out ++ [0] else out
  | (_, out) => out

end Vertices
