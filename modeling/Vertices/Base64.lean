/-
# `Vertices.Base64` — `src/utils/base64.c`

`b64_decode` looks for the end of its input by itself, stopping at the first
character outside the alphabet; the `\0` that ends the string is one.  `b64Decode` is the
function on such a string, `b64DecodeFrom` on the memory that `input_data` points to.
-/
import Vertices.Types

namespace Vertices

/-- The value of each character; 64 for those outside the alphabet. -/
def pr2sixTable : Array UInt8 := #[
  64, 64, 64, 64, 64, 64, 64, 64, 64, 64, 64, 64, 64, 64, 64, 64,
  64, 64, 64, 64, 64, 64, 64, 64, 64, 64, 64, 64, 64, 64, 64, 64,
  64, 64, 64, 64, 64, 64, 64, 64, 64, 64, 64, 62, 64, 64, 64, 63,
  52, 53, 54, 55, 56, 57, 58, 59, 60, 61, 64, 64, 64, 64, 64, 64,
  64, 0, 1, 2, 3, 4, 5, 6, 7, 8, 9, 10, 11, 12, 13, 14,
  15, 16, 17, 18, 19, 20, 21, 22, 23, 24, 25, 64, 64, 64, 64, 64,
  64, 26, 27, 28, 29, 30, 31, 32, 33, 34, 35, 36, 37, 38, 39, 40,
  41, 42, 43, 44, 45, 46, 47, 48, 49, 50, 51, 64, 64, 64, 64, 64]

/-- `pr2six[c]`; the upper half of the table is all 64. -/
def pr2six (c : UInt8) : UInt8 := pr2sixTable.getD c.toNat 64

/-- The bytes of `nprbytes` six-bit digits: three for each four while more than four
are left, then one for each digit but the first. -/
def b64Bytes : List UInt8 → List UInt8
  | a :: b :: c :: d :: rest =>
      (a <<< 2 ||| b >>> 4) :: (b <<< 4 ||| c >>> 2) :: (c <<< 6 ||| d) :: b64Bytes rest
  | [a, b, c] => [a <<< 2 ||| b >>> 4, b <<< 4 ||| c >>> 2]
  | [a, b] => [a <<< 2 ||| b >>> 4]
  | _ => []

/-- `b64_decode`: the code it returns, the bytes it writes from `decoded_data` on, and
`*output_size` on return. -/
def b64Decode (input : CStr) (inputLength : Nat) (outputSize : Nat) :
    RetCode × List UInt8 × Nat :=
  if inputLength = 0 then (.success, [], 0)
  -- `size_t`: an input of less than four characters asks for `SIZE_MAX` bytes
  else if outputSize < (inputLength / 4 * 3 + (2 ^ 64 - 1)) % 2 ^ 64 then
    (.errorNoMem, [], outputSize)
  else
    let out := b64Bytes ((input.bytes.takeWhile fun c => pr2six c ≤ 63).map pr2six)
    (.success, out, out.length)

/-! ## Decoding what is in memory -/

/-- What a call of `b64_decode` did: its code, the bytes written from `decoded_data` on,
`*output_size` on return, and how many characters of `input_data` were looked at. -/
structure B64Decoded where
  code : RetCode
  out : List UInt8
  outputSize : Nat
  read : Nat
  deriving DecidableEq, Repr

/-- `while (pr2six[*(bufin++)] <= 63);`: the characters passed over, of the memory from
`bufin` on. -/
def b64Scan : List UInt8 → Except Fault Nat
  | [] => throw .outOfBounds
  | ch :: rest =>
      if pr2six ch ≤ 63 then do
        let nprbytes ← b64Scan rest
        return nprbytes + 1
      else return 0

/-- `b64_decode` on the memory from `input_data` on.  The loops behind the scan look at the
characters that it passed over, and at no other. -/
def b64DecodeFrom (memory : List UInt8) (inputLength outputSize : Nat) : Except Fault B64Decoded :=
  if inputLength = 0 then return ⟨.success, [], 0, 0⟩
  else if outputSize < (inputLength / 4 * 3 + (2 ^ 64 - 1)) % 2 ^ 64 then
    return ⟨.errorNoMem, [], outputSize, 0⟩
  else do
    let nprbytes ← b64Scan memory
    let out := b64Bytes ((memory.take nprbytes).map pr2six)
    return ⟨.success, out, out.length, nprbytes + 1⟩

/-- `BASE64_DECODE_MIN_LEN`. -/
def base64DecodeMinLen (binLen : Nat) : Nat := if 3 < binLen then binLen / 4 * 3 else 0

/-! ## Encoding -/

/-- `base64_table`. -/
def base64Table : List UInt8 :=
  lit "ABCDEFGHIJKLMNOPQRSTUVWXYZabcdefghijklmnopqrstuvwxyz0123456789+/"

/-- `prv_get_char_from_word`. -/
def prvGetCharFromWord (word : UInt32) (offset : Nat) : UInt8 :=
  base64Table.getD ((word >>> UInt32.ofNat (offset * 6)) &&& 0x3f).toNat 0

def b64Triple (byte0 byte1 byte2 : UInt8) : UInt32 :=
  (byte0.toUInt32 <<< 16) + (byte1.toUInt32 <<< 8) + byte2.toUInt32

/-- The loop of `b64_encode`; bytes behind the input count as 0. -/
def b64EncodeLoop : List UInt8 → List UInt8
  | byte0 :: byte1 :: byte2 :: rest =>
      let triple := b64Triple byte0 byte1 byte2
      prvGetCharFromWord triple 3 :: prvGetCharFromWord triple 2 :: prvGetCharFromWord triple 1 ::
        prvGetCharFromWord triple 0 :: b64EncodeLoop rest
  | [byte0, byte1] =>
      let triple := b64Triple byte0 byte1 0
      [prvGetCharFromWord triple 3, prvGetCharFromWord triple 2, prvGetCharFromWord triple 1, 0x3d]
  | [byte0] =>
      let triple := b64Triple byte0 0 0
      [prvGetCharFromWord triple 3, prvGetCharFromWord triple 2, 0x3d, 0x3d]
  | [] => []

/-- `BASE64_ENCODE_LEN`. -/
def base64EncodeLen (binLen : Nat) : Nat := 4 * ((binLen + 2) / 3)

/-- `b64_encode`: its code, the characters written, and `*output_size` on return, which is
counted in an `int`. -/
def b64Encode (input : List UInt8) (outputSize : Nat) : RetCode × List UInt8 × Nat :=
  if outputSize < base64EncodeLen input.length then (.errorNoMem, [], outputSize)
  else
    let encoded := b64EncodeLoop input
    (.success, encoded, (Int32.ofNat encoded.length).toInt64.toUInt64.toNat)

end Vertices
