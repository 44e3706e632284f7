/-
# `Vertices.Mnemonic` — `src/mnemonic.c` and `src/utils/sha512_256.c`

A seed of 32 bytes becomes 24 words of the list and a checksum word; a mnemonic is cut
into words again, which are looked up and unpacked.  The hash is `mbedtls`, outside the
repository, so it is a parameter.  `exit(EXIT_FAILURE)` and a failed `assert` are
`Fault.exit`.
-/
import Vertices.Base2048
import Vertices.English

namespace Vertices

/-! ## SHA-512/256 -/

/-- What `mbedtls_sha512_update_ret` and `mbedtls_sha512_finish_ret` make of an input,
from a context whose state was set by hand: the digest, or an error. -/
structure MbedtlsSha512 where
  finish : Vector UInt64 8 → List UInt8 → Option (Vector UInt8 64)

/-- The initial state that `sha512_256` sets. -/
def sha512_256State : Vector UInt64 8 := #v[
  0x22312194FC2BF72C, 0x9F555FA3C84C64C2, 0x2393B86B6F53B151, 0x963877195940EABD,
  0x96283EE2A88EFFE3, 0xBE5E1E2553863992, 0x2B0199FC2C85B8AA, 0x0EB72DDC81C52CA2]

/-- `sha512_256`: the code it returns and, when that is a success, what it writes to
`output`. -/
def sha512_256 (H : MbedtlsSha512) (input : List UInt8) (olen : Nat) :
    Except Fault (RetCode × List UInt8) :=
  if input.length = 0 then pure (.errorInvalidParam, [])
  -- the input is copied to an array of 128 bytes
  else if 128 < input.length then throw .outOfBounds
  else
    match H.finish sha512_256State input with
    | none => pure (.errorInternal, [])
    | some digest =>
        if olen < 128 then
          pure (.success, (digest.toList ++ List.replicate 64 0).take olen)
        else pure (.success, digest.toList)

/-! ## Words -/

/-- `strcat`. -/
def CStr.strcat (s t : CStr) : CStr where
  bytes := s.bytes ++ t.bytes
  noNul h := (List.mem_append.mp h).elim s.noNul t.noNul

@[simp] theorem bytes_strcat (s t : CStr) : (s.strcat t).bytes = s.bytes ++ t.bytes := rfl

/-- The string `" "`. -/
def space : CStr := ⟨[0x20], by decide⟩

/-- `make_word_vector`: what `strtok` finds between line feeds. -/
def makeWordVector (s : CStr) : List CStr :=
  ((s.bytes.splitOn 0x0a).filter (· ≠ [])).map cString

/-- `make_word_map`; `keys` and `values` have room for 2048 entries. -/
def makeWordMap (s : CStr) : Except Fault (List (CStr × Nat)) :=
  if (makeWordVector s).length ≤ 2048 then pure (makeWordVector s).zipIdx
  else throw .outOfBounds

/-- `word_vec` and `word_map`. -/
structure Words where
  wordVec : List CStr
  wordMap : List (CStr × Nat)

/-- `initialize_mnemonic`. -/
def initializeMnemonic : Except Fault Words := do
  let wordMap ← makeWordMap english
  pure { wordVec := makeWordVector english, wordMap }

/-- `vec->words[i]`. -/
def wordAt (vec : List CStr) (i : Nat) : Except Fault CStr :=
  match vec[i]? with
  | some w => pure w
  | none => throw .outOfBounds

/-- `lookup_word_map`. -/
def lookupWordMap : List (CStr × Nat) → CStr → Except Fault Nat
  | [], _ => throw .exit
  | (k, v) :: rest, key => if k = key then pure v else lookupWordMap rest key

/-! ## From a seed -/

/-- `checksum`. -/
def checksum (H : MbedtlsSha512) (b : List UInt8) : Except Fault UInt16 := do
  let (errCode, result) ← sha512_256 H b 32
  if errCode ≠ .success then throw .exit
  else
    match b2048Encode (result.take 2) with
    | check :: _ => pure check
    | [] => throw .outOfBounds

/-- The loop of `mnemonic_from_seed`: each word and a space. -/
def joinWords (vec : List CStr) : CStr → List UInt16 → Except Fault CStr
  | mnemonic, [] => pure mnemonic
  | mnemonic, i :: rest => do
      let word ← wordAt vec i.toNat
      joinWords vec ((mnemonic.strcat word).strcat space) rest

/-- `mnemonic_from_seed`. -/
def mnemonicFromSeed (H : MbedtlsSha512) (words : Words) (seed : List UInt8) :
    Except Fault (RetCode × CStr) := do
  let mnemonic ← joinWords words.wordVec ⟨[], by decide⟩ (b2048Encode seed)
  let check ← checksum H seed
  let checkword ← wordAt words.wordVec check.toNat
  pure (.success, mnemonic.strcat checkword)

/-! ## From a mnemonic -/

/-- `seed->data[seed->size++] = b`, in a block of 32 bytes. -/
def pushSeed (data : List UInt8) (b : UInt8) : Except Fault (List UInt8) :=
  if data.length < 32 then pure (data ++ [b]) else throw .outOfBounds

/-- What `seed_from_mnemonic` unpacks into. -/
structure Unpacked where
  data : List UInt8
  val : UInt32
  bits : Nat

/-- `while (bits >= 8)`. -/
def drainBits (data : List UInt8) (val : UInt32) (bits : Nat) : Except Fault Unpacked :=
  if 8 ≤ bits then do
    let data ← pushSeed data (val &&& 0xFF).toUInt8
    drainBits data (val >>> 8) (bits - 8)
  else pure { data, val, bits }
termination_by bits

/-- The loop of `seed_from_mnemonic`. -/
def unpackWords (map : List (CStr × Nat)) (u : Unpacked) : List CStr → Except Fault Unpacked
  | [] => pure u
  | w :: rest => do
      let value ← lookupWordMap map w
      let u ← drainBits u.data (u.val ||| (UInt32.ofNat value <<< UInt32.ofNat u.bits)) (u.bits + 11)
      unpackWords map u rest

/-- `if (bits > 0)`, after the loop. -/
def flushBits (u : Unpacked) : Except Fault (List UInt8) :=
  if 0 < u.bits then pushSeed u.data (u.val &&& 0xFF).toUInt8 else pure u.data

/-- `seed_from_mnemonic`: the code it returns and the seed it leaves, if it sets one. -/
def seedFromMnemonic (H : MbedtlsSha512) (words : Words) (mnemonic : CStr) :
    Except Fault (RetCode × Option (List UInt8)) := do
  let vec := makeWordVector mnemonic
  match vec.getLast? with
  | none => throw .outOfBounds
  | some checkword =>
      if vec.dropLast.length ≠ 24 then pure (.errorInternal, none)
      else do
        let checkval ← lookupWordMap words.wordMap checkword
        let u ← unpackWords words.wordMap { data := [], val := 0, bits := 0 } vec.dropLast
        let data ← flushBits u
        if data.getLast? ≠ some 0 then throw .exit
        else do
          let check ← checksum H data.dropLast
          if check.toNat ≠ checkval then throw .exit
          else pure (.success, some data.dropLast)

end Vertices
