/-
# `Vertices.Encode` — `encode_tx`, as the sequence of its writer calls

Each of the functions below is a stretch of `encode_tx`, in the order of the source;
an element is one `mpack_*` call.  `encodeTx` performs them on the payload of a slot.

The arguments of an application call are read through a pointer that the source
dereferences when it counts the fields, before it asks whether it is null.
-/
import Vertices.Mpack

namespace Vertices

open MsgPack

/-- The `htobe64` of the source: a cast. -/
def htobe64 (x : UInt64) : UInt64 := x

/-- `algorand_tx_types[tx->details->tx_type]`. -/
def algorandTxType : TxBody → String
  | .pay _ => "pay"
  | .keyreg => "keyreg"
  | .acfg => "acfg"
  | .axfer => "axfer"
  | .afrz => "afrz"
  | .appl _ => "appl"

/-- Up to `payload_header_length`: the root map, the empty signature, the key `txn`. -/
def headerOps : List WriteOp :=
  [.startMap 2, .writeStr (lit "sig"), .writeBin (List.replicate signatureLength 0),
    .writeStr (lit "txn")]

/-- One field whose value takes one call. -/
def fieldOps (key : String) (value : WriteOp) : List WriteOp := [.writeStr (lit key), value]

/-- What the note adds to the number of fields. -/
def noteCount (note : Option CStr) : Nat := if note.isSome then 1 else 0

/-- `txn_map_element_count`. -/
def txnMapElementCount (details : TransactionDetails) : Except Fault Nat :=
  match details.tx with
  | .pay _ => return 7 + 2 + noteCount details.note
  | .appl tx =>
      match tx.keyValues with
      | none => throw .nullDeref
      | some keyValues =>
          return 7 + 1 + (if tx.onComplete.toNat ≠ 0 then 1 else 0)
            + (if keyValues.count ≠ 0 then 1 else 0) + noteCount details.note
  | .keyreg | .acfg | .axfer | .afrz => return 7 + noteCount details.note

/-- The argument `kv`, where `first` is `key_values->values[0]`. -/
def argOps (first kv : AppKeyValue) : List WriteOp :=
  match kv.type with
  | .integer => [.writeBin (uint64Bytes (htobe64 kv.valueUint)).toList]
  -- `key_values->values->value_slice`, whatever the index
  | .byteslice => [.writeBin first.valueSlice.toList]
  | .none | .other _ _ => []

/-- The loop over the arguments, from `i` on, `n` to go. -/
def argsOps (keyValues : AppValues) (i : Nat) : Nat → Except Fault (List WriteOp)
  | 0 => return []
  | n + 1 => do
      let k ← subscript appsKvMaxCount i
      let rest ← argsOps keyValues (i + 1) n
      return argOps keyValues.values[0] (keyValues.values.get k) ++ rest

/-- The optional application arguments. -/
def apaaOps (tx : ApplTx) : Except Fault (List WriteOp) :=
  match tx.keyValues with
  | none => return []
  | some keyValues =>
      if keyValues.count ≠ 0 then do
        let args ← argsOps keyValues 0 keyValues.count
        return [.writeStr (lit "apaa"), .startArray keyValues.count] ++ args ++ [.finishArray]
      else return []

/-- The fields of an application call that come before `fee`. -/
def applOps (tx : ApplTx) : Except Fault (List WriteOp) := do
  let apaa ← apaaOps tx
  let apan :=
    if tx.onComplete.toNat ≠ 0 then
      fieldOps "apan" (.writeUint (UInt64.ofNat tx.onComplete.toNat))
    else []
  return apaa ++ apan ++ fieldOps "apid" (.writeUint tx.appId)

/-- The fields that come before `fee`. -/
def leadingOps (details : TransactionDetails) : Except Fault (List WriteOp) :=
  match details.tx with
  | .pay tx => return fieldOps "amt" (.writeUint tx.amount)
  | .appl tx => applOps tx
  | .keyreg | .acfg | .axfer | .afrz => return []

/-- The fields from `fee` to `lv`, which every transaction has. -/
def commonOps (tx : Transaction) : List WriteOp :=
  fieldOps "fee" (.writeUint tx.fee) ++
  fieldOps "fv" (.writeUint tx.details.firstValid) ++
  fieldOps "gen" (.writeStr (lit "testnet-v1.0")) ++
  fieldOps "gh" (.writeBin tx.genesisHash.toList) ++
  fieldOps "lv" (.writeUint tx.details.lastValid)

/-- The note; its length is cast to `uint32_t`. -/
def noteOps (note : Option CStr) : List WriteOp :=
  match note with
  | some note => fieldOps "note" (.writeBin (note.bytes.take (note.strlen % 2 ^ 32)))
  | none => []

/-- The receiver of a payment. -/
def rcvOps (details : TransactionDetails) : List WriteOp :=
  match details.tx with
  | .pay tx => fieldOps "rcv" (.writeBin tx.receiver.toList)
  | _ => []

/-- The last two fields, which every transaction has. -/
def trailingOps (tx : Transaction) : List WriteOp :=
  fieldOps "snd" (.writeBin tx.senderPub.toList) ++
  fieldOps "type" (.writeStr (lit (algorandTxType tx.details.tx)))

/-- From `payload_header_length` on. -/
def bodyOps (tx : Transaction) : Except Fault (List WriteOp) := do
  let count ← txnMapElementCount tx.details
  let leading ← leadingOps tx.details
  return [.startMap count] ++ leading ++ commonOps tx ++ noteOps tx.details.note ++
    rcvOps tx.details ++ trailingOps tx ++ [.finishMap, .finishMap]

/-- `encode_tx`, on the slot it encodes into. -/
def encodeTx {c : Config} (W : MpackWriter) (tx : Transaction) (slot : SignedTransaction c) :
    Except Fault (RetCode × SignedTransaction c) := do
  let writer := W.run (W.init slot.payload) headerOps
  let headerLength := W.used writer
  let body ← bodyOps tx
  let writer := W.run writer body
  let slot := { slot with
    payload := W.buffer writer
    payloadHeaderLength := headerLength
    payloadBodyLength := W.used writer - headerLength }
  return (if W.ok writer then .success else .errorInternal, slot)

/-- The encoder on a payload of any size: its code, the payload, and the lengths of its two
parts. -/
def encodePayload {n : Nat} (W : MpackWriter) (tx : Transaction) (payload : Vector UInt8 n) :
    Except Fault (RetCode × Vector UInt8 n × Nat × Nat) := do
  let writer := W.run (W.init payload) headerOps
  let headerLength := W.used writer
  let body ← bodyOps tx
  let writer := W.run writer body
  return (if W.ok writer then .success else .errorInternal, W.buffer writer, headerLength,
    W.used writer - headerLength)

/-- `encode_tx` is the encoder on the payload of its slot. -/
theorem encodeTx_eq_encodePayload {c : Config} (W : MpackWriter) (tx : Transaction)
    (slot : SignedTransaction c) :
    encodeTx W tx slot = (encodePayload W tx slot.payload).map fun (err, payload, header, body) =>
      (err, { slot with payload := payload, payloadHeaderLength := header, payloadBodyLength := body }) := by
  rw [encodeTx, encodePayload]
  cases bodyOps tx <;> rfl

/-! ## The calls, once the pointers have been followed -/

/-- The arguments counted. -/
def AppValues.args (keyValues : AppValues) : List AppKeyValue :=
  keyValues.values.toList.take keyValues.count

/-- The calls for the arguments. -/
def argsWritten (keyValues : AppValues) : List WriteOp :=
  keyValues.args.flatMap (argOps keyValues.values[0])

theorem AppValues.drop_values (keyValues : AppValues) {i : Nat} (hi : i < appsKvMaxCount) :
    keyValues.values.toList.drop i =
      keyValues.values[i] :: keyValues.values.toList.drop (i + 1) := by
  rw [List.drop_eq_getElem_cons (by simpa using hi)]
  simp

/-- The loop stays within the array exactly when the count does. -/
theorem argsOps_eq_ok {keyValues : AppValues} {n i : Nat} {ops : List WriteOp} :
    argsOps keyValues i n = .ok ops ↔ (n = 0 ∨ i + n ≤ appsKvMaxCount) ∧
      ops = ((keyValues.values.toList.drop i).take n).flatMap (argOps keyValues.values[0]) := by
  induction n generalizing i ops with
  | zero =>
      rw [argsOps, pure_eq_ok]
      simp [eq_comm]
  | succ n ih =>
      rw [argsOps, bind_eq_ok]
      constructor
      · rintro ⟨k, hk, h⟩
        obtain ⟨rest, hrest, h⟩ := bind_eq_ok.mp h
        obtain ⟨hle, rfl⟩ := ih.mp hrest
        have hki := subscript_eq_ok.mp hk
        have hi : i < appsKvMaxCount := hki ▸ k.isLt
        refine ⟨.inr (by omega), ?_⟩
        rw [← pure_eq_ok.mp h, keyValues.drop_values hi, List.take_succ_cons,
          List.flatMap_cons]
        subst hki
        rfl
      · rintro ⟨hle, rfl⟩
        have hi : i < appsKvMaxCount := by omega
        refine ⟨⟨i, hi⟩, subscript_eq_ok.mpr rfl, ?_⟩
        rw [ih.mpr ⟨by omega, rfl⟩, keyValues.drop_values hi, List.take_succ_cons,
          List.flatMap_cons]
        rfl

/-- The fields of an application call that come before `fee`. -/
def applWritten (tx : ApplTx) (keyValues : AppValues) : List WriteOp :=
  (if keyValues.count ≠ 0 then
    .writeStr (lit "apaa") :: (.startArray keyValues.count :: argsWritten keyValues ++
      [.finishArray])
  else []) ++
  (if tx.onComplete.toNat ≠ 0 then
    fieldOps "apan" (.writeUint (UInt64.ofNat tx.onComplete.toNat))
  else []) ++ fieldOps "apid" (.writeUint tx.appId)

theorem applOps_eq_ok {tx : ApplTx} {keyValues : AppValues} (hkv : tx.keyValues = some keyValues)
    {ops : List WriteOp} :
    applOps tx = .ok ops ↔
      keyValues.count ≤ appsKvMaxCount ∧ ops = applWritten tx keyValues := by
  rw [applOps, apaaOps, hkv]
  dsimp only
  by_cases hc : keyValues.count ≠ 0
  · rw [if_pos hc, applWritten, if_pos hc]
    constructor
    · intro h
      obtain ⟨apaa, hapaa, h⟩ := bind_eq_ok.mp h
      obtain ⟨args, hargs, hapaa⟩ := bind_eq_ok.mp hapaa
      obtain ⟨hle, rfl⟩ := argsOps_eq_ok.mp hargs
      refine ⟨by omega, ?_⟩
      rw [← pure_eq_ok.mp h, ← pure_eq_ok.mp hapaa]
      rfl
    · rintro ⟨hle, rfl⟩
      rw [argsOps_eq_ok.mpr ⟨.inr (by omega), rfl⟩]
      rfl
  · rw [if_neg hc, applWritten, if_neg hc]
    constructor
    · intro h
      exact ⟨by omega, (pure_eq_ok.mp h).symm⟩
    · rintro ⟨-, rfl⟩
      rfl

/-- The body around the fields that come before `fee`. -/
def bodyAround (tx : Transaction) (count : Nat) (leading : List WriteOp) : List WriteOp :=
  .startMap count :: (leading ++ commonOps tx ++ noteOps tx.details.note ++ rcvOps tx.details ++
    trailingOps tx) ++ [.finishMap] ++ [.finishMap]

theorem bodyOps_eq_ok {tx : Transaction} {ops : List WriteOp} :
    bodyOps tx = .ok ops ↔ ∃ count leading, txnMapElementCount tx.details = .ok count ∧
      leadingOps tx.details = .ok leading ∧ ops = bodyAround tx count leading := by
  rw [bodyOps, bind_eq_ok]
  constructor
  · rintro ⟨count, hcount, h⟩
    obtain ⟨leading, hleading, h⟩ := bind_eq_ok.mp h
    exact ⟨count, leading, hcount, hleading, by simp [← pure_eq_ok.mp h, bodyAround]⟩
  · rintro ⟨count, leading, hcount, hleading, rfl⟩
    refine ⟨count, hcount, ?_⟩
    rw [hleading]
    exact pure_eq_ok.mpr (by simp [bodyAround])

end Vertices
