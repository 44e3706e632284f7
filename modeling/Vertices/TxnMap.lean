/-
# `Vertices.TxnMap` — what the bytes of `encode_tx` decode to

The payload is one MessagePack value, a map of `sig` and `txn`; the value of `txn`
starts at `payload_header_length`, which is why its bytes alone can be signed.
`SignedTransaction.Holds` says so for a given list of fields.

A payment decodes to the fields of its transaction.  An application call does up to
its arguments: `htobe64` is a cast, so an integer is written in the byte order of the
host, and a byte slice is read from the first argument whatever its index.
-/
import Vertices.EncodeBytes

namespace Vertices

open MsgPack

variable {c : Config} {W : MpackWriter}

/-! ## Fields -/

/-- A pair of the map. -/
def field (key : String) (v : Value) : Value × Value := (.str (lit key), v)

/-- The bytes of a key. -/
def keyBytes : Value → List UInt8
  | .str s => s
  | _ => []

/-- The keys are strictly ascending in byte order. -/
def Ascending (pairs : List (Value × Value)) : Prop :=
  (pairs.map fun kv => keyBytes kv.1).Pairwise (· < ·)

theorem Writes.field {key : String} {op : WriteOp} {v : Value} (hk : (lit key).length < 2 ^ 32)
    (h : Writes [op] [v]) : Writes (fieldOps key op) (flatten [field key v]) :=
  (Writes.str hk).append h

theorem Writes.fields {ops ops' : List WriteOp} {kvs kvs' : List (Value × Value)}
    (h : Writes ops (flatten kvs)) (h' : Writes ops' (flatten kvs')) :
    Writes (ops ++ ops') (flatten (kvs ++ kvs')) := by
  rw [flatten_append]
  exact h.append h'

/-! ## The fields every transaction has -/

def commonPairs (tx : Transaction) : List (Value × Value) :=
  [field "fee" (.uint tx.fee.toNat)] ++
  [field "fv" (.uint tx.details.firstValid.toNat)] ++
  [field "gen" (.str (lit "testnet-v1.0"))] ++
  [field "gh" (.bin tx.genesisHash.toList)] ++
  [field "lv" (.uint tx.details.lastValid.toNat)]

/-- The note, when given. -/
def notePairs : Option CStr → List (Value × Value)
  | some note => [field "note" (.bin note.bytes)]
  | none => []

/-- The note as it is written, its length taken modulo `2 ^ 32`. -/
def writtenNote : Option CStr → Option CStr
  | some note => some
      { bytes := note.bytes.take (note.strlen % 2 ^ 32)
        noNul := fun h => note.noNul (List.mem_of_mem_take h) }
  | none => none

def trailingPairs (tx : Transaction) : List (Value × Value) :=
  [field "snd" (.bin tx.senderPub.toList)] ++
  [field "type" (.str (lit (algorandTxType tx.details.tx)))]

theorem writes_commonOps (tx : Transaction) :
    Writes (commonOps tx) (flatten (commonPairs tx)) :=
  ((((Writes.field (by decide) (.uint _)).fields (.field (by decide) (.uint _))).fields
    (.field (by decide) (.str (by decide)))).fields
    (.field (by decide) (.vector _ (by decide)))).fields (.field (by decide) (.uint _))

theorem writes_noteOps (note : Option CStr) :
    Writes (noteOps note) (flatten (notePairs (writtenNote note))) := by
  cases note with
  | none => exact .nil
  | some note =>
      refine .field (by decide) (.bin ?_)
      have := Nat.mod_lt note.strlen (show 0 < 2 ^ 32 by decide)
      rw [List.length_take]
      omega

theorem writes_trailingOps (tx : Transaction) :
    Writes (trailingOps tx) (flatten (trailingPairs tx)) := by
  have := (length_algorandTxType tx.details.tx).2
  exact (Writes.field (by decide) (.vector _ (by decide))).fields
    (.field (by decide) (.str (by omega)))

theorem writtenNote_of_accepted {note : Option CStr} (h : noteAccepted c note = true) :
    writtenNote note = note := by
  cases note with
  | none => rfl
  | some note =>
      have hle : note.strlen ≤ c.optionalTxFieldsMaxSizeBytes := by simpa [noteAccepted] using h
      have hlt := c.optionalTxFieldsMaxSizeBytes_lt
      have htake : note.bytes.take (note.strlen % 2 ^ 32) = note.bytes := by
        rw [Nat.mod_eq_of_lt (by omega)]
        exact List.take_length
      simp only [writtenNote, htake]

/-! ## The payload as one value -/

/-- The first `payload_header_length + payload_body_length` bytes of the payload. -/
def SignedTransaction.encoded (slot : SignedTransaction c) : List UInt8 :=
  slot.payload.toList.take (slot.payloadHeaderLength + slot.payloadBodyLength)

/-- The payload is the map of an empty signature and of the transaction `pairs`. -/
structure SignedTransaction.Holds (slot : SignedTransaction c) (pairs : List (Value × Value)) :
    Prop where
  inside : slot.payloadHeaderLength + slot.payloadBodyLength ≤ c.txPayloadMaxLength
  root : decode slot.encoded = some
    (.map [field "sig" (.bin (List.replicate signatureLength 0)), field "txn" (.map pairs)], [])
  txn : decode (slot.encoded.drop slot.payloadHeaderLength) = some (.map pairs, [])
  count : ∃ rest, decodeTag (slot.encoded.drop slot.payloadHeaderLength) =
    some (.map pairs.length, rest)
  ascending : Ascending pairs

/-- A body that writes `pairs` and announces as many makes a payload that holds them. -/
theorem Encoded.holds {tx : Transaction} {count : Nat} {leading : List WriteOp}
    {pairs : List (Value × Value)} {slot : SignedTransaction c}
    (h : Encoded (bodyAround tx count leading) slot) (hcount : count = pairs.length)
    (hle : count ≤ 11)
    (hpairs : Writes (leading ++ commonOps tx ++ noteOps tx.details.note ++ rcvOps tx.details ++
      trailingOps tx) (flatten pairs)) (hasc : Ascending pairs) : slot.Holds pairs := by
  have htxn : Writes (.startMap count :: (leading ++ commonOps tx ++ noteOps tx.details.note ++
      rcvOps tx.details ++ trailingOps tx) ++ [.finishMap]) [.map pairs] :=
    .map hcount (Nat.lt_of_le_of_lt hle (by decide)) hpairs
  have hpair : Writes ([.writeStr (lit "sig")] ++ [.writeBin (List.replicate signatureLength 0)] ++
      ([.writeStr (lit "txn")] ++ _)) (flatten [field "sig" (.bin
        (List.replicate signatureLength 0)), field "txn" (.map pairs)]) :=
    ((Writes.str (by decide)).append (.bin (by decide))).append
      ((Writes.str (by decide)).append htxn)
  have hroot : Writes (headerOps ++ bodyAround tx count leading)
      [.map [field "sig" (.bin (List.replicate signatureLength 0)), field "txn" (.map pairs)]] :=
    .map (n := 2) rfl (by decide) hpair
  have henc : slot.encoded = opBytes headerOps ++ opBytes (bodyAround tx count leading) := by
    rw [SignedTransaction.encoded, h.header, h.body]
    exact h.bytes
  have hdrop : slot.encoded.drop slot.payloadHeaderLength =
      opBytes (bodyAround tx count leading) := by
    rw [henc, h.header]
    exact List.drop_left' opLength_headerOps
  have hbody : opBytes (bodyAround tx count leading) = opBytes (.startMap count ::
      (leading ++ commonOps tx ++ noteOps tx.details.note ++ rcvOps tx.details ++
        trailingOps tx) ++ [.finishMap]) := by
    rw [bodyAround, opBytes_append, opBytes_finishMap, List.append_nil]
  exact {
    inside := by rw [h.header, h.body]; exact h.fits
    root := by rw [henc, ← opBytes_append]; exact hroot.decode
    txn := by rw [hdrop, hbody]; exact htxn.decode
    count := by
      rw [hdrop, hbody, List.cons_append, opBytes_cons, opBytes_startMap, ← hcount]
      exact ⟨_, decodeTag_bytes (i := .map count)
        (show count < 2 ^ 32 from Nat.lt_of_le_of_lt hle (by decide)) _⟩
    ascending := hasc }

/-! ## Payments -/

/-- The fields of a payment. -/
def payPairs (tx : Transaction) (pay : PaymentTx) : List (Value × Value) :=
  [field "amt" (.uint pay.amount.toNat)] ++ commonPairs tx ++ notePairs tx.details.note ++
    [field "rcv" (.bin pay.receiver.toList)] ++ trailingPairs tx

theorem ascending_payPairs (tx : Transaction) (pay : PaymentTx) : Ascending (payPairs tx pay) := by
  unfold Ascending
  cases hn : tx.details.note <;>
    simp only [payPairs, commonPairs, notePairs, trailingPairs, hn, field, List.map_append,
      List.map_cons, List.map_nil, keyBytes] <;> decide

/-- The transaction with its note as it is written. -/
def Transaction.written (tx : Transaction) : Transaction :=
  { tx with details := { tx.details with note := writtenNote tx.details.note } }

/-- What a payment decodes to, whatever its note. -/
theorem Encoded.holds_pay_written {tx : Transaction} {pay : PaymentTx} {slot : SignedTransaction c}
    (hpay : tx.details.tx = .pay pay)
    (h : Encoded (bodyAround tx (9 + noteCount tx.details.note)
      (fieldOps "amt" (.writeUint pay.amount))) slot) : slot.Holds (payPairs tx.written pay) := by
  refine h.holds ?_ ?_ ?_ (ascending_payPairs tx.written pay)
  · cases hn : tx.details.note <;>
      simp [payPairs, Transaction.written, writtenNote, commonPairs, notePairs, trailingPairs, hn,
        noteCount]
  · have := noteCount_le tx.details.note
    omega
  · rw [rcvOps, hpay]
    refine Writes.fields (.fields (.fields (.fields ?_ (writes_commonOps tx)) ?_) ?_)
      (writes_trailingOps tx)
    · exact .field (by decide) (.uint _)
    · exact writes_noteOps tx.details.note
    · exact .field (by decide) (.vector _ (by decide))

/-- What a payment decodes to. -/
theorem Encoded.holds_pay {tx : Transaction} {pay : PaymentTx} {slot : SignedTransaction c}
    (hpay : tx.details.tx = .pay pay) (hnote : noteAccepted c tx.details.note = true)
    (h : Encoded (bodyAround tx (9 + noteCount tx.details.note)
      (fieldOps "amt" (.writeUint pay.amount))) slot) : slot.Holds (payPairs tx pay) := by
  have hwritten : tx.written = tx := by
    rw [Transaction.written, writtenNote_of_accepted hnote]
  have hholds := h.holds_pay_written hpay
  rwa [hwritten] at hholds

/-- Every payment is encoded, to exactly its fields. -/
theorem encode_tx_pay_decodes (hW : W.Lawful) {tx : Transaction} {pay : PaymentTx}
    (hpay : tx.details.tx = .pay pay) (hnote : noteAccepted c tx.details.note = true)
    (slot : SignedTransaction c) :
    ∃ slot', encodeTx W tx slot = .ok (.success, slot') ∧ slot'.Holds (payPairs tx pay) := by
  obtain ⟨slot', henc, h⟩ := encodeTx_pay hW hpay hnote slot
  exact ⟨slot', henc, h.holds_pay hpay hnote⟩

/-- A payment of 5 with the note `hi`. -/
def notedPayment : Transaction where
  senderPub := Vector.replicate _ 1
  fee := txDefaultFee
  genesisHash := Vector.replicate _ 2
  details :=
    { firstValid := 1, lastValid := 1001, note := some ⟨[0x68, 0x69], by decide⟩
      tx := .pay { receiver := Vector.replicate _ 3, amount := 5 } }

theorem encode_tx_pay_decodes_noted :
    ∃ slot', encodeTx appendWriter notedPayment (.zero Config.default) = .ok (.success, slot') ∧
      slot'.Holds (payPairs notedPayment { receiver := Vector.replicate _ 3, amount := 5 }) := by
  have hpay : notedPayment.details.tx = .pay { receiver := Vector.replicate _ 3, amount := 5 } :=
    rfl
  exact encode_tx_pay_decodes appendWriter_lawful hpay (by decide) _

/-! ## Application calls -/

/-- The bytes an argument stands for: an integer in big-endian order, a slice as it is. -/
def claimedArg (kv : AppKeyValue) : List UInt8 :=
  match kv.type with
  | .integer => ByteOrder.beBytes 8 kv.valueUint.toNat
  | _ => kv.valueSlice.toList

/-- The bytes written for it, `first` being the first argument. -/
def writtenArg (first kv : AppKeyValue) : List UInt8 :=
  match kv.type with
  | .integer => (uint64Bytes (htobe64 kv.valueUint)).toList
  | _ => first.valueSlice.toList

/-- The type is one the encoder knows. -/
def AppKeyValue.Typed (kv : AppKeyValue) : Prop := kv.type = .integer ∨ kv.type = .byteslice

/-- The fields before `fee`, with `args` for the arguments. -/
def applLeading (appl : ApplTx) (keyValues : AppValues) (args : List (List UInt8)) :
    List (Value × Value) :=
  (if keyValues.count ≠ 0 then [field "apaa" (.array (args.map .bin))] else []) ++
  (if appl.onComplete.toNat ≠ 0 then [field "apan" (.uint appl.onComplete.toNat)] else []) ++
  [field "apid" (.uint appl.appId.toNat)]

/-- The fields of an application call, with `args` for the arguments. -/
def applPairs (tx : Transaction) (appl : ApplTx) (keyValues : AppValues)
    (args : List (List UInt8)) (note : Option CStr) : List (Value × Value) :=
  applLeading appl keyValues args ++ commonPairs tx ++ notePairs note ++ trailingPairs tx

theorem ascending_applPairs (tx : Transaction) (appl : ApplTx) (keyValues : AppValues)
    (args : List (List UInt8)) (note : Option CStr) :
    Ascending (applPairs tx appl keyValues args note) := by
  unfold Ascending
  by_cases hc : keyValues.count ≠ 0 <;> by_cases ho : appl.onComplete.toNat ≠ 0 <;>
    cases note <;>
    simp only [applPairs, applLeading, commonPairs, notePairs, trailingPairs, field, if_pos hc,
      if_neg hc, if_pos ho, if_neg ho, List.map_append, List.map_cons, List.map_nil, keyBytes] <;>
    decide

theorem writes_argsWritten {keyValues : AppValues} (h : ∀ kv ∈ keyValues.args, kv.Typed) :
    Writes (argsWritten keyValues)
      ((keyValues.args.map (writtenArg keyValues.values[0])).map .bin) := by
  rw [argsWritten]
  generalize keyValues.args = kvs at h
  induction kvs with
  | nil => exact .nil
  | cons kv kvs ih =>
      have hkv : Writes (argOps keyValues.values[0] kv)
          [.bin (writtenArg keyValues.values[0] kv)] := by
        rcases h kv List.mem_cons_self with ht | ht
        · rw [argOps, writtenArg, ht]
          exact .vector _ (by decide)
        · rw [argOps, writtenArg, ht]
          exact .vector keyValues.values[0].valueSlice (by decide)
      rw [List.flatMap_cons]
      exact hkv.append (ih fun kv hkv => h kv (List.mem_cons_of_mem _ hkv))

theorem length_args {keyValues : AppValues} (h : keyValues.count ≤ appsKvMaxCount) :
    keyValues.args.length = keyValues.count := by
  rw [AppValues.args, List.length_take, Vector.length_toList]
  exact Nat.min_eq_left h

theorem writes_applWritten {appl : ApplTx} {keyValues : AppValues}
    (hcount : keyValues.count ≤ appsKvMaxCount) (h : ∀ kv ∈ keyValues.args, kv.Typed) :
    Writes (applWritten appl keyValues) (flatten (applLeading appl keyValues
      (keyValues.args.map (writtenArg keyValues.values[0])))) := by
  refine Writes.fields (.fields ?_ ?_) (.field (by decide) (.uint _))
  · split
    · have harr := Writes.array (n := keyValues.count)
        (by rw [List.length_map, List.length_map, length_args hcount])
        (Nat.lt_of_le_of_lt hcount (by decide)) (writes_argsWritten h)
      exact (Writes.str (s := lit "apaa") (by decide)).append harr
    · exact .nil
  · split
    · have hnat : (UInt64.ofNat appl.onComplete.toNat).toNat = appl.onComplete.toNat := by
        cases appl.onComplete <;> rfl
      have := Writes.uint (UInt64.ofNat appl.onComplete.toNat)
      rw [hnat] at this
      exact .field (by decide) this
    · exact .nil

/-- What an application call decodes to. -/
theorem Encoded.holds_appl {tx : Transaction} {appl : ApplTx} {keyValues : AppValues}
    {slot : SignedTransaction c} (happl : tx.details.tx = .appl appl)
    (hcount : keyValues.count ≤ appsKvMaxCount) (htyped : ∀ kv ∈ keyValues.args, kv.Typed)
    (h : Encoded (bodyAround tx (applCount appl keyValues tx.details.note)
      (applWritten appl keyValues)) slot) :
    slot.Holds (applPairs tx appl keyValues (keyValues.args.map (writtenArg keyValues.values[0]))
      (writtenNote tx.details.note)) := by
  refine h.holds ?_ (applCount_le _ _ _) ?_ (ascending_applPairs _ _ _ _ _)
  · unfold applCount applPairs applLeading
    cases tx.details.note <;> split <;> split <;>
      simp [commonPairs, notePairs, trailingPairs, noteCount, writtenNote]
  · rw [rcvOps, happl, List.append_nil]
    exact ((((writes_applWritten hcount htyped).fields (writes_commonOps tx)).fields
      (writes_noteOps _)).fields (writes_trailingOps tx))

/-- The bytes written for an argument are the ones it stands for. -/
def WrittenRight (first kv : AppKeyValue) : Prop :=
  match kv.type with
  -- an integer whose eight bytes read the same in both directions
  | .integer => kv.value.toList.reverse = kv.value.toList
  -- a slice equal to the first argument's
  | _ => kv.value.toList = first.value.toList

theorem AppKeyValue.toNat_valueUint (kv : AppKeyValue) :
    kv.valueUint.toNat = ByteOrder.leNat kv.value.toList := by
  have h := ByteOrder.leNat_lt kv.value.toList
  rw [Vector.length_toList] at h
  rw [valueUint, UInt64.toNat_ofNat']
  exact Nat.mod_eq_of_lt h

theorem AppKeyValue.leBytes_valueUint (kv : AppKeyValue) :
    ByteOrder.leBytes 8 kv.valueUint.toNat = kv.value.toList := by
  have h := ByteOrder.leBytes_leNat kv.value.toList
  rw [Vector.length_toList] at h
  rw [kv.toNat_valueUint]
  exact h

theorem claimedArg_eq_iff (first kv : AppKeyValue) :
    claimedArg kv = writtenArg first kv ↔ WrittenRight first kv := by
  unfold claimedArg writtenArg WrittenRight
  split
  · rw [ByteOrder.beBytes, kv.leBytes_valueUint]
    show _ = ByteOrder.leBytes 8 kv.valueUint.toNat ↔ _
    rw [kv.leBytes_valueUint]
  · exact Iff.rfl

theorem applLeading_inj {appl : ApplTx} {keyValues : AppValues} {args args' : List (List UInt8)}
    (hc : keyValues.count ≠ 0)
    (h : applLeading appl keyValues args = applLeading appl keyValues args') : args = args' := by
  rw [applLeading, applLeading, if_pos hc, if_pos hc] at h
  have hhead := List.append_cancel_right (List.append_cancel_right h)
  have harr := Value.array.inj (Prod.mk.inj (List.cons.inj hhead).1).2
  exact List.map_injective_iff.mpr (fun _ _ he => Value.bin.inj he) harr

theorem applPairs_inj {tx : Transaction} {appl : ApplTx} {keyValues : AppValues}
    {args args' : List (List UInt8)} {note note' : Option CStr}
    (h : applPairs tx appl keyValues args note = applPairs tx appl keyValues args' note') :
    (keyValues.count ≠ 0 → args = args') ∧ notePairs note = notePairs note' := by
  have h₁ := List.append_cancel_right h
  have hlen : (applLeading appl keyValues args ++ commonPairs tx).length =
      (applLeading appl keyValues args' ++ commonPairs tx).length := by
    unfold applLeading
    split <;> simp
  obtain ⟨hl, hn⟩ := List.append_inj h₁ hlen
  exact ⟨fun hc => applLeading_inj hc (List.append_cancel_right hl), hn⟩

theorem notePairs_writtenNote_iff (note : Option CStr) :
    notePairs note = notePairs (writtenNote note) ↔ ∀ n ∈ note, n.strlen < 2 ^ 32 := by
  cases note with
  | none => exact iff_of_true rfl fun _ h => nomatch h
  | some n =>
      have hmod := Nat.mod_lt n.strlen (show 0 < 2 ^ 32 by decide)
      have hpairs : notePairs (some n) = notePairs (writtenNote (some n)) ↔
          n.bytes = n.bytes.take (n.strlen % 2 ^ 32) := by
        simp [notePairs, writtenNote, field]
      rw [hpairs]
      constructor
      · intro h m hm
        obtain rfl := Option.mem_some_iff.mp hm
        have hl := congrArg List.length h
        rw [List.length_take] at hl
        show n.bytes.length < 2 ^ 32
        omega
      · intro h
        rw [Nat.mod_eq_of_lt (h n rfl)]
        exact List.take_length.symm

/-- What is written is what is claimed under a condition on the arguments and the note. -/
theorem Encoded.holds_claimed_iff {tx : Transaction} {appl : ApplTx} {keyValues : AppValues}
    {slot : SignedTransaction c} (happl : tx.details.tx = .appl appl)
    (hcount : keyValues.count ≤ appsKvMaxCount) (htyped : ∀ kv ∈ keyValues.args, kv.Typed)
    (h : Encoded (bodyAround tx (applCount appl keyValues tx.details.note)
      (applWritten appl keyValues)) slot) :
    slot.Holds (applPairs tx appl keyValues (keyValues.args.map claimedArg) tx.details.note) ↔
      (∀ kv ∈ keyValues.args, WrittenRight keyValues.values[0] kv) ∧
        ∀ note ∈ tx.details.note, note.strlen < 2 ^ 32 := by
  have hwritten := h.holds_appl happl hcount htyped
  have hargs : keyValues.args.map claimedArg =
      keyValues.args.map (writtenArg keyValues.values[0]) ↔
      ∀ kv ∈ keyValues.args, WrittenRight keyValues.values[0] kv := by
    rw [List.map_inj_left]
    exact forall₂_congr fun kv _ => claimedArg_eq_iff _ kv
  constructor
  · intro hclaimed
    have hpairs := Value.map.inj (Prod.mk.inj (Option.some.inj
      (hclaimed.txn.symm.trans hwritten.txn))).1
    obtain ⟨ha, hn⟩ := applPairs_inj hpairs
    refine ⟨hargs.mp ?_, (notePairs_writtenNote_iff _).mp hn⟩
    by_cases hc : keyValues.count = 0
    · simp [AppValues.args, hc]
    · exact ha hc
  · rintro ⟨ha, hn⟩
    have hpairs : applPairs tx appl keyValues (keyValues.args.map claimedArg) tx.details.note =
        applPairs tx appl keyValues (keyValues.args.map (writtenArg keyValues.values[0]))
          (writtenNote tx.details.note) := by
      rw [applPairs, applPairs, hargs.mpr ha, (notePairs_writtenNote_iff _).mpr hn]
    rw [hpairs]
    exact hwritten

/-- A call is encoded as it should be exactly when its integer arguments read the same in
both byte orders and its byte slices are copies of its first argument. -/
theorem encode_tx_appl_decodes_iff (hW : W.Lawful) {tx : Transaction} {appl : ApplTx}
    {keyValues : AppValues} (happl : tx.details.tx = .appl appl)
    (hkv : appl.keyValues = some keyValues) (hcount : keyValues.count ≤ appsKvMaxCount)
    (htyped : ∀ kv ∈ keyValues.args, kv.Typed) {slot slot' : SignedTransaction c}
    (henc : encodeTx W tx slot = .ok (.success, slot')) :
    slot'.Holds (applPairs tx appl keyValues (keyValues.args.map claimedArg) tx.details.note) ↔
      (∀ kv ∈ keyValues.args, WrittenRight keyValues.values[0] kv) ∧
        ∀ note ∈ tx.details.note, note.strlen < 2 ^ 32 := by
  obtain ⟨ops, hops, ⟨-, hs⟩ | ⟨he, -⟩⟩ := encodeTx_cases hW henc
  · obtain ⟨keyValues', hkv', -, rfl⟩ := (bodyOps_appl happl).mp hops
    obtain rfl := Option.some.inj (hkv.symm.trans hkv')
    exact hs.holds_claimed_iff happl hcount htyped
  · exact nomatch he

/-! ### One integer argument -/

/-- One argument, the integer 1. -/
def oneInteger : AppValues where
  count := 1
  values := Vector.ofFn fun i =>
    if i.val = 0 then
      { AppKeyValue.zero with type := .integer, value := #v[1, 0, 0, 0, 0, 0, 0, 0] }
    else .zero

/-- A call of application 7 with it. -/
def oneIntegerCall : ApplTx := { appId := 7, onComplete := .noop, keyValues := some oneInteger }

/-- A transaction without a note. -/
def plainTx (tx : TxBody) : Transaction where
  senderPub := Vector.replicate _ 0
  fee := txDefaultFee
  genesisHash := Vector.replicate _ 0
  details := { firstValid := 1, lastValid := 1001, note := none, tx := tx }

theorem oneInteger_typed : ∀ kv ∈ oneInteger.args, kv.Typed := by
  intro kv hkv
  have : oneInteger.args = [{ AppKeyValue.zero with
      type := .integer, value := #v[1, 0, 0, 0, 0, 0, 0, 0] }] := by decide
  rw [this, List.mem_singleton] at hkv
  subst hkv
  exact .inl rfl

theorem oneInteger_encoded :
    ∃ slot', encodeTx appendWriter (plainTx (.appl oneIntegerCall)) (.zero Config.default) =
        .ok (.success, slot') ∧
      Encoded (bodyAround (plainTx (.appl oneIntegerCall))
        (applCount oneIntegerCall oneInteger none) (applWritten oneIntegerCall oneInteger))
        slot' := by
  have happl : (plainTx (.appl oneIntegerCall)).details.tx = .appl oneIntegerCall := rfl
  exact encodeTx_appl appendWriter_lawful happl rfl (by decide) rfl _

theorem encode_tx_appl_decodes_iff_one_integer :
    ∃ slot', encodeTx appendWriter (plainTx (.appl oneIntegerCall)) (.zero Config.default) =
        .ok (.success, slot') ∧
      (slot'.Holds (applPairs (plainTx (.appl oneIntegerCall)) oneIntegerCall oneInteger
          (oneInteger.args.map claimedArg) none) ↔
        (∀ kv ∈ oneInteger.args, WrittenRight oneInteger.values[0] kv) ∧
          ∀ note ∈ (none : Option CStr), note.strlen < 2 ^ 32) := by
  obtain ⟨slot', henc, -⟩ := oneInteger_encoded
  exact ⟨slot', henc, encode_tx_appl_decodes_iff appendWriter_lawful rfl rfl (by decide)
    oneInteger_typed henc⟩

/-- The argument is written as `01 00 00 00 00 00 00 00`. -/
theorem encode_tx_appl_one_integer_wrong :
    ∃ slot', encodeTx appendWriter (plainTx (.appl oneIntegerCall)) (.zero Config.default) =
        .ok (.success, slot') ∧
      ¬ slot'.Holds (applPairs (plainTx (.appl oneIntegerCall)) oneIntegerCall oneInteger
          (oneInteger.args.map claimedArg) none) := by
  obtain ⟨slot', henc, hs⟩ := oneInteger_encoded
  refine ⟨slot', henc, fun h => ?_⟩
  have hright := ((hs.holds_claimed_iff rfl (by decide) oneInteger_typed).mp h).1
  have hrev : oneInteger.values[0].value.toList.reverse = oneInteger.values[0].value.toList :=
    hright oneInteger.values[0] (by decide)
  exact absurd hrev (by decide)

end Vertices
