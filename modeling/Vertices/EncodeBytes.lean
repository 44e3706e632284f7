/-
# `Vertices.EncodeBytes` — how many bytes `encode_tx` writes, and that they fit

The header is 75 bytes whatever the transaction.  The body is at least 115 bytes long,
because every transaction has the fields from `fee` to `lv`, `snd` and `type`; and for
payments and application calls with at most `APPS_KV_MAX_COUNT` arguments it fits in
what the header leaves of `TX_PAYLOAD_MAX_LENGTH`.
-/
import Vertices.Encode

namespace Vertices

open MsgPack

/-! ## Ranges -/

theorem fits_writeStr {s : List UInt8} (h : s.length < 2 ^ 32) : (WriteOp.writeStr s).Fits :=
  (WriteOp.fits_iff (i := .str s) rfl).mpr h

theorem fits_writeBin {s : List UInt8} (h : s.length < 2 ^ 32) : (WriteOp.writeBin s).Fits :=
  (WriteOp.fits_iff (i := .bin s) rfl).mpr h

theorem fits_writeVector {n : Nat} (v : Vector UInt8 n) (h : n < 2 ^ 32) :
    (WriteOp.writeBin v.toList).Fits :=
  fits_writeBin (by rw [Vector.length_toList]; exact h)

theorem fits_writeUint (v : UInt64) : (WriteOp.writeUint v).Fits :=
  (WriteOp.fits_iff (i := .uint v.toNat) rfl).mpr v.toNat_lt

theorem fits_finishMap : WriteOp.finishMap.Fits := fun _ hi => nomatch hi

theorem fits_finishArray : WriteOp.finishArray.Fits := fun _ hi => nomatch hi

theorem allFit_fieldOps {key : String} {value : WriteOp} (hk : (lit key).length < 2 ^ 32)
    (hv : value.Fits) : AllFit (fieldOps key value) :=
  .cons (fits_writeStr hk) (.cons hv .nil)

theorem allFit_argsWritten (keyValues : AppValues) : AllFit (argsWritten keyValues) := by
  intro op hop
  obtain ⟨kv, -, hop⟩ := List.mem_flatMap.mp hop
  unfold argOps at hop
  split at hop
  · rw [List.mem_singleton.mp hop]; exact fits_writeVector _ (by decide)
  · rw [List.mem_singleton.mp hop]; exact fits_writeVector _ (by decide)
  · exact nomatch hop
  · exact nomatch hop

theorem allFit_apan (tx : ApplTx) : AllFit (if tx.onComplete.toNat ≠ 0 then
    fieldOps "apan" (.writeUint (UInt64.ofNat tx.onComplete.toNat)) else []) := by
  split
  · exact allFit_fieldOps (by decide) (fits_writeUint _)
  · exact .nil

theorem allFit_applWritten {tx : ApplTx} {keyValues : AppValues}
    (h : keyValues.count ≤ appsKvMaxCount) : AllFit (applWritten tx keyValues) := by
  refine (AllFit.append ?_ (allFit_apan tx)).append (allFit_fieldOps (by decide) (fits_writeUint _))
  split
  · have hcount : (WriteOp.startArray keyValues.count).Fits :=
      (WriteOp.fits_iff (i := .array _) rfl).mpr (Nat.lt_of_le_of_lt h (by decide))
    exact .cons (fits_writeStr (by decide))
      (.append (.cons hcount (allFit_argsWritten keyValues)) (.cons fits_finishArray .nil))
  · exact .nil

theorem allFit_leadingOps {details : TransactionDetails} {ops : List WriteOp}
    (h : leadingOps details = .ok ops) : AllFit ops := by
  unfold leadingOps at h
  split at h
  · rw [← pure_eq_ok.mp h]
    exact allFit_fieldOps (by decide) (fits_writeUint _)
  · next tx _ =>
      cases hkv : tx.keyValues with
      | none =>
          -- without arguments only `apan` and `apid` are written
          rw [applOps, apaaOps, hkv] at h
          rw [← pure_eq_ok.mp h]
          exact (AllFit.append .nil (allFit_apan tx)).append
            (allFit_fieldOps (by decide) (fits_writeUint _))
      | some keyValues =>
          obtain ⟨hle, rfl⟩ := (applOps_eq_ok hkv).mp h
          exact allFit_applWritten hle
  all_goals rw [← pure_eq_ok.mp h]; exact .nil

theorem allFit_commonOps (tx : Transaction) : AllFit (commonOps tx) :=
  ((((allFit_fieldOps (by decide) (fits_writeUint _)).append
    (allFit_fieldOps (by decide) (fits_writeUint _))).append
    (allFit_fieldOps (by decide) (fits_writeStr (by decide)))).append
    (allFit_fieldOps (by decide) (fits_writeVector _ (by decide)))).append
    (allFit_fieldOps (by decide) (fits_writeUint _))

theorem allFit_noteOps (note : Option CStr) : AllFit (noteOps note) := by
  cases note with
  | none => exact .nil
  | some note =>
      refine allFit_fieldOps (by decide) (fits_writeBin ?_)
      have := Nat.mod_lt note.strlen (show 0 < 2 ^ 32 by decide)
      rw [List.length_take]
      omega

theorem allFit_rcvOps (details : TransactionDetails) : AllFit (rcvOps details) := by
  unfold rcvOps
  split
  · exact allFit_fieldOps (by decide) (fits_writeVector _ (by decide))
  · exact .nil

theorem length_algorandTxType (tx : TxBody) :
    3 ≤ (lit (algorandTxType tx)).length ∧ (lit (algorandTxType tx)).length ≤ 6 := by
  cases tx <;> exact ⟨by simp only [algorandTxType]; decide, by simp only [algorandTxType]; decide⟩

theorem allFit_trailingOps (tx : Transaction) : AllFit (trailingOps tx) := by
  have := (length_algorandTxType tx.details.tx).2
  exact (allFit_fieldOps (by decide) (fits_writeVector _ (by decide))).append
    (allFit_fieldOps (by decide) (fits_writeStr (by omega)))

theorem txnMapElementCount_le {details : TransactionDetails} {count : Nat}
    (h : txnMapElementCount details = .ok count) : count ≤ 11 := by
  have hn : noteCount details.note ≤ 1 := by unfold noteCount; split <;> omega
  unfold txnMapElementCount at h
  split at h
  · rw [← pure_eq_ok.mp h]; omega
  · split at h
    · exact absurd h (throw_ne_ok _ _)
    · rw [← pure_eq_ok.mp h]
      split <;> split <;> omega
  all_goals rw [← pure_eq_ok.mp h]; omega

/-- Every argument of a call of the writer is within the range of its type. -/
theorem allFit_bodyOps {tx : Transaction} {ops : List WriteOp} (h : bodyOps tx = .ok ops) :
    AllFit ops := by
  obtain ⟨count, leading, hcount, hleading, rfl⟩ := bodyOps_eq_ok.mp h
  have hmap : (WriteOp.startMap count).Fits := (WriteOp.fits_iff (i := .map count) rfl).mpr
    (Nat.lt_of_le_of_lt (txnMapElementCount_le hcount) (by decide))
  refine AllFit.append (.append (.cons hmap ?_) (.cons fits_finishMap .nil))
    (.cons fits_finishMap .nil)
  exact ((((allFit_leadingOps hleading).append (allFit_commonOps tx)).append
    (allFit_noteOps _)).append (allFit_rcvOps _)).append (allFit_trailingOps tx)

theorem allFit_headerOps : AllFit headerOps := by
  have hmap : (WriteOp.startMap 2).Fits := (WriteOp.fits_iff (i := .map 2) rfl).mpr
    (show 2 < 2 ^ 32 by decide)
  exact .cons hmap (.cons (fits_writeStr (by decide)) (.cons (fits_writeBin (by decide))
    (.cons (fits_writeStr (by decide)) .nil)))

/-! ## Lengths -/

/-- The number of bytes a sequence of calls writes. -/
def opLength (ops : List WriteOp) : Nat := (opBytes ops).length

theorem opLength_append (ops ops' : List WriteOp) :
    opLength (ops ++ ops') = opLength ops + opLength ops' := by
  rw [opLength, opBytes_append, List.length_append]; rfl

theorem opLength_cons (op : WriteOp) (ops : List WriteOp) :
    opLength (op :: ops) = opLength [op] + opLength ops := opLength_append [op] ops

/-- A field whose key has `n` characters. -/
theorem opLength_field {key : String} (n : Fin 32) (hk : (lit key).length = n) {value : WriteOp} :
    opLength (fieldOps key value) = 1 + n + opLength [value] := by
  rw [fieldOps, opLength_cons, ← hk]
  congr 1
  rw [opLength, opBytes_writeStr, Item.length_str (hk ▸ n.isLt)]

theorem opLength_writeUint (v : UInt64) :
    1 ≤ opLength [.writeUint v] ∧ opLength [.writeUint v] ≤ 9 := by
  rw [opLength, opBytes_writeUint]
  exact Item.length_uint _

theorem opLength_writeVector {n : Nat} (v : Vector UInt8 n) (h : n < 256) :
    opLength [.writeBin v.toList] = 2 + n := by
  rw [opLength, opBytes_writeBin, Item.length_bin (by rw [Vector.length_toList]; exact h),
    Vector.length_toList]

theorem opLength_headerOps : opLength headerOps = 75 := by decide

theorem opLength_commonOps (tx : Transaction) :
    67 ≤ opLength (commonOps tx) ∧ opLength (commonOps tx) ≤ 91 := by
  have hfee := opLength_writeUint tx.fee
  have hfv := opLength_writeUint tx.details.firstValid
  have hlv := opLength_writeUint tx.details.lastValid
  have hgh := opLength_writeVector tx.genesisHash (by decide)
  have hgen : opLength [.writeStr (lit "testnet-v1.0")] = 13 := by decide
  rw [commonOps, opLength_append, opLength_append, opLength_append, opLength_append,
    opLength_field 3 rfl, opLength_field 2 rfl, opLength_field 3 rfl, opLength_field 2 rfl,
    opLength_field 2 rfl]
  simp only [blockHashLength] at hgh
  omega

theorem opLength_trailingOps (tx : Transaction) :
    47 ≤ opLength (trailingOps tx) ∧ opLength (trailingOps tx) ≤ 50 := by
  have htype := length_algorandTxType tx.details.tx
  have hsnd := opLength_writeVector tx.senderPub (by decide)
  have hstr : opLength [.writeStr (lit (algorandTxType tx.details.tx))] =
      1 + (lit (algorandTxType tx.details.tx)).length := by
    rw [opLength, opBytes_writeStr, Item.length_str (by omega)]
  rw [trailingOps, opLength_append, opLength_field 3 rfl, opLength_field 4 rfl]
  simp only [addressLength] at hsnd
  omega

/-- The note takes ten bytes more than its own, whether it is cut or not. -/
theorem opLength_noteOps_le {note : Option CStr} {size : Nat} (h : ∀ s ∈ note, s.strlen ≤ size) :
    opLength (noteOps note) ≤ 10 + size := by
  cases note with
  | none => exact Nat.zero_le _
  | some note =>
      have hle : note.bytes.length ≤ size := h note rfl
      have hbin : opLength [.writeBin (note.bytes.take (note.strlen % 2 ^ 32))] ≤
          5 + (note.bytes.take (note.strlen % 2 ^ 32)).length := by
        rw [opLength, opBytes_writeBin]
        exact Item.length_bin_le _
      have htake : (note.bytes.take (note.strlen % 2 ^ 32)).length ≤ note.bytes.length :=
        List.length_take_le' _ _
      rw [noteOps, opLength_field 4 rfl]
      omega

theorem opLength_noteOps {c : Config} {note : Option CStr} (h : noteAccepted c note = true) :
    opLength (noteOps note) ≤ 10 + c.optionalTxFieldsMaxSizeBytes := by
  refine opLength_noteOps_le fun s hs => ?_
  cases hs
  simpa [noteAccepted] using h

theorem opLength_rcvOps (details : TransactionDetails) : opLength (rcvOps details) ≤ 38 := by
  unfold rcvOps
  split
  · next tx _ =>
      have h := opLength_writeVector tx.receiver (by decide)
      rw [opLength_field 3 rfl, h]
      simp only [addressLength]
      omega
  · exact Nat.zero_le _

theorem opLength_argsWritten (keyValues : AppValues) :
    opLength (argsWritten keyValues) ≤ 10 * keyValues.count := by
  have hone : ∀ first kv, opLength (argOps first kv) ≤ 10 := by
    intro first kv
    unfold argOps
    split
    · rw [opLength_writeVector _ (by decide)]
    · exact (opLength_writeVector first.valueSlice (by decide)).le
    · exact Nat.zero_le _
    · exact Nat.zero_le _
  have hmany : ∀ kvs : List AppKeyValue,
      opLength (kvs.flatMap (argOps keyValues.values[0])) ≤ 10 * kvs.length := by
    intro kvs
    induction kvs with
    | nil => exact Nat.le_refl _
    | cons kv kvs ih =>
        rw [List.flatMap_cons, opLength_append, List.length_cons]
        have := hone keyValues.values[0] kv
        omega
  have hlen : keyValues.args.length ≤ keyValues.count := List.length_take_le _ _
  exact (hmany keyValues.args).trans (Nat.mul_le_mul_left 10 hlen)

theorem opLength_applWritten {tx : ApplTx} {keyValues : AppValues}
    (h : keyValues.count ≤ appsKvMaxCount) : opLength (applWritten tx keyValues) ≤ 106 := by
  have hargs := opLength_argsWritten keyValues
  have happ := opLength_writeUint tx.appId
  have hapan : opLength (if tx.onComplete.toNat ≠ 0 then
      fieldOps "apan" (.writeUint (UInt64.ofNat tx.onComplete.toNat)) else []) ≤ 6 := by
    cases tx.onComplete <;> decide
  have hapaa : opLength (if keyValues.count ≠ 0 then
      .writeStr (lit "apaa") :: (.startArray keyValues.count :: argsWritten keyValues ++
        [.finishArray]) else []) ≤ 86 := by
    split
    · have hkey : opLength [.writeStr (lit "apaa")] = 5 := by decide
      have harr : opLength [.startArray keyValues.count] = 1 := by
        rw [opLength, opBytes_startArray, Item.length_array (Nat.lt_of_le_of_lt h (by decide))]
      have hfin : opLength [.finishArray] = 0 := rfl
      rw [opLength_cons, opLength_append, opLength_cons (.startArray _), hkey, harr, hfin]
      simp only [appsKvMaxCount] at h
      omega
    · exact Nat.zero_le _
  rw [applWritten, opLength_append, opLength_append, opLength_field 4 rfl]
  omega

theorem opLength_bodyAround {tx : Transaction} {count : Nat} (leading : List WriteOp)
    (h : count ≤ 11) :
    opLength (bodyAround tx count leading) = 1 + opLength leading + opLength (commonOps tx) +
      opLength (noteOps tx.details.note) + opLength (rcvOps tx.details) +
      opLength (trailingOps tx) := by
  have hmap : opLength [.startMap count] = 1 := by
    rw [opLength, opBytes_startMap, Item.length_map (Nat.lt_of_le_of_lt h (by decide))]
  have hfin : opLength [.finishMap] = 0 := rfl
  rw [bodyAround, opLength_append, opLength_append, opLength_cons, hmap, hfin]
  simp only [opLength_append]
  omega

/-- No body is shorter than the fields every transaction has. -/
theorem le_opLength_bodyOps {tx : Transaction} {ops : List WriteOp} (h : bodyOps tx = .ok ops) :
    115 ≤ opLength ops := by
  obtain ⟨count, leading, hcount, -, rfl⟩ := bodyOps_eq_ok.mp h
  have h₁ : opLength (bodyAround tx count leading) = _ :=
    opLength_bodyAround leading (txnMapElementCount_le hcount)
  have h₂ := opLength_commonOps tx
  have h₃ := opLength_trailingOps tx
  omega

/-! ## What is in the slot afterwards -/

variable {c : Config} {W : MpackWriter}

/-- The slot holds the header and the calls `ops`, complete. -/
structure Encoded (ops : List WriteOp) (slot : SignedTransaction c) : Prop where
  header : slot.payloadHeaderLength = 75
  body : slot.payloadBodyLength = opLength ops
  fits : 75 + opLength ops ≤ c.txPayloadMaxLength
  bytes : slot.payload.toList.take (75 + opLength ops) = opBytes headerOps ++ opBytes ops

theorem Config.payload_room (c : Config) : 512 ≤ c.txPayloadMaxLength := Nat.le_add_right 512 _

/-- `encode_tx` succeeds exactly when the calls fit, and the slot then holds them. -/
theorem encodeTx_cases (hW : W.Lawful) {tx : Transaction} {slot slot' : SignedTransaction c}
    {err : RetCode} (h : encodeTx W tx slot = .ok (err, slot')) :
    ∃ ops, bodyOps tx = .ok ops ∧
      ((err = .success ∧ Encoded ops slot') ∨
        (err = .errorInternal ∧ c.txPayloadMaxLength < 75 + opLength ops)) := by
  have hroom := c.payload_room
  have hok := hW.init_ok slot.payload (by omega)
  have hused := hW.init_used slot.payload
  have hlen : (opBytes headerOps).length = 75 := opLength_headerOps
  obtain ⟨hok₁, hused₁, hbytes₁⟩ := hW.run_fits headerOps allFit_headerOps hok (by omega)
  rw [hused, hlen, Nat.zero_add] at hused₁
  rw [hused, List.take_zero, List.nil_append] at hbytes₁
  obtain ⟨ops, hops, h⟩ := bind_eq_ok.mp h
  obtain ⟨herr, rfl⟩ := pure_eq_ok2.mp h
  refine ⟨ops, hops, ?_⟩
  rcases Nat.lt_or_ge c.txPayloadMaxLength (75 + opLength ops) with hlt | hle
  · refine .inr ⟨?_, hlt⟩
    rw [← herr, if_neg]
    intro hrun
    have := hW.fits_of_run_ok ops (allFit_bodyOps hops) hok₁ hrun (by omega)
    rw [hused₁] at this
    exact absurd this (Nat.not_le.mpr hlt)
  · obtain ⟨hok₂, hused₂, hbytes₂⟩ := hW.run_fits ops (allFit_bodyOps hops) hok₁
      (by rw [hused₁]; exact hle)
    rw [hused₁] at hused₂
    rw [hbytes₁] at hbytes₂
    refine .inl ⟨by rw [← herr, if_pos hok₂], hused₁, ?_, hle, ?_⟩
    · show W.used _ - W.used _ = _
      rw [hused₂, hused₁]
      exact Nat.add_sub_cancel_left _ _
    · rw [hused₂] at hbytes₂
      exact hbytes₂

theorem encodeTx_defined {tx : Transaction} {ops : List WriteOp} (h : bodyOps tx = .ok ops)
    (slot : SignedTransaction c) : ∃ err slot', encodeTx W tx slot = .ok (err, slot') := by
  rw [encodeTx, h]
  exact ⟨_, _, rfl⟩

/-- `encode_tx` changes the payload and its two lengths only. -/
theorem encodeTx_frame {tx : Transaction} {slot slot' : SignedTransaction c} {err : RetCode}
    (h : encodeTx W tx slot = .ok (err, slot')) :
    slot'.signature = slot.signature ∧ slot'.id = slot.id := by
  obtain ⟨_, _, h⟩ := bind_eq_ok.mp h
  obtain ⟨-, rfl⟩ := pure_eq_ok2.mp h
  exact ⟨rfl, rfl⟩

/-! ## Payments and application calls fit -/

theorem bodyOps_pay {tx : Transaction} {pay : PaymentTx} (h : tx.details.tx = .pay pay) :
    bodyOps tx = .ok (bodyAround tx (9 + noteCount tx.details.note)
      (fieldOps "amt" (.writeUint pay.amount))) := by
  refine bodyOps_eq_ok.mpr ⟨_, _, ?_, ?_, rfl⟩
  · rw [txnMapElementCount, h]; rfl
  · rw [leadingOps, h]; rfl

/-- The number of fields of an application call. -/
def applCount (tx : ApplTx) (keyValues : AppValues) (note : Option CStr) : Nat :=
  7 + 1 + (if tx.onComplete.toNat ≠ 0 then 1 else 0) + (if keyValues.count ≠ 0 then 1 else 0) +
    noteCount note

/-- An application call is encoded exactly when its arguments can be read. -/
theorem bodyOps_appl {tx : Transaction} {appl : ApplTx} (h : tx.details.tx = .appl appl)
    {ops : List WriteOp} :
    bodyOps tx = .ok ops ↔ ∃ keyValues, appl.keyValues = some keyValues ∧
      keyValues.count ≤ appsKvMaxCount ∧
      ops = bodyAround tx (applCount appl keyValues tx.details.note)
        (applWritten appl keyValues) := by
  rw [bodyOps_eq_ok, txnMapElementCount, leadingOps, h]
  dsimp only
  cases hkv : appl.keyValues with
  | none => exact ⟨fun ⟨_, _, hc, _⟩ => absurd hc (throw_ne_ok _ _), fun ⟨_, hn, _⟩ => nomatch hn⟩
  | some keyValues =>
      constructor
      · rintro ⟨count, leading, hcount, hleading, rfl⟩
        obtain ⟨hle, rfl⟩ := (applOps_eq_ok hkv).mp hleading
        obtain rfl := pure_eq_ok.mp hcount
        exact ⟨keyValues, rfl, hle, rfl⟩
      · rintro ⟨kvs, hkvs, hle, rfl⟩
        obtain rfl := Option.some.inj hkvs
        exact ⟨_, _, rfl, (applOps_eq_ok hkv).mpr ⟨hle, rfl⟩, rfl⟩

theorem noteCount_le (note : Option CStr) : noteCount note ≤ 1 := by
  unfold noteCount; split <;> omega

theorem applCount_le (tx : ApplTx) (keyValues : AppValues) (note : Option CStr) :
    applCount tx keyValues note ≤ 11 := by
  have := noteCount_le note
  unfold applCount
  split <;> split <;> omega

/-- A payment with an accepted note is encoded. -/
theorem encodeTx_pay (hW : W.Lawful) {tx : Transaction} {pay : PaymentTx}
    (hpay : tx.details.tx = .pay pay) (hnote : noteAccepted c tx.details.note = true)
    (slot : SignedTransaction c) :
    ∃ slot', encodeTx W tx slot = .ok (.success, slot') ∧
      Encoded (bodyAround tx (9 + noteCount tx.details.note)
        (fieldOps "amt" (.writeUint pay.amount))) slot' := by
  obtain ⟨err, slot', henc⟩ := encodeTx_defined (W := W) (bodyOps_pay hpay) slot
  obtain ⟨ops, hops, hcase⟩ := encodeTx_cases hW henc
  obtain rfl := Except.ok.inj ((bodyOps_pay hpay).symm.trans hops)
  rcases hcase with ⟨rfl, hs⟩ | ⟨-, hlt⟩
  · exact ⟨slot', henc, hs⟩
  · exfalso
    have hc := noteCount_le tx.details.note
    have h₁ := opLength_commonOps tx
    have h₂ := opLength_trailingOps tx
    have h₃ := opLength_noteOps hnote
    have h₄ := opLength_rcvOps tx.details
    have h₅ := opLength_writeUint pay.amount
    rw [opLength_bodyAround _ (by omega), opLength_field 3 rfl] at hlt
    simp only [Config.txPayloadMaxLength] at hlt
    omega

/-- An application call with readable arguments and an accepted note is encoded. -/
theorem encodeTx_appl (hW : W.Lawful) {tx : Transaction} {appl : ApplTx} {keyValues : AppValues}
    (happl : tx.details.tx = .appl appl) (hkv : appl.keyValues = some keyValues)
    (hcount : keyValues.count ≤ appsKvMaxCount) (hnote : noteAccepted c tx.details.note = true)
    (slot : SignedTransaction c) :
    ∃ slot', encodeTx W tx slot = .ok (.success, slot') ∧
      Encoded (bodyAround tx (applCount appl keyValues tx.details.note)
        (applWritten appl keyValues)) slot' := by
  have hbody := (bodyOps_appl happl).mpr ⟨keyValues, hkv, hcount, rfl⟩
  obtain ⟨err, slot', henc⟩ := encodeTx_defined (W := W) hbody slot
  obtain ⟨ops, hops, hcase⟩ := encodeTx_cases hW henc
  obtain rfl := Except.ok.inj (hbody.symm.trans hops)
  rcases hcase with ⟨rfl, hs⟩ | ⟨-, hlt⟩
  · exact ⟨slot', henc, hs⟩
  · exfalso
    have h₁ := opLength_commonOps tx
    have h₂ := opLength_trailingOps tx
    have h₃ := opLength_noteOps hnote
    have h₄ := opLength_rcvOps tx.details
    have h₅ : opLength (applWritten appl _) ≤ 106 := opLength_applWritten hcount
    rw [opLength_bodyAround _ (applCount_le _ _ _)] at hlt
    simp only [Config.txPayloadMaxLength] at hlt
    omega

end Vertices
