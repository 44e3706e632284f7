/-
# `Vertices.Atomicity` — a failed call that keeps its slot

`transaction_pay` and `transaction_appl` take the slot first, and none of their later
exits gives it back: not when the parameters cannot be fetched, not when the event
queue is full.  A slot taken so has no event, so nothing ever frees it, and since
`m_tx_buffer_idx` still points to it, every later call returns `VTC_ERROR_NO_MEM`.

A call that succeeds leaves a complete payload, unless an argument has a type the
encoder does not know: such an argument is counted and not written.  That a payload is
complete is seen by counting (`surplus`): as many items are written as are announced.
-/
import Vertices.Transaction
import Vertices.TxnMap

namespace Vertices

open MsgPack

variable {c : Config} {env : Env}

/-! ## What is asked of a call -/

/-- The payload is exactly one MessagePack value. -/
def SignedTransaction.Complete (slot : SignedTransaction c) : Prop :=
  slot.payloadHeaderLength + slot.payloadBodyLength ≤ c.txPayloadMaxLength ∧
    ∃ v, decode slot.encoded = some (v, [])

/-- A call that creates a transaction takes effect, or has none. -/
structure Atomic (err : RetCode) (s t : Sdk c) : Prop where
  failed : err ≠ .success →
    (∀ b, (t.slot b).payloadBodyLength = (s.slot b).payloadBodyLength) ∧
      t.mTxBufferIdx = s.mTxBufferIdx ∧ t.mEventsQueue = s.mEventsQueue
  succeeded : err = .success → (t.slot s.mTxBufferIdx).Complete

/-- The application's arguments. -/
def TxBody.args : TxBody → Option AppValues
  | .appl tx => tx.keyValues
  | .pay _ | .keyreg | .acfg | .axfer | .afrz => none

/-- Every argument is of a type the encoder knows. -/
def ArgsTyped (args : Option AppValues) : Prop :=
  ∀ keyValues ∈ args, ∀ kv ∈ keyValues.args, kv.Typed

/-- The network parameters can be had: from an answer that is JSON, with a genesis hash
that decodes where it is read, or from an earlier one; or the client says that it is
offline. -/
def ParamsAvailable (env : Env) (p : Provider) (reply : HttpReply) : Prop :=
  ∀ p', httpReceive p reply = .ok p' →
    (reply.err = .success ∧ ∃ json, env.cJSON_Parse p'.rxString = some json ∧
      (p'.version.updateCount = 0 → ∀ hash ∈ json.stringItem "genesis_hash_b64",
        paramsUsable (b64Decode hash hash.strlen blockHashLength).1 = true)) ∨
    (reply.err ≠ .success ∧ ((p'.mFirstValid ≠ 0 ∧ p'.mMinFee ≠ 0 ∧ p'.version.updateCount ≠ 0) ∨
      reply.err = .errorOffline))

/-- The call stops before it takes the slot, or nothing stops it: the parameters can be
had, the queue has room for the event and the arguments are typed. -/
def Untroubled (env : Env) (s : Sdk c) (reply : HttpReply) (note : Option CStr)
    (args : Option AppValues) : Prop :=
  s.Occupied s.mTxBufferIdx ∨ noteAccepted c note = false ∨
    (ParamsAvailable env s.mProvider reply ∧ s.HasRoom ∧ ArgsTyped args)

/-! ## Counting items -/

/-- The items written, less those announced. -/
def surplus (ops : List WriteOp) : Int :=
  (opItems ops).length - ((opItems ops).map Item.children).sum

theorem surplus_append (ops ops' : List WriteOp) :
    surplus (ops ++ ops') = surplus ops + surplus ops' := by
  simp only [surplus, opItems, List.filterMap_append, List.map_append, List.sum_append,
    List.length_append, Int.natCast_add]
  omega

theorem surplus_cons (op : WriteOp) (ops : List WriteOp) :
    surplus (op :: ops) = surplus [op] + surplus ops := surplus_append [op] ops

@[simp] theorem surplus_nil : surplus [] = 0 := rfl

@[simp] theorem surplus_startMap (n : Nat) : surplus [.startMap n] = 1 - 2 * n := by
  simp [surplus, opItems, WriteOp.item, Item.children]

@[simp] theorem surplus_startArray (n : Nat) : surplus [.startArray n] = 1 - n := by
  simp [surplus, opItems, WriteOp.item, Item.children]

@[simp] theorem surplus_finishMap : surplus [.finishMap] = 0 := rfl

@[simp] theorem surplus_finishArray : surplus [.finishArray] = 0 := rfl

@[simp] theorem surplus_writeStr (s : List UInt8) : surplus [.writeStr s] = 1 := rfl

@[simp] theorem surplus_writeBin (s : List UInt8) : surplus [.writeBin s] = 1 := rfl

@[simp] theorem surplus_writeUint (v : UInt64) : surplus [.writeUint v] = 1 := rfl

@[simp] theorem surplus_fieldOps (key : String) (value : WriteOp) :
    surplus (fieldOps key value) = 1 + surplus [value] := surplus_cons _ _

theorem surplus_commonOps (tx : Transaction) : surplus (commonOps tx) = 10 := by
  simp [commonOps, surplus_append]

theorem surplus_noteOps (note : Option CStr) : surplus (noteOps note) = 2 * noteCount note := by
  cases note <;> simp [noteOps, noteCount]

theorem surplus_trailingOps (tx : Transaction) : surplus (trailingOps tx) = 4 := by
  simp [trailingOps, surplus_append]

/-- A complete payload has written what it has announced. -/
theorem Encoded.surplus_of_complete {ops : List WriteOp} {slot : SignedTransaction c}
    (h : Encoded ops slot) (hfit : AllFit ops) (hc : slot.Complete) : surplus ops = 1 := by
  obtain ⟨v, hv⟩ := hc.2
  rw [SignedTransaction.encoded, h.header, h.body, h.bytes, ← opBytes_append] at hv
  have hlen := length_of_decode (allFit_headerOps.append hfit).items hv
  have hsum : surplus (headerOps ++ ops) = 1 := by
    rw [surplus, hlen]
    omega
  rw [surplus_append, show surplus headerOps = 0 from rfl, Int.zero_add] at hsum
  exact hsum

/-! ### The arguments -/

theorem surplus_argOps (first kv : AppKeyValue) :
    (kv.Typed ∧ surplus (argOps first kv) = 1) ∨ (¬ kv.Typed ∧ surplus (argOps first kv) = 0) := by
  unfold AppKeyValue.Typed argOps
  cases kv.type with
  | integer => exact .inl ⟨.inl rfl, rfl⟩
  | byteslice => exact .inl ⟨.inr rfl, rfl⟩
  | none => exact .inr ⟨nofun, rfl⟩
  | other _ _ => exact .inr ⟨nofun, rfl⟩

/-- As many arguments are written as there are typed ones. -/
theorem surplus_args (first : AppKeyValue) (kvs : List AppKeyValue) :
    surplus (kvs.flatMap (argOps first)) ≤ kvs.length ∧
      (surplus (kvs.flatMap (argOps first)) = kvs.length → ∀ kv ∈ kvs, kv.Typed) := by
  induction kvs with
  | nil => exact ⟨Int.le_refl _, fun _ _ h => nomatch h⟩
  | cons kv kvs ih =>
      obtain ⟨hle, htyped⟩ := ih
      rw [List.flatMap_cons, surplus_append, List.length_cons, Int.natCast_add]
      rcases surplus_argOps first kv with ⟨hkv, hone⟩ | ⟨-, hzero⟩
      · rw [hone]
        refine ⟨by omega, fun he => ?_⟩
        intro kv' hkv'
        rcases List.mem_cons.mp hkv' with rfl | hkv'
        · exact hkv
        · exact htyped (by omega) kv' hkv'
      · rw [hzero]
        exact ⟨by omega, fun he => by omega⟩

theorem surplus_apan (tx : ApplTx) : surplus (if tx.onComplete.toNat ≠ 0 then
    fieldOps "apan" (.writeUint (UInt64.ofNat tx.onComplete.toNat)) else []) =
      2 * (if tx.onComplete.toNat ≠ 0 then 1 else 0 : Nat) := by
  split
  · simp
  · rfl

theorem surplus_apaa (keyValues : AppValues) : surplus (if keyValues.count ≠ 0 then
    .writeStr (lit "apaa") :: (.startArray keyValues.count :: argsWritten keyValues ++
      [.finishArray]) else []) =
      2 * (if keyValues.count ≠ 0 then 1 else 0 : Nat) +
        (if keyValues.count ≠ 0 then surplus (argsWritten keyValues) - keyValues.count else 0) := by
  split
  · rw [surplus_cons, surplus_append, surplus_cons (.startArray _), surplus_writeStr,
      surplus_startArray, surplus_finishArray]
    omega
  · rfl

/-- The body of an application call is short by the arguments that are not written. -/
theorem surplus_appl {tx : Transaction} {appl : ApplTx} (happl : tx.details.tx = .appl appl)
    (keyValues : AppValues) :
    surplus (bodyAround tx (applCount appl keyValues tx.details.note)
      (applWritten appl keyValues)) =
      1 + (if keyValues.count ≠ 0 then surplus (argsWritten keyValues) - keyValues.count else 0) := by
  rw [bodyAround, surplus_append, surplus_append, surplus_cons, applWritten, rcvOps, happl]
  simp only [surplus_append, surplus_commonOps, surplus_noteOps, surplus_trailingOps, surplus_apan,
    surplus_apaa, surplus_fieldOps, surplus_writeUint, surplus_startMap, surplus_finishMap,
    surplus_nil, applCount]
  omega

/-- A call whose payload is complete has typed arguments. -/
theorem Encoded.argsTyped_of_complete {tx : Transaction} {appl : ApplTx} {ops : List WriteOp}
    {slot : SignedTransaction c} (happl : tx.details.tx = .appl appl) (hops : bodyOps tx = .ok ops)
    (h : Encoded ops slot) (hc : slot.Complete) : ArgsTyped appl.keyValues := by
  obtain ⟨keyValues, hkv, hcount, rfl⟩ := (bodyOps_appl happl).mp hops
  intro keyValues' hkv'
  obtain rfl := Option.some.inj (hkv.symm.trans hkv')
  have hsum := h.surplus_of_complete (allFit_bodyOps hops) hc
  rw [surplus_appl happl] at hsum
  refine (surplus_args keyValues.values[0] keyValues.args).2 ?_
  rw [length_args hcount]
  show surplus (argsWritten keyValues) = _
  by_cases hzero : keyValues.count = 0
  · simp [argsWritten, AppValues.args, hzero]
  · rw [if_pos hzero] at hsum
    omega

/-- The payload of a transaction that can be asked for is complete when its arguments are
typed. -/
theorem Encoded.complete_iff {tx : Transaction} {ops : List WriteOp} {slot : SignedTransaction c}
    (hreq : (∃ pay, tx.details.tx = .pay pay) ∨ ∃ appl, tx.details.tx = .appl appl)
    (hnote : noteAccepted c tx.details.note = true) (hops : bodyOps tx = .ok ops)
    (h : Encoded ops slot) : slot.Complete ↔ ArgsTyped tx.details.tx.args := by
  rcases hreq with ⟨pay, hpay⟩ | ⟨appl, happl⟩
  · obtain rfl := Except.ok.inj ((bodyOps_pay hpay).symm.trans hops)
    have hholds := h.holds_pay hpay hnote
    rw [hpay]
    exact iff_of_true ⟨hholds.inside, _, hholds.root⟩ fun _ h => nomatch h
  · rw [happl]
    constructor
    · intro hc
      exact h.argsTyped_of_complete happl hops hc
    · intro ht
      obtain ⟨keyValues, hkv, hcount, rfl⟩ := (bodyOps_appl happl).mp hops
      have hholds := h.holds_appl happl hcount (ht keyValues hkv)
      exact ⟨hholds.inside, _, hholds.root⟩

/-! ## The calls -/

/-- What can be asked for is encoded, if its arguments can be read at all. -/
theorem encodeTx_request {W : MpackWriter} (hW : W.Lawful) {tx : Transaction}
    (hreq : (∃ pay, tx.details.tx = .pay pay) ∨ ∃ appl, tx.details.tx = .appl appl)
    (hnote : noteAccepted c tx.details.note = true) {slot slot' : SignedTransaction c}
    {err : RetCode} (henc : encodeTx W tx slot = .ok (err, slot')) :
    err = .success ∧ ∃ ops, bodyOps tx = .ok ops ∧ Encoded ops slot' := by
  obtain ⟨ops, hops, ⟨rfl, h⟩ | ⟨rfl, -⟩⟩ := encodeTx_cases hW henc
  · exact ⟨rfl, ops, hops, h⟩
  · rcases hreq with ⟨pay, hpay⟩ | ⟨appl, happl⟩
    · obtain ⟨_, henc', -⟩ := encodeTx_pay hW hpay hnote slot
      exact nomatch henc.symm.trans henc'
    · obtain ⟨keyValues, hkv, hcount, -⟩ := (bodyOps_appl happl).mp hops
      obtain ⟨_, henc', -⟩ := encodeTx_appl hW happl hkv hcount hnote slot
      exact nomatch henc.symm.trans henc'

/-- A slot that has been taken, by a call that fails. -/
theorem not_atomic_of_occupied {s t : Sdk c} {err : RetCode} (hfree : ¬ s.Occupied s.mTxBufferIdx)
    (hocc : t.Occupied s.mTxBufferIdx) (hfail : err ≠ .success) : ¬ Atomic err s t := by
  intro h
  refine hfree ?_
  rw [Sdk.Occupied, ← (h.failed hfail).1]
  exact hocc

theorem atomic_self {s : Sdk c} {err : RetCode} (hfail : err ≠ .success) : Atomic err s s where
  failed _ := ⟨fun _ => rfl, rfl, rfl⟩
  succeeded he := absurd he hfail

theorem loadGenesisHash_err {version : ProviderVersion} {json : CJson}
    {hash hash' : Vector UInt8 blockHashLength} {err : RetCode}
    (h : loadGenesisHash version json hash = .ok (err, hash')) :
    paramsUsable err = true ↔ (version.updateCount = 0 →
      ∀ text ∈ json.stringItem "genesis_hash_b64",
        paramsUsable (b64Decode text text.strlen blockHashLength).1 = true) := by
  unfold loadGenesisHash at h
  split at h
  · next hcount =>
      split at h
      · next text htext =>
          obtain ⟨hash'', -, h⟩ := bind_eq_ok.mp h
          obtain ⟨rfl, -⟩ := pure_eq_ok2.mp h
          exact ⟨fun hu _ _ ht => Option.some.inj (htext.symm.trans ht) ▸ hu,
            fun hu => hu hcount text htext⟩
      · next hnone =>
          obtain ⟨rfl, -⟩ := pure_eq_ok2.mp h
          exact iff_of_true rfl fun _ _ ht => nomatch hnone.symm.trans ht
  · next hcount =>
      obtain ⟨rfl, -⟩ := pure_eq_ok2.mp h
      exact iff_of_true rfl fun hc => absurd hc hcount

/-- `provider_tx_params_load` returns a code the caller goes on with when the parameters can
be had. -/
theorem paramsUsable_iff {p p' : Provider} {reply : HttpReply} {tx tx' : Transaction}
    {err : RetCode}
    (h : providerTxParamsLoad env.cJSON_Parse p reply tx = .ok (err, tx', p')) :
    paramsUsable err = true ↔ ParamsAvailable env p reply := by
  obtain ⟨p₁, hp, h⟩ := bind_eq_ok.mp h
  have havailable (P : Provider → Prop) : (∀ p', httpReceive p reply = .ok p' → P p') ↔ P p₁ :=
    ⟨fun hall => hall p₁ hp, fun h _ hp' => Except.ok.inj (hp.symm.trans hp') ▸ h⟩
  rw [ParamsAvailable, havailable]
  split at h
  · next hsuccess =>
      rw [or_iff_left (fun h => h.1 hsuccess), and_iff_right hsuccess]
      split at h
      · next hnone =>
          obtain ⟨rfl, -⟩ := pure_eq_ok3.mp h
          exact iff_of_false nofun fun ⟨_, hj, _⟩ => nomatch hnone.symm.trans hj
      · next json hjson =>
          obtain ⟨⟨err₁, hash⟩, hhash, h⟩ := bind_eq_ok.mp h
          obtain ⟨rfl, -⟩ := pure_eq_ok3.mp h
          rw [loadGenesisHash_err hhash]
          exact ⟨fun hu => ⟨json, hjson, hu⟩,
            fun ⟨_, hj, hu⟩ => Option.some.inj (hjson.symm.trans hj) ▸ hu⟩
  · next hfail =>
      rw [or_iff_right (fun h => hfail h.1), and_iff_right hfail]
      split at h
      · next hknown =>
          obtain ⟨rfl, -⟩ := pure_eq_ok3.mp h
          exact iff_of_true rfl (.inl hknown)
      · next hunknown =>
          obtain ⟨rfl, -⟩ := pure_eq_ok3.mp h
          rw [or_iff_right hunknown]
          simp [paramsUsable, hfail]

/-- Once the slot has been found free and the note accepted. -/
theorem untroubled_iff {tx₀ tx : Transaction} {reply : HttpReply} {s : Sdk c} {err : RetCode}
    {p : Provider} (free : ¬ s.Occupied s.mTxBufferIdx)
    (accepted : noteAccepted c tx₀.details.note = true)
    (load : providerTxParamsLoad env.cJSON_Parse s.mProvider reply tx₀ = .ok (err, tx, p)) :
    Untroubled env s reply tx₀.details.note tx₀.details.tx.args ↔
      paramsUsable err = true ∧ s.HasRoom ∧ ArgsTyped tx₀.details.tx.args := by
  rw [Untroubled, or_iff_right free, accepted, or_iff_right nofun, paramsUsable_iff load]

theorem creation_atomic (hW : env.writer.Lawful) {tx₀ : Transaction}
    (hreq : (∃ pay, tx₀.details.tx = .pay pay) ∨ ∃ appl, tx₀.details.tx = .appl appl)
    {reply : HttpReply} {s t : Sdk c} {err : RetCode} (h : Creation env tx₀ reply s err t) :
    Atomic err s t ↔ Untroubled env s reply tx₀.details.note tx₀.details.tx.args := by
  -- the transaction encoded is the one asked for, with its parameters
  have hsame {err₀ : RetCode} {tx : Transaction} {p : Provider}
      (load : providerTxParamsLoad env.cJSON_Parse s.mProvider reply tx₀ = .ok (err₀, tx, p)) :
      ((∃ pay, tx.details.tx = .pay pay) ∨ ∃ appl, tx.details.tx = .appl appl) ∧
        tx.details.note = tx₀.details.note ∧ tx.details.tx = tx₀.details.tx := by
    obtain ⟨-, hnote, htx⟩ := providerTxParamsLoad_sameRequest load
    exact ⟨by rw [htx]; exact hreq, hnote, htx⟩
  cases h with
  | noMem occupied => exact iff_of_true (atomic_self nofun) (.inl occupied)
  | invalidParam _ refused => exact iff_of_true (atomic_self nofun) (.inr (.inl refused))
  | noParams free accepted load unusable =>
      rw [untroubled_iff free accepted load]
      refine iff_of_false (not_atomic_of_occupied free ?_ ?_) fun hu => ?_
      · rw [Sdk.Occupied, Sdk.slot_loaded_self]
        exact Nat.ne_of_gt (Nat.lt_of_lt_of_le (by decide) c.payload_room)
      · rintro rfl
        cases unusable
      · cases unusable.symm.trans hu.1
  | notEncoded free accepted load usable encode failed =>
      obtain ⟨hreq', hnote, -⟩ := hsame load
      exact absurd (encodeTx_request hW hreq' (by rw [hnote]; exact accepted) encode).1 failed
  | @scheduled _ _ tx p slot free accepted load usable encode =>
      obtain ⟨hreq', hnote, htx⟩ := hsame load
      have hnote' : noteAccepted c tx.details.note = true := by rw [hnote]; exact accepted
      obtain ⟨-, ops, hops, henc⟩ := encodeTx_request hW hreq' hnote' encode
      have hslot : (((s.loaded p).setSlot s.mTxBufferIdx slot).scheduleReadyToSign.2).slot
          s.mTxBufferIdx = slot := by
        rw [Sdk.slot_scheduleReadyToSign, Sdk.slot_setSlot_self]
      rw [untroubled_iff free accepted load, ← htx, ← henc.complete_iff hreq' hnote' hops]
      rcases Sdk.scheduleReadyToSign_cases ((s.loaded p).setSlot s.mTxBufferIdx slot) with
        ⟨hroom, herr, -⟩ | ⟨hroom, herr⟩
      · rw [herr]
        constructor
        · intro ha
          have := ha.succeeded rfl
          rw [hslot] at this
          exact ⟨usable, hroom, this⟩
        · rintro ⟨-, -, hc⟩
          exact ⟨fun hne => absurd rfl hne, fun _ => by rw [hslot]; exact hc⟩
      · rw [herr]
        refine iff_of_false (not_atomic_of_occupied free ?_ nofun) fun hu => hroom hu.2.1
        have hlong := le_opLength_bodyOps hops
        rw [Sdk.Occupied, hslot, henc.body]
        omega

/-- A call of `transaction_pay` or `transaction_appl` takes effect or has none exactly when
nothing goes wrong after it has taken the slot. -/
theorem creation_atomic_iff (hW : env.writer.Lawful) (sender : AccountPtr) (reply : HttpReply)
    (s : Sdk c) :
    (∀ receiver amount params err t,
      transactionPay env sender receiver amount params reply s = .ok (err, t) →
      (Atomic err s t ↔ Untroubled env s reply params none)) ∧
    (∀ appId params err t, transactionAppl env sender appId params reply s = .ok (err, t) →
      (Atomic err s t ↔ Untroubled env s reply none params)) := by
  refine ⟨fun receiver amount params err t h => ?_, fun appId params err t h => ?_⟩
  · exact creation_atomic hW (.inl ⟨_, rfl⟩) (transactionPay_creation h)
  · obtain ⟨_, hc⟩ := transactionAppl_creation h
    exact creation_atomic hW (.inr ⟨_, rfl⟩) hc

/-- The node cannot be reached, and nothing is known of its parameters. -/
def unreachableReply : HttpReply := ⟨[], .errorInternal, 0⟩

/-- A payment from the initial state, to an address of ones. -/
def firstPayment (reply : HttpReply) (s : Sdk .default) : Except Fault (RetCode × Sdk .default) :=
  transactionPay .example (.other AccountDetails.zero.info) (Vector.replicate _ 1) 5 none reply s

/-- The first slot, taken by a call that then fails. -/
def takenSlot : Sdk .default := (Sdk.init .default .zero accountInit).loaded .zero

theorem firstPayment_unreachable :
    firstPayment unreachableReply (.init .default .zero accountInit) =
      .ok (.errorInternal, takenSlot) := rfl

/-- The failed payment has no effect exactly when nothing went wrong. -/
theorem creation_atomic_iff_unreachable :
    Atomic .errorInternal (Sdk.init .default .zero accountInit) takenSlot ↔
      Untroubled .example (Sdk.init .default .zero accountInit) unreachableReply none none :=
  (creation_atomic_iff appendWriter_lawful (.other AccountDetails.zero.info) unreachableReply
    (Sdk.init .default .zero accountInit)).1 _ _ _ _ _ firstPayment_unreachable

/-- A payment that fails keeps its slot, and no later one is accepted. -/
theorem failed_payment_keeps_slot :
    ∃ t, firstPayment unreachableReply (.init .default .zero accountInit) = .ok (.errorInternal, t) ∧
      ¬ Atomic .errorInternal (.init .default .zero accountInit) t ∧
      ∀ reply, firstPayment reply t = .ok (.errorNoMem, t) := by
  have hocc : takenSlot.Occupied takenSlot.mTxBufferIdx := by decide
  refine ⟨takenSlot, firstPayment_unreachable, ?_, fun reply => ?_⟩
  · exact not_atomic_of_occupied (by decide) hocc nofun
  · rw [firstPayment, transactionPay, if_pos hocc]
    rfl

end Vertices
