/-
# `Vertices.Transaction` — `src/algorand/algorand_transaction.c`

A slot is marked as taken, the parameters are fetched, the payload is encoded and the
event is queued, in this order, with an exit after each; only `transactionFree` gives
a slot back.

A pointer to a slot is its subscript.  A subscript that comes from an event is
checked by nobody, hence `subscript` in `transactionGet`, `transactionFree` and
`transactionPendingSend`.
-/
import Vertices.Sdk

namespace Vertices

open MsgPack

variable {c : Config}

/-! ## The signature -/

/-- `encode_tx_replace_signature`, on its slot.  The reader is given the first
`payload_body_length` bytes of the payload. -/
def encodeTxReplaceSignature (R : MpackReader) (slot : SignedTransaction c) :
    Except Fault (RetCode × SignedTransaction c) :=
  if slot.payloadBodyLength = 0 then return (.errorInvalidParam, slot)
  else
    let data := slot.payload.toList.take slot.payloadBodyLength
    let (mapTag, reader) := R.mpackReadTag (mpackReaderInitData data)
    match reader.ok, mapTag with
    | true, .map _ =>
        let (tag, reader) := R.mpackReadTag reader
        match tag with
        | .str length =>
            let (key, reader) := mpackReadBytesInplace reader length
            match key with
            | none => throw .nullDeref
            | some key =>
                if strncmpEq key (lit "sig") length then
                  let (signatureTag, reader) := R.mpackReadTag reader
                  if tagBinLength signatureTag = signatureLength then
                    let offset := data.length - reader.rest.length
                    let (signaturePtr, _) := mpackReadBytesInplace reader signatureLength
                    match signaturePtr with
                    | none => throw .nullDeref
                    | some _ => do
                        let payload ← memcpy slot.payload offset slot.signature.toList
                        return (.success, { slot with payload := payload })
                  else return (.errorNotFound, slot)
                else return (.errorNotFound, slot)
        | _ => return (.errorNotFound, slot)
    | _, _ => return (.errorNotFound, slot)

/-! ## Creating a transaction -/

/-- `payload_body_length = sizeof payload`, which takes the slot. -/
def Sdk.takeSlot (s : Sdk c) : Sdk c :=
  (s.setSlot s.mTxBufferIdx
    { s.slot s.mTxBufferIdx with payloadBodyLength := c.txPayloadMaxLength }).record
    (.slotTaken s.mTxBufferIdx)

/-- The end of `transaction_pay` and `transaction_appl`: the slot is passed on, the event
queued. -/
def Sdk.scheduleReadyToSign (s : Sdk c) : RetCode × Sdk c :=
  { s with mTxBufferIdx := s.mTxBufferIdx + 1 }.schedule ⟨.txReadyToSign, s.mTxBufferIdx⟩

/-- A `transaction_t` after `= {0}`, with the sender, the default fee, the note and the
part of its type. -/
def Transaction.new (senderPub : Vector UInt8 addressLength) (note : Option CStr) (tx : TxBody) :
    Transaction where
  senderPub := senderPub
  fee := txDefaultFee
  genesisHash := Vector.replicate _ 0
  details := { firstValid := 0, lastValid := 0, note := note, tx := tx }

/-- `err_code != VTC_SUCCESS && err_code != VTC_ERROR_OFFLINE`, negated. -/
def paramsUsable (err : RetCode) : Bool := err = .success ∨ err = .errorOffline

/-- `transaction_pay`. -/
def transactionPay (env : Env) (sender : AccountPtr) (receiver : Vector UInt8 addressLength)
    (amount : UInt64) (params : Option CStr) (reply : HttpReply) (s : Sdk c) :
    Except Fault (RetCode × Sdk c) :=
  if s.Occupied s.mTxBufferIdx then return (.errorNoMem, s)
  else if noteAccepted c params = false then return (.errorInvalidParam, s)
  else do
    let s := s.takeSlot
    let txFull := Transaction.new (sender.info s.mAccounts).publicKey params
      (.pay { receiver := receiver, amount := amount })
    let (err, txFull, provider) ← providerTxParamsLoad env.cJSON_Parse s.mProvider reply txFull
    let s := { s with mProvider := provider }
    if paramsUsable err = false then return (err, s)
    else do
      -- an error of the encoder is logged, no more
      let (_, slot) ← encodeTx env.writer txFull (s.slot s.mTxBufferIdx)
      return (s.setSlot s.mTxBufferIdx slot).scheduleReadyToSign

/-- `on_complete` as `transaction_appl` chooses it. -/
def applOnComplete (hasApp : Bool) : TxOnComplete := if hasApp then .noop else .optIn

/-- `transaction_appl`. -/
def transactionAppl (env : Env) (sender : AccountPtr) (appId : UInt64)
    (params : Option AppValues) (reply : HttpReply) (s : Sdk c) :
    Except Fault (RetCode × Sdk c) :=
  if s.Occupied s.mTxBufferIdx then return (.errorNoMem, s)
  else do
    let s := s.takeSlot
    let hasApp ← accountHasApp sender appId s.mAccounts
    let txFull := Transaction.new (sender.info s.mAccounts).publicKey none
      (.appl { appId := appId, onComplete := applOnComplete hasApp, keyValues := params })
    let (err, txFull, provider) ← providerTxParamsLoad env.cJSON_Parse s.mProvider reply txFull
    let s := { s with mProvider := provider }
    if paramsUsable err = false then return (err, s)
    else do
      let (err, slot) ← encodeTx env.writer txFull (s.slot s.mTxBufferIdx)
      let s := s.setSlot s.mTxBufferIdx slot
      if err ≠ .success then return (err, s)
      else return s.scheduleReadyToSign

/-! ## The slots of events -/

/-- `transaction_get`: the pointer it hands out, when it does. -/
def transactionGet (bufid : Nat) (s : Sdk c) :
    Except Fault (RetCode × Option (Fin pendingTxCount)) := do
  let b ← subscript pendingTxCount bufid
  if s.Occupied b then return (.success, some b)
  else return (.errorInvalidParam, none)

/-- `transaction_free`. -/
def transactionFree (bufid : Nat) (s : Sdk c) : Except Fault (RetCode × Sdk c) := do
  let b ← subscript pendingTxCount bufid
  if s.Occupied b then return (.success, (s.setSlot b (.zero c)).record (.slotFreed b))
  else return (.errorInvalidParam, s)

/-- The payload a slot posts; an encoding that does not lie within it is read past the
end. -/
def SignedTransaction.postBody (slot : SignedTransaction c) : Except Fault (List UInt8) :=
  let payloadLen := slot.payloadBodyLength + slot.payloadHeaderLength
  if payloadLen ≤ c.txPayloadMaxLength then return slot.payload.toList.take payloadLen
  else throw .outOfBounds

/-- The post has been made: the slot with its signature and id, the answer received. -/
def Sdk.posted (s : Sdk c) (b : Fin pendingTxCount) (slot : SignedTransaction c) (p : Provider)
    (request : HttpPost) (reply : HttpReply) : Sdk c :=
  { s.setSlot b slot with mProvider := p }.record
    (.httpPost b request reply.err reply.responseCode)

/-- `transaction_pending_send` from the return of `provider_tx_post` on.  The code of
scheduling the success is dropped. -/
def finishSend (b : Fin pendingTxCount) (slot : SignedTransaction c) (reply : HttpReply)
    (s : Sdk c) :
    HttpPost × RetCode × Vector UInt8 transactionHashStrMaxLength × Provider → RetCode × Sdk c
  | (request, err, id, provider) =>
      let s := s.posted b { slot with id := id } provider request reply
      -- transaction has been executed
      if err = .success then (err, (s.schedule ⟨.txSuccess, b⟩).2) else (err, s)

/-- `transaction_pending_send`. -/
def transactionPendingSend (env : Env) (bufid : Nat) (reply : HttpReply) (s : Sdk c) :
    Except Fault (RetCode × Sdk c) := do
  let b ← subscript pendingTxCount bufid
  if ¬ s.Occupied b then return (.errorInvalidParam, s)
  else do
    let (_, slot) ← encodeTxReplaceSignature env.reader (s.slot b)
    let body ← slot.postBody
    let answer ← providerTxPost env.cJSON_Parse s.mProvider reply body slot.id
    return finishSend b slot reply s answer

/-! ## What creating a transaction can do

`transaction_pay` and `transaction_appl` share their outcomes.  `tx₀` is the
transaction before the parameters are loaded. -/

/-- The slot is taken, the parameters loaded. -/
def Sdk.loaded (s : Sdk c) (p : Provider) : Sdk c := { s.takeSlot with mProvider := p }

inductive Creation (env : Env) (tx₀ : Transaction) (reply : HttpReply) (s : Sdk c) :
    RetCode → Sdk c → Prop
  /-- The slot is not free. -/
  | noMem (occupied : s.Occupied s.mTxBufferIdx) : Creation env tx₀ reply s .errorNoMem s
  /-- The note is refused. -/
  | invalidParam (free : ¬ s.Occupied s.mTxBufferIdx)
      (refused : noteAccepted c tx₀.details.note = false) :
      Creation env tx₀ reply s .errorInvalidParam s
  /-- The parameters cannot be had. -/
  | noParams {err : RetCode} {tx : Transaction} {p : Provider}
      (free : ¬ s.Occupied s.mTxBufferIdx) (accepted : noteAccepted c tx₀.details.note = true)
      (load : providerTxParamsLoad env.cJSON_Parse s.mProvider reply tx₀ = .ok (err, tx, p))
      (unusable : paramsUsable err = false) :
      Creation env tx₀ reply s err (s.loaded p)
  /-- The payload does not fit. -/
  | notEncoded {err₀ err : RetCode} {tx : Transaction} {p : Provider} {slot : SignedTransaction c}
      (free : ¬ s.Occupied s.mTxBufferIdx) (accepted : noteAccepted c tx₀.details.note = true)
      (load : providerTxParamsLoad env.cJSON_Parse s.mProvider reply tx₀ = .ok (err₀, tx, p))
      (usable : paramsUsable err₀ = true)
      (encode : encodeTx env.writer tx ((s.loaded p).slot s.mTxBufferIdx) = .ok (err, slot))
      (failed : err ≠ .success) :
      Creation env tx₀ reply s err ((s.loaded p).setSlot s.mTxBufferIdx slot)
  /-- The payload is in the slot, and the event is scheduled. -/
  | scheduled {err₀ err : RetCode} {tx : Transaction} {p : Provider} {slot : SignedTransaction c}
      (free : ¬ s.Occupied s.mTxBufferIdx) (accepted : noteAccepted c tx₀.details.note = true)
      (load : providerTxParamsLoad env.cJSON_Parse s.mProvider reply tx₀ = .ok (err₀, tx, p))
      (usable : paramsUsable err₀ = true)
      (encode : encodeTx env.writer tx ((s.loaded p).slot s.mTxBufferIdx) = .ok (err, slot)) :
      Creation env tx₀ reply s
        ((s.loaded p).setSlot s.mTxBufferIdx slot).scheduleReadyToSign.1
        ((s.loaded p).setSlot s.mTxBufferIdx slot).scheduleReadyToSign.2

/-- The transaction `transaction_pay` fills in. -/
def payRequest (s : Sdk c) (sender : AccountPtr) (receiver : Vector UInt8 addressLength)
    (amount : UInt64) (params : Option CStr) : Transaction :=
  .new (sender.info s.mAccounts).publicKey params (.pay { receiver := receiver, amount := amount })

/-- The transaction `transaction_appl` fills in. -/
def applRequest (s : Sdk c) (sender : AccountPtr) (appId : UInt64) (params : Option AppValues)
    (hasApp : Bool) : Transaction :=
  .new (sender.info s.mAccounts).publicKey none
    (.appl { appId := appId, onComplete := applOnComplete hasApp, keyValues := params })

theorem transactionPay_creation {env : Env} {sender : AccountPtr}
    {receiver : Vector UInt8 addressLength} {amount : UInt64} {params : Option CStr}
    {reply : HttpReply} {s t : Sdk c} {err : RetCode}
    (h : transactionPay env sender receiver amount params reply s = .ok (err, t)) :
    Creation env (payRequest s sender receiver amount params) reply s err t := by
  unfold transactionPay at h
  split at h
  · next hocc =>
      obtain ⟨rfl, rfl⟩ := pure_eq_ok2.mp h
      exact .noMem hocc
  · next hfree =>
      split at h
      · next hnote =>
          obtain ⟨rfl, rfl⟩ := pure_eq_ok2.mp h
          exact .invalidParam hfree hnote
      · next hnote =>
          have hacc : noteAccepted c params = true := by simpa using hnote
          obtain ⟨⟨err₀, tx, p⟩, hload, h⟩ := bind_eq_ok.mp h
          dsimp only at h
          split at h
          · next hun =>
              obtain ⟨rfl, rfl⟩ := pure_eq_ok2.mp h
              exact .noParams hfree hacc hload hun
          · next hus =>
              obtain ⟨⟨err₁, slot⟩, henc, h⟩ := bind_eq_ok.mp h
              obtain ⟨rfl, rfl⟩ := pure_eq_ok2.mp h
              exact .scheduled hfree hacc hload (by simpa using hus) henc

theorem transactionAppl_creation {env : Env} {sender : AccountPtr} {appId : UInt64}
    {params : Option AppValues} {reply : HttpReply} {s t : Sdk c} {err : RetCode}
    (h : transactionAppl env sender appId params reply s = .ok (err, t)) :
    ∃ hasApp, Creation env (applRequest s sender appId params hasApp) reply s err t := by
  unfold transactionAppl at h
  split at h
  · next hocc =>
      obtain ⟨rfl, rfl⟩ := pure_eq_ok2.mp h
      exact ⟨true, .noMem hocc⟩
  · next hfree =>
      obtain ⟨hasApp, -, h⟩ := bind_eq_ok.mp h
      refine ⟨hasApp, ?_⟩
      obtain ⟨⟨err₀, tx, p⟩, hload, h⟩ := bind_eq_ok.mp h
      dsimp only at h
      split at h
      · next hun =>
          obtain ⟨rfl, rfl⟩ := pure_eq_ok2.mp h
          exact .noParams hfree rfl hload hun
      · next hus =>
          obtain ⟨⟨err₁, slot⟩, henc, h⟩ := bind_eq_ok.mp h
          dsimp only at h
          split at h
          · next hne =>
              obtain ⟨rfl, rfl⟩ := pure_eq_ok2.mp h
              exact .notEncoded hfree rfl hload (by simpa using hus) henc hne
          · obtain ⟨rfl, rfl⟩ := pure_eq_ok2.mp h
            exact .scheduled hfree rfl hload (by simpa using hus) henc

theorem Sdk.slot_loaded_of_ne (s : Sdk c) (p : Provider) {b : Fin pendingTxCount}
    (h : b ≠ s.mTxBufferIdx) : (s.loaded p).slot b = s.slot b :=
  s.slot_setSlot_ne _ h

/-- The slot taken is marked with the size of its payload. -/
theorem Sdk.slot_loaded_self (s : Sdk c) (p : Provider) :
    (s.loaded p).slot s.mTxBufferIdx =
      { s.slot s.mTxBufferIdx with payloadBodyLength := c.txPayloadMaxLength } :=
  s.slot_setSlot_self _ _

@[simp] theorem Sdk.slot_scheduleReadyToSign (s : Sdk c) (b : Fin pendingTxCount) :
    s.scheduleReadyToSign.2.slot b = s.slot b :=
  Sdk.slot_schedule _ _ _

theorem Sdk.scheduleReadyToSign_cases (s : Sdk c) :
    (s.HasRoom ∧ s.scheduleReadyToSign.1 = .success ∧
      s.scheduleReadyToSign.2.events = s.events ++ [⟨.txReadyToSign, s.mTxBufferIdx⟩] ∧
      s.scheduleReadyToSign.2.mTxBufferIdx = s.mTxBufferIdx + 1 ∧
      s.scheduleReadyToSign.2.history =
        s.history ++ [.queued ⟨.txReadyToSign, s.mTxBufferIdx⟩]) ∨
    (¬ s.HasRoom ∧ s.scheduleReadyToSign.1 = .errorNoMem) := by
  rw [scheduleReadyToSign]
  rcases schedule_cases _ _ with ⟨hroom, queue, hq, hs⟩ | ⟨hroom, hs⟩
  · rw [hs]; exact .inl ⟨hroom, rfl, hq, rfl, rfl⟩
  · rw [hs]; exact .inr ⟨hroom, rfl⟩

/-- Creating a transaction leaves the slots that are taken alone. -/
theorem Creation.slot_of_occupied {env : Env} {tx₀ : Transaction} {reply : HttpReply}
    {s t : Sdk c} {err : RetCode} (h : Creation env tx₀ reply s err t) {b : Fin pendingTxCount}
    (hb : s.Occupied b) : t.slot b = s.slot b := by
  have hne : ¬ s.Occupied s.mTxBufferIdx → b ≠ s.mTxBufferIdx := fun hfree he => hfree (he ▸ hb)
  cases h with
  | noMem _ | invalidParam _ _ => rfl
  | noParams free _ _ _ => exact s.slot_loaded_of_ne _ (hne free)
  | notEncoded free _ _ _ _ _ =>
      rw [Sdk.slot_setSlot_ne _ _ (hne free), s.slot_loaded_of_ne _ (hne free)]
  | scheduled free _ _ _ _ =>
      rw [Sdk.slot_scheduleReadyToSign, Sdk.slot_setSlot_ne _ _ (hne free),
        s.slot_loaded_of_ne _ (hne free)]

/-- Creating a transaction takes a slot that is free, and queues its event last. -/
theorem Creation.history {env : Env} {tx₀ : Transaction} {reply : HttpReply} {s t : Sdk c}
    {err : RetCode} (h : Creation env tx₀ reply s err t) :
    t.history = s.history ∨
      (¬ s.Occupied s.mTxBufferIdx ∧
        (t.history = s.history ++ [.slotTaken s.mTxBufferIdx] ∨
          t.history = s.history ++
            [.slotTaken s.mTxBufferIdx, .queued ⟨.txReadyToSign, s.mTxBufferIdx⟩])) := by
  cases h with
  | noMem _ | invalidParam _ _ => exact .inl rfl
  | noParams free _ _ _ => exact .inr ⟨free, .inl rfl⟩
  | notEncoded free _ _ _ _ _ => exact .inr ⟨free, .inl rfl⟩
  | scheduled free _ _ _ _ =>
      refine .inr ⟨free, ?_⟩
      rw [Sdk.scheduleReadyToSign, Sdk.history_schedule]
      split
      · exact .inr (List.append_assoc _ [_] [_])
      · exact .inl (List.append_nil _)

/-! ## What sending can do -/

/-- Replacing the signature changes the payload only. -/
theorem encodeTxReplaceSignature_frame {R : MpackReader} {slot slot' : SignedTransaction c}
    {err : RetCode} (h : encodeTxReplaceSignature R slot = .ok (err, slot')) :
    ∃ payload, slot' = { slot with payload := payload } := by
  unfold encodeTxReplaceSignature at h
  dsimp only at h
  repeat' split at h
  all_goals first
    | exact ⟨slot.payload, (pure_eq_ok2.mp h).2.symm⟩
    | exact absurd h (throw_ne_ok _ _)
    | (obtain ⟨payload, -, h⟩ := bind_eq_ok.mp h
       exact ⟨payload, (pure_eq_ok2.mp h).2.symm⟩)

/-- The outcomes of `transaction_pending_send` for a slot. -/
inductive Sending (env : Env) (b : Fin pendingTxCount) (reply : HttpReply) (s : Sdk c) :
    RetCode → Sdk c → Prop
  | notPending (free : ¬ s.Occupied b) : Sending env b reply s .errorInvalidParam s
  | posted {err err' : RetCode} {slot : SignedTransaction c} {body : List UInt8}
      {request : HttpPost} {id : Vector UInt8 transactionHashStrMaxLength} {p : Provider}
      (occupied : s.Occupied b)
      (sign : encodeTxReplaceSignature env.reader (s.slot b) = .ok (err', slot))
      (postBody : slot.postBody = .ok body)
      (post : providerTxPost env.cJSON_Parse s.mProvider reply body slot.id =
        .ok (request, err, id, p))
      (failed : err ≠ .success) :
      Sending env b reply s err (s.posted b { slot with id := id } p request reply)
  | succeeded {err' : RetCode} {slot : SignedTransaction c} {body : List UInt8}
      {request : HttpPost} {id : Vector UInt8 transactionHashStrMaxLength} {p : Provider}
      (occupied : s.Occupied b)
      (sign : encodeTxReplaceSignature env.reader (s.slot b) = .ok (err', slot))
      (postBody : slot.postBody = .ok body)
      (post : providerTxPost env.cJSON_Parse s.mProvider reply body slot.id =
        .ok (request, .success, id, p)) :
      Sending env b reply s .success
        ((s.posted b { slot with id := id } p request reply).schedule ⟨.txSuccess, b⟩).2

theorem Sdk.slot_posted (s : Sdk c) (b b' : Fin pendingTxCount) (slot : SignedTransaction c)
    (p : Provider) (request : HttpPost) (reply : HttpReply) :
    (s.posted b slot p request reply).slot b' = if b' = b then slot else s.slot b' :=
  s.slot_setSlot b b' slot

/-- Posting keeps the slot taken. -/
theorem Sdk.occupied_posted {env : Env} {s : Sdk c} {b b' : Fin pendingTxCount} {err' : RetCode}
    {slot : SignedTransaction c}
    (sign : encodeTxReplaceSignature env.reader (s.slot b') = .ok (err', slot))
    (id : Vector UInt8 transactionHashStrMaxLength) (p : Provider) (request : HttpPost)
    (reply : HttpReply) :
    (s.posted b' { slot with id := id } p request reply).Occupied b ↔ s.Occupied b := by
  obtain ⟨payload, rfl⟩ := encodeTxReplaceSignature_frame sign
  have hlength : ({ s.slot b' with payload := payload, id := id } : SignedTransaction c).payloadBodyLength
      = (s.slot b').payloadBodyLength := rfl
  exact Sdk.occupied_setSlot hlength b

theorem transactionPendingSend_sending {env : Env} {bufid : Nat} {reply : HttpReply}
    {s t : Sdk c} {err : RetCode} (h : transactionPendingSend env bufid reply s = .ok (err, t)) :
    ∃ b : Fin pendingTxCount, b.val = bufid ∧ Sending env b reply s err t := by
  obtain ⟨b, hb, h⟩ := bind_eq_ok.mp h
  refine ⟨b, subscript_eq_ok.mp hb, ?_⟩
  split at h
  · next hfree =>
      obtain ⟨rfl, rfl⟩ := pure_eq_ok2.mp h
      exact .notPending hfree
  · next hocc =>
      obtain ⟨⟨err', slot⟩, hsign, h⟩ := bind_eq_ok.mp h
      obtain ⟨body, hbody, h⟩ := bind_eq_ok.mp h
      obtain ⟨⟨request, err₁, id, p⟩, hpost, h⟩ := bind_eq_ok.mp h
      have h : finishSend b slot reply s (request, err₁, id, p) = (err, t) := pure_eq_ok.mp h
      by_cases he : err₁ = .success
      · rw [finishSend, if_pos he] at h
        subst he
        obtain ⟨rfl, rfl⟩ := Prod.mk.inj h
        exact .succeeded (not_not.mp hocc) hsign hbody hpost
      · rw [finishSend, if_neg he] at h
        obtain ⟨rfl, rfl⟩ := Prod.mk.inj h
        exact .posted (not_not.mp hocc) hsign hbody hpost he

/-- The code of the post is the HTTP outcome, or what reading the answer gave. -/
theorem providerTxPost_err {cJSON_Parse : CJsonParse} {p p' : Provider} {reply : HttpReply}
    {body : List UInt8} {id id' : Vector UInt8 transactionHashStrMaxLength} {request : HttpPost}
    {err : RetCode}
    (h : providerTxPost cJSON_Parse p reply body id = .ok (request, err, id', p')) :
    httpReceive p reply = .ok p' ∧ request.body = body ∧
      ((postStatus reply ≠ .success ∧ err = postStatus reply ∧ id' = id) ∨
        (postStatus reply = .success ∧
          readTxId cJSON_Parse p'.rxString id = .ok (err, id'))) := by
  obtain ⟨header, -, h⟩ := bind_eq_ok.mp h
  obtain ⟨p₁, hp, h⟩ := bind_eq_ok.mp h
  split at h
  · next hs =>
      obtain ⟨⟨err₁, id₁⟩, hr, h⟩ := bind_eq_ok.mp h
      obtain ⟨rfl, rfl, rfl, rfl⟩ := pure_eq_ok4.mp h
      exact ⟨hp, rfl, .inr ⟨hs, hr⟩⟩
  · next hs =>
      obtain ⟨rfl, rfl, rfl, rfl⟩ := pure_eq_ok4.mp h
      exact ⟨hp, rfl, .inl ⟨hs, rfl, rfl⟩⟩

end Vertices
