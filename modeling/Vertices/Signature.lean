/-
# `Vertices.Signature` — what is posted is what was signed

The signature is found again by parsing the payload, and the reader is given only the
first `payload_body_length` of its bytes.  That is enough because every body is longer
than the 71 bytes up to the end of the signature (`le_opLength_bodyOps`).

`Signable body slot` is the invariant: 64 bytes between the keys `sig` and `txn`, and
then `body`.  Storing a signature, replacing it, receiving the transaction's id and
whatever is done to the other slots keep it, until the slot is freed.
-/
import Vertices.EncodeBytes
import Vertices.Process

namespace Vertices

open MsgPack Transition

variable {c : Config} {env : Env}

/-- What the handler is given to sign: the bytes from `payload_header_length` on. -/
def SignedTransaction.toSign (slot : SignedTransaction c) : List UInt8 :=
  (slot.payload.toList.drop slot.payloadHeaderLength).take slot.payloadBodyLength

/-- The first `0x82`, `sig` and the head of a `bin` of 64 bytes. -/
def signaturePrefix : List UInt8 := 0x82 :: 0xa3 :: lit "sig" ++ [0xc4, 0x40]

/-- The signed transaction as the node expects it. -/
def postBytes (signature body : List UInt8) : List UInt8 :=
  signaturePrefix ++ signature ++ (0xa3 :: lit "txn") ++ body

/-- The slot holds a transaction that can be signed, and sent. -/
structure Signable (body : List UInt8) (slot : SignedTransaction c) : Prop where
  header : slot.payloadHeaderLength = 75
  length : slot.payloadBodyLength = body.length
  long : 115 ≤ body.length
  fits : 75 + body.length ≤ c.txPayloadMaxLength
  bytes : ∃ signature : Vector UInt8 signatureLength,
    slot.payload.toList.take (75 + body.length) = postBytes signature.toList body

theorem Encoded.signable {ops : List WriteOp} {slot : SignedTransaction c} (h : Encoded ops slot)
    (hlong : 115 ≤ opLength ops) : Signable (opBytes ops) slot where
  header := h.header
  length := h.body
  long := hlong
  fits := h.fits
  bytes := by
    refine ⟨Vector.replicate _ 0, ?_⟩
    have hheader : opBytes headerOps = postBytes (List.replicate signatureLength 0) [] := by decide
    rw [show (opBytes ops).length = opLength ops from rfl, h.bytes, hheader, Vector.toList_replicate]
    simp [postBytes]

namespace Signable

variable {body : List UInt8} {slot : SignedTransaction c}

theorem length_postBytes (signature : Vector UInt8 signatureLength) (body : List UInt8) :
    (postBytes signature.toList body).length = 75 + body.length := by
  have : (lit "txn").length = 3 := by decide
  have : signaturePrefix.length = 7 := by decide
  simp only [postBytes, List.length_append, List.length_cons, Vector.length_toList,
    signatureLength]
  omega

theorem toSign_eq (h : Signable body slot) : slot.toSign = body := by
  obtain ⟨signature, hbytes⟩ := h.bytes
  rw [SignedTransaction.toSign, h.header, h.length, List.take_drop, Nat.add_comm, Nat.add_comm,
    hbytes, postBytes]
  refine List.drop_left' ?_
  have := length_postBytes signature []
  simpa [postBytes] using this

/-- The bytes the reader is given: up to the end of the signature at the least. -/
theorem data_eq (h : Signable body slot) :
    ∃ (signature : Vector UInt8 signatureLength) (rest : List UInt8),
      slot.payload.toList.take slot.payloadBodyLength =
        signaturePrefix ++ (signature.toList ++ rest) := by
  obtain ⟨signature, hbytes⟩ := h.bytes
  have hpre : (signaturePrefix ++ signature.toList).length = 71 := by
    rw [List.length_append, Vector.length_toList]; decide
  have hlong := h.long
  refine ⟨signature, ((0xa3 :: lit "txn") ++ body).take (body.length - 71), ?_⟩
  have htake : slot.payload.toList.take slot.payloadBodyLength =
      (postBytes signature.toList body).take body.length := by
    rw [h.length, ← hbytes, List.take_take, Nat.min_eq_left (by omega)]
  rw [htake, postBytes, List.append_assoc, List.take_append, hpre,
    List.take_of_length_le (by omega), List.append_assoc]

/-- Any slot that differs in its signature and its id only. -/
theorem of_payload {slot' : SignedTransaction c} (h : Signable body slot)
    (hpayload : slot'.payload = slot.payload)
    (hheader : slot'.payloadHeaderLength = slot.payloadHeaderLength)
    (hbody : slot'.payloadBodyLength = slot.payloadBodyLength) : Signable body slot' where
  header := hheader.trans h.header
  length := hbody.trans h.length
  long := h.long
  fits := h.fits
  bytes := by rw [hpayload]; exact h.bytes

end Signable

/-! ## Replacing the signature -/

/-- Room for the signature, behind its seven bytes of prefix. -/
theorem signature_room (slot : SignedTransaction c) :
    7 + slot.signature.toList.length ≤ c.txPayloadMaxLength := by
  have := c.payload_room
  rw [Vector.length_toList]
  simp only [signatureLength]
  omega

/-- The slot with its signature copied into the payload. -/
def SignedTransaction.withSignature (slot : SignedTransaction c) : SignedTransaction c :=
  { slot with payload := splice slot.payload 7 slot.signature.toList (signature_room slot) }

variable {R : MpackReader} {body : List UInt8} {slot : SignedTransaction c}

/-- `encode_tx_replace_signature` finds the signature where `encode_tx` has put it. -/
theorem Signable.replaceSignature (h : Signable body slot) (hR : R.Lawful) :
    encodeTxReplaceSignature R slot = .ok (.success, slot.withSignature) := by
  obtain ⟨signature, rest, hdata⟩ := h.data_eq
  have hne : slot.payloadBodyLength ≠ 0 := by
    have := h.long
    rw [h.length]; omega
  have hmap : decodeTag (signaturePrefix ++ (signature.toList ++ rest)) =
      some (.map 2, 0xa3 :: (lit "sig" ++ (0xc4 :: 0x40 :: (signature.toList ++ rest)))) :=
    decodeTag_head (i := .map 2) (show (2 : Nat) < 2 ^ 32 by decide) _
  have hstr : decodeTag (0xa3 :: (lit "sig" ++ (0xc4 :: 0x40 :: (signature.toList ++ rest)))) =
      some (.str 3, lit "sig" ++ (0xc4 :: 0x40 :: (signature.toList ++ rest))) :=
    decodeTag_head (i := .str (lit "sig")) (show 3 < 2 ^ 32 by decide) _
  have hbin : decodeTag (0xc4 :: 0x40 :: (signature.toList ++ rest)) =
      some (.bin 64, signature.toList ++ rest) :=
    decodeTag_head (i := .bin (List.replicate 64 0)) (show 64 < 2 ^ 32 by decide) _
  have hkey : mpackReadBytesInplace ⟨lit "sig" ++ (0xc4 :: 0x40 :: (signature.toList ++ rest)), true⟩ 3 =
      (some (lit "sig"), ⟨0xc4 :: 0x40 :: (signature.toList ++ rest), true⟩) := rfl
  have hptr : mpackReadBytesInplace ⟨signature.toList ++ rest, true⟩ signatureLength =
      (some signature.toList, ⟨rest, true⟩) := by
    have hlen : signature.toList.length = signatureLength := Vector.length_toList
    rw [mpackReadBytesInplace, if_pos rfl, if_pos (by rw [List.length_append, hlen]; omega)]
    rw [List.take_left' hlen, List.drop_left' hlen]
  have hoffset : (signaturePrefix ++ (signature.toList ++ rest)).length -
      (signature.toList ++ rest).length = 7 := by
    rw [List.length_append, Nat.add_sub_cancel]; decide
  have hcopy : memcpy slot.payload 7 slot.signature.toList =
      .ok (splice slot.payload 7 slot.signature.toList (signature_room slot)) :=
    memcpy_eq_ok.mpr ⟨signature_room slot, rfl⟩
  have hsig : strncmpEq (lit "sig") (lit "sig") 3 = true := by decide
  rw [encodeTxReplaceSignature, if_neg hne]
  simp only [hdata, mpackReaderInitData, hR.mpackReadTag hmap, hR.mpackReadTag hstr, hkey, hsig,
    hR.mpackReadTag hbin, tagBinLength, hptr, hoffset, hcopy, if_true]
  rfl

theorem withSignature_payload (slot : SignedTransaction c) :
    slot.withSignature.payload.toList =
      slot.payload.toList.take 7 ++ slot.signature.toList ++ slot.payload.toList.drop 71 := by
  rw [SignedTransaction.withSignature, toList_splice, Vector.length_toList]
  rfl

/-- Its first bytes are then those of the post. -/
theorem Signable.take_withSignature (h : Signable body slot) :
    slot.withSignature.payload.toList.take (75 + body.length) =
      postBytes slot.signature.toList body := by
  obtain ⟨signature, hbytes⟩ := h.bytes
  have hlen : ∀ v : Vector UInt8 signatureLength, (signaturePrefix ++ v.toList).length = 71 :=
    fun v => by rw [List.length_append, Vector.length_toList]; decide
  have hpre : slot.payload.toList.take 7 = signaturePrefix := by
    have := congrArg (List.take 7) hbytes
    rw [List.take_take, Nat.min_eq_left (by omega), postBytes, List.append_assoc,
      List.append_assoc] at this
    exact this.trans (List.take_left' (by decide))
  have hpost : (slot.payload.toList.drop 71).take (4 + body.length) = 0xa3 :: lit "txn" ++ body := by
    rw [List.take_drop, show 71 + (4 + body.length) = 75 + body.length by omega, hbytes, postBytes,
      List.append_assoc]
    exact List.drop_left' (hlen signature)
  rw [withSignature_payload, hpre, postBytes, List.take_append, hlen,
    List.take_of_length_le (by rw [hlen]; omega), show 75 + body.length - 71 = 4 + body.length by omega,
    hpost, List.append_assoc _ _ body]

/-- Replacing the signature keeps the transaction. -/
theorem Signable.withSignature (h : Signable body slot) : Signable body slot.withSignature where
  header := h.header
  length := h.length
  long := h.long
  fits := h.fits
  bytes := ⟨slot.signature, h.take_withSignature⟩

theorem Signable.postBody (h : Signable body slot) :
    slot.withSignature.postBody = .ok (postBytes slot.signature.toList body) := by
  have hlen : slot.withSignature.payloadBodyLength + slot.withSignature.payloadHeaderLength =
      75 + body.length := by
    rw [h.withSignature.length, h.withSignature.header, Nat.add_comm]
  simp only [SignedTransaction.postBody, hlen, h.take_withSignature]
  exact if_pos h.fits

/-- Sending hands the signature and the transaction that was signed to the provider. -/
theorem Signable.transactionPendingSend {s : Sdk c} {b : Fin pendingTxCount}
    (h : Signable body (s.slot b)) (hR : env.reader.Lawful) (reply : HttpReply) :
    transactionPendingSend env b reply s = (do
      let answer ← providerTxPost env.cJSON_Parse s.mProvider reply
        (postBytes (s.slot b).signature.toList body) (s.slot b).id
      return finishSend b (s.slot b).withSignature reply s answer) := by
  have hocc : s.Occupied b := by
    have := h.long
    rw [Sdk.Occupied, h.length]; omega
  rw [Vertices.transactionPendingSend, subscript_val]
  show (if ¬ s.Occupied b then _ else (_ : Except Fault (RetCode × Sdk c))) = _
  rw [if_neg (not_not.mpr hocc), h.replaceSignature hR]
  show ((s.slot b).withSignature.postBody >>= _) = _
  rw [h.postBody]
  rfl

/-! ## Over a run -/

/-- The signature stored last in slot `b`, `signature` being the one before. -/
def storedSignature (b : Fin pendingTxCount) (signature : Vector UInt8 signatureLength) :
    List Obs → Vector UInt8 signatureLength
  | [] => signature
  | .signed b' signature' :: history =>
      storedSignature b (if b' = b then signature' else signature) history
  | _ :: history => storedSignature b signature history

theorem storedSignature_append (b : Fin pendingTxCount)
    (signature : Vector UInt8 signatureLength) (history history' : List Obs) :
    storedSignature b signature (history ++ history') =
      storedSignature b (storedSignature b signature history) history' := by
  induction history generalizing signature with
  | nil => rfl
  | cons obs history ih =>
      cases obs with
      | signed b' signature' => exact ih _
      | slotTaken _ | slotFreed _ | httpPost _ _ _ _ | queued _ | dequeued _ => exact ih signature

/-- Since `s₀` the slot has been freed, or it holds `body` and the signature stored last. -/
def Keeps (s₀ : Sdk c) (b : Fin pendingTxCount) (body : List UInt8) (s : Sdk c) : Prop :=
  ∃ obs, s.history = s₀.history ++ obs ∧
    (.slotFreed b ∈ obs ∨
      (Signable body (s.slot b) ∧
        (s.slot b).signature = storedSignature b (s₀.slot b).signature obs))

/-- What keeps the transaction while it is in the slot. -/
theorem Keeps.step {s₀ s t : Sdk c} {b : Fin pendingTxCount} (h : Keeps s₀ b body s)
    (obs : List Obs) (hh : t.history = s.history ++ obs)
    (hslot : Signable body (s.slot b) → .slotFreed b ∈ obs ∨
      (Signable body (t.slot b) ∧
        (t.slot b).signature = storedSignature b (s.slot b).signature obs)) :
    Keeps s₀ b body t := by
  obtain ⟨obs₀, hh₀, hcase⟩ := h
  refine ⟨obs₀ ++ obs, by rw [hh, hh₀, List.append_assoc], ?_⟩
  rcases hcase with hfreed | ⟨hsign, hsig⟩
  · exact .inl (List.mem_append_left _ hfreed)
  · rcases hslot hsign with hfreed | ⟨hsign', hsig'⟩
    · exact .inl (List.mem_append_right _ hfreed)
    · exact .inr ⟨hsign', by rw [hsig', hsig, storedSignature_append]⟩

theorem Signable.occupied {s : Sdk c} {b : Fin pendingTxCount} (h : Signable body (s.slot b)) :
    s.Occupied b := by
  have := h.long
  rw [Sdk.Occupied, h.length]; omega

section Steps

variable {s₀ s t : Sdk c} {b : Fin pendingTxCount} {err : RetCode}

theorem Keeps.creation (h : Keeps s₀ b body s) {tx₀ : Transaction} {reply : HttpReply}
    (hc : Creation env tx₀ reply s err t) : Keeps s₀ b body t := by
  have hslot (hs : Signable body (s.slot b)) : Signable body (t.slot b) ∧
      (t.slot b).signature = (s.slot b).signature := by
    rw [hc.slot_of_occupied hs.occupied]; exact ⟨hs, rfl⟩
  rcases hc.history with hh | ⟨-, hh | hh⟩
  · exact h.step [] (by rw [hh, List.append_nil]) fun hs => .inr (hslot hs)
  · exact h.step _ hh fun hs => .inr (hslot hs)
  · exact h.step _ hh fun hs => .inr (hslot hs)

theorem Keeps.schedule (h : Keeps s₀ b body s) (evt : VtcEvt) :
    Keeps s₀ b body (s.schedule evt).2 := by
  refine h.step _ (s.history_schedule evt) fun hs => .inr ?_
  rw [Sdk.slot_schedule]
  split <;> exact ⟨hs, rfl⟩

theorem Keeps.sign (h : Keeps s₀ b body s) {bufid : Nat}
    {signature : Vector UInt8 signatureLength}
    (hc : storeSignature bufid signature s = .ok (err, t)) : Keeps s₀ b body t := by
  obtain ⟨b', -, ⟨-, rfl⟩ | ⟨-, rfl⟩⟩ := storeSignature_cases hc
  · refine h.step [.signed b' signature] rfl fun hs => .inr ?_
    rw [Sdk.slot_record, Sdk.slot_setSlot, storedSignature, storedSignature]
    by_cases he : b = b'
    · subst he
      rw [if_pos rfl, if_pos rfl]
      exact ⟨hs.of_payload rfl rfl rfl, rfl⟩
    · rw [if_neg he, if_neg (Ne.symm he)]
      exact ⟨hs, rfl⟩
  · exact h

theorem Keeps.op (h : Keeps s₀ b body s) {o : Op} (ho : o.run env s = .ok (err, t)) :
    Keeps s₀ b body t := by
  cases o with
  | pay sender receiver amount params reply => exact h.creation (transactionPay_creation ho)
  | appl sender appId params reply =>
      obtain ⟨_, hc⟩ := transactionAppl_creation ho
      exact h.creation hc
  | schedule evt =>
      rw [← (Prod.mk.inj (pure_eq_ok.mp ho)).2]
      exact h.schedule evt
  | sign bufid signature => exact h.sign ho

/-- The post: of another slot, or of this one with its signature replaced. -/
theorem Keeps.posted (h : Keeps s₀ b body s) (hR : env.reader.Lawful) {b' : Fin pendingTxCount}
    {err' : RetCode} {slot : SignedTransaction c}
    (sign : encodeTxReplaceSignature env.reader (s.slot b') = .ok (err', slot))
    (id : Vector UInt8 transactionHashStrMaxLength) (p : Provider) (request : HttpPost)
    (reply : HttpReply) :
    Keeps s₀ b body (s.posted b' { slot with id := id } p request reply) := by
  refine h.step [.httpPost b' request reply.err reply.responseCode] rfl
    fun hs => .inr ?_
  rw [Sdk.slot_posted]
  by_cases he : b = b'
  · subst he
    rw [hs.replaceSignature hR] at sign
    obtain ⟨-, rfl⟩ := Prod.mk.inj (Except.ok.inj sign)
    rw [if_pos rfl]
    exact ⟨hs.withSignature.of_payload rfl rfl rfl, rfl⟩
  · rw [if_neg he]
    exact ⟨hs, rfl⟩

theorem Keeps.sending (h : Keeps s₀ b body s) (hR : env.reader.Lawful) {b' : Fin pendingTxCount}
    {reply : HttpReply} (hc : Sending env b' reply s err t) : Keeps s₀ b body t := by
  cases hc with
  | notPending _ => exact h
  | posted _ sign _ _ _ => exact h.posted hR sign _ _ _ _
  | succeeded _ sign _ _ => exact (h.posted hR sign _ _ _ _).schedule _

theorem Keeps.pre (h : Keeps s₀ b body s) (hR : env.reader.Lawful) {reply : HttpReply}
    (hp : preProcess env reply s = .ok (err, t)) : Keeps s₀ b body t := by
  obtain ⟨-, b', -, hs⟩ | ⟨-, -, rfl⟩ := preProcess_cases hp
  · exact h.sending hR hs
  · exact h

theorem Keeps.user (h : Keeps s₀ b body s) {handler : Option Handling}
    (hu : userProcess env handler s = .ok (err, t)) : Keeps s₀ b body t := by
  cases handler with
  | none => rw [← (pure_eq_ok2.mp hu).2]; exact h
  | some handling =>
      obtain ⟨u, hcalls, hu⟩ := bind_eq_ok.mp hu
      rw [← (pure_eq_ok2.mp hu).2]
      exact runCalls_induct (P := Keeps s₀ b body) (fun _ _ _ _ _ hs ho => hs.op ho) h hcalls

/-- The slot is freed, and with it the transaction, or another one is. -/
theorem Keeps.post (h : Keeps s₀ b body s)
    {txID : Option (Vector UInt8 transactionHashStrMaxLength)}
    (hp : postProcess s = .ok (err, txID, t)) : Keeps s₀ b body t := by
  obtain ⟨-, ⟨-, b', -, -, -, rfl⟩ | ⟨-, -, rfl⟩⟩ := postProcess_cases hp
  · refine h.step [.slotFreed b'] rfl fun hs => ?_
    by_cases he : b = b'
    · subst he
      exact .inl (List.mem_singleton.mpr rfl)
    · rw [Sdk.slot_record, Sdk.slot_setSlot_ne _ _ he]
      exact .inr ⟨hs, rfl⟩
  · exact h

theorem Keeps.pop (h : Keeps s₀ b body s) : Keeps s₀ b body s.pop :=
  h.step [.dequeued s.mEventsQueue.head] rfl fun hs => .inr ⟨hs, rfl⟩

theorem Keeps.call (h : Keeps s₀ b body s) (hR : env.reader.Lawful) {call : Call}
    (hstep : Step env s call t) : Keeps s₀ b body t := by
  obtain ⟨err, hstep⟩ := hstep
  cases call with
  | op o => exact h.op hstep
  | process handler reply =>
      obtain ⟨⟨result, t'⟩, hp, hstep⟩ := bind_eq_ok.mp hstep
      obtain ⟨-, rfl⟩ := pure_eq_ok2.mp hstep
      cases verticesEventProcess_processing hp with
      | empty _ => exact h
      | preFailed _ pre _ => exact h.pre hR pre
      | userFailed _ pre user _ => exact (h.pre hR pre).user user
      | done _ pre user post => exact (((h.pre hR pre).user user).post post).pop

end Steps

/-- As long as slot `b` has not been freed since the transaction was encoded into it,
sending it posts the signature stored last and the bytes that were given to sign, however
often it has been sent before. -/
theorem posted_is_signed {tx : Transaction} {slot : SignedTransaction c} {s₀ s : Sdk c}
    {b : Fin pendingTxCount} {calls : List Call} {history : List Obs}
    (hW : env.writer.Lawful) (hR : env.reader.Lawful)
    (hencoded : encodeTx env.writer tx slot = .ok (.success, s₀.slot b))
    (hrun : Run (Step env) s₀ calls s) (hhistory : s.history = s₀.history ++ history)
    (hkept : .slotFreed b ∉ history) :
    let signature := storedSignature b (s₀.slot b).signature history
    ∃ payload,
      payload.toList = (s.slot b).payload.toList.take 7 ++ signature.toList ++
        (s.slot b).payload.toList.drop 71 ∧
      encodeTxReplaceSignature env.reader (s.slot b) =
        .ok (.success, { s.slot b with payload := payload }) ∧
      ∀ reply, transactionPendingSend env b reply s = (do
        let answer ← providerTxPost env.cJSON_Parse s.mProvider reply
          (postBytes signature.toList (s₀.slot b).toSign) (s.slot b).id
        return finishSend b { s.slot b with payload := payload } reply s answer) := by
  obtain ⟨ops, hops, ⟨-, henc⟩ | ⟨hne, -⟩⟩ := encodeTx_cases hW hencoded
  · have hsignable := henc.signable (le_opLength_bodyOps hops)
    have hinit : Keeps s₀ b (opBytes ops) s₀ :=
      ⟨[], (List.append_nil _).symm, .inr ⟨hsignable, rfl⟩⟩
    obtain ⟨obs, hobs, hcase⟩ :=
      hrun.invariant (P := Keeps s₀ b (opBytes ops)) (fun h hs => h.call hR hs) hinit
    obtain rfl := List.append_cancel_left (hobs.symm.trans hhistory)
    obtain ⟨hs, hsig⟩ := hcase.resolve_left hkept
    rw [hsignable.toSign_eq, ← hsig]
    exact ⟨_, withSignature_payload _, hs.replaceSignature hR, hs.transactionPendingSend hR⟩
  · exact nomatch hne

theorem storeSignature_of_occupied {s : Sdk c} {b : Fin pendingTxCount} (h : s.Occupied b)
    (signature : Vector UInt8 signatureLength) :
    storeSignature b signature s =
      .ok (.success, (s.setSlot b { s.slot b with signature := signature }).record
        (.signed b signature)) := by
  rw [storeSignature, transactionGet, subscript_val]
  show ((if s.Occupied b then _ else (_ : Except Fault (RetCode × Option (Fin pendingTxCount))))
    >>= _) = _
  rw [if_pos h]
  rfl

/-- A payment of 5, encoded into the first slot and signed with 64 times 7. -/
theorem posted_is_signed_payment :
    ∃ s : Sdk .default, ∃ body, ∀ reply, ∃ slot, transactionPendingSend .example 0 reply s = (do
      let answer ← providerTxPost Env.example.cJSON_Parse s.mProvider reply
        (postBytes (List.replicate 64 7) body) (s.slot 0).id
      return finishSend 0 slot reply s answer) := by
  let tx : Transaction := .new (Vector.replicate _ 1) none
    (.pay { receiver := Vector.replicate _ 3, amount := 5 })
  let signature : Vector UInt8 signatureLength := Vector.replicate _ 7
  have hpay : tx.details.tx = .pay { receiver := Vector.replicate _ 3, amount := 5 } := rfl
  obtain ⟨slot, hslot, henc⟩ :=
    encodeTx_pay appendWriter_lawful hpay rfl (SignedTransaction.zero Config.default)
  let s₀ : Sdk .default := (Sdk.init .default .zero accountInit).setSlot 0 slot
  have hs₀ : s₀.slot 0 = slot := Sdk.slot_setSlot_self _ _ _
  have hlong : 115 ≤ opLength _ := le_opLength_bodyOps (bodyOps_pay hpay)
  have hocc : s₀.Occupied 0 := by
    rw [Sdk.Occupied, hs₀, henc.body]; omega
  have hstep : Step .example s₀ (.op (.sign 0 signature)) _ :=
    ⟨.success, storeSignature_of_occupied hocc signature⟩
  have henc₀ : encodeTx Env.example.writer tx (.zero _) = .ok (.success, s₀.slot 0) :=
    hslot.trans (by rw [hs₀])
  have hrun : Run (Step .example) s₀ [.op (.sign 0 signature)] _ := .cons hstep (.nil _)
  have hhistory : _ = s₀.history ++ [.signed 0 signature] := rfl
  obtain ⟨payload, -, -, hsend⟩ :=
    posted_is_signed appendWriter_lawful formatReader_lawful henc₀ hrun hhistory (by decide)
  exact ⟨_, _, fun reply => ⟨_, hsend reply⟩⟩

end Vertices
