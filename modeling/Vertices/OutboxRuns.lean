/-
# `Vertices.OutboxRuns` — the pending slots are an outbox

What the calls do to the pending slots, in whatever order and with whatever handler, is a
run of an `Outbox`: creating a transaction puts a letter into a slot, the handler stamps it
with a signature, sending posts the letter with the signature it has then, and the success
drops it.  A slot that was taken by a call that failed holds a letter without a transaction;
sending it posts zeros.

`Refines` is the invariant.  What holds of every outbox then holds of the posts of every
run: `resent_identical`, `posted_signature`.
-/
import Vertices.Lib.Outbox
import Vertices.TxnMap
import Vertices.Signature
import Vertices.Atomicity
import Vertices.Submission

namespace Vertices

open MsgPack Transition

variable {c : Config} {env : Env}

/-! ## Letters -/

/-- What a slot was taken for: the transaction that is signed, or one that was never
encoded. -/
inductive Body where
  | encoded (bytes : List UInt8)
  | unencoded

abbrev SlotLetter := Outbox.Letter Body (Vector UInt8 signatureLength)

abbrev SlotAct := Outbox.Act (Fin pendingTxCount) Body (Vector UInt8 signatureLength)

abbrev SlotLetters := Outbox.Slots (Fin pendingTxCount) Body (Vector UInt8 signatureLength)

/-- No signature yet. -/
def noSignature : Vector UInt8 signatureLength := Vector.replicate _ 0

/-- The bytes that are posted of a letter. -/
def posting (c : Config) : SlotLetter → List UInt8
  | ⟨.encoded body, signature⟩ => postBytes signature.toList body
  | ⟨.unencoded, _⟩ => List.replicate c.txPayloadMaxLength 0

/-- A slot that is taken, with nothing encoded. -/
structure SignedTransaction.Unencoded (slot : SignedTransaction c) : Prop where
  payload : slot.payload = Vector.replicate _ 0
  header : slot.payloadHeaderLength = 0
  length : slot.payloadBodyLength = c.txPayloadMaxLength

/-- A free slot is all zero. -/
def SignedTransaction.HoldsLetter (slot : SignedTransaction c) : Option SlotLetter → Prop
  | none => slot = .zero c
  | some ⟨.encoded body, signature⟩ => Signable body slot ∧ slot.signature = signature
  | some ⟨.unencoded, signature⟩ => slot.Unencoded ∧ slot.signature = signature

/-- The acts are those of the history, each letter posted as its bytes. -/
inductive Tells (c : Config) : List Obs → List SlotAct → Prop
  | nil : Tells c [] []
  | taken {b history acts} (body : Body) (h : Tells c history acts) :
      Tells c (.slotTaken b :: history) (.put b body :: acts)
  | freed {b history acts} (h : Tells c history acts) :
      Tells c (.slotFreed b :: history) (.drop b :: acts)
  | posted {b request err responseCode history acts} {l : SlotLetter}
      (bytes : request.body = posting c l) (h : Tells c history acts) :
      Tells c (.httpPost b request err responseCode :: history) (.send b l :: acts)
  | signed {b signature history acts} (h : Tells c history acts) :
      Tells c (.signed b signature :: history) (.stamp b signature :: acts)
  | queued {evt history acts} (h : Tells c history acts) : Tells c (.queued evt :: history) acts
  | dequeued {evt history acts} (h : Tells c history acts) : Tells c (.dequeued evt :: history) acts

theorem Tells.append {history history' : List Obs} {acts acts' : List SlotAct}
    (h : Tells c history acts) (h' : Tells c history' acts') :
    Tells c (history ++ history') (acts ++ acts') := by
  induction h with
  | nil => exact h'
  | taken body _ ih => exact .taken body ih
  | freed _ ih => exact .freed ih
  | posted bytes _ ih => exact .posted bytes ih
  | signed _ ih => exact .signed ih
  | queued _ ih => exact .queued ih
  | dequeued _ ih => exact .dequeued ih

theorem Tells.of_append {history history' : List Obs} {acts : List SlotAct}
    (h : Tells c (history ++ history') acts) :
    ∃ acts₁ acts₂, acts = acts₁ ++ acts₂ ∧ Tells c history acts₁ ∧ Tells c history' acts₂ := by
  induction history generalizing acts with
  | nil => exact ⟨[], acts, rfl, .nil, h⟩
  | cons obs history ih =>
      cases h with
      | taken body h =>
          obtain ⟨acts₁, acts₂, rfl, h₁, h₂⟩ := ih h
          exact ⟨_, acts₂, rfl, .taken body h₁, h₂⟩
      | freed h =>
          obtain ⟨acts₁, acts₂, rfl, h₁, h₂⟩ := ih h
          exact ⟨_, acts₂, rfl, .freed h₁, h₂⟩
      | posted bytes h =>
          obtain ⟨acts₁, acts₂, rfl, h₁, h₂⟩ := ih h
          exact ⟨_, acts₂, rfl, .posted bytes h₁, h₂⟩
      | signed h =>
          obtain ⟨acts₁, acts₂, rfl, h₁, h₂⟩ := ih h
          exact ⟨_, acts₂, rfl, .signed h₁, h₂⟩
      | queued h =>
          obtain ⟨acts₁, acts₂, rfl, h₁, h₂⟩ := ih h
          exact ⟨acts₁, acts₂, rfl, .queued h₁, h₂⟩
      | dequeued h =>
          obtain ⟨acts₁, acts₂, rfl, h₁, h₂⟩ := ih h
          exact ⟨acts₁, acts₂, rfl, .dequeued h₁, h₂⟩

/-! ## One slot -/

namespace SignedTransaction

variable {slot : SignedTransaction c} {l : SlotLetter} {o : Option SlotLetter}

/-- A slot holds a letter exactly if it is taken. -/
theorem HoldsLetter.isSome_iff (h : slot.HoldsLetter o) :
    o.isSome = true ↔ slot.payloadBodyLength ≠ 0 := by
  have hroom := c.payload_room
  match o, h with
  | none, h =>
      rw [show slot = .zero c from h]
      exact iff_of_false Bool.false_ne_true fun hz => hz rfl
  | some ⟨.encoded body, _⟩, ⟨hs, _⟩ =>
      have := hs.long
      rw [hs.length]
      exact iff_of_true rfl (by omega)
  | some ⟨.unencoded, _⟩, ⟨hu, _⟩ =>
      rw [hu.length]
      exact iff_of_true rfl (by omega)

/-- A letter is stamped by storing a signature. -/
theorem HoldsLetter.stamp (h : slot.HoldsLetter (some l)) (signature : Vector UInt8 signatureLength) :
    ({ slot with signature := signature } : SignedTransaction c).HoldsLetter
      (some ⟨l.body, signature⟩) := by
  obtain ⟨body | -, signature'⟩ := l
  · exact ⟨h.1.of_payload rfl rfl rfl, rfl⟩
  · exact ⟨⟨h.1.payload, h.1.header, h.1.length⟩, rfl⟩

/-- The id of a transaction is no part of the letter. -/
theorem HoldsLetter.withId (h : slot.HoldsLetter (some l))
    (id : Vector UInt8 transactionHashStrMaxLength) :
    ({ slot with id := id } : SignedTransaction c).HoldsLetter (some l) := by
  obtain ⟨body | -, signature⟩ := l
  · exact ⟨h.1.of_payload rfl rfl rfl, h.2⟩
  · exact ⟨⟨h.1.payload, h.1.header, h.1.length⟩, h.2⟩

/-- In a payload of zeros no signature is found. -/
theorem Unencoded.replaceSignature {R : MpackReader} (h : slot.Unencoded) (hR : R.Lawful) :
    encodeTxReplaceSignature R slot = .ok (.errorNotFound, slot) := by
  have hroom := c.payload_room
  obtain ⟨n, hn⟩ : ∃ n, c.txPayloadMaxLength = n + 1 := ⟨c.txPayloadMaxLength - 1, by omega⟩
  have hdata : slot.payload.toList.take slot.payloadBodyLength = 0 :: List.replicate n 0 := by
    rw [h.payload, h.length, Vector.toList_replicate, List.take_of_length_le (by simp), hn,
      List.replicate_succ]
  have htag : decodeTag (0 :: List.replicate n 0) = some (.uint 0, List.replicate n 0) := rfl
  have hne : slot.payloadBodyLength ≠ 0 := by
    rw [h.length]
    omega
  rw [encodeTxReplaceSignature, if_neg hne]
  simp only [hdata, mpackReaderInitData, hR.mpackReadTag htag]
  rfl

theorem Unencoded.postBody (h : slot.Unencoded) :
    slot.postBody = .ok (List.replicate c.txPayloadMaxLength 0) := by
  rw [SignedTransaction.postBody, h.length, h.header, h.payload, Vector.toList_replicate]
  simp
  rfl

/-- What is posted of a slot is its letter, and the letter stays. -/
theorem HoldsLetter.post {R : MpackReader} (hR : R.Lawful) (h : slot.HoldsLetter (some l))
    {slot' : SignedTransaction c} {err : RetCode} {body : List UInt8}
    (sign : encodeTxReplaceSignature R slot = .ok (err, slot'))
    (hbody : slot'.postBody = .ok body) :
    body = posting c l ∧ slot'.HoldsLetter (some l) := by
  obtain ⟨body' | -, signature⟩ := l
  · obtain ⟨hs, rfl⟩ := h
    rw [hs.replaceSignature hR] at sign
    obtain ⟨-, rfl⟩ := Prod.mk.inj (Except.ok.inj sign)
    exact ⟨Except.ok.inj (hbody.symm.trans hs.postBody), hs.withSignature, rfl⟩
  · obtain ⟨hu, rfl⟩ := h
    rw [hu.replaceSignature hR] at sign
    obtain ⟨-, rfl⟩ := Prod.mk.inj (Except.ok.inj sign)
    exact ⟨Except.ok.inj (hbody.symm.trans hu.postBody), hu, rfl⟩

end SignedTransaction

/-! ## What is asked for -/

/-- The call asks for the transaction, its sender being one of the accounts or another. -/
def Op.Asks (accounts : MAccounts) (tx : Transaction) : Op → Prop
  | .pay sender receiver amount params _ =>
      tx = .new (sender.info accounts).publicKey params
        (.pay { receiver := receiver, amount := amount })
  | .appl sender appId params _ =>
      ∃ hasApp, tx = .new (sender.info accounts).publicKey none
        (.appl { appId := appId, onComplete := applOnComplete hasApp, keyValues := params })
  | .schedule _ | .sign _ _ => False

/-- The same of a call of the application, whose handler makes calls itself. -/
def Call.Asks (accounts : MAccounts) (tx : Transaction) : Call → Prop
  | .op o => o.Asks accounts tx
  | .process (some handling) _ => ∃ o ∈ handling.calls, o.Asks accounts tx
  | .process none _ => False

/-- The body is that of a transaction asked for by one of the calls, the parameters of the
network loaded into it. -/
def Body.Requested (c : Config) (accounts : MAccounts) (calls : List Call) : Body → Prop
  | .encoded bytes => ∃ call ∈ calls, ∃ tx₀ tx ops, call.Asks accounts tx₀ ∧ tx₀.SameRequest tx ∧
      noteAccepted c tx.details.note = true ∧ bodyOps tx = .ok ops ∧ bytes = opBytes ops
  | .unencoded => True

/-! ## Every call is acts of the outbox -/

/-- Each slot holds its letter. -/
def Sdk.Mirrors (s : Sdk c) (o : SlotLetters) : Prop := ∀ b, (s.slot b).HoldsLetter (o b)

theorem Sdk.Mirrors.occupied_iff {s : Sdk c} {o : SlotLetters} (h : s.Mirrors o)
    (b : Fin pendingTxCount) : s.Occupied b ↔ ∃ l, o b = some l := by
  rw [Sdk.Occupied, ← (h b).isSome_iff, Option.isSome_iff_exists]

/-- One slot is written. -/
theorem Sdk.Mirrors.set {s t : Sdk c} {o : SlotLetters} (h : s.Mirrors o) {b : Fin pendingTxCount}
    {l : Option SlotLetter} (hself : (t.slot b).HoldsLetter l)
    (hother : ∀ b' ≠ b, t.slot b' = s.slot b') : t.Mirrors (Function.update o b l) := by
  intro b'
  by_cases hb : b' = b
  · subst hb
    rwa [Function.update_self]
  · rw [Function.update_of_ne hb, hother b' hb]
    exact h b'

/-- All letters put into slots are such as `P` says. -/
def PutsOnly (P : Body → Prop) (acts : List SlotAct) : Prop :=
  ∀ b body, .put b body ∈ acts → P body

theorem PutsOnly.nil (P : Body → Prop) : PutsOnly P [] := fun _ _ h => nomatch h

/-- From free slots: the letters of `s` are what a run of the outbox leaves, whose acts the
history tells.  All the letters are such as `P` says, and the accounts stay. -/
def Refines (P : Body → Prop) (accounts : MAccounts) (s : Sdk c) : Prop :=
  s.mAccounts = accounts ∧ ∃ acts o, Tells c s.history acts ∧ PutsOnly P acts ∧
    Run (Outbox.Step noSignature) (fun _ => none) acts o ∧ s.Mirrors o

/-- All slots are free at first. -/
theorem mirrors_init (provider : Provider) (accounts : MAccounts) :
    (Sdk.init c provider accounts).Mirrors fun _ => none := by
  intro b
  show (Sdk.init c provider accounts).slot b = .zero c
  simp [Sdk.init, Sdk.slot]

theorem Refines.init (P : Body → Prop) (provider : Provider) (accounts : MAccounts) :
    Refines P accounts (Sdk.init c provider accounts) :=
  ⟨rfl, [], _, .nil, .nil P, .nil _, mirrors_init provider accounts⟩

section Steps

variable {P : Body → Prop} {accounts : MAccounts} {s t : Sdk c} {err : RetCode}

/-- Any of the steps below: what is recorded is acts that are possible. -/
theorem Refines.step (h : Refines P accounts s) (obs : List Obs) (hh : t.history = s.history ++ obs)
    (haccounts : t.mAccounts = s.mAccounts)
    (hacts : ∀ o, s.Mirrors o → ∃ acts o', Tells c obs acts ∧ PutsOnly P acts ∧
      Run (Outbox.Step noSignature) o acts o' ∧ t.Mirrors o') : Refines P accounts t := by
  obtain ⟨ha, acts, o, htells, hputs, hrun, hmirrors⟩ := h
  obtain ⟨acts', o', htells', hputs', hrun', hmirrors'⟩ := hacts o hmirrors
  refine ⟨haccounts.trans ha, acts ++ acts', o', hh ▸ htells.append htells', ?_,
    hrun.append hrun', hmirrors'⟩
  intro b body hmem
  exact (List.mem_append.mp hmem).elim (hputs b body) (hputs' b body)

/-- The slots are left alone. -/
theorem Refines.quiet (h : Refines P accounts s) (obs : List Obs)
    (hh : t.history = s.history ++ obs) (haccounts : t.mAccounts = s.mAccounts)
    (htells : Tells c obs []) (hslot : ∀ b, t.slot b = s.slot b) : Refines P accounts t :=
  h.step obs hh haccounts fun o ho =>
    ⟨[], o, htells, .nil P, .nil o, fun b => by rw [hslot b]; exact ho b⟩

/-- What is done to a slot that is taken: no letter is put. -/
theorem PutsOnly.single {a : SlotAct} (h : ∀ b body, a ≠ .put b body) : PutsOnly P [a] :=
  fun b body hm => absurd (List.mem_singleton.mp hm).symm (h b body)

theorem Sdk.mAccounts_schedule (s : Sdk c) (evt : VtcEvt) :
    (s.schedule evt).2.mAccounts = s.mAccounts := by
  rcases s.schedule_cases evt with ⟨-, queue, -, hs⟩ | ⟨-, hs⟩
  · rw [hs]; rfl
  · rw [hs]

theorem Refines.schedule (h : Refines P accounts s) (evt : VtcEvt) : Refines P accounts (s.schedule evt).2 := by
  refine h.quiet _ (s.history_schedule evt) (s.mAccounts_schedule evt) ?_ fun b => s.slot_schedule evt b
  split
  · exact .queued .nil
  · exact .nil

/-- A free slot is taken. -/
theorem Refines.taken (h : Refines P accounts s) {b : Fin pendingTxCount} (hfree : ¬ s.Occupied b)
    (hh : t.history = s.history ++ [.slotTaken b]) (haccounts : t.mAccounts = s.mAccounts)
    {body : Body} (hbody : P body)
    (hself : s.slot b = .zero c → (t.slot b).HoldsLetter (some ⟨body, noSignature⟩))
    (hother : ∀ b' ≠ b, t.slot b' = s.slot b') : Refines P accounts t := by
  refine h.step _ hh haccounts fun o ho => ?_
  have hnone : o b = none := by
    rw [← Option.not_isSome_iff_eq_none, (ho b).isSome_iff]
    exact hfree
  have hzero : s.slot b = .zero c := by
    have hb := ho b
    rwa [hnone] at hb
  refine ⟨_, _, .taken body .nil, ?_, .single (.put body hnone), ho.set (hself hzero) hother⟩
  intro b' body' hm
  cases List.mem_singleton.mp hm
  exact hbody

theorem Refines.creation (h : Refines P accounts s) (hW : env.writer.Lawful) {tx₀ : Transaction}
    {reply : HttpReply} (hreq : (∃ pay, tx₀.details.tx = .pay pay) ∨ ∃ appl, tx₀.details.tx = .appl appl)
    (hunencoded : P .unencoded)
    (hencoded : ∀ tx ops, tx₀.SameRequest tx → noteAccepted c tx.details.note = true →
      bodyOps tx = .ok ops → P (.encoded (opBytes ops)))
    (hc : Creation env tx₀ reply s err t) : Refines P accounts t := by
  cases hc with
  | noMem _ | invalidParam _ _ => exact h
  | @noParams _ _ p free _ _ _ =>
      refine h.taken free rfl rfl hunencoded (fun hzero => ?_) fun b hb => s.slot_loaded_of_ne _ hb
      rw [s.slot_loaded_self, hzero]
      exact ⟨⟨rfl, rfl, rfl⟩, rfl⟩
  | @notEncoded _ _ tx _ _ free accepted load _ encode failed =>
      obtain ⟨-, hnote, htx⟩ := providerTxParamsLoad_sameRequest load
      exact absurd (encodeTx_request hW (by rw [htx]; exact hreq) (by rw [hnote]; exact accepted)
        encode).1 failed
  | @scheduled _ _ tx p slot free accepted load _ encode =>
      have hsame := providerTxParamsLoad_sameRequest load
      have ⟨_, hnote, htx⟩ := hsame
      have haccepted : noteAccepted c tx.details.note = true := by rw [hnote]; exact accepted
      obtain ⟨-, ops, hops, henc⟩ := encodeTx_request hW (by rw [htx]; exact hreq) haccepted encode
      have htaken : Refines P accounts { (s.loaded p).setSlot s.mTxBufferIdx slot with
          mTxBufferIdx := s.mTxBufferIdx + 1 } := by
        refine h.taken free rfl rfl (hencoded tx ops hsame haccepted hops) (fun hzero => ?_)
          fun b hb => ?_
        · show (((s.loaded p).setSlot s.mTxBufferIdx slot).slot s.mTxBufferIdx).HoldsLetter _
          rw [Sdk.slot_setSlot_self]
          refine ⟨henc.signable (le_opLength_bodyOps hops), ?_⟩
          rw [(encodeTx_frame encode).1, s.slot_loaded_self, hzero]
          rfl
        · show ((s.loaded p).setSlot s.mTxBufferIdx slot).slot b = _
          rw [Sdk.slot_setSlot_ne _ _ hb, s.slot_loaded_of_ne _ hb]
      exact htaken.schedule _

theorem Refines.sign (h : Refines P accounts s) {bufid : Nat} {signature : Vector UInt8 signatureLength}
    (hc : storeSignature bufid signature s = .ok (err, t)) : Refines P accounts t := by
  obtain ⟨b, -, ⟨hocc, rfl⟩ | ⟨-, rfl⟩⟩ := storeSignature_cases hc
  · refine h.step [.signed b signature] rfl rfl fun o ho => ?_
    obtain ⟨l, hl⟩ := (ho.occupied_iff b).mp hocc
    have hb := ho b
    rw [hl] at hb
    refine ⟨_, _, .signed .nil, .single nofun, .single (.stamp signature hl),
      ho.set ?_ fun b' hb' => ?_⟩
    · rw [Sdk.slot_record, Sdk.slot_setSlot_self]
      exact hb.stamp signature
    · rw [Sdk.slot_record, Sdk.slot_setSlot_ne _ _ hb']
  · exact h

/-- `P` holds of all the bodies that a call can ask for. -/
def Covers (c : Config) (P : Body → Prop) (asks : Transaction → Prop) : Prop :=
  P .unencoded ∧ ∀ tx₀ tx ops, asks tx₀ → tx₀.SameRequest tx →
    noteAccepted c tx.details.note = true → bodyOps tx = .ok ops → P (.encoded (opBytes ops))

theorem Refines.op (h : Refines P accounts s) (hW : env.writer.Lawful) {o : Op}
    (hP : Covers c P (o.Asks accounts ·)) (ho : o.run env s = .ok (err, t)) : Refines P accounts t := by
  have ha := h.1
  cases o with
  | pay sender receiver amount params reply =>
      refine h.creation hW (.inl ⟨_, rfl⟩) hP.1 (fun tx ops => hP.2 _ tx ops ?_)
        (transactionPay_creation ho)
      rw [← ha]
      rfl
  | appl sender appId params reply =>
      obtain ⟨hasApp, hc⟩ := transactionAppl_creation ho
      refine h.creation hW (.inr ⟨_, rfl⟩) hP.1 (fun tx ops => hP.2 _ tx ops ?_) hc
      rw [← ha]
      exact ⟨hasApp, rfl⟩
  | schedule evt =>
      rw [← (Prod.mk.inj (pure_eq_ok.mp ho)).2]
      exact h.schedule evt
  | sign bufid signature => exact h.sign ho

/-- A letter is sent, and stays where it is. -/
theorem Refines.posted (h : Refines P accounts s) (hR : env.reader.Lawful) {b : Fin pendingTxCount}
    (hocc : s.Occupied b) {err' : RetCode} {slot : SignedTransaction c} {body : List UInt8}
    (sign : encodeTxReplaceSignature env.reader (s.slot b) = .ok (err', slot))
    (hbody : slot.postBody = .ok body) (id : Vector UInt8 transactionHashStrMaxLength)
    (p : Provider) {request : HttpPost} (hrequest : request.body = body) (reply : HttpReply) :
    Refines P accounts (s.posted b { slot with id := id } p request reply) := by
  refine h.step [.httpPost b request reply.err reply.responseCode] rfl rfl fun o ho => ?_
  obtain ⟨l, hl⟩ := (ho.occupied_iff b).mp hocc
  have hb := ho b
  rw [hl] at hb
  obtain ⟨rfl, hslot⟩ := hb.post hR sign hbody
  refine ⟨_, _, .posted hrequest .nil, .single nofun, .single (.send hl), fun b' => ?_⟩
  rw [Sdk.slot_posted]
  split
  · next he =>
      rw [he, hl]
      exact hslot.withId id
  · exact ho b'

theorem Refines.sending (h : Refines P accounts s) (hR : env.reader.Lawful) {b : Fin pendingTxCount}
    {reply : HttpReply} (hc : Sending env b reply s err t) : Refines P accounts t := by
  cases hc with
  | notPending _ => exact h
  | posted occupied sign body post _ =>
      exact h.posted hR occupied sign body _ _ (providerTxPost_err post).2.1 reply
  | succeeded occupied sign body post =>
      exact (h.posted hR occupied sign body _ _ (providerTxPost_err post).2.1 reply).schedule _

theorem Refines.pre (h : Refines P accounts s) (hR : env.reader.Lawful) {reply : HttpReply}
    (hp : preProcess env reply s = .ok (err, t)) : Refines P accounts t := by
  obtain ⟨-, b, -, hs⟩ | ⟨-, -, rfl⟩ := preProcess_cases hp
  · exact h.sending hR hs
  · exact h

theorem Refines.user (h : Refines P accounts s) (hW : env.writer.Lawful) {handler : Option Handling}
    (hP : ∀ handling ∈ handler, ∀ o ∈ handling.calls, Covers c P (o.Asks accounts ·))
    (hu : userProcess env handler s = .ok (err, t)) : Refines P accounts t := by
  cases handler with
  | none => rw [← (pure_eq_ok2.mp hu).2]; exact h
  | some handling =>
      obtain ⟨u, hcalls, hu⟩ := bind_eq_ok.mp hu
      rw [← (pure_eq_ok2.mp hu).2]
      exact runCalls_induct (P := Refines P accounts)
        (fun o ho _ _ _ hs hrun => hs.op hW (hP handling rfl o ho) hrun) h hcalls

theorem Refines.post (h : Refines P accounts s) {txID : Option (Vector UInt8 transactionHashStrMaxLength)}
    (hp : postProcess s = .ok (err, txID, t)) : Refines P accounts t := by
  obtain ⟨-, ⟨-, b, -, hocc, -, rfl⟩ | ⟨-, -, rfl⟩⟩ := postProcess_cases hp
  · refine h.step [.slotFreed b] rfl rfl fun o ho => ?_
    obtain ⟨l, hl⟩ := (ho.occupied_iff b).mp hocc
    refine ⟨_, _, .freed .nil, .single nofun, .single (.drop hl), ho.set ?_ fun b' hb' => ?_⟩
    · rw [Sdk.slot_record, Sdk.slot_setSlot_self]
      rfl
    · rw [Sdk.slot_record, Sdk.slot_setSlot_ne _ _ hb']
  · exact h

theorem Refines.pop (h : Refines P accounts s) : Refines P accounts s.pop :=
  h.quiet [.dequeued s.mEventsQueue.head] rfl rfl (.dequeued .nil) fun _ => rfl

theorem Refines.call (h : Refines P accounts s) (hW : env.writer.Lawful) (hR : env.reader.Lawful)
    {call : Call} (hP : Covers c P (call.Asks accounts ·)) (hstep : Step env s call t) :
    Refines P accounts t := by
  obtain ⟨err, hstep⟩ := hstep
  cases call with
  | op o => exact h.op hW hP hstep
  | process handler reply =>
      have hhandler : ∀ handling ∈ handler, ∀ o ∈ handling.calls, Covers c P (o.Asks accounts ·) := by
        rintro handling rfl o ho
        exact ⟨hP.1, fun tx₀ tx ops hasks => hP.2 tx₀ tx ops ⟨o, ho, hasks⟩⟩
      obtain ⟨⟨result, t'⟩, hp, hstep⟩ := bind_eq_ok.mp hstep
      obtain ⟨-, rfl⟩ := pure_eq_ok2.mp hstep
      cases verticesEventProcess_processing hp with
      | empty _ => exact h
      | preFailed _ pre _ => exact h.pre hR pre
      | userFailed _ pre user _ => exact (h.pre hR pre).user hW hhandler user
      | done _ pre user post => exact (((h.pre hR pre).user hW hhandler user).post post).pop

end Steps

/-- Of every run: the letters are those that its calls ask for. -/
theorem Refines.run (hW : env.writer.Lawful) (hR : env.reader.Lawful) {provider : Provider}
    {accounts : MAccounts} {calls : List Call} {s : Sdk c}
    (hrun : Run (Step env) (Sdk.init c provider accounts) calls s) :
    Refines (Body.Requested c accounts calls) accounts s := by
  refine hrun.preserves (P := Refines (Body.Requested c accounts calls) accounts)
    ?_ (fun _ h => h) (.init _ provider accounts)
  intro s call t h hcall hstep
  exact h.call hW hR ⟨trivial, fun tx₀ tx ops hasks hsame hnote hops =>
    ⟨call, hcall, tx₀, tx, ops, hasks, hsame, hnote, hops, rfl⟩⟩ hstep

/-! ## What the acts say of the history -/

theorem Tells.kept {b : Fin pendingTxCount} {history : List Obs} {acts : List SlotAct}
    (h : Tells c history acts) (hkeeps : ∀ a ∈ acts, a.Keeps b) :
    .slotTaken b ∉ history ∧ .slotFreed b ∉ history := by
  induction h with
  | nil => exact ⟨List.not_mem_nil, List.not_mem_nil⟩
  | taken body _ ih | freed _ ih =>
      rw [List.forall_mem_cons] at hkeeps
      obtain ⟨htaken, hfreed⟩ := ih hkeeps.2
      have hne := hkeeps.1
      simp only [Outbox.Act.Keeps] at hne
      simp only [List.mem_cons, Obs.slotTaken.injEq, Obs.slotFreed.injEq, reduceCtorEq, false_or]
      refine ⟨?_, ?_⟩ <;> first | assumption | exact not_or.mpr ⟨Ne.symm hne, by assumption⟩
  | posted _ _ ih | signed _ ih =>
      rw [List.forall_mem_cons] at hkeeps
      simpa using ih hkeeps.2
  | queued _ ih | dequeued _ ih => simpa using ih hkeeps

/-- What is not freed is not dropped. -/
theorem Tells.leaves {b : Fin pendingTxCount} {history : List Obs} {acts : List SlotAct}
    (h : Tells c history acts) (hfreed : .slotFreed b ∉ history)
    (hsigned : ∀ signature, .signed b signature ∉ history) : ∀ a ∈ acts, a.Leaves b := by
  induction h with
  | nil => exact fun _ ha => nomatch ha
  | taken _ _ ih | freed _ ih | posted _ _ ih | signed _ ih =>
      rw [List.forall_mem_cons]
      have hfreed' := fun hm => hfreed (List.mem_cons_of_mem _ hm)
      have hsigned' := fun signature hm => hsigned signature (List.mem_cons_of_mem _ hm)
      refine ⟨?_, ih hfreed' hsigned'⟩
      first
        | trivial
        | (rintro rfl; exact hfreed List.mem_cons_self)
        | (rintro rfl; exact hsigned _ List.mem_cons_self)
  | queued _ ih | dequeued _ ih =>
      exact ih (fun hm => hfreed (List.mem_cons_of_mem _ hm))
        fun signature hm => hsigned signature (List.mem_cons_of_mem _ hm)

/-- The mark that is left is the signature stored last. -/
theorem Tells.lastStamp_eq {b : Fin pendingTxCount} {history : List Obs} {acts : List SlotAct}
    (h : Tells c history acts) (signature : Vector UInt8 signatureLength) :
    Outbox.lastStamp b signature acts = storedSignature b signature history := by
  induction h generalizing signature with
  | nil => rfl
  | taken _ _ ih | freed _ ih | posted _ _ ih | queued _ ih | dequeued _ ih => exact ih signature
  | signed _ ih => exact ih _

/-- Where a letter is put, a slot is taken. -/
theorem Tells.of_put {b : Fin pendingTxCount} {body : Body} {history : List Obs}
    {acts : List SlotAct} (h : Tells c history acts) :
    ∀ {before after : List SlotAct}, acts = before ++ .put b body :: after →
      ∃ history₁ history₂, history = history₁ ++ .slotTaken b :: history₂ ∧
        Tells c history₂ after := by
  induction h with
  | nil => exact fun hacts => absurd hacts.symm (List.append_ne_nil_of_right_ne_nil _ nofun)
  | taken body' h ih =>
      intro before after hacts
      cases before with
      | nil =>
          cases hacts
          exact ⟨[], _, rfl, h⟩
      | cons a before =>
          obtain ⟨history₁, history₂, rfl, h'⟩ := ih (List.cons.inj hacts).2
          exact ⟨_ :: history₁, history₂, rfl, h'⟩
  | freed h ih | posted _ h ih | signed h ih =>
      intro before after hacts
      cases before with
      | nil => exact nomatch (List.cons.inj hacts).1
      | cons a before =>
          obtain ⟨history₁, history₂, rfl, h'⟩ := ih (List.cons.inj hacts).2
          exact ⟨_ :: history₁, history₂, rfl, h'⟩
  | queued _ ih | dequeued _ ih =>
      intro before after hacts
      obtain ⟨history₁, history₂, rfl, h'⟩ := ih hacts
      exact ⟨_ :: history₁, history₂, rfl, h'⟩

/-- A post in the history is a letter sent, with what comes before and after it. -/
theorem Tells.of_post {b : Fin pendingTxCount} {before after : List Obs} {request : HttpPost}
    {err : RetCode} {responseCode : UInt32} {acts : List SlotAct}
    (h : Tells c (before ++ .httpPost b request err responseCode :: after) acts) :
    ∃ acts₁ acts₂ l, acts = acts₁ ++ .send b l :: acts₂ ∧ Tells c before acts₁ ∧
      Tells c after acts₂ ∧ request.body = posting c l := by
  obtain ⟨acts₁, acts', rfl, hbefore, h⟩ := h.of_append
  cases h with
  | posted bytes hafter => exact ⟨acts₁, _, _, rfl, hbefore, hafter, bytes⟩

/-! ## What a post decodes to -/

/-- The value that is posted: a signature and the fields of a transaction. -/
def signedMap (signature : List UInt8) (pairs : List (Value × Value)) : Value :=
  .map [field "sig" (.bin signature), field "txn" (.map pairs)]

theorem decode_postBytes (signature : Vector UInt8 signatureLength) {body : List UInt8}
    {pairs : List (Value × Value)} (h : decode body = some (.map pairs, [])) :
    decode (postBytes signature.toList body) = some (signedMap signature.toList pairs, []) := by
  have hlen : signature.toList.length = 64 := Vector.length_toList
  have hbin : (Item.bin signature.toList).bytes = [0xc4, 0x40] ++ signature.toList := by
    rw [Item.bytes, Item.head, hlen]
    rfl
  have hsplit : postBytes signature.toList body = (Item.map 2).bytes ++
      ((Item.str (lit "sig")).bytes ++ ((Item.bin signature.toList).bytes ++
        ((Item.str (lit "txn")).bytes ++ body))) := by
    rw [hbin, postBytes, signaturePrefix]
    simp only [List.append_assoc]
    rfl
  have htxn : Reads ((Item.str (lit "txn")).bytes ++ body) [.str (lit "txn"), .map pairs] [] :=
    .strItem (by decide) (decode_eq_some_iff.mp h)
  have hsig : Reads ((Item.bin signature.toList).bytes ++ ((Item.str (lit "txn")).bytes ++ body))
      [.bin signature.toList, .str (lit "txn"), .map pairs] [] :=
    .binItem (by rw [hlen]; decide) htxn
  rw [hsplit]
  refine decode_eq_some_iff.mpr ?_
  have hlength : [field "sig" (.bin signature.toList), field "txn" (.map pairs)].length < 2 ^ 32 := by
    simp
  exact .mapItem hlength (.strItem (by decide) hsig) (.nil [])

/-- The bytes behind the header are those of the body. -/
theorem Encoded.drop_encoded {ops : List WriteOp} {slot : SignedTransaction c} (h : Encoded ops slot) :
    slot.encoded.drop slot.payloadHeaderLength = opBytes ops := by
  rw [SignedTransaction.encoded, h.header, h.body, h.bytes]
  exact List.drop_left' opLength_headerOps

/-- The body of a payment is the map of its fields. -/
theorem decode_body_pay {tx : Transaction} {pay : PaymentTx} (hpay : tx.details.tx = .pay pay)
    (hnote : noteAccepted c tx.details.note = true) {ops : List WriteOp}
    (hops : bodyOps tx = .ok ops) : decode (opBytes ops) = some (.map (payPairs tx pay), []) := by
  obtain ⟨slot, -, henc⟩ := encodeTx_pay appendWriter_lawful hpay hnote (.zero c)
  obtain rfl := Except.ok.inj ((bodyOps_pay hpay).symm.trans hops)
  rw [← henc.drop_encoded]
  exact (henc.holds_pay hpay hnote).txn

/-- The same of an application call, with its arguments as they are written. -/
theorem decode_body_appl {tx : Transaction} {appl : ApplTx} {keyValues : AppValues}
    (happl : tx.details.tx = .appl appl) (hkv : appl.keyValues = some keyValues)
    (htyped : ∀ kv ∈ keyValues.args, kv.Typed) (hnote : noteAccepted c tx.details.note = true)
    {ops : List WriteOp} (hops : bodyOps tx = .ok ops) :
    decode (opBytes ops) = some (.map (applPairs tx appl keyValues
      (keyValues.args.map (writtenArg keyValues.values[0])) tx.details.note), []) := by
  obtain ⟨keyValues', hkv', hcount, rfl⟩ := (bodyOps_appl happl).mp hops
  obtain rfl := Option.some.inj (hkv.symm.trans hkv')
  obtain ⟨slot, -, henc⟩ := encodeTx_appl appendWriter_lawful happl hkv hcount hnote (.zero c)
  have hholds := henc.holds_appl happl hcount htyped
  rw [writtenNote_of_accepted hnote] at hholds
  rw [← henc.drop_encoded]
  exact hholds.txn

/-- The fields of a transaction; those of a call whose arguments have types that are known,
with these as they are written. -/
inductive Transaction.WrittenAs (tx : Transaction) : List (Value × Value) → Prop
  | pay {pay : PaymentTx} (pay_eq : tx.details.tx = .pay pay) : tx.WrittenAs (payPairs tx pay)
  | appl {appl : ApplTx} {keyValues : AppValues} (appl_eq : tx.details.tx = .appl appl)
      (keyValues_eq : appl.keyValues = some keyValues) (typed : ∀ kv ∈ keyValues.args, kv.Typed) :
      tx.WrittenAs (applPairs tx appl keyValues
        (keyValues.args.map (writtenArg keyValues.values[0])) tx.details.note)

theorem Transaction.WrittenAs.decode_body {tx : Transaction} {pairs : List (Value × Value)}
    (h : tx.WrittenAs pairs) (hnote : noteAccepted c tx.details.note = true) {ops : List WriteOp}
    (hops : bodyOps tx = .ok ops) : decode (opBytes ops) = some (.map pairs, []) := by
  cases h with
  | pay pay_eq => exact decode_body_pay pay_eq hnote hops
  | appl appl_eq keyValues_eq typed => exact decode_body_appl appl_eq keyValues_eq typed hnote hops

/-- The posted bytes decode to the fields of the transaction. -/
def Transaction.PostedAs (tx : Transaction) (signature body : List UInt8) : Prop :=
  ∀ pairs, tx.WrittenAs pairs → decode body = some (signedMap signature pairs, [])

theorem Transaction.postedAs_of_ops {tx : Transaction} {ops : List WriteOp}
    (hnote : noteAccepted c tx.details.note = true) (hops : bodyOps tx = .ok ops)
    (signature : Vector UInt8 signatureLength) :
    tx.PostedAs signature.toList (postBytes signature.toList (opBytes ops)) :=
  fun _ hpairs => decode_postBytes signature (hpairs.decode_body hnote hops)

/-! ## What holds of every run -/

/-- A payment that is signed and posted twice, with nothing between the posts. -/
theorem repeatedPost_history : ∃ s : Sdk .default,
    Run (Step .example) (Sdk.init .default .zero accountInit) repeatedPost s ∧
      ∃ before request request' after, s.history = before ++ .httpPost 0 request .success 200 ::
        ([] ++ .httpPost 0 request' .success 200 :: after) := by
  have hposts : (runAll .example repeatedPost
      (Sdk.init .default .zero accountInit)).map (fun s => (s.history.drop 5).map Obs.post?)
        = .ok [some (0, .success, 200), some (0, .success, 200)] := by decide +kernel
  cases hrun : runAll .example repeatedPost (Sdk.init .default .zero accountInit) with
  | error e => rw [hrun] at hposts; exact nomatch hposts
  | ok s =>
      rw [hrun] at hposts
      obtain ⟨o, l, hl, ho, hl'⟩ := List.map_eq_cons_iff.mp (Except.ok.inj hposts)
      obtain ⟨o', l', rfl, ho', -⟩ := List.map_eq_cons_iff.mp hl'
      obtain ⟨request, rfl⟩ := Obs.post?_eq_some ho
      obtain ⟨request', rfl⟩ := Obs.post?_eq_some ho'
      refine ⟨s, run_of_runAll hrun, s.history.take 5, request, request', l', ?_⟩
      rw [List.nil_append, ← hl, List.take_append_drop]

section Runs

variable {provider : Provider} {accounts : MAccounts} {calls : List Call} {s : Sdk c}

/-- A post was made of a letter that had been put into its slot, which was kept since; it
bears the signature stored last. -/
theorem letter_of_post (hW : env.writer.Lawful) (hR : env.reader.Lawful)
    (hrun : Run (Step env) (Sdk.init c provider accounts) calls s) {b : Fin pendingTxCount}
    {before after : List Obs} {request : HttpPost} {err : RetCode} {responseCode : UInt32}
    (hhistory : s.history = before ++ .httpPost b request err responseCode :: after) :
    ∃ earlier since body, before = earlier ++ .slotTaken b :: since ∧ .slotTaken b ∉ since ∧
      .slotFreed b ∉ since ∧ body.Requested c accounts calls ∧
      request.body = posting c ⟨body, storedSignature b noSignature since⟩ := by
  obtain ⟨-, acts, o, htells, hputs, hacts, -⟩ := Refines.run hW hR hrun
  rw [hhistory] at htells
  obtain ⟨acts₁, acts₂, l, rfl, hbefore, -, hbytes⟩ := htells.of_post
  obtain ⟨put, since, rfl, hkeeps, hmark⟩ := Outbox.contents_eq_some (Outbox.sent_eq hacts)
  obtain ⟨earlier, history, rfl, hsince⟩ := hbefore.of_put rfl
  obtain ⟨htaken, hfreed⟩ := hsince.kept hkeeps
  rw [hsince.lastStamp_eq] at hmark
  refine ⟨earlier, history, l.body, rfl, htaken, hfreed, hputs b l.body (by simp), ?_⟩
  rw [hbytes, ← hmark]

/-- **The pending slots are an outbox**: whatever is called in whatever order, the slots
hold letters as the acts of an outbox leave them, what is posted is those letters, and all
of them were asked for. -/
theorem slots_refine_outbox (hW : env.writer.Lawful) (hR : env.reader.Lawful)
    (hrun : Run (Step env) (Sdk.init c provider accounts) calls s) :
    ∃ acts o, Tells c s.history acts ∧ PutsOnly (Body.Requested c accounts calls) acts ∧
      Run (Outbox.Step noSignature) (fun _ => none) acts o ∧ s.Mirrors o :=
  (Refines.run hW hR hrun).2

theorem slots_refine_outbox_repeated : ∃ s : Sdk .default, ∃ acts o, Tells .default s.history acts ∧
    Run (Outbox.Step noSignature) (fun _ => none) acts o ∧ s.Mirrors o := by
  obtain ⟨s, hrun, -⟩ := repeatedPost_history
  obtain ⟨acts, o, htells, -, hacts⟩ :=
    slots_refine_outbox appendWriter_lawful formatReader_lawful hrun
  exact ⟨s, acts, o, htells, hacts⟩

/-- Until its slot is freed or another signature is stored, a transaction is posted with the
same bytes every time. -/
theorem resent_identical (hW : env.writer.Lawful) (hR : env.reader.Lawful)
    (hrun : Run (Step env) (Sdk.init c provider accounts) calls s) {b : Fin pendingTxCount}
    {before between after : List Obs} {request request' : HttpPost} {err err' : RetCode}
    {responseCode responseCode' : UInt32}
    (hhistory : s.history = before ++ .httpPost b request err responseCode ::
      (between ++ .httpPost b request' err' responseCode' :: after))
    (hkept : .slotFreed b ∉ between) (hunsigned : ∀ signature, .signed b signature ∉ between) :
    request'.body = request.body := by
  obtain ⟨-, acts, o, htells, -, hacts, -⟩ := Refines.run hW hR hrun
  rw [hhistory] at htells
  obtain ⟨acts₁, acts', l, rfl, -, htells, hbytes⟩ := htells.of_post
  obtain ⟨acts₂, acts₃, l', rfl, hbetween, -, hbytes'⟩ := htells.of_post
  rw [hbytes, hbytes', Outbox.sent_again hacts (hbetween.leaves hkept hunsigned)]

theorem resent_identical_repeated : ∃ (s : Sdk .default) (request request' : HttpPost),
    .httpPost 0 request .success 200 ∈ s.history ∧ .httpPost 0 request' .success 200 ∈ s.history ∧
      request'.body = request.body := by
  obtain ⟨s, hrun, before, request, request', after, hhistory⟩ := repeatedPost_history
  refine ⟨s, request, request', by simp [hhistory], by simp [hhistory], ?_⟩
  exact resent_identical appendWriter_lawful formatReader_lawful hrun hhistory
    List.not_mem_nil fun _ => List.not_mem_nil

/-- What is posted bears the signature that was stored last for this very transaction, since
its slot was taken; the transaction of a call that failed is posted as zeros. -/
theorem posted_signature (hW : env.writer.Lawful) (hR : env.reader.Lawful)
    (hrun : Run (Step env) (Sdk.init c provider accounts) calls s) {b : Fin pendingTxCount}
    {before after : List Obs} {request : HttpPost} {err : RetCode} {responseCode : UInt32}
    (hhistory : s.history = before ++ .httpPost b request err responseCode :: after) :
    ∃ earlier since, before = earlier ++ .slotTaken b :: since ∧ .slotTaken b ∉ since ∧
      .slotFreed b ∉ since ∧
      (request.body = List.replicate c.txPayloadMaxLength 0 ∨
        ∃ body, request.body = postBytes (storedSignature b noSignature since).toList body) := by
  obtain ⟨earlier, since, body, rfl, htaken, hfreed, -, hbytes⟩ := letter_of_post hW hR hrun hhistory
  refine ⟨earlier, since, rfl, htaken, hfreed, ?_⟩
  cases body with
  | encoded bytes => exact .inr ⟨bytes, hbytes⟩
  | unencoded => exact .inl hbytes

theorem posted_signature_repeated : ∃ (s : Sdk .default) (request : HttpPost),
    .httpPost 0 request .success 200 ∈ s.history ∧
      (request.body = List.replicate Config.default.txPayloadMaxLength 0 ∨
        ∃ signature body, request.body = postBytes signature body) := by
  obtain ⟨s, hrun, before, request, request', after, hhistory⟩ := repeatedPost_history
  obtain ⟨_, _, _, _, _, hbody⟩ :=
    posted_signature appendWriter_lawful formatReader_lawful hrun hhistory
  exact ⟨s, request, by simp [hhistory], hbody.imp_right fun ⟨body, h⟩ => ⟨_, body, h⟩⟩

/-- **Nothing is posted that was not asked for**: a post decodes to a transaction that one
of the calls, or a call of the handler, asked for, with its sender, receiver, amount,
arguments and note as they were given. -/
theorem posted_was_asked_for (hW : env.writer.Lawful) (hR : env.reader.Lawful)
    (hrun : Run (Step env) (Sdk.init c provider accounts) calls s) {b : Fin pendingTxCount}
    {request : HttpPost} {err : RetCode} {responseCode : UInt32}
    (hposted : .httpPost b request err responseCode ∈ s.history) :
    request.body = List.replicate c.txPayloadMaxLength 0 ∨
      ∃ call ∈ calls, ∃ tx₀ tx signature, call.Asks accounts tx₀ ∧ tx₀.SameRequest tx ∧
        tx.PostedAs signature request.body := by
  obtain ⟨before, after, hhistory⟩ := List.append_of_mem hposted
  obtain ⟨-, since, body, -, -, -, hbody, hbytes⟩ := letter_of_post hW hR hrun hhistory
  cases body with
  | encoded bytes =>
      obtain ⟨call, hcall, tx₀, tx, ops, hasks, hsame, hnote, hops, rfl⟩ := hbody
      have hdecodes := Transaction.postedAs_of_ops hnote hops (storedSignature b noSignature since)
      rw [hbytes]
      exact .inr ⟨call, hcall, tx₀, tx, _, hasks, hsame, hdecodes⟩
  | unencoded => exact .inl hbytes

theorem posted_was_asked_for_repeated : ∃ (s : Sdk .default) (request : HttpPost),
    .httpPost 0 request .success 200 ∈ s.history ∧
      (request.body = List.replicate Config.default.txPayloadMaxLength 0 ∨
        ∃ call ∈ repeatedPost, ∃ tx₀ tx signature, call.Asks accountInit tx₀ ∧
          tx₀.SameRequest tx ∧ tx.PostedAs signature request.body) := by
  obtain ⟨s, hrun, before, request, request', after, hhistory⟩ := repeatedPost_history
  have hposted : Obs.httpPost 0 request .success 200 ∈ s.history := by simp [hhistory]
  exact ⟨s, request, hposted,
    posted_was_asked_for appendWriter_lawful formatReader_lawful hrun hposted⟩

end Runs

end Vertices
