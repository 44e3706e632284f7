/-
# `Vertices.UnixExample` — `examples/unix/main.cpp`

The handler of the example signs with the keys of Alice's account, schedules the event to
send, and writes two files when the transaction has been posted.  Its loop processes events
until none is left or one fails.

The handler looks at the state it is called in.  `eventProcess` is
`vertices_event_process` with this handler installed, and every pass of the loop is a call
as `Step` has it (`eventProcess_step`), so what holds of every run holds of the example.

The test program in `tests/src/BasicTX` has the same handler, but for an array where the
example has a pointer; hence `sizeofPayload`.
-/
import Vertices.Signature

namespace Vertices

open Transition

variable {c : Config} {env : Env}

/-- What the handler is made of. -/
structure UnixExample where
  cryptoSignEd25519Detached : List UInt8 → List UInt8 → Vector UInt8 signatureLength
  /-- `alice_account`. -/
  privateKey : Vector UInt8 addressLength
  publicKey : Vector UInt8 addressLength
  /-- `sizeof payload` in the handler, of a payload with a body of that length. -/
  sizeofPayload : Nat → Nat

/-- `char *payload`, on 64 bits. -/
def sizeofPointer (_ : Nat) : Nat := 8

/-- `char payload[tx->payload_body_length + 5]`, as the test has it. -/
def sizeofArray (bodyLength : Nat) : Nat := bodyLength + 5

/-- `signed_tx.bin` and `tx.bin`. -/
structure Files where
  signedTx : Option (List UInt8)
  tx : Option (List UInt8)

/-- What one pass of the loop meets: the node, and whether the two files can be opened. -/
structure Turn where
  reply : HttpReply
  signedTxOpens : Bool
  txOpens : Bool

/-- `length` bytes of the payload from `start` on. -/
def SignedTransaction.read (slot : SignedTransaction c) (start length : Nat) :
    Except Fault (List UInt8) :=
  if start + length ≤ c.txPayloadMaxLength then return (slot.payload.toList.drop start).take length
  else throw .outOfBounds

/-- The slot gets a signature through the pointer `vertices_event_tx_get` hands out. -/
def Sdk.sign (s : Sdk c) (b : Fin pendingTxCount) (signature : Vector UInt8 signatureLength) : Sdk c :=
  (s.setSlot b { s.slot b with signature := signature }).record (.signed b signature)

namespace UnixExample

/-- "TX" and the body, signed with the two keys one after the other. -/
def sign (x : UnixExample) (body : List UInt8) : Vector UInt8 signatureLength :=
  x.cryptoSignEd25519Detached (lit "TX" ++ body) (x.privateKey.toList ++ x.publicKey.toList)

/-- `case VTC_EVT_TX_READY_TO_SIGN`; the pointer is set exactly if the code is
`VTC_SUCCESS`. -/
def readyToSign (x : UnixExample) (bufid : Nat) (s : Sdk c) : Except Fault (RetCode × Sdk c) := do
  let (err, tx) ← transactionGet bufid s
  match tx with
  | none => return (err, s)
  | some b =>
      let body ← (s.slot b).read (s.slot b).payloadHeaderLength (s.slot b).payloadBodyLength
      return (s.sign b (x.sign body)).schedule ⟨.txSending, bufid⟩

/-- `case VTC_EVT_TX_SENDING`. -/
def sending (x : UnixExample) (turn : Turn) (bufid : Nat) (s : Sdk c) (files : Files) :
    Except Fault (RetCode × Files) := do
  let (err, tx) ← transactionGet bufid s
  if turn.signedTxOpens = false then return (.errorNotFound, files)
  else
    match tx with
    | none => throw .nullDeref
    | some b =>
        let slot := s.slot b
        let signedTx ← slot.read 0 (slot.payloadHeaderLength + slot.payloadBodyLength)
        let files := { files with signedTx := some signedTx }
        if turn.txOpens = false then return (.errorNotFound, files)
        -- `payload_header_length - 4`, in `size_t`
        else if slot.payloadHeaderLength < 4 then throw .outOfBounds
        else
          let txn ← slot.read (slot.payloadHeaderLength - 4) (slot.payloadBodyLength + 4)
          let payload := (0x81 :: txn).take (x.sizeofPayload slot.payloadBodyLength)
          return (err, { files with tx := some payload })

/-- `vertices_evt_handler`. -/
def verticesEvtHandler (x : UnixExample) (turn : Turn) (evt : VtcEvt) (s : Sdk c) (files : Files) :
    Except Fault (RetCode × Sdk c × Files) :=
  match evt.type with
  | .txReadyToSign => do
      let (err, s) ← x.readyToSign evt.bufid s
      return (err, s, files)
  | .txSending => do
      let (err, files) ← x.sending turn evt.bufid s files
      return (err, s, files)
  | .txSuccess | .other _ => return (.success, s, files)

/-- `vertices_event_process`, with `vertices_evt_handler` installed. -/
def eventProcess (env : Env) (x : UnixExample) (turn : Turn) (s : Sdk c) (files : Files) :
    Except Fault (ProcessResult × Sdk c × Files) :=
  if s.mEventsQueue.eventQueueSize = 0 then
    return (⟨.success, some s.mEventsQueue.eventQueueSize, none⟩, s, files)
  else if s.mEventsQueue.rdIndex = s.mEventsQueue.wrIndex then
    return (⟨.success, some s.mEventsQueue.eventQueueSize, none⟩, s, files)
  else do
    let (err, s) ← preProcess env turn.reply s
    if err ≠ .success then return (⟨err, none, none⟩, s, files)
    else do
      let (err, s, files) ← x.verticesEvtHandler turn s.mEventsQueue.head s files
      if err ≠ .success then return (⟨err, none, none⟩, s, files)
      else do
        let (err, txID, s) ← postProcess s
        if err ≠ .success then return (⟨err, none, txID⟩, s, files)
        else return (⟨.success, some s.pop.mEventsQueue.eventQueueSize, txID⟩, s.pop, files)

/-! ## The handler makes calls into the library -/

theorem transactionGet_eq_ok {bufid : Nat} {s : Sdk c} {err : RetCode}
    {tx : Option (Fin pendingTxCount)} (h : transactionGet bufid s = .ok (err, tx)) :
    ∃ b : Fin pendingTxCount, b.val = bufid ∧
      ((s.Occupied b ∧ err = .success ∧ tx = some b) ∨
        (¬ s.Occupied b ∧ err = .errorInvalidParam ∧ tx = none)) := by
  obtain ⟨b, hb, h⟩ := bind_eq_ok.mp h
  refine ⟨b, subscript_eq_ok.mp hb, ?_⟩
  split at h
  · next hocc =>
      obtain ⟨rfl, rfl⟩ := pure_eq_ok2.mp h
      exact .inl ⟨hocc, rfl, rfl⟩
  · next hfree =>
      obtain ⟨rfl, rfl⟩ := pure_eq_ok2.mp h
      exact .inr ⟨hfree, rfl, rfl⟩

theorem transactionGet_of_occupied {s : Sdk c} {b : Fin pendingTxCount} (h : s.Occupied b) :
    transactionGet b s = .ok (.success, some b) := by
  rw [transactionGet, subscript_val]
  exact if_pos h

variable {x : UnixExample} {turn : Turn} {s t : Sdk c} {files files' : Files} {err : RetCode}

/-- What the handler does for an event to sign. -/
theorem readyToSign_cases {bufid : Nat} (h : x.readyToSign bufid s = .ok (err, t)) :
    ∃ b : Fin pendingTxCount, b.val = bufid ∧
      ((¬ s.Occupied b ∧ err = .errorInvalidParam ∧ t = s) ∨
        (s.Occupied b ∧ ∃ body, (s.slot b).read (s.slot b).payloadHeaderLength
            (s.slot b).payloadBodyLength = .ok body ∧
          (err, t) = (s.sign b (x.sign body)).schedule ⟨.txSending, bufid⟩)) := by
  obtain ⟨⟨err₁, tx⟩, hget, h⟩ := bind_eq_ok.mp h
  obtain ⟨b, rfl, ⟨hocc, rfl, rfl⟩ | ⟨hfree, rfl, rfl⟩⟩ := transactionGet_eq_ok hget
  · obtain ⟨body, hbody, h⟩ := bind_eq_ok.mp h
    exact ⟨b, rfl, .inr ⟨hocc, body, hbody, (pure_eq_ok.mp h).symm⟩⟩
  · obtain ⟨rfl, rfl⟩ := pure_eq_ok2.mp h
    exact ⟨b, rfl, .inl ⟨hfree, rfl, rfl⟩⟩

/-- An invocation is calls into the library, and a code. -/
theorem verticesEvtHandler_handling (env : Env) {evt : VtcEvt}
    (h : x.verticesEvtHandler turn evt s files = .ok (err, t, files')) :
    ∃ handling : Handling, handling.run env s = .ok (err, t) := by
  unfold verticesEvtHandler at h
  split at h
  · obtain ⟨⟨err₁, s₁⟩, hready, h⟩ := bind_eq_ok.mp h
    obtain ⟨rfl, rfl, -⟩ := pure_eq_ok3.mp h
    obtain ⟨b, hb, ⟨-, -, rfl⟩ | ⟨hocc, body, -, hs⟩⟩ := readyToSign_cases hready
    · exact ⟨⟨[], err₁⟩, rfl⟩
    · rw [← hb] at hs
      refine ⟨⟨[.sign b (x.sign body), .schedule ⟨.txSending, b⟩], err₁⟩, ?_⟩
      have hstore := storeSignature_of_occupied hocc (x.sign body)
      simp only [Handling.run, runCalls, Op.run, hstore]
      show Except.ok (err₁, (((s.sign b (x.sign body)).schedule ⟨.txSending, b⟩).2)) = _
      rw [← hs]
  · obtain ⟨⟨err₁, files₁⟩, -, h⟩ := bind_eq_ok.mp h
    obtain ⟨rfl, rfl, -⟩ := pure_eq_ok3.mp h
    exact ⟨⟨[], err₁⟩, rfl⟩
  all_goals
    obtain ⟨rfl, rfl, -⟩ := pure_eq_ok3.mp h
    exact ⟨⟨[], .success⟩, rfl⟩

/-! ## One pass of the loop -/

/-- The outcomes of a pass. -/
inductive Pass (env : Env) (x : UnixExample) (turn : Turn) (s : Sdk c) (files : Files) :
    ProcessResult → Sdk c → Files → Prop
  | empty (events : s.events = []) : Pass env x turn s files ⟨.success, some 0, none⟩ s files
  | preFailed {err : RetCode} {t : Sdk c} (events : s.events ≠ [])
      (pre : preProcess env turn.reply s = .ok (err, t)) (failed : err ≠ .success) :
      Pass env x turn s files ⟨err, none, none⟩ t files
  | userFailed {err : RetCode} {s₁ t : Sdk c} {files' : Files} (events : s.events ≠ [])
      (pre : preProcess env turn.reply s = .ok (.success, s₁))
      (user : x.verticesEvtHandler turn s₁.mEventsQueue.head s₁ files = .ok (err, t, files'))
      (failed : err ≠ .success) : Pass env x turn s files ⟨err, none, none⟩ t files'
  | done {txID : Option (Vector UInt8 transactionHashStrMaxLength)} {s₁ s₂ s₃ : Sdk c}
      {files' : Files} (events : s.events ≠ [])
      (pre : preProcess env turn.reply s = .ok (.success, s₁))
      (user : x.verticesEvtHandler turn s₁.mEventsQueue.head s₁ files = .ok (.success, s₂, files'))
      (post : postProcess s₂ = .ok (.success, txID, s₃)) :
      Pass env x turn s files ⟨.success, some s₃.pop.mEventsQueue.eventQueueSize, txID⟩ s₃.pop files'

theorem eventProcess_pass {result : ProcessResult}
    (h : x.eventProcess env turn s files = .ok (result, t, files')) :
    Pass env x turn s files result t files' := by
  unfold eventProcess at h
  split at h
  · next hsize =>
      obtain ⟨rfl, rfl, rfl⟩ := pure_eq_ok3.mp h
      rw [hsize]
      exact .empty (VtcEventsBuf.eventQueueSize_eq_zero_iff.mp hsize)
  · next hsize =>
      have hne : s.events ≠ [] := fun he => hsize (VtcEventsBuf.eventQueueSize_eq_zero_iff.mpr he)
      rw [if_neg fun he => hne (VtcEventsBuf.events_eq_nil_iff.mpr he)] at h
      obtain ⟨⟨err₁, s₁⟩, hpre, h⟩ := bind_eq_ok.mp h
      dsimp only at h
      split at h
      · next hf =>
          obtain ⟨rfl, rfl, rfl⟩ := pure_eq_ok3.mp h
          exact .preFailed hne hpre hf
      · next hs₁ =>
          obtain rfl := not_not.mp hs₁
          obtain ⟨⟨err₂, s₂, files₂⟩, huser, h⟩ := bind_eq_ok.mp h
          dsimp only at h
          split at h
          · next hf =>
              obtain ⟨rfl, rfl, rfl⟩ := pure_eq_ok3.mp h
              exact .userFailed hne hpre huser hf
          · next hs₂ =>
              obtain rfl := not_not.mp hs₂
              obtain ⟨⟨err₃, txID, s₃⟩, hpost, h⟩ := bind_eq_ok.mp h
              obtain ⟨rfl, -⟩ := postProcess_cases hpost
              obtain ⟨rfl, rfl, rfl⟩ := pure_eq_ok3.mp h
              exact .done hne hpre huser hpost

/-- On a queue that is not empty, `vertices_event_process` goes through its stages. -/
theorem verticesEventProcess_of_ne_nil {handler : Option Handling} {reply : HttpReply}
    (hne : s.events ≠ []) :
    verticesEventProcess env handler reply s = (do
      let (err, s) ← preProcess env reply s
      if err ≠ .success then return (⟨err, none, none⟩, s)
      else do
        let (err, s) ← userProcess env handler s
        if err ≠ .success then return (⟨err, none, none⟩, s)
        else do
          let (err, txID, s) ← postProcess s
          if err ≠ .success then return (⟨err, none, txID⟩, s)
          else return (⟨.success, some s.pop.mEventsQueue.eventQueueSize, txID⟩, s.pop)) := by
  rw [verticesEventProcess,
    if_neg fun hsize => hne (VtcEventsBuf.eventQueueSize_eq_zero_iff.mp hsize),
    if_neg fun he => hne (VtcEventsBuf.events_eq_nil_iff.mpr he)]

/-- A pass is a call of `vertices_event_process`, for what the handler has come to. -/
theorem Pass.verticesEventProcess {result : ProcessResult} (h : Pass env x turn s files result t files') :
    ∃ handling, verticesEventProcess env (some handling) turn.reply s = .ok (result, t) := by
  cases h with
  | empty events =>
      have hsize := VtcEventsBuf.eventQueueSize_eq_zero_iff.mpr events
      refine ⟨⟨[], .success⟩, ?_⟩
      rw [Vertices.verticesEventProcess, if_pos hsize, hsize]
      rfl
  | preFailed events pre failed =>
      refine ⟨⟨[], .success⟩, ?_⟩
      rw [verticesEventProcess_of_ne_nil events, pre]
      exact if_pos failed
  | userFailed events pre user failed =>
      obtain ⟨handling, hrun⟩ := verticesEvtHandler_handling env user
      have huser : userProcess env (some handling) _ = _ := hrun
      refine ⟨handling, ?_⟩
      rw [verticesEventProcess_of_ne_nil events, pre]
      show (userProcess env (some handling) _ >>= _) = _
      rw [huser]
      exact if_pos failed
  | done events pre user post =>
      obtain ⟨handling, hrun⟩ := verticesEvtHandler_handling env user
      have huser : userProcess env (some handling) _ = _ := hrun
      refine ⟨handling, ?_⟩
      rw [verticesEventProcess_of_ne_nil events, pre]
      show (userProcess env (some handling) _ >>= _) = _
      rw [huser]
      show (postProcess _ >>= _) = _
      rw [post]
      rfl

/-- What holds of every run holds of the example. -/
theorem Pass.step {result : ProcessResult} (h : Pass env x turn s files result t files') :
    ∃ handling, Step env s (.process (some handling) turn.reply) t := by
  obtain ⟨handling, hp⟩ := h.verticesEventProcess
  refine ⟨handling, result.err, ?_⟩
  rw [Call.run, hp]
  rfl

end UnixExample

end Vertices
