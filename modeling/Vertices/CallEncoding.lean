/-
# `Vertices.CallEncoding` — the arguments of an application call, null and untyped

The header allows a call without arguments, and `encode_tx` asks for their number before
it asks whether there are any.  An argument of no type is counted in the array and not
written, and the encoder sees no error in it: the array takes the fields behind it for its
elements.
-/
import Vertices.Atomicity

namespace Vertices

open MsgPack

variable {c : Config} {env : Env}

/-! ## What stops a call before the encoder -/

theorem foldlM_callback_fault {chunks : List (List UInt8)} {p : Provider} {fault : Fault}
    (h : chunks.foldlM responsePayloadCallback p = .error fault) : fault = .outOfBounds := by
  induction chunks generalizing p with
  | nil => cases h
  | cons chunk chunks ih =>
      rw [List.foldlM_cons] at h
      cases hcall : responsePayloadCallback p chunk with
      | ok p' =>
          rw [hcall] at h
          exact ih h
      | error fault' =>
          rw [hcall] at h
          cases h
          rw [responsePayloadCallback, memcpy] at hcall
          split at hcall
          · cases hcall
          · cases hcall
            rfl

theorem loadGenesisHash_fault {version : ProviderVersion} {json : CJson}
    {hash : Vector UInt8 blockHashLength} {fault : Fault}
    (h : loadGenesisHash version json hash = .error fault) : fault = .outOfBounds := by
  rw [loadGenesisHash] at h
  split at h
  · split at h
    · next text _ =>
        dsimp only at h
        rw [memcpy] at h
        split at h
        · cases h
        · cases h
          rfl
    · cases h
  · cases h

theorem providerTxParamsLoad_fault {p : Provider} {reply : HttpReply} {tx : Transaction}
    {fault : Fault} (h : providerTxParamsLoad env.cJSON_Parse p reply tx = .error fault) :
    fault = .outOfBounds := by
  rw [providerTxParamsLoad] at h
  cases hreceive : httpReceive p reply with
  | error fault' =>
      rw [hreceive] at h
      cases h
      exact foldlM_callback_fault hreceive
  | ok p' =>
      rw [hreceive] at h
      dsimp only [bind, Except.bind] at h
      split at h
      · split at h
        · cases h
        · next json _ =>
            cases hhash : loadGenesisHash p'.version json tx.genesisHash with
            | error fault' =>
                rw [hhash] at h
                cases h
                exact loadGenesisHash_fault hhash
            | ok r =>
                rw [hhash] at h
                cases h
      · split at h <;> cases h

theorem hasAppFrom_fault {details : AccountDetails} {appId : UInt64} {n : Nat} {fault : Fault} :
    ∀ {j : Nat}, hasAppFrom details appId j n = .error fault → fault = .outOfBounds := by
  induction n with
  | zero => exact fun h => nomatch h
  | succ n ih =>
      intro j h
      rw [hasAppFrom_succ, subscript] at h
      split at h
      · dsimp only [bind, Except.bind] at h
        split at h
        · cases h
        · exact ih h
      · cases h
        rfl

theorem accountHasApp_fault {account : AccountPtr} {appId : UInt64} {accounts : MAccounts}
    {fault : Fault} (h : accountHasApp account appId accounts = .error fault) :
    fault = .outOfBounds := by
  cases account with
  | mAccount i => exact hasAppFrom_fault h
  | other info => cases h

/-! ## A call -/

/-- The slot is free, the account's applications can be read, and the parameters are had:
the transaction is encoded. -/
def ReachesEncoder (env : Env) (sender : AccountPtr) (appId : UInt64) (params : Option AppValues)
    (reply : HttpReply) (s : Sdk c) : Prop :=
  ¬ s.Occupied s.mTxBufferIdx ∧ ∃ hasApp, accountHasApp sender appId s.mAccounts = .ok hasApp ∧
    ∃ err tx p, providerTxParamsLoad env.cJSON_Parse s.mProvider reply
        (applRequest s sender appId params hasApp) = .ok (err, tx, p) ∧ paramsUsable err = true

/-- A call whose slot is free and whose account can be read loads the parameters. -/
theorem transactionAppl_loads {sender : AccountPtr} {appId : UInt64} {params : Option AppValues}
    {reply : HttpReply} {s : Sdk c} (hfree : ¬ s.Occupied s.mTxBufferIdx) {hasApp : Bool}
    (hhas : accountHasApp sender appId s.mAccounts = .ok hasApp) :
    transactionAppl env sender appId params reply s =
      (providerTxParamsLoad env.cJSON_Parse s.mProvider reply
        (applRequest s sender appId params hasApp)).bind fun (err, tx, p) =>
          if paramsUsable err = false then .ok (err, s.loaded p)
          else (encodeTx env.writer tx ((s.loaded p).slot s.mTxBufferIdx)).bind fun (err, slot) =>
            if err ≠ .success then .ok (err, (s.loaded p).setSlot s.mTxBufferIdx slot)
            else .ok ((s.loaded p).setSlot s.mTxBufferIdx slot).scheduleReadyToSign := by
  have hhas : accountHasApp sender appId s.takeSlot.mAccounts = .ok hasApp := hhas
  rw [transactionAppl, if_neg hfree]
  dsimp only
  rw [hhas]
  rfl

/-- A call that does not get as far as the encoder returns an error, or does not return. -/
theorem transactionAppl_stops {sender : AccountPtr} {appId : UInt64} {params : Option AppValues}
    {reply : HttpReply} {s : Sdk c} (h : ¬ ReachesEncoder env sender appId params reply s) :
    transactionAppl env sender appId params reply s = .error .outOfBounds ∨
      ∃ err t, transactionAppl env sender appId params reply s = .ok (err, t) ∧ err ≠ .success := by
  by_cases hocc : s.Occupied s.mTxBufferIdx
  · exact .inr ⟨.errorNoMem, s, by rw [transactionAppl, if_pos hocc]; rfl, nofun⟩
  cases hhas : accountHasApp sender appId s.mAccounts with
  | error fault =>
      have htaken : accountHasApp sender appId s.takeSlot.mAccounts = .error fault := hhas
      cases accountHasApp_fault hhas
      rw [transactionAppl, if_neg hocc]
      dsimp only
      rw [htaken]
      exact .inl rfl
  | ok hasApp =>
      rw [transactionAppl_loads hocc hhas]
      cases hload : providerTxParamsLoad env.cJSON_Parse s.mProvider reply
          (applRequest s sender appId params hasApp) with
      | error fault =>
          cases providerTxParamsLoad_fault hload
          exact .inl rfl
      | ok r =>
          obtain ⟨err, tx, p⟩ := r
          have hunusable : paramsUsable err = false := by
            rw [← Bool.not_eq_true]
            exact fun husable => h ⟨hocc, hasApp, hhas, err, tx, p, hload, husable⟩
          refine .inr ⟨err, s.loaded p, if_pos hunusable, ?_⟩
          rintro rfl
          cases hunusable

/-- Without arguments the encoder follows a null pointer. -/
theorem encodeTx_null {W : MpackWriter} {tx : Transaction} {appl : ApplTx}
    (happl : tx.details.tx = .appl appl) (hnull : appl.keyValues = none)
    (slot : SignedTransaction c) : encodeTx W tx slot = .error .nullDeref := by
  have hbody : bodyOps tx = .error .nullDeref := by
    rw [bodyOps, txnMapElementCount, happl]
    dsimp only
    rw [hnull]
    rfl
  rw [encodeTx, hbody]
  rfl

/-- The encoder has been reached: with a null pointer it faults, and with arguments it
leaves a payload that is complete exactly if they are typed. -/
theorem transactionAppl_encodes (hW : env.writer.Lawful) {sender : AccountPtr} {appId : UInt64}
    {params : Option AppValues} {reply : HttpReply} {s : Sdk c}
    (h : ReachesEncoder env sender appId params reply s) :
    (params = none → transactionAppl env sender appId params reply s = .error .nullDeref) ∧
      ∀ keyValues, params = some keyValues → keyValues.count ≤ appsKvMaxCount →
        ∃ p slot, transactionAppl env sender appId params reply s =
            .ok ((s.loaded p).setSlot s.mTxBufferIdx slot).scheduleReadyToSign ∧
          (slot.Complete ↔ ∀ kv ∈ keyValues.args, kv.Typed) := by
  obtain ⟨hfree, hasApp, hhas, err, tx, p, hload, husable⟩ := h
  obtain ⟨-, hnote, htx⟩ := providerTxParamsLoad_sameRequest hload
  have hgoes : ¬ paramsUsable err = false := by rw [husable]; exact Bool.noConfusion
  have hcall : transactionAppl env sender appId params reply s =
      (encodeTx env.writer tx ((s.loaded p).slot s.mTxBufferIdx)).bind fun (err, slot) =>
        if err ≠ .success then .ok (err, (s.loaded p).setSlot s.mTxBufferIdx slot)
        else .ok ((s.loaded p).setSlot s.mTxBufferIdx slot).scheduleReadyToSign := by
    rw [transactionAppl_loads hfree hhas, hload]
    exact if_neg hgoes
  constructor
  · rintro rfl
    rw [hcall, encodeTx_null htx rfl]
    rfl
  · rintro keyValues rfl hcount
    have hnote' : noteAccepted c tx.details.note = true := by
      rw [hnote]
      rfl
    obtain ⟨slot, hencode, henc⟩ :=
      encodeTx_appl hW htx rfl hcount hnote' ((s.loaded p).slot s.mTxBufferIdx)
    refine ⟨p, slot, ?_, ?_⟩
    · rw [hcall, hencode]
      rfl
    · rw [henc.complete_iff (.inr ⟨_, htx⟩) hnote' ((bodyOps_appl htx).mpr ⟨_, rfl, hcount, rfl⟩), htx]
      exact ⟨fun ht => ht keyValues rfl, fun ht _ he => Option.mem_some_iff.mp he ▸ ht⟩

/-- **Application calls.**  No null pointer is followed, and what is accepted is one complete
value, exactly if the call that reaches the encoder has arguments, and all of them are typed
or the queue has no room for its event. -/
theorem application_call_complete_iff (hW : env.writer.Lawful) (sender : AccountPtr) (appId : UInt64)
    {params : Option AppValues} (hcount : ∀ keyValues ∈ params, keyValues.count ≤ appsKvMaxCount)
    (reply : HttpReply) (s : Sdk c) :
    (transactionAppl env sender appId params reply s ≠ .error .nullDeref ∧
        ∀ t, transactionAppl env sender appId params reply s = .ok (.success, t) →
          (t.slot s.mTxBufferIdx).Complete) ↔
      (ReachesEncoder env sender appId params reply s → params.isSome = true ∧
        (s.HasRoom → ArgsTyped params)) := by
  by_cases hreach : ReachesEncoder env sender appId params reply s
  · rw [forall_prop_of_true hreach]
    obtain ⟨hnull, hsome⟩ := transactionAppl_encodes hW hreach
    cases params with
    | none => exact iff_of_false (fun h => h.1 (hnull rfl)) fun h => nomatch h.1
    | some keyValues =>
        obtain ⟨p, slot, hcall, hcomplete⟩ := hsome keyValues rfl (hcount keyValues rfl)
        have htyped : ArgsTyped (some keyValues) ↔ ∀ kv ∈ keyValues.args, kv.Typed :=
          ⟨fun ht => ht keyValues rfl, fun ht _ he => Option.mem_some_iff.mp he ▸ ht⟩
        have hslot : (((s.loaded p).setSlot s.mTxBufferIdx slot).scheduleReadyToSign.2).slot
            s.mTxBufferIdx = slot := by
          rw [Sdk.slot_scheduleReadyToSign, Sdk.slot_setSlot_self]
        rw [hcall, and_iff_right nofun, and_iff_right Option.isSome_some, htyped, ← hcomplete]
        rcases Sdk.scheduleReadyToSign_cases ((s.loaded p).setSlot s.mTxBufferIdx slot) with
          ⟨hroom, herr, -⟩ | ⟨hroom, herr⟩
        · have hroom : s.HasRoom := hroom
          rw [forall_prop_of_true hroom]
          constructor
          · intro hall
            have hdone := hall _ (congrArg Except.ok (Prod.ext herr rfl))
            rwa [hslot] at hdone
          · intro hdone t ht
            obtain rfl := congrArg Prod.snd (Except.ok.inj ht)
            rw [hslot]
            exact hdone
        · refine iff_of_true (fun t ht => ?_) fun hroom' => absurd hroom' hroom
          have ht := congrArg Prod.fst (Except.ok.inj ht)
          rw [herr] at ht
          cases ht
  · have hright : ReachesEncoder env sender appId params reply s → params.isSome = true ∧
        (s.HasRoom → ArgsTyped params) := fun h => absurd h hreach
    obtain hcall | ⟨err, t, hcall, hfail⟩ := transactionAppl_stops hreach
    · rw [hcall]
      exact iff_of_true ⟨nofun, fun _ ht => nomatch ht⟩ hright
    · rw [hcall]
      refine iff_of_true ⟨nofun, fun t' ht => ?_⟩ hright
      exact absurd (congrArg Prod.fst (Except.ok.inj ht)) hfail

/-! ## Null, untyped and typed -/

/-- The node is not there; the parameters are left at zero. -/
def offlineAnswer : HttpReply := ⟨[], .errorOffline, 0⟩

def startState : Sdk .default := .init .default .zero accountInit

/-- A call from the initial state. -/
def firstCall (params : Option AppValues) : Except Fault (RetCode × Sdk .default) :=
  transactionAppl .example (.other AccountDetails.zero.info) 7 params offlineAnswer startState

/-- The call with one integer. -/
theorem application_call_complete_iff_one_integer :
    firstCall (some oneInteger) ≠ .error .nullDeref ∧
      ∀ t, firstCall (some oneInteger) = .ok (.success, t) →
        (t.slot startState.mTxBufferIdx).Complete := by
  have hcount : ∀ keyValues ∈ some oneInteger, keyValues.count ≤ appsKvMaxCount := by
    intro keyValues hkv
    cases hkv
    decide
  refine (application_call_complete_iff appendWriter_lawful (.other AccountDetails.zero.info) 7 hcount
    offlineAnswer startState).mpr fun _ => ⟨rfl, fun _ => ?_⟩
  intro keyValues hkv
  cases hkv
  exact oneInteger_typed

/-- One argument without a type. -/
def oneUntyped : AppValues := { AppValues.zero with count := 1 }

/-- No arguments: the null pointer is followed.  An argument without a type: the call
succeeds, and its payload is not one value. -/
theorem null_and_untyped_arguments :
    firstCall none = .error .nullDeref ∧
      ∃ t, firstCall (some oneUntyped) = .ok (.success, t) ∧
        ¬ (t.slot startState.mTxBufferIdx).Complete := by
  have hreach : ReachesEncoder Env.example (.other AccountDetails.zero.info) 7 (some oneUntyped)
      offlineAnswer startState :=
    ⟨by decide, false, rfl, .errorOffline, _, _, rfl, rfl⟩
  obtain ⟨p, slot, hcall, hcomplete⟩ :=
    (transactionAppl_encodes appendWriter_lawful hreach).2 oneUntyped rfl (by decide)
  have hroom : ((startState.loaded p).setSlot startState.mTxBufferIdx slot).HasRoom :=
    (by decide : startState.HasRoom)
  rcases Sdk.scheduleReadyToSign_cases ((startState.loaded p).setSlot startState.mTxBufferIdx slot) with
    ⟨-, herr, -⟩ | ⟨hfull, -⟩
  · refine ⟨rfl, ((startState.loaded p).setSlot startState.mTxBufferIdx slot).scheduleReadyToSign.2,
      hcall.trans (congrArg Except.ok (Prod.ext herr rfl)), ?_⟩
    rw [Sdk.slot_scheduleReadyToSign, Sdk.slot_setSlot_self, hcomplete]
    intro htyped
    exact absurd (htyped AppKeyValue.zero (by decide)) (by rintro (h | h) <;> cases h)
  · exact absurd hroom hfull

end Vertices
