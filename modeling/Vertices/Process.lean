/-
# `Vertices.Process` — `vertices_event_process`, the user's handler, and runs of calls

`vertices_event_process` handles the head of the queue in three stages — before the
user, the user, after the user — and removes it only when all three succeed.

The user's handler is the program of somebody else.  What one invocation does is a
`Handling`: the calls it makes into the library, and the code it returns.  A handler
that looks at what its calls return makes, in each run, one such list of calls, so a
theorem about every `Handling` is a theorem about every handler.
-/
import Vertices.Transaction
import Vertices.Lib.Transition

namespace Vertices

open Transition

variable {c : Config}

/-- A call into the library other than `vertices_event_process`. -/
inductive Op where
  /-- `vertices_transaction_pay_new`. -/
  | pay (sender : AccountPtr) (receiver : Vector UInt8 addressLength) (amount : UInt64)
      (params : Option CStr) (reply : HttpReply)
  /-- `vertices_transaction_app_call`. -/
  | appl (sender : AccountPtr) (appId : UInt64) (params : Option AppValues) (reply : HttpReply)
  /-- `vertices_event_schedule`. -/
  | schedule (evt : VtcEvt)
  /-- `vertices_event_tx_get`, and storing a signature behind the pointer it hands out. -/
  | sign (bufid : Nat) (signature : Vector UInt8 signatureLength)

/-- `tx->signature` written through the pointer `transaction_get` hands out. -/
def storeSignature (bufid : Nat) (signature : Vector UInt8 signatureLength) (s : Sdk c) :
    Except Fault (RetCode × Sdk c) := do
  let (err, tx) ← transactionGet bufid s
  match tx with
  | some b =>
      return (err, (s.setSlot b { s.slot b with signature := signature }).record
        (.signed b signature))
  | none => return (err, s)

/-- The call on a state. -/
def Op.run (env : Env) (s : Sdk c) : Op → Except Fault (RetCode × Sdk c)
  | .pay sender receiver amount params reply =>
      transactionPay env sender receiver amount params reply s
  | .appl sender appId params reply => transactionAppl env sender appId params reply s
  | .schedule evt => return s.schedule evt
  | .sign bufid signature => storeSignature bufid signature s

/-- One invocation of `m_vertices_evt_handler`. -/
structure Handling where
  calls : List Op
  err : RetCode

/-- The calls of an invocation, one after the other. -/
def runCalls (env : Env) : List Op → Sdk c → Except Fault (Sdk c)
  | [], s => return s
  | o :: calls, s => do
      let (_, s) ← o.run env s
      runCalls env calls s

def Handling.run (env : Env) (handling : Handling) (s : Sdk c) :
    Except Fault (RetCode × Sdk c) := do
  let s ← runCalls env handling.calls s
  return (handling.err, s)

/-! ## `vertices_event_process` -/

/-- The code it returns and what it writes through its two pointers. -/
structure ProcessResult where
  err : RetCode
  queueSize : Option Nat
  txID : Option (Vector UInt8 transactionHashStrMaxLength)

/-- "internal handling for action to be taken before the user". -/
def preProcess (env : Env) (reply : HttpReply) (s : Sdk c) : Except Fault (RetCode × Sdk c) :=
  match s.mEventsQueue.head.type with
  | .txSending => transactionPendingSend env s.mEventsQueue.head.bufid reply s
  | .txReadyToSign | .txSuccess | .other _ => return (.success, s)

/-- "now let's have the user handle the event"; `none` is a null handler. -/
def userProcess (env : Env) (handler : Option Handling) (s : Sdk c) :
    Except Fault (RetCode × Sdk c) :=
  match handler with
  | some handling => handling.run env s
  | none => return (.success, s)

/-- "internal handling for action to be taken after the user": the id of a transaction
that succeeded is copied out, its slot freed. -/
def postProcess (s : Sdk c) :
    Except Fault (RetCode × Option (Vector UInt8 transactionHashStrMaxLength) × Sdk c) :=
  match s.mEventsQueue.head.type with
  | .txSuccess => do
      let (_, tx) ← transactionGet s.mEventsQueue.head.bufid s
      match tx with
      | none => throw .nullDeref
      | some b =>
          let (err, s') ← transactionFree s.mEventsQueue.head.bufid s
          return (err, some (s.slot b).id, s')
  | .txReadyToSign | .txSending | .other _ => return (.success, none, s)

/-- `increment_event_index(m_events_queue.rd_index)`. -/
def Sdk.pop (s : Sdk c) : Sdk c :=
  { s with mEventsQueue := s.mEventsQueue.pop }.record (.dequeued s.mEventsQueue.head)

/-- `vertices_event_process`. -/
def verticesEventProcess (env : Env) (handler : Option Handling) (reply : HttpReply) (s : Sdk c) :
    Except Fault (ProcessResult × Sdk c) :=
  if s.mEventsQueue.eventQueueSize = 0 then
    return (⟨.success, some s.mEventsQueue.eventQueueSize, none⟩, s)
  else if s.mEventsQueue.rdIndex = s.mEventsQueue.wrIndex then
    return (⟨.success, some s.mEventsQueue.eventQueueSize, none⟩, s)
  else do
    let (err, s) ← preProcess env reply s
    if err ≠ .success then return (⟨err, none, none⟩, s)
    else do
      let (err, s) ← userProcess env handler s
      if err ≠ .success then return (⟨err, none, none⟩, s)
      else do
        let (err, txID, s) ← postProcess s
        if err ≠ .success then return (⟨err, none, txID⟩, s)
        else return (⟨.success, some s.pop.mEventsQueue.eventQueueSize, txID⟩, s.pop)

/-! ## Runs -/

/-- A call of the application. -/
inductive Call where
  | op (o : Op)
  | process (handler : Option Handling) (reply : HttpReply)

/-- The call on a state. -/
def Call.run (env : Env) (s : Sdk c) : Call → Except Fault (RetCode × Sdk c)
  | .op o => o.run env s
  | .process handler reply => do
      let (result, s) ← verticesEventProcess env handler reply s
      return (result.err, s)

/-- One call that does not fault. -/
def Step (env : Env) (s : Sdk c) (call : Call) (t : Sdk c) : Prop :=
  ∃ err, call.run env s = .ok (err, t)

/-- A run, when none of its calls faults. -/
def runAll (env : Env) : List Call → Sdk c → Except Fault (Sdk c)
  | [], s => return s
  | call :: calls, s => do
      let (_, s) ← call.run env s
      runAll env calls s

theorem run_of_runAll {env : Env} {calls : List Call} {s t : Sdk c}
    (h : runAll env calls s = .ok t) : Run (Step env) s calls t := by
  induction calls generalizing s with
  | nil =>
      rw [← pure_eq_ok.mp h]
      exact .nil s
  | cons call calls ih =>
      obtain ⟨⟨err, s₁⟩, hcall, h⟩ := bind_eq_ok.mp h
      exact .cons ⟨err, hcall⟩ (ih h)

/-- A run, when its calls do not fault and all meet `ok`. -/
def runGuarded (env : Env) (ok : Sdk c → Call → Prop) [∀ s call, Decidable (ok s call)] :
    List Call → Sdk c → Option (Sdk c)
  | [], s => some s
  | call :: calls, s =>
      if ok s call then
        match call.run env s with
        | .ok (_, t) => runGuarded env ok calls t
        | .error _ => none
      else none

theorem run_of_runGuarded {env : Env} {ok : Sdk c → Call → Prop} [∀ s call, Decidable (ok s call)]
    {calls : List Call} {s t : Sdk c} (h : runGuarded env ok calls s = some t) :
    Run (guard ok (Step env)) s calls t := by
  induction calls generalizing s with
  | nil =>
      rw [← Option.some.inj h]
      exact .nil s
  | cons call calls ih =>
      rw [runGuarded] at h
      split at h
      · next hok =>
          split at h
          · next err u hcall => exact .cons ⟨hok, err, hcall⟩ (ih h)
          · exact nomatch h
      · exact nomatch h

/-- No answer. -/
def offlineReply : HttpReply := ⟨[], .errorOffline, 0⟩

/-- The request is refused. -/
def refusedReply : HttpReply := ⟨[], .success, 400⟩

/-- A payment of 5, to an address of ones. -/
def payment : Op :=
  .pay (.other AccountDetails.zero.info) (Vector.replicate _ 1) 5 none paramsReply

/-- A handler that signs, and schedules the event to send. -/
def signAndSend (bufid : Nat) : Handling where
  calls := [.sign bufid (Vector.replicate _ 7), .schedule ⟨.txSending, bufid⟩]
  err := .success

/-! ## What one call can do -/

/-- The last stage cannot fail: it frees a slot that `transaction_get` has just found
occupied, and it faults on any other. -/
theorem postProcess_cases {s t : Sdk c} {err : RetCode}
    {txID : Option (Vector UInt8 transactionHashStrMaxLength)}
    (h : postProcess s = .ok (err, txID, t)) :
    err = .success ∧
      ((s.mEventsQueue.head.type = .txSuccess ∧
          ∃ b : Fin pendingTxCount, b.val = s.mEventsQueue.head.bufid ∧ s.Occupied b ∧
            txID = some (s.slot b).id ∧ t = (s.setSlot b (.zero c)).record (.slotFreed b)) ∨
        (s.mEventsQueue.head.type ≠ .txSuccess ∧ txID = none ∧ t = s)) := by
  unfold postProcess at h
  split at h
  · next htype =>
      obtain ⟨⟨err₁, tx⟩, hget, h⟩ := bind_eq_ok.mp h
      obtain ⟨b, hb, hget⟩ := bind_eq_ok.mp hget
      split at hget
      · next hocc =>
          obtain ⟨rfl, rfl⟩ := pure_eq_ok2.mp hget
          obtain ⟨⟨err₂, t'⟩, hfree, h⟩ := bind_eq_ok.mp h
          obtain ⟨b', hb', hfree⟩ := bind_eq_ok.mp hfree
          obtain rfl : b = b' := Except.ok.inj (hb.symm.trans hb')
          rw [if_pos hocc] at hfree
          obtain ⟨rfl, rfl⟩ := pure_eq_ok2.mp hfree
          obtain ⟨rfl, rfl, rfl⟩ := pure_eq_ok3.mp h
          exact ⟨rfl, .inl ⟨htype, b, subscript_eq_ok.mp hb, hocc, rfl, rfl⟩⟩
      · obtain ⟨-, rfl⟩ := pure_eq_ok2.mp hget
        exact absurd h (throw_ne_ok _ _)
  all_goals
    next htype =>
      obtain ⟨rfl, rfl, rfl⟩ := pure_eq_ok3.mp h
      exact ⟨rfl, .inr ⟨by simp [htype], rfl, rfl⟩⟩

/-- The outcomes of `vertices_event_process`. -/
inductive Processing (env : Env) (handler : Option Handling) (reply : HttpReply) (s : Sdk c) :
    ProcessResult → Sdk c → Prop
  | empty (events : s.events = []) : Processing env handler reply s ⟨.success, some 0, none⟩ s
  | preFailed {err : RetCode} {t : Sdk c} (events : s.events ≠ [])
      (pre : preProcess env reply s = .ok (err, t)) (failed : err ≠ .success) :
      Processing env handler reply s ⟨err, none, none⟩ t
  | userFailed {err : RetCode} {s₁ t : Sdk c} (events : s.events ≠ [])
      (pre : preProcess env reply s = .ok (.success, s₁))
      (user : userProcess env handler s₁ = .ok (err, t)) (failed : err ≠ .success) :
      Processing env handler reply s ⟨err, none, none⟩ t
  | done {txID : Option (Vector UInt8 transactionHashStrMaxLength)} {s₁ s₂ s₃ : Sdk c}
      (events : s.events ≠ [])
      (pre : preProcess env reply s = .ok (.success, s₁))
      (user : userProcess env handler s₁ = .ok (.success, s₂))
      (post : postProcess s₂ = .ok (.success, txID, s₃)) :
      Processing env handler reply s
        ⟨.success, some s₃.pop.mEventsQueue.eventQueueSize, txID⟩ s₃.pop

theorem verticesEventProcess_processing {env : Env} {handler : Option Handling}
    {reply : HttpReply} {s t : Sdk c} {result : ProcessResult}
    (h : verticesEventProcess env handler reply s = .ok (result, t)) :
    Processing env handler reply s result t := by
  unfold verticesEventProcess at h
  split at h
  · next hsize =>
      obtain ⟨rfl, rfl⟩ := pure_eq_ok2.mp h
      rw [hsize]
      exact .empty (VtcEventsBuf.eventQueueSize_eq_zero_iff.mp hsize)
  · next hsize =>
      have hne : s.events ≠ [] := fun he => hsize (VtcEventsBuf.eventQueueSize_eq_zero_iff.mpr he)
      rw [if_neg fun he => hne (VtcEventsBuf.events_eq_nil_iff.mpr he)] at h
      obtain ⟨⟨err₁, s₁⟩, hpre, h⟩ := bind_eq_ok.mp h
      dsimp only at h
      split at h
      · next hf =>
          obtain ⟨rfl, rfl⟩ := pure_eq_ok2.mp h
          exact .preFailed hne hpre hf
      · next hs₁ =>
          obtain rfl := not_not.mp hs₁
          obtain ⟨⟨err₂, s₂⟩, huser, h⟩ := bind_eq_ok.mp h
          dsimp only at h
          split at h
          · next hf =>
              obtain ⟨rfl, rfl⟩ := pure_eq_ok2.mp h
              exact .userFailed hne hpre huser hf
          · next hs₂ =>
              obtain rfl := not_not.mp hs₂
              obtain ⟨⟨err₃, txID, s₃⟩, hpost, h⟩ := bind_eq_ok.mp h
              obtain ⟨rfl, -⟩ := postProcess_cases hpost
              obtain ⟨rfl, rfl⟩ := pure_eq_ok2.mp h
              exact .done hne hpre huser hpost

/-! ## The queue grows at its tail

Whatever runs while an event is handled only appends events. -/

/-- The events queued, in order. -/
def queuedEvents (history : List Obs) : List VtcEvt :=
  history.filterMap fun
    | .queued evt => some evt
    | _ => none

/-- The events removed, in order. -/
def dequeuedEvents (history : List Obs) : List VtcEvt :=
  history.filterMap fun
    | .dequeued evt => some evt
    | _ => none

/-- From `s` to `t` the queue has grown by the events queued, and lost none. -/
def Sdk.Appends (s t : Sdk c) : Prop :=
  ∃ obs, t.history = s.history ++ obs ∧ t.events = s.events ++ queuedEvents obs ∧
    dequeuedEvents obs = []

theorem Sdk.Appends.refl (s : Sdk c) : s.Appends s :=
  ⟨[], (List.append_nil _).symm, (List.append_nil _).symm, rfl⟩

theorem Sdk.Appends.trans {s t u : Sdk c} (h : s.Appends t) (h' : t.Appends u) : s.Appends u := by
  obtain ⟨obs, hh, he, hd⟩ := h
  obtain ⟨obs', hh', he', hd'⟩ := h'
  refine ⟨obs ++ obs', by rw [hh', hh, List.append_assoc], ?_, ?_⟩
  · rw [he', he, List.append_assoc, queuedEvents, queuedEvents, queuedEvents, List.filterMap_append]
  · rw [dequeuedEvents, List.filterMap_append]
    exact List.append_eq_nil_iff.mpr ⟨hd, hd'⟩

/-- A step that records something else than a change of the queue. -/
theorem Sdk.Appends.of_record {s t : Sdk c} {obs : Obs} (hh : t.history = s.history ++ [obs])
    (he : t.events = s.events) (hq : queuedEvents [obs] = []) (hd : dequeuedEvents [obs] = []) :
    s.Appends t :=
  ⟨[obs], hh, by rw [he, hq, List.append_nil], hd⟩

theorem Sdk.appends_schedule (s : Sdk c) (evt : VtcEvt) : s.Appends (s.schedule evt).2 := by
  rcases s.schedule_cases evt with ⟨-, queue, hq, hs⟩ | ⟨-, hs⟩
  · rw [hs]
    exact ⟨[.queued evt], rfl, hq, rfl⟩
  · rw [hs]
    exact .refl s

theorem Creation.appends {env : Env} {tx₀ : Transaction} {reply : HttpReply} {s t : Sdk c}
    {err : RetCode} (h : Creation env tx₀ reply s err t) : s.Appends t := by
  cases h with
  | noMem _ | invalidParam _ _ => exact .refl s
  | noParams _ _ _ _ => exact .of_record rfl rfl rfl rfl
  | notEncoded _ _ _ _ _ _ => exact .of_record rfl rfl rfl rfl
  | scheduled _ _ _ _ _ =>
      refine .trans ?_ (Sdk.appends_schedule _ _)
      exact .of_record rfl rfl rfl rfl

theorem Sending.appends {env : Env} {b : Fin pendingTxCount} {reply : HttpReply} {s t : Sdk c}
    {err : RetCode} (h : Sending env b reply s err t) : s.Appends t := by
  cases h with
  | notPending _ => exact .refl s
  | posted _ _ _ _ _ => exact .of_record rfl rfl rfl rfl
  | succeeded _ _ _ _ =>
      refine .trans ?_ (Sdk.appends_schedule _ _)
      exact .of_record rfl rfl rfl rfl

theorem storeSignature_cases {bufid : Nat} {signature : Vector UInt8 signatureLength}
    {s t : Sdk c} {err : RetCode} (h : storeSignature bufid signature s = .ok (err, t)) :
    ∃ b : Fin pendingTxCount, b.val = bufid ∧
      ((s.Occupied b ∧ t = (s.setSlot b { s.slot b with signature := signature }).record
          (.signed b signature)) ∨
        (¬ s.Occupied b ∧ t = s)) := by
  obtain ⟨⟨err₁, tx⟩, hget, h⟩ := bind_eq_ok.mp h
  obtain ⟨b, hb, hget⟩ := bind_eq_ok.mp hget
  refine ⟨b, subscript_eq_ok.mp hb, ?_⟩
  split at hget
  · next hocc =>
      obtain ⟨rfl, rfl⟩ := pure_eq_ok2.mp hget
      exact .inl ⟨hocc, (pure_eq_ok2.mp h).2.symm⟩
  · next hfree =>
      obtain ⟨rfl, rfl⟩ := pure_eq_ok2.mp hget
      exact .inr ⟨hfree, (pure_eq_ok2.mp h).2.symm⟩

theorem Op.appends {env : Env} {o : Op} {s t : Sdk c} {err : RetCode}
    (h : o.run env s = .ok (err, t)) : s.Appends t := by
  cases o with
  | pay sender receiver amount params reply => exact (transactionPay_creation h).appends
  | appl sender appId params reply =>
      obtain ⟨_, hc⟩ := transactionAppl_creation h
      exact hc.appends
  | schedule evt =>
      rw [← (Prod.mk.inj (pure_eq_ok.mp h)).2]
      exact s.appends_schedule evt
  | sign bufid signature =>
      obtain ⟨b, -, ⟨-, rfl⟩ | ⟨-, rfl⟩⟩ := storeSignature_cases h
      · exact .of_record rfl rfl rfl rfl
      · exact .refl _

/-- What each of the calls preserves, the invocation preserves. -/
theorem runCalls_induct {env : Env} {P : Sdk c → Prop} {calls : List Op}
    (hop : ∀ o ∈ calls, ∀ {s t : Sdk c} {err : RetCode}, P s → o.run env s = .ok (err, t) → P t)
    {s t : Sdk c} (hs : P s) (h : runCalls env calls s = .ok t) : P t := by
  induction calls generalizing s with
  | nil =>
      rw [← pure_eq_ok.mp h]
      exact hs
  | cons o calls ih =>
      obtain ⟨⟨err, s₁⟩, ho, h⟩ := bind_eq_ok.mp h
      have hs₁ : P s₁ := hop o List.mem_cons_self hs ho
      exact ih (fun o' ho' => hop o' (List.mem_cons_of_mem _ ho')) hs₁ h

theorem userProcess_appends {env : Env} {handler : Option Handling} {s t : Sdk c} {err : RetCode}
    (h : userProcess env handler s = .ok (err, t)) : s.Appends t := by
  cases handler with
  | none => rw [← (pure_eq_ok2.mp h).2]; exact .refl s
  | some handling =>
      obtain ⟨u, hu, h⟩ := bind_eq_ok.mp h
      rw [← (pure_eq_ok2.mp h).2]
      exact runCalls_induct (P := s.Appends) (fun _ _ _ _ _ hs ho => hs.trans (Op.appends ho))
        (.refl s) hu

/-- Before the user: an event being sent, or nothing. -/
theorem preProcess_cases {env : Env} {reply : HttpReply} {s t : Sdk c} {err : RetCode}
    (h : preProcess env reply s = .ok (err, t)) :
    (s.mEventsQueue.head.type = .txSending ∧
      ∃ b : Fin pendingTxCount, b.val = s.mEventsQueue.head.bufid ∧ Sending env b reply s err t) ∨
    (s.mEventsQueue.head.type ≠ .txSending ∧ err = .success ∧ t = s) := by
  unfold preProcess at h
  split at h
  · next htype => exact .inl ⟨htype, transactionPendingSend_sending h⟩
  all_goals
    next htype =>
      obtain ⟨rfl, rfl⟩ := pure_eq_ok2.mp h
      exact .inr ⟨by simp [htype], rfl, rfl⟩

theorem preProcess_appends {env : Env} {reply : HttpReply} {s t : Sdk c} {err : RetCode}
    (h : preProcess env reply s = .ok (err, t)) : s.Appends t := by
  obtain ⟨-, b, -, hs⟩ | ⟨-, -, rfl⟩ := preProcess_cases h
  · exact hs.appends
  · exact .refl _

theorem postProcess_appends {s t : Sdk c} {err : RetCode}
    {txID : Option (Vector UInt8 transactionHashStrMaxLength)}
    (h : postProcess s = .ok (err, txID, t)) : s.Appends t := by
  obtain ⟨-, ⟨-, b, -, -, -, rfl⟩ | ⟨-, -, rfl⟩⟩ := postProcess_cases h
  · exact .of_record rfl rfl rfl rfl
  · exact .refl _

/-- The event being handled stays under the read index, whatever is appended. -/
theorem Sdk.Appends.head {s t : Sdk c} (h : s.Appends t) (hne : s.events ≠ []) :
    t.mEventsQueue.head = s.mEventsQueue.head ∧ t.events ≠ [] := by
  obtain ⟨obs, -, he, -⟩ := h
  have hs := VtcEventsBuf.events_eq_head_cons (q := s.mEventsQueue) hne
  have ht : t.mEventsQueue.events =
      s.mEventsQueue.head :: (s.mEventsQueue.pop.events ++ queuedEvents obs) := by
    rw [← List.cons_append, ← hs]; exact he
  exact ⟨(VtcEventsBuf.head_eq ht).1, by rw [Sdk.events, ht]; exact List.cons_ne_nil _ _⟩

end Vertices
