/-
# `Vertices.EventSafety` — the slots events name

An event carries the subscript of a slot, and nobody checks it: not
`vertices_event_schedule`, not the three functions the subscript is passed to.  What is
checked is `payload_body_length`, behind the subscript; and of the code of
`transaction_get` the stage after the user takes no notice.

    `Call.Indexes`      the subscripts of `m_pending_tx_buffer` in the course of a call
    `EventsSafe`        what a call may ask of the events
    `EventsNameSlots`   the events and the subscripts that are good for it

A slot once taken stays so until its `TX_SUCCESS` is through, so the event of a
transaction may be handled after any calls; a second `TX_SUCCESS` for it may not.
-/
import Vertices.Process

namespace Vertices

open Transition

variable {c : Config} {env : Env}

/-! ## The calls made in the course of a call -/

/-- The slot the event names is taken. -/
def Sdk.Names (s : Sdk c) (evt : VtcEvt) : Prop :=
  ∃ b : Fin pendingTxCount, b.val = evt.bufid ∧ s.Occupied b

/-- The user has handled the head of the queue and left the state `s₂` to the stage after. -/
structure UserDone (env : Env) (handler : Option Handling) (reply : HttpReply) (s s₂ : Sdk c) :
    Prop where
  events : s.events ≠ []
  through : ∃ s₁, preProcess env reply s = .ok (.success, s₁) ∧
    userProcess env handler s₁ = .ok (.success, s₂)

/-- Of `calls`, made from `s`, `o` is made in the state `t`. -/
inductive CallMade (env : Env) : List Op → Sdk c → Op → Sdk c → Prop
  | head (o : Op) (calls : List Op) (s : Sdk c) : CallMade env (o :: calls) s o s
  | tail {o o' : Op} {calls : List Op} {s s₁ t : Sdk c} {err : RetCode}
      (run : o'.run env s = .ok (err, s₁)) (made : CallMade env calls s₁ o t) :
      CallMade env (o' :: calls) s o t

/-- The calls into the library: the application's own, and those of its handler. -/
inductive Call.Makes (env : Env) (s : Sdk c) : Call → Op → Sdk c → Prop
  | own (o : Op) : Makes env s (.op o) o s
  | user {handling : Handling} {reply : HttpReply} {s₁ t : Sdk c} {o : Op}
      (events : s.events ≠ []) (pre : preProcess env reply s = .ok (.success, s₁))
      (made : CallMade env handling.calls s₁ o t) :
      Makes env s (.process (some handling) reply) o t

/-- The functions that create a transaction. -/
def Op.creates : Op → Bool
  | .pay _ _ _ _ _ | .appl _ _ _ _ => true
  | .schedule _ | .sign _ _ => false

/-- `m_pending_tx_buffer` is subscripted with `n` in the course of the call. -/
inductive Call.Indexes (env : Env) (s : Sdk c) : Call → Nat → Prop
  /-- By `transaction_pay` or `transaction_appl`, with `m_tx_buffer_idx`. -/
  | create {call : Call} {o : Op} {t : Sdk c} (made : call.Makes env s o t)
      (creates : o.creates = true) : Indexes env s call t.mTxBufferIdx
  /-- By `transaction_get`, for the user. -/
  | get {call : Call} {bufid : Nat} {signature : Vector UInt8 signatureLength} {t : Sdk c}
      (made : call.Makes env s (.sign bufid signature) t) : Indexes env s call bufid
  /-- By `transaction_pending_send`. -/
  | send {handler : Option Handling} {reply : HttpReply} (events : s.events ≠ [])
      (type : s.mEventsQueue.head.type = .txSending) :
      Indexes env s (.process handler reply) s.mEventsQueue.head.bufid
  /-- By `transaction_get` and `transaction_free`, after the user. -/
  | success {handler : Option Handling} {reply : HttpReply} {s₂ : Sdk c}
      (done : UserDone env handler reply s s₂) (type : s₂.mEventsQueue.head.type = .txSuccess) :
      Indexes env s (.process handler reply) s₂.mEventsQueue.head.bufid

/-! ## Safety, and when there is -/

/-- What is asked of the handling of one event. -/
structure HeadSafe (env : Env) (handler : Option Handling) (reply : HttpReply) (s : Sdk c) :
    Prop where
  /-- The id copied out is that of the slot the event names, which is taken. -/
  copied : ∀ s₂, UserDone env handler reply s s₂ → s₂.mEventsQueue.head.type = .txSuccess →
    ∃ b : Fin pendingTxCount, b.val = s₂.mEventsQueue.head.bufid ∧ s₂.Occupied b ∧
      ∃ t, postProcess s₂ = .ok (.success, some (s₂.slot b).id, t)
  /-- An event that names no slot taken changes nothing before the user, and after the
  user it is refused. -/
  refused : s.events ≠ [] → ¬ s.Names s.mEventsQueue.head →
    (∀ err s₁, preProcess env reply s = .ok (err, s₁) → s₁ = s) ∧
    ∀ s₂, UserDone env handler reply s s₂ →
      ∃ err, err ≠ .success ∧ postProcess s₂ = .ok (err, none, s₂)

/-- What is asked of a call. -/
structure EventsSafe (env : Env) (s : Sdk c) (call : Call) : Prop where
  inRange : ∀ n, call.Indexes env s n → n < pendingTxCount
  handled : ∀ handler reply, call = .process handler reply → HeadSafe env handler reply s

/-- The subscripts the user asks for are in range.  Of the events handled those to send
are in range, and the others name a slot that is taken unless the user fails. -/
structure EventsNameSlots (env : Env) (s : Sdk c) (call : Call) : Prop where
  gets : ∀ bufid signature t, call.Makes env s (.sign bufid signature) t → bufid < pendingTxCount
  sends : ∀ handler reply, call = .process handler reply → s.events ≠ [] →
    s.mEventsQueue.head.type = .txSending → s.mEventsQueue.head.bufid < pendingTxCount
  others : ∀ handler reply, call = .process handler reply → s.events ≠ [] →
    s.mEventsQueue.head.type ≠ .txSending →
    ∀ s₂, userProcess env handler s = .ok (.success, s₂) → s.Names s.mEventsQueue.head

/-! ## A slot stays taken -/

theorem Op.occupied {o : Op} {s t : Sdk c} {err : RetCode} (h : o.run env s = .ok (err, t))
    {b : Fin pendingTxCount} (hb : s.Occupied b) : t.Occupied b := by
  cases o with
  | pay sender receiver amount params reply =>
      exact (Sdk.occupied_congr ((transactionPay_creation h).slot_of_occupied hb)).mpr hb
  | appl sender appId params reply =>
      obtain ⟨_, hc⟩ := transactionAppl_creation h
      exact (Sdk.occupied_congr (hc.slot_of_occupied hb)).mpr hb
  | schedule evt =>
      rw [← (Prod.mk.inj (pure_eq_ok.mp h)).2]
      exact (Sdk.occupied_congr (s.slot_schedule evt b)).mpr hb
  | sign bufid signature =>
      obtain ⟨b', -, ⟨-, rfl⟩ | ⟨-, rfl⟩⟩ := storeSignature_cases h
      · have hsame : ({ s.slot b' with signature := signature } :
            SignedTransaction c).payloadBodyLength = (s.slot b').payloadBodyLength := rfl
        exact (Sdk.occupied_setSlot hsame b).mpr hb
      · exact hb

theorem userProcess_occupied {handler : Option Handling} {s t : Sdk c} {err : RetCode}
    (h : userProcess env handler s = .ok (err, t)) {b : Fin pendingTxCount} (hb : s.Occupied b) :
    t.Occupied b := by
  cases handler with
  | none =>
      rw [← (pure_eq_ok2.mp h).2]
      exact hb
  | some handling =>
      obtain ⟨u, hu, h⟩ := bind_eq_ok.mp h
      rw [← (pure_eq_ok2.mp h).2]
      exact runCalls_induct (P := fun s => s.Occupied b) (fun _ _ _ _ _ hs ho => Op.occupied ho hs)
        hb hu

theorem preProcess_success_names {reply : HttpReply} {s s₁ : Sdk c}
    (htype : s.mEventsQueue.head.type = .txSending)
    (h : preProcess env reply s = .ok (.success, s₁)) : s.Names s.mEventsQueue.head := by
  obtain ⟨-, b, hb, hs⟩ | ⟨hne, -, -⟩ := preProcess_cases h
  · refine ⟨b, hb, ?_⟩
    cases hs with
    | posted occupied _ _ _ _ => exact occupied
    | succeeded occupied _ _ _ => exact occupied
  · exact absurd htype hne

namespace UserDone

variable {handler : Option Handling} {reply : HttpReply} {s s₂ : Sdk c}

/-- The event handled is still the head of the queue. -/
theorem head (h : UserDone env handler reply s s₂) :
    s₂.mEventsQueue.head = s.mEventsQueue.head := by
  obtain ⟨hne, s₁, hpre, huser⟩ := h
  exact (((preProcess_appends hpre).trans (userProcess_appends huser)).head hne).1

/-- But for an event to send, the user is the first to do something. -/
theorem user (h : UserDone env handler reply s s₂)
    (htype : s.mEventsQueue.head.type ≠ .txSending) :
    userProcess env handler s = .ok (.success, s₂) := by
  obtain ⟨-, s₁, hpre, huser⟩ := h
  obtain ⟨hsend, -⟩ | ⟨-, -, rfl⟩ := preProcess_cases hpre
  · exact absurd hsend htype
  · exact huser

theorem of_user (hne : s.events ≠ []) (htype : s.mEventsQueue.head.type ≠ .txSending)
    (h : userProcess env handler s = .ok (.success, s₂)) : UserDone env handler reply s s₂ := by
  refine ⟨hne, s, ?_, h⟩
  unfold preProcess
  split
  · next hsend => exact absurd hsend htype
  all_goals rfl

end UserDone

/-- The last stage copies the id of the slot the event names. -/
theorem postProcess_of_names {s : Sdk c} (htype : s.mEventsQueue.head.type = .txSuccess)
    {b : Fin pendingTxCount} (hb : b.val = s.mEventsQueue.head.bufid) (hocc : s.Occupied b) :
    postProcess s = .ok (.success, some (s.slot b).id,
      (s.setSlot b (.zero c)).record (.slotFreed b)) := by
  have hsub : subscript pendingTxCount s.mEventsQueue.head.bufid = .ok b := subscript_eq_ok.mpr hb
  have hget : transactionGet s.mEventsQueue.head.bufid s = .ok (.success, some b) := by
    rw [transactionGet, hsub]
    exact if_pos hocc
  have hfree : transactionFree s.mEventsQueue.head.bufid s =
      .ok (.success, (s.setSlot b (.zero c)).record (.slotFreed b)) := by
    rw [transactionFree, hsub]
    exact if_pos hocc
  unfold postProcess
  rw [htype]
  dsimp only
  rw [hget]
  show (transactionFree _ _ >>= _) = _
  rw [hfree]
  rfl

/-- A free slot has no pointer to copy from. -/
theorem postProcess_of_free {s : Sdk c} (htype : s.mEventsQueue.head.type = .txSuccess)
    {b : Fin pendingTxCount} (hb : b.val = s.mEventsQueue.head.bufid) (hfree : ¬ s.Occupied b) :
    postProcess s = .error .nullDeref := by
  have hsub : subscript pendingTxCount s.mEventsQueue.head.bufid = .ok b := subscript_eq_ok.mpr hb
  have hget : transactionGet s.mEventsQueue.head.bufid s = .ok (.errorInvalidParam, none) := by
    rw [transactionGet, hsub]
    exact if_neg hfree
  unfold postProcess
  rw [htype]
  dsimp only
  rw [hget]
  rfl

/-- And it refuses nothing: a null pointer or a slot out of range is a fault. -/
theorem postProcess_not_refused {s t : Sdk c} {err : RetCode} (herr : err ≠ .success)
    {txID : Option (Vector UInt8 transactionHashStrMaxLength)} :
    postProcess s ≠ .ok (err, txID, t) := fun h => herr (postProcess_cases h).1

/-! ## One call -/

theorem HeadSafe.names {handler : Option Handling} {reply : HttpReply} {s s₂ : Sdk c}
    (h : HeadSafe env handler reply s) (hdone : UserDone env handler reply s s₂) :
    s.Names s.mEventsQueue.head := by
  by_contra hno
  obtain ⟨err, herr, hpost⟩ := (h.refused hdone.events hno).2 s₂ hdone
  exact postProcess_not_refused herr hpost

theorem headSafe_of_names {handler : Option Handling} {reply : HttpReply} {s : Sdk c}
    (hnames : s.mEventsQueue.head.type ≠ .txSending →
      ∀ s₂, UserDone env handler reply s s₂ → s.Names s.mEventsQueue.head) :
    HeadSafe env handler reply s where
  copied s₂ hdone htype := by
    have hne : s.mEventsQueue.head.type ≠ .txSending := by
      rw [← hdone.head, htype]
      nofun
    obtain ⟨b, hb, hocc⟩ := hnames hne s₂ hdone
    have hocc₂ := userProcess_occupied (hdone.user hne) hocc
    rw [← hdone.head] at hb
    exact ⟨b, hb, hocc₂, _, postProcess_of_names htype hb hocc₂⟩
  refused _ hno := by
    constructor
    · intro err s₁ hpre
      obtain ⟨-, b, hb, hs⟩ | ⟨-, -, rfl⟩ := preProcess_cases hpre
      · cases hs with
        | notPending _ => rfl
        | posted occupied _ _ _ _ => exact absurd ⟨b, hb, occupied⟩ hno
        | succeeded occupied _ _ _ => exact absurd ⟨b, hb, occupied⟩ hno
      · rfl
    · intro s₂ hdone
      refine absurd ?_ hno
      by_cases hsend : s.mEventsQueue.head.type = .txSending
      · obtain ⟨-, s₁, hpre, -⟩ := hdone
        exact preProcess_success_names hsend hpre
      · exact hnames hsend s₂ hdone

/-- A call is safe exactly with events that name slots. -/
theorem eventsSafe_iff (s : Sdk c) (call : Call) :
    EventsSafe env s call ↔ EventsNameSlots env s call := by
  constructor
  · rintro ⟨hrange, hhandled⟩
    refine ⟨fun _ _ _ hmade => hrange _ (.get hmade), ?_, ?_⟩
    · rintro handler reply rfl hne htype
      exact hrange _ (.send hne htype)
    · rintro handler reply rfl hne htype s₂ huser
      exact (hhandled handler reply rfl).names (.of_user hne htype huser)
  · rintro ⟨hgets, hsends, hothers⟩
    constructor
    · intro n hn
      cases hn with
      | @create _ _ t _ _ => exact t.mTxBufferIdx.isLt
      | get made => exact hgets _ _ _ made
      | send events type => exact hsends _ _ rfl events type
      | @success handler reply s₂ done type =>
          have hne : s.mEventsQueue.head.type ≠ .txSending := by
            rw [← done.head, type]
            nofun
          obtain ⟨b, hb, -⟩ := hothers _ _ rfl done.events hne s₂ (done.user hne)
          rw [done.head, ← hb]
          exact b.isLt
    · rintro handler reply rfl
      exact headSafe_of_names fun hne s₂ hdone =>
        hothers _ _ rfl hdone.events hne s₂ (hdone.user hne)

/-! ## A subscript out of range -/

theorem transactionGet_outOfBounds {bufid : Nat} (h : pendingTxCount ≤ bufid) (s : Sdk c) :
    transactionGet bufid s = .error .outOfBounds := by
  rw [transactionGet, subscript, dif_neg (Nat.not_lt.mpr h)]
  rfl

theorem runCalls_outOfBounds {calls : List Op} {bufid : Nat}
    {signature : Vector UInt8 signatureLength} {s t : Sdk c} (h : pendingTxCount ≤ bufid)
    (hmade : CallMade env calls s (.sign bufid signature) t) :
    runCalls env calls s = .error .outOfBounds := by
  generalize ho : Op.sign bufid signature = o at hmade
  induction hmade with
  | head o calls s =>
      subst ho
      show (storeSignature bufid signature s >>= _) = _
      rw [storeSignature, transactionGet_outOfBounds h]
      rfl
  | tail run _ ih =>
      rw [runCalls, run]
      exact ih ho

section Faults

variable {handler : Option Handling} {reply : HttpReply} {s : Sdk c} {f : Fault}

/-- A stage that faults, those before it being through. -/
inductive StageFault (env : Env) (handler : Option Handling) (reply : HttpReply) (s : Sdk c)
    (f : Fault) : Prop
  | pre (fault : preProcess env reply s = .error f)
  | user {s₁ : Sdk c} (pre : preProcess env reply s = .ok (.success, s₁))
      (fault : userProcess env handler s₁ = .error f)
  | post {s₂ : Sdk c} (done : UserDone env handler reply s s₂) (fault : postProcess s₂ = .error f)

theorem StageFault.process_run (hne : s.events ≠ []) (h : StageFault env handler reply s f) :
    (Call.process handler reply).run env s = .error f := by
  rw [Call.run, verticesEventProcess,
    if_neg (fun hsize => hne (VtcEventsBuf.eventQueueSize_eq_zero_iff.mp hsize)),
    if_neg (fun he => hne (VtcEventsBuf.events_eq_nil_iff.mpr he))]
  cases h with
  | pre fault =>
      rw [fault]
      rfl
  | user pre fault =>
      rw [pre]
      show ((userProcess env handler _ >>= _) >>= _) = _
      rw [fault]
      rfl
  | post done fault =>
      obtain ⟨-, s₁, hpre, huser⟩ := done
      rw [hpre]
      show ((userProcess env handler s₁ >>= _) >>= _) = _
      rw [huser]
      show ((postProcess _ >>= _) >>= _) = _
      rw [fault]
      rfl

end Faults

/-- The call leaves the buffer. -/
theorem Call.Indexes.outOfBounds {call : Call} {s : Sdk c} {n : Nat}
    (hn : call.Indexes env s n) (h : pendingTxCount ≤ n) :
    call.run env s = .error .outOfBounds := by
  cases hn with
  | @create _ _ t _ _ => exact absurd t.mTxBufferIdx.isLt (Nat.not_lt.mpr h)
  | @get _ _ signature _ made =>
      cases made with
      | own =>
          show storeSignature n signature s = _
          rw [storeSignature, transactionGet_outOfBounds h]
          rfl
      | user events pre made =>
          refine StageFault.process_run events (.user pre ?_)
          rw [userProcess, Handling.run, runCalls_outOfBounds h made]
          rfl
  | send events type =>
      refine StageFault.process_run events (.pre ?_)
      rw [preProcess, type]
      show transactionPendingSend env s.mEventsQueue.head.bufid _ s = _
      rw [transactionPendingSend, subscript, dif_neg (Nat.not_lt.mpr h)]
      rfl
  | success done type =>
      refine StageFault.process_run done.events (.post done ?_)
      rw [postProcess, type]
      show (transactionGet _ _ >>= _) = _
      rw [transactionGet_outOfBounds h]
      rfl

/-! ## Runs -/

/-- Every call of a run is safe exactly when each comes with events that name slots. -/
theorem event_api_safe_iff (env : Env) (provider : Provider) (accounts : MAccounts)
    (calls : List Call) :
    (∀ before call after s, calls = before ++ call :: after →
      Run (Step env) (Sdk.init c provider accounts) before s → EventsSafe env s call) ↔
    ∀ before call after s, calls = before ++ call :: after →
      Run (Step env) (Sdk.init c provider accounts) before s → EventsNameSlots env s call :=
  forall₄_congr fun _ call _ s => imp_congr_right fun _ => imp_congr_right fun _ =>
    eventsSafe_iff s call

/-- The event is scheduled before any transaction. -/
def afterScheduling (evt : VtcEvt) : Sdk .default :=
  ((Sdk.init .default .zero accountInit).schedule evt).2

/-- Seven is no slot, and its `TX_SUCCESS` reads past the buffer.  Zero is a free slot, and
its `TX_SUCCESS` copies an id from the null pointer. -/
theorem unnamed_success_events :
    (∀ evt, Run (Step .example) (Sdk.init .default .zero accountInit) [.op (.schedule evt)]
      (afterScheduling evt)) ∧
    ¬ EventsSafe .example (afterScheduling ⟨.txSuccess, 7⟩) (.process none offlineReply) ∧
    (Call.process none offlineReply).run .example (afterScheduling ⟨.txSuccess, 7⟩) =
      .error .outOfBounds ∧
    ¬ EventsSafe .example (afterScheduling ⟨.txSuccess, 0⟩) (.process none offlineReply) ∧
    (Call.process none offlineReply).run .example (afterScheduling ⟨.txSuccess, 0⟩) =
      .error .nullDeref := by
  have hdone : UserDone .example none offlineReply (afterScheduling ⟨.txSuccess, 7⟩)
      (afterScheduling ⟨.txSuccess, 7⟩) := .of_user (by decide) (by decide) rfl
  have hseven : (Call.process none offlineReply).Indexes .example
      (afterScheduling ⟨.txSuccess, 7⟩) 7 := .success hdone (by decide)
  have hzero : UserDone .example none offlineReply (afterScheduling ⟨.txSuccess, 0⟩)
      (afterScheduling ⟨.txSuccess, 0⟩) := .of_user (by decide) (by decide) rfl
  refine ⟨fun evt => .single ⟨_, rfl⟩, fun h => absurd (h.inRange 7 hseven) (by decide),
    hseven.outOfBounds (by decide), ?_, ?_⟩
  · intro h
    obtain ⟨b, hb, hocc, -⟩ := (h.handled _ _ rfl).copied _ hzero (by decide)
    obtain rfl : b = 0 := Fin.ext hb
    exact absurd hocc (by decide)
  · have hfault : postProcess (afterScheduling ⟨.txSuccess, 0⟩) = .error .nullDeref :=
      postProcess_of_free (b := 0) (by decide) rfl (by decide)
    exact StageFault.process_run hzero.events (.post hzero hfault)

end Vertices
