/-
# `Vertices.MainLoop` — the loop of `examples/unix/main.cpp`

The loop calls `vertices_event_process` until the queue is empty or a call fails.  An event
to sign is followed by the event to send, and this by the success, each at the tail of the
queue: the transactions take turns (`RoundRobin`).

It ends, whatever is in the queue and whatever the node answers (`main_loop_ends`).  While
an event is handled its successor is queued, so the queue has to have room for one more:
with that every transaction is signed and sent once, in order (`main_loop_sends_all`), and
without it none is (`full_queue_is_stuck`).
-/
import Vertices.Lib.RoundRobin
import Vertices.UnixExample
import Vertices.Atomicity
import Vertices.Submission
import Vertices.TxParams
import Vertices.ReceiveBuffer
import Vertices.ProviderExits

namespace Vertices

open Transition

variable {c : Config} {env : Env}

namespace UnixExample

/-- What the loop works on. -/
structure LoopState (c : Config) where
  sdk : Sdk c
  files : Files
  /-- `txID`, once it has been written. -/
  txID : Option (Vector UInt8 transactionHashStrMaxLength)

/-- The state after a pass. -/
def LoopState.next (st : LoopState c) (result : ProcessResult) (sdk : Sdk c) (files : Files) :
    LoopState c :=
  ⟨sdk, files, result.txID <|> st.txID⟩

/-- `while (queue_size && err_code == VTC_SUCCESS)`, entered with a `queue_size` of 1 and
without an error.  `none` if the turns are used up before the loop ends. -/
def mainLoop (env : Env) (x : UnixExample) :
    List Turn → LoopState c → Except Fault (Option (RetCode × LoopState c))
  | [], _ => return none
  | turn :: turns, st => do
      let (result, sdk, files) ← x.eventProcess env turn st.sdk st.files
      if result.err = .success ∧ result.queueSize ≠ some 0 then
        mainLoop env x turns (st.next result sdk files)
      else return some (result.err, st.next result sdk files)

/-! ## The loop ends -/

/-- The stages an event goes through. -/
def stageOf (evt : VtcEvt) : Nat :=
  match evt.type with
  | .txReadyToSign => 0
  | .txSending => 1
  | .txSuccess | .other _ => 2

theorem stageOf_le (evt : VtcEvt) : stageOf evt ≤ 2 := by
  unfold stageOf
  split <;> omega

/-- The queue, as entries that take turns. -/
def entries (s : Sdk c) : List (Nat × Nat) := s.events.map fun evt => (evt.bufid, stageOf evt)

/-- How many passes there are to make. -/
def todo (s : Sdk c) : Nat := RoundRobin.work 2 (entries s)

theorem todo_le (s : Sdk c) : todo s ≤ 3 * s.events.length := by
  unfold todo entries
  induction s.events with
  | nil => exact Nat.le_refl 0
  | cons evt events ih =>
      rw [List.map_cons, RoundRobin.work_cons, List.length_cons]
      omega

theorem events_schedule (s : Sdk c) (evt : VtcEvt) :
    (s.schedule evt).2.events = s.events ∨ (s.schedule evt).2.events = s.events ++ [evt] := by
  rcases s.schedule_cases evt with ⟨-, queue, hq, hs⟩ | ⟨-, hs⟩
  · exact .inr (by rw [hs]; exact hq)
  · exact .inl (by rw [hs])

variable {x : UnixExample} {turn : Turn} {s t : Sdk c} {files files' : Files} {err : RetCode}

/-- What is queued before the user: the success of what has been sent. -/
theorem preProcess_events {reply : HttpReply} {s₁ : Sdk c}
    (h : preProcess env reply s = .ok (.success, s₁)) :
    s₁.events = s.events ∨ (s.mEventsQueue.head.type = .txSending ∧
      s₁.events = s.events ++ [⟨.txSuccess, s.mEventsQueue.head.bufid⟩]) := by
  obtain ⟨htype, b, hb, hs⟩ | ⟨-, -, rfl⟩ := preProcess_cases h
  · cases hs with
    | posted _ _ _ _ failed => exact absurd rfl failed
    | succeeded _ _ _ _ =>
        rw [← hb]
        exact (events_schedule _ _).imp id fun he => ⟨htype, he⟩
  · exact .inl rfl

/-- What the handler queues: the event to send. -/
theorem verticesEvtHandler_events {evt : VtcEvt}
    (h : x.verticesEvtHandler turn evt s files = .ok (err, t, files')) :
    t.events = s.events ∨ (evt.type = .txReadyToSign ∧
      t.events = s.events ++ [⟨.txSending, evt.bufid⟩]) := by
  unfold verticesEvtHandler at h
  split at h
  · next htype =>
      obtain ⟨⟨err₁, s₁⟩, hready, h⟩ := bind_eq_ok.mp h
      obtain ⟨rfl, rfl, -⟩ := pure_eq_ok3.mp h
      obtain ⟨b, -, ⟨-, -, rfl⟩ | ⟨-, body, -, hs⟩⟩ := readyToSign_cases hready
      · exact .inl rfl
      · rw [(Prod.mk.inj hs).2]
        exact (events_schedule (s.sign b (x.sign body)) _).imp id fun he => ⟨htype, he⟩
  · obtain ⟨⟨err₁, files₁⟩, -, h⟩ := bind_eq_ok.mp h
    obtain ⟨-, rfl, -⟩ := pure_eq_ok3.mp h
    exact .inl rfl
  all_goals
    obtain ⟨-, rfl, -⟩ := pure_eq_ok3.mp h
    exact .inl rfl

/-- A pass that succeeds removes the head, and queues at most its successor. -/
theorem Pass.events {result : ProcessResult} (h : Pass env x turn s files result t files')
    (hok : result.err = .success) {e : VtcEvt} {rest : List VtcEvt} (he : s.events = e :: rest) :
    t.events = rest ∨ ∃ evt, t.events = rest ++ [evt] ∧ evt.bufid = e.bufid ∧
      stageOf evt = stageOf e + 1 := by
  cases h with
  | empty events => exact nomatch he.symm.trans events
  | preFailed _ _ failed | userFailed _ _ _ failed => exact absurd hok failed
  | @done _ s₁ s₂ s₃ _ hne pre user post =>
      have hhead : s.mEventsQueue.head = e := (VtcEventsBuf.head_eq he).1
      have hhead₁ : s₁.mEventsQueue.head = e := ((preProcess_appends pre).head hne).1.trans hhead
      have hpost : s₃.events = s₂.events := by
        obtain ⟨-, ⟨-, b, -, -, -, rfl⟩ | ⟨-, -, rfl⟩⟩ := postProcess_cases post <;> rfl
      have hpop {events : List VtcEvt} (hev : s₃.events = e :: events) : s₃.pop.events = events :=
        (VtcEventsBuf.head_eq hev).2
      have hpre := preProcess_events pre
      have huser := verticesEvtHandler_events user
      rw [hhead] at hpre
      rw [hhead₁] at huser
      rcases huser with huser | ⟨htype, huser⟩
      · rcases hpre with hpre | ⟨htype, hpre⟩
        · exact .inl (hpop (by rw [hpost, huser, hpre, he]))
        · have hev : s₃.events = e :: (rest ++ [⟨.txSuccess, e.bufid⟩]) := by
            rw [hpost, huser, hpre, he]
            rfl
          exact .inr ⟨_, hpop hev, rfl, by simp [stageOf, htype]⟩
      · rcases hpre with hpre | ⟨htype', -⟩
        · have hev : s₃.events = e :: (rest ++ [⟨.txSending, e.bufid⟩]) := by
            rw [hpost, huser, hpre, he]
            rfl
          exact .inr ⟨_, hpop hev, rfl, by simp [stageOf, htype]⟩
        · exact nomatch htype.symm.trans htype'

/-- The size reported says whether the loop goes on. -/
theorem Pass.queueSize {result : ProcessResult} (h : Pass env x turn s files result t files')
    (hok : result.err = .success) : result.queueSize = some t.events.length := by
  cases h with
  | empty events => rw [events]; rfl
  | preFailed _ _ failed | userFailed _ _ _ failed => exact absurd hok failed
  | done _ _ _ _ => exact congrArg some (VtcEventsBuf.eventQueueSize_eq _)

theorem Pass.todo_lt {result : ProcessResult} (h : Pass env x turn s files result t files')
    (hok : result.err = .success) (hne : s.events ≠ []) : todo t < todo s := by
  obtain ⟨e, rest, he⟩ := List.exists_cons_of_ne_nil hne
  have hstage := stageOf_le e
  have hs : entries s = (e.bufid, stageOf e) :: rest.map fun evt => (evt.bufid, stageOf evt) := by
    rw [entries, he, List.map_cons]
  rw [todo, todo, hs, RoundRobin.work_cons]
  rcases h.events hok he with ht | ⟨evt, ht, -, hnext⟩
  · rw [entries, ht]
    omega
  · have hle := stageOf_le evt
    rw [entries, ht, List.map_append, RoundRobin.work_append]
    show _ + RoundRobin.work 2 [(evt.bufid, stageOf evt)] < _
    rw [RoundRobin.work_cons]
    have : RoundRobin.work 2 ([] : List (Nat × Nat)) = 0 := rfl
    omega

/-- With enough turns the loop does not run out of them. -/
theorem mainLoop_ne_none (st : LoopState c) {turns : List Turn} (hsome : turns ≠ [])
    (hlen : todo st.sdk ≤ turns.length) : x.mainLoop env turns st ≠ .ok none := by
  induction turns generalizing st with
  | nil => exact absurd rfl hsome
  | cons turn turns ih =>
      intro h
      obtain ⟨⟨result, sdk, files⟩, hpass, h⟩ := bind_eq_ok.mp h
      have hpass := eventProcess_pass hpass
      dsimp only at h
      split at h
      · next hgo =>
          have hsize := hpass.queueSize hgo.1
          have hmore : sdk.events ≠ [] := fun hnil => hgo.2 (by rw [hsize, hnil]; rfl)
          have hne : st.sdk.events ≠ [] := by
            intro hnil
            cases hpass with
            | empty _ => exact hmore hnil
            | preFailed events _ _ | userFailed events _ _ _ | done events _ _ _ =>
                exact absurd hnil events
          have hlt := hpass.todo_lt hgo.1 hne
          rw [List.length_cons] at hlen
          have htodo : 0 < todo sdk := by
            obtain ⟨e, rest, he⟩ := List.exists_cons_of_ne_nil hmore
            have hstage := stageOf_le e
            rw [todo, entries, he, List.map_cons, RoundRobin.work_cons]
            omega
          refine ih (st.next result sdk files) ?_ (Nat.le_of_lt_succ (Nat.lt_of_lt_of_le hlt hlen)) h
          rintro rfl
          simp only [List.length_nil] at hlen
          omega
      · exact nomatch pure_eq_ok.mp h

/-- **The loop ends**: with any events in the queue, and whatever the node answers, after at
most three passes for each of them. -/
theorem main_loop_ends (st : LoopState c) {turns : List Turn} (hsome : turns ≠ [])
    (hlen : 3 * st.sdk.events.length ≤ turns.length) : x.mainLoop env turns st ≠ .ok none :=
  mainLoop_ne_none st hsome (Nat.le_trans (todo_le st.sdk) hlen)

/-- An account whose signatures are all the same. -/
def seven : UnixExample where
  cryptoSignEd25519Detached _ _ := Vector.replicate _ 7
  privateKey := Vector.replicate _ 1
  publicKey := Vector.replicate _ 2
  sizeofPayload := sizeofPointer

/-- The node answers, and the files can be opened. -/
def answered : Turn := ⟨txIdReply, true, true⟩

/-- The post is refused. -/
def refused : Turn := ⟨refusedReply, true, true⟩

/-- A payment has been created. -/
theorem payment_run (c : Config) {n : Nat} (hn : (runAll .example [.op payment]
      (Sdk.init c .zero accountInit)).map (fun s => (s.events.length,
        decide (s.mProvider.header = none))) = .ok (n, true)) :
    ∃ s : Sdk c, Run (Step .example) (Sdk.init c .zero accountInit) [.op payment] s ∧
      s.events.length = n ∧ s.mProvider.header = none := by
  cases hrun : runAll .example [.op payment] (Sdk.init c .zero accountInit) with
  | error e => rw [hrun] at hn; exact nomatch hn
  | ok s =>
      rw [hrun] at hn
      obtain ⟨hlength, hheader⟩ := Prod.mk.inj (Except.ok.inj hn)
      exact ⟨s, run_of_runAll hrun, hlength, of_decide_eq_true hheader⟩

/-- With a payment in the queue, three passes are enough. -/
theorem main_loop_ends_payment : ∃ s : Sdk .default, s.events.length = 1 ∧
    seven.mainLoop .example [answered, refused, answered] ⟨s, ⟨none, none⟩, none⟩ ≠ .ok none := by
  obtain ⟨s, -, hlength, -⟩ := payment_run .default (n := 1) (by decide +kernel)
  exact ⟨s, hlength, main_loop_ends _ (List.cons_ne_nil _ _) (by rw [hlength]; decide)⟩

end UnixExample

/-! ## A turn in which nothing goes wrong -/

/-- The post is accepted, its answer can be read, and the two files can be opened. -/
structure Turn.Good (env : Env) (turn : Turn) : Prop where
  accepted : Accepted turn.reply.err turn.reply.responseCode
  fits : turn.reply.chunks.flatten.length < httpMaximumContentLength
  legible : ∀ p, AnswerFits env p turn.reply
  opens : turn.signedTxOpens = true ∧ turn.txOpens = true

theorem Turn.Good.providerTxPost {turn : Turn} (hturn : turn.Good env) {p : Provider} {header : List UInt8}
    (hheader : postHeader p.header = .ok header) (body : List UInt8)
    (id : Vector UInt8 transactionHashStrMaxLength) :
    ∃ id' p', providerTxPost env.cJSON_Parse p turn.reply body id =
      .ok (⟨header, body⟩, .success, id', p') ∧ p'.header = p.header := by
  obtain ⟨p', hp, -, -⟩ := httpReceive_of_lt p hturn.fits
  have hkept : p'.header = p.header := httpReceive_leaves (f := Provider.header) (fun _ _ _ => rfl) hp
  have hstatus : postStatus turn.reply = .success := by
    rw [postStatus, if_neg (UInt32.not_le.mpr hturn.accepted.2), hturn.accepted.1]
  obtain ⟨json, hjson, hlen⟩ := hturn.legible p p' hp
  have hread : ∃ id', readTxId env.cJSON_Parse p'.rxString id = .ok (.success, id') := by
    rw [readTxId, hjson]
    dsimp only
    split
    · exact ⟨id, rfl⟩
    · next txId hid =>
        have hroom : 0 + (txId.bytes ++ [0]).length ≤ transactionHashStrMaxLength := by
          have := hlen txId hid
          rw [CStr.strlen] at this
          rw [List.length_append, List.length_singleton]
          omega
        rw [if_neg (Nat.not_le.mpr (hlen txId hid)), memcpy_eq_ok.mpr ⟨hroom, rfl⟩]
        exact ⟨_, rfl⟩
  obtain ⟨id', hread⟩ := hread
  refine ⟨id', p', ?_, hkept⟩
  rw [Vertices.providerTxPost, hheader]
  show (httpReceive p turn.reply >>= _) = _
  rw [hp]
  show (if postStatus turn.reply = .success then _ else _) = _
  rw [if_pos hstatus, hread]
  rfl

/-- What the handler reads to sign, and to write to its files. -/
theorem Signable.read {slot : SignedTransaction c} {body : List UInt8} (h : Signable body slot) :
    slot.read slot.payloadHeaderLength slot.payloadBodyLength = .ok body := by
  have hfits := h.fits
  rw [SignedTransaction.read, if_pos (by rw [h.header, h.length]; exact hfits)]
  exact congrArg Except.ok h.toSign_eq

namespace UnixExample

variable {x : UnixExample} {turn : Turn} {s t : Sdk c} {files files' : Files} {err : RetCode}

/-! ## One pass, stage by stage -/

theorem eventProcess_of_ne_nil (hne : s.events ≠ []) :
    x.eventProcess env turn s files = (do
      let (err, s) ← preProcess env turn.reply s
      if err ≠ .success then return (⟨err, none, none⟩, s, files)
      else do
        let (err, s, files) ← x.verticesEvtHandler turn s.mEventsQueue.head s files
        if err ≠ .success then return (⟨err, none, none⟩, s, files)
        else do
          let (err, txID, s) ← postProcess s
          if err ≠ .success then return (⟨err, none, txID⟩, s, files)
          else return (⟨.success, some s.pop.mEventsQueue.eventQueueSize, txID⟩, s.pop, files)) := by
  rw [eventProcess, if_neg fun hsize => hne (VtcEventsBuf.eventQueueSize_eq_zero_iff.mp hsize),
    if_neg fun he => hne (VtcEventsBuf.events_eq_nil_iff.mpr he)]

/-- The event handled stays at the head, and of an event that is no success nothing is left
to do after the user. -/
theorem postProcess_of_ne {evt : VtcEvt} {rest : List VtcEvt} (he : s.events = evt :: rest)
    (htype : evt.type ≠ .txSuccess) : postProcess s = .ok (.success, none, s) := by
  have hhead : s.mEventsQueue.head = evt := (VtcEventsBuf.head_eq he).1
  rw [postProcess, hhead]
  split
  · next ht => exact absurd ht htype
  all_goals rfl

theorem readyToSign_of_signable {b : Fin pendingTxCount} {body : List UInt8}
    (h : Signable body (s.slot b)) :
    x.readyToSign b s = .ok ((s.sign b (x.sign body)).schedule ⟨.txSending, b⟩) := by
  rw [readyToSign, transactionGet_of_occupied h.occupied]
  show ((s.slot b).read _ _ >>= _) = _
  rw [h.read]
  rfl

/-- The transaction is signed, and the event to send queued if there is room. -/
theorem eventProcess_ready (env : Env) (turn : Turn) (files : Files) {b : Fin pendingTxCount} {rest : List VtcEvt} {body : List UInt8}
    (he : s.events = ⟨.txReadyToSign, b⟩ :: rest) (h : Signable body (s.slot b)) :
    x.eventProcess env turn s files =
      let (err, u) := (s.sign b (x.sign body)).schedule ⟨.txSending, b⟩
      if err ≠ .success then .ok (⟨err, none, none⟩, u, files)
      else .ok (⟨.success, some u.pop.mEventsQueue.eventQueueSize, none⟩, u.pop, files) := by
  have hhead : s.mEventsQueue.head = ⟨.txReadyToSign, b⟩ := (VtcEventsBuf.head_eq he).1
  rw [eventProcess_of_ne_nil (by rw [he]; exact List.cons_ne_nil _ _), preProcess, hhead]
  show (x.verticesEvtHandler turn s.mEventsQueue.head s files >>= _) = _
  rw [hhead, verticesEvtHandler, readyToSign_of_signable h]
  rcases (s.sign b (x.sign body)).schedule_cases ⟨.txSending, b⟩ with ⟨-, queue, hq, hs⟩ | ⟨-, hs⟩
  · have hev : queue.events = ⟨.txReadyToSign, b⟩ :: (rest ++ [⟨.txSending, b⟩]) := by
      rw [hq]
      show s.events ++ _ = _
      rw [he]
      rfl
    have hpost (obs : Obs) : postProcess ({ s.sign b (x.sign body) with mEventsQueue := queue }.record
        obs) = _ := postProcess_of_ne hev nofun
    rw [hs]
    show (postProcess _ >>= _) = _
    rw [hpost]
    rfl
  · rw [hs]
    rfl

theorem sending_of_signable (files : Files) {b : Fin pendingTxCount} {body : List UInt8}
    (h : Signable body (s.slot b)) (hturn : turn.Good env) :
    ∃ files', x.sending turn b s files = .ok (.success, files') := by
  have hfits := h.fits
  have hread : ∀ start length, start + length ≤ c.txPayloadMaxLength →
      ∃ bytes, (s.slot b).read start length = .ok bytes := fun start length hle =>
    ⟨_, if_pos hle⟩
  obtain ⟨signedTx, hsigned⟩ := hread 0 ((s.slot b).payloadHeaderLength + (s.slot b).payloadBodyLength)
    (by rw [h.header, h.length]; omega)
  obtain ⟨txn, htxn⟩ := hread ((s.slot b).payloadHeaderLength - 4) ((s.slot b).payloadBodyLength + 4)
    (by rw [h.header, h.length]; omega)
  rw [UnixExample.sending, transactionGet_of_occupied h.occupied]
  show ∃ files', (if turn.signedTxOpens = false then _ else _) = _
  rw [hturn.opens.1, if_neg Bool.noConfusion]
  show ∃ files', ((s.slot b).read 0 _ >>= _) = _
  rw [hsigned]
  show ∃ files', (if turn.txOpens = false then _ else _) = _
  rw [hturn.opens.2, if_neg Bool.noConfusion, if_neg (by rw [h.header]; omega)]
  show ∃ files', ((s.slot b).read ((s.slot b).payloadHeaderLength - 4) _ >>= _) = _
  rw [htxn]
  exact ⟨_, rfl⟩

/-- The transaction is posted, and the event of its success queued if there is room. -/
theorem eventProcess_sending (files : Files) (hR : env.reader.Lawful) {b : Fin pendingTxCount}
    {rest : List VtcEvt} {body : List UInt8} (he : s.events = ⟨.txSending, b⟩ :: rest)
    (h : Signable body (s.slot b)) (hturn : turn.Good env) {header : List UInt8}
    (hheader : postHeader s.mProvider.header = .ok header) :
    ∃ id p files', p.header = s.mProvider.header ∧
      let u := ((s.posted b { (s.slot b).withSignature with id := id } p
        ⟨header, postBytes (s.slot b).signature.toList body⟩ turn.reply).schedule ⟨.txSuccess, b⟩).2
      x.eventProcess env turn s files =
        .ok (⟨.success, some u.pop.mEventsQueue.eventQueueSize, none⟩, u.pop, files') := by
  have hhead : s.mEventsQueue.head = ⟨.txSending, b⟩ := (VtcEventsBuf.head_eq he).1
  obtain ⟨id, p, hpost, hp⟩ :=
    hturn.providerTxPost hheader (postBytes (s.slot b).signature.toList body) (s.slot b).id
  let v := s.posted b { (s.slot b).withSignature with id := id } p
    ⟨header, postBytes (s.slot b).signature.toList body⟩ turn.reply
  let u := (v.schedule ⟨.txSuccess, b⟩).2
  obtain ⟨more, hev⟩ : ∃ more, u.events = ⟨.txSending, b⟩ :: more := by
    have hv : v.events = ⟨.txSending, b⟩ :: rest := he
    rcases events_schedule v ⟨.txSuccess, b⟩ with hu | hu
    · exact ⟨rest, hu.trans hv⟩
    · rw [hv] at hu
      exact ⟨_, hu⟩
  have hslot : u.slot b = { (s.slot b).withSignature with id := id } := by
    show (v.schedule ⟨.txSuccess, b⟩).2.slot b = _
    rw [Sdk.slot_schedule, Sdk.slot_posted, if_pos rfl]
  have hsignable : Signable body (u.slot b) := by
    rw [hslot]
    exact h.withSignature.of_payload rfl rfl rfl
  obtain ⟨files', hfiles⟩ := sending_of_signable (x := x) files hsignable hturn
  refine ⟨id, p, files', hp, ?_⟩
  rw [eventProcess_of_ne_nil (by rw [he]; exact List.cons_ne_nil _ _), preProcess, hhead]
  show (transactionPendingSend env b turn.reply s >>= _) = _
  rw [h.transactionPendingSend hR, hpost]
  show (x.verticesEvtHandler turn u.mEventsQueue.head u files >>= _) = _
  rw [(VtcEventsBuf.head_eq hev).1, verticesEvtHandler, hfiles]
  show (postProcess u >>= _) = _
  rw [postProcess_of_ne hev nofun]
  rfl

/-- The slot is freed, its id handed out. -/
theorem eventProcess_success {b : Fin pendingTxCount} {rest : List VtcEvt}
    (he : s.events = ⟨.txSuccess, b⟩ :: rest) (hocc : s.Occupied b) :
    let u := (s.setSlot b (.zero c)).record (.slotFreed b)
    x.eventProcess env turn s files =
      .ok (⟨.success, some u.pop.mEventsQueue.eventQueueSize, some (s.slot b).id⟩, u.pop, files) := by
  have hhead : s.mEventsQueue.head = ⟨.txSuccess, b⟩ := (VtcEventsBuf.head_eq he).1
  have hfree : transactionFree b s = .ok (.success, (s.setSlot b (.zero c)).record (.slotFreed b)) := by
    rw [transactionFree, subscript_val]
    exact if_pos hocc
  rw [eventProcess_of_ne_nil (by rw [he]; exact List.cons_ne_nil _ _), preProcess, hhead]
  show (x.verticesEvtHandler turn s.mEventsQueue.head s files >>= _) = _
  rw [hhead, verticesEvtHandler]
  show (postProcess s >>= _) = _
  rw [postProcess, hhead]
  show ((transactionGet b s >>= _) >>= _) = _
  rw [transactionGet_of_occupied hocc]
  show ((transactionFree b s >>= _) >>= _) = _
  rw [hfree]
  rfl

/-! ## The transactions take turns -/

/-- The event of a transaction in its stage. -/
def eventOf (e : Fin pendingTxCount × Nat) : VtcEvt where
  type := if e.2 = 0 then .txReadyToSign else if e.2 = 1 then .txSending else .txSuccess
  bufid := e.1

/-- What has been posted, and of which slots. -/
def posts (history : List Obs) : List (Fin pendingTxCount × List UInt8) :=
  history.filterMap fun
    | .httpPost b request _ _ => some (b, request.body)
    | _ => none

theorem posts_append (history history' : List Obs) :
    posts (history ++ history') = posts history ++ posts history' := List.filterMap_append

/-- The queue is that of the transactions `q` with the bodies `body`, and those that are past
their first stage are signed. -/
structure Waiting (x : UnixExample) (body : Fin pendingTxCount → List UInt8)
    (q : List (Fin pendingTxCount × Nat)) (s : Sdk c) : Prop where
  staged : RoundRobin.Staged 2 q
  nodup : (q.map Prod.fst).Nodup
  events : s.events = q.map eventOf
  signable : ∀ e ∈ q, Signable (body e.1) (s.slot e.1)
  signed : ∀ e ∈ q, 0 < e.2 → (s.slot e.1).signature = x.sign (body e.1)

variable {body : Fin pendingTxCount → List UInt8} {b : Fin pendingTxCount} {n : Nat}
  {rest : List (Fin pendingTxCount × Nat)}

/-- Whoever waits behind is another. -/
theorem Waiting.ne_of_mem (h : Waiting x body ((b, n) :: rest) s) {e : Fin pendingTxCount × Nat}
    (he : e ∈ rest) : e.1 ≠ b := by
  have hnodup := h.nodup
  rw [List.map_cons, List.nodup_cons] at hnodup
  intro heq
  exact hnodup.1 (List.mem_map.mpr ⟨e, he, heq⟩)

/-- The head has been served, and goes to the tail if it has another stage. -/
theorem Waiting.served (h : Waiting x body ((b, n) :: rest) s)
    (hev : t.events = (RoundRobin.turn 2 ((b, n) :: rest)).map eventOf)
    (hother : ∀ b' ≠ b, t.slot b' = s.slot b')
    (hself : n < 2 → Signable (body b) (t.slot b) ∧ (t.slot b).signature = x.sign (body b)) :
    Waiting x body (RoundRobin.turn 2 ((b, n) :: rest)) t where
  staged := h.staged.turn
  nodup := RoundRobin.nodup_turn h.nodup
  events := hev
  signable e he := by
    rcases RoundRobin.mem_turn he with he | ⟨hn, rfl⟩
    · rw [hother _ (h.ne_of_mem he)]
      exact h.signable e (List.mem_cons_of_mem _ he)
    · exact (hself hn).1
  signed e he hpos := by
    rcases RoundRobin.mem_turn he with he | ⟨hn, rfl⟩
    · rw [hother _ (h.ne_of_mem he)]
      exact h.signed e (List.mem_cons_of_mem _ he) hpos
    · exact (hself hn).2

/-- What is posted of a transaction. -/
def letter (x : UnixExample) (body : Fin pendingTxCount → List UInt8) (b : Fin pendingTxCount) :
    Fin pendingTxCount × List UInt8 :=
  (b, postBytes (x.sign (body b)).toList (body b))

/-- A pass serves the head: it is signed, posted as it was signed, or freed. -/
structure Serves (x : UnixExample) (body : Fin pendingTxCount → List UInt8)
    (b : Fin pendingTxCount) (n : Nat) (s t : Sdk c) : Prop where
  header : t.mProvider.header = s.mProvider.header
  posts : posts t.history = posts s.history ++ if n = 1 then [letter x body b] else []
  other : ∀ b' ≠ b, t.slot b' = s.slot b'
  freed : n = 2 → t.slot b = .zero c

theorem Waiting.hasRoom (h : Waiting x body ((b, n) :: rest) s)
    (hroom : rest.length + 2 < c.vtcEventsCount) : s.HasRoom := by
  rw [Sdk.HasRoom, h.events, List.map_cons, List.length_cons, List.length_map]
  omega

/-- The head is signed. -/
theorem Waiting.ready (h : Waiting x body ((b, 0) :: rest) s)
    (hroom : rest.length + 2 < c.vtcEventsCount) :
    ∃ txID t files', x.eventProcess env turn s files =
        .ok (⟨.success, some t.mEventsQueue.eventQueueSize, txID⟩, t, files') ∧
      Waiting x body (RoundRobin.turn 2 ((b, 0) :: rest)) t ∧ Serves x body b 0 s t := by
  have hs : Signable (body b) (s.slot b) := h.signable _ List.mem_cons_self
  have hev : s.events = ⟨.txReadyToSign, b⟩ :: rest.map eventOf := h.events
  have hpass := eventProcess_ready (x := x) env turn files hev hs
  rcases (s.sign b (x.sign (body b))).schedule_cases ⟨.txSending, b⟩ with
    ⟨-, queue, hq, hu⟩ | ⟨hfull, -⟩
  · rw [hu] at hpass
    have hq : queue.events = ⟨.txReadyToSign, b⟩ :: (rest.map eventOf ++ [eventOf (b, 1)]) := by
      refine hq.trans ?_
      show s.events ++ [eventOf (b, 1)] = _
      rw [hev]
      rfl
    refine ⟨none, _, files, hpass, h.served ?_ ?_ ?_, ?_⟩
    · show queue.pop.events = _
      rw [(VtcEventsBuf.head_eq hq).2, RoundRobin.turn_of_lt (by omega), List.map_append]
      rfl
    · exact fun b' hb' => Sdk.slot_setSlot_ne _ _ hb'
    · intro _
      show Signable (body b) ((s.setSlot b _).slot b) ∧ ((s.setSlot b _).slot b).signature = _
      rw [Sdk.slot_setSlot_self]
      exact ⟨hs.of_payload rfl rfl rfl, rfl⟩
    · refine ⟨rfl, ?_, fun b' hb' => Sdk.slot_setSlot_ne _ _ hb', nofun⟩
      show UnixExample.posts (s.history ++ [.signed b _] ++ [.queued _] ++ [.dequeued _]) = _
      rw [posts_append, posts_append, posts_append]
      show ((_ ++ []) ++ []) ++ [] = _
      simp
  · exact absurd (h.hasRoom hroom) hfull

/-- The head is posted, with the signature it has got. -/
theorem Waiting.sending (h : Waiting x body ((b, 1) :: rest) s) (hR : env.reader.Lawful)
    (hroom : rest.length + 2 < c.vtcEventsCount) (hturn : turn.Good env) {header : List UInt8}
    (hheader : postHeader s.mProvider.header = .ok header) :
    ∃ txID t files', x.eventProcess env turn s files =
        .ok (⟨.success, some t.mEventsQueue.eventQueueSize, txID⟩, t, files') ∧
      Waiting x body (RoundRobin.turn 2 ((b, 1) :: rest)) t ∧ Serves x body b 1 s t := by
  have hs : Signable (body b) (s.slot b) := h.signable _ List.mem_cons_self
  have hsig : (s.slot b).signature = x.sign (body b) :=
    h.signed _ List.mem_cons_self Nat.one_pos
  have hev : s.events = ⟨.txSending, b⟩ :: rest.map eventOf := h.events
  obtain ⟨id, p, files', hp, hpass⟩ :=
    eventProcess_sending (x := x) files hR hev hs hturn hheader
  rcases (s.posted b { (s.slot b).withSignature with id := id } p
      ⟨header, postBytes (s.slot b).signature.toList (body b)⟩ turn.reply).schedule_cases
    ⟨.txSuccess, b⟩ with ⟨-, queue, hq, hu⟩ | ⟨hfull, -⟩
  · rw [hu] at hpass
    have hq : queue.events = ⟨.txSending, b⟩ :: (rest.map eventOf ++ [eventOf (b, 2)]) := by
      refine hq.trans ?_
      show s.events ++ [eventOf (b, 2)] = _
      rw [hev]
      rfl
    refine ⟨none, _, files', hpass, h.served ?_ ?_ ?_, ?_⟩
    · show queue.pop.events = _
      rw [(VtcEventsBuf.head_eq hq).2, RoundRobin.turn_of_lt (by omega), List.map_append]
      rfl
    · exact fun b' hb' => Sdk.slot_setSlot_ne _ _ hb'
    · intro _
      show Signable (body b) ((s.setSlot b _).slot b) ∧ ((s.setSlot b _).slot b).signature = _
      rw [Sdk.slot_setSlot_self]
      exact ⟨hs.withSignature.of_payload rfl rfl rfl, hsig⟩
    · refine ⟨hp, ?_, fun b' hb' => Sdk.slot_setSlot_ne _ _ hb', nofun⟩
      show UnixExample.posts (s.history ++ [.httpPost b _ _ _] ++ [.queued _] ++ [.dequeued _]) = _
      rw [posts_append, posts_append, posts_append, hsig]
      show ((_ ++ [letter x body b]) ++ []) ++ [] = _
      rw [List.append_nil, List.append_nil, if_pos rfl]
  · exact absurd (h.hasRoom hroom) hfull

/-- The slot of the head is freed. -/
theorem Waiting.success (h : Waiting x body ((b, 2) :: rest) s) :
    ∃ txID t files', x.eventProcess env turn s files =
        .ok (⟨.success, some t.mEventsQueue.eventQueueSize, txID⟩, t, files') ∧
      Waiting x body (RoundRobin.turn 2 ((b, 2) :: rest)) t ∧ Serves x body b 2 s t := by
  have hs : Signable (body b) (s.slot b) := h.signable _ List.mem_cons_self
  have hev : s.events = ⟨.txSuccess, b⟩ :: rest.map eventOf := h.events
  refine ⟨_, _, _, eventProcess_success hev hs.occupied, h.served ?_ ?_ ?_, ?_⟩
  · show s.mEventsQueue.pop.events = _
    rw [(VtcEventsBuf.head_eq hev).2, RoundRobin.turn_of_not_lt (by omega)]
  · exact fun b' hb' => Sdk.slot_setSlot_ne _ _ hb'
  · exact fun hn => absurd hn (Nat.lt_irrefl 2)
  · refine ⟨rfl, ?_, fun b' hb' => Sdk.slot_setSlot_ne _ _ hb', fun _ => Sdk.slot_setSlot_self _ _ _⟩
    show UnixExample.posts (s.history ++ [.slotFreed b] ++ [.dequeued _]) = _
    rw [posts_append, posts_append]
    show (_ ++ []) ++ [] = _
    rw [List.append_nil, List.append_nil, if_neg (by omega), List.append_nil]

/-- One turn, in whatever stage the head is. -/
theorem Waiting.pass (h : Waiting x body ((b, n) :: rest) s) (files : Files) (hR : env.reader.Lawful)
    (hroom : rest.length + 2 < c.vtcEventsCount) (hturn : turn.Good env) {header : List UInt8}
    (hheader : postHeader s.mProvider.header = .ok header) :
    ∃ txID t files', x.eventProcess env turn s files =
        .ok (⟨.success, some t.mEventsQueue.eventQueueSize, txID⟩, t, files') ∧
      Waiting x body (RoundRobin.turn 2 ((b, n) :: rest)) t ∧ Serves x body b n s t := by
  have hn : n ≤ 2 := h.staged _ List.mem_cons_self
  obtain rfl | rfl | rfl : n = 0 ∨ n = 1 ∨ n = 2 := by omega
  · exact h.ready hroom
  · exact h.sending hR hroom hturn hheader
  · exact h.success

/-! ## The whole loop -/

/-- What the loop has come to: every transaction of `q` has gone through its stages, and the
other slots are as they were. -/
structure Drained (x : UnixExample) (body : Fin pendingTxCount → List UInt8)
    (q : List (Fin pendingTxCount × Nat)) (s t : Sdk c) : Prop where
  events : t.events = []
  posts : posts t.history = posts s.history ++ (RoundRobin.upTo 1 q).map (letter x body)
  freed : ∀ b ∈ q.map Prod.fst, t.slot b = .zero c
  other : ∀ b ∉ q.map Prod.fst, t.slot b = s.slot b

/-- A turn, and what comes after it. -/
theorem Drained.of_turn {u : Sdk c} (hn : n ≤ 2) (hserves : Serves x body b n s t)
    (h : Drained x body (RoundRobin.turn 2 ((b, n) :: rest)) t u) :
    Drained x body ((b, n) :: rest) s u where
  events := h.events
  posts := by
    rw [h.posts, hserves.posts, RoundRobin.upTo_turn (show 1 ≤ 2 by decide), List.map_append,
      List.append_assoc]
    congr 2
    split <;> rfl
  freed b' hb' := by
    by_cases hkey : b' ∈ (RoundRobin.turn 2 ((b, n) :: rest)).map Prod.fst
    · exact h.freed b' hkey
    · -- the head has left
      by_cases hlt : n < 2
      · rw [RoundRobin.turn_of_lt hlt, List.map_append] at hkey
        exact absurd (by simpa [or_comm] using hb') hkey
      · rw [h.other b' hkey]
        rw [RoundRobin.turn_of_not_lt hlt] at hkey
        rw [(List.mem_cons.mp hb').resolve_right hkey]
        exact hserves.freed (by omega)
  other b' hb' := by
    have hb : b' ≠ b := fun he => hb' (by rw [he]; exact List.mem_cons_self)
    rw [h.other b', hserves.other b' hb]
    intro hkey
    obtain ⟨e, he, rfl⟩ := List.mem_map.mp hkey
    rcases RoundRobin.mem_turn he with he | ⟨-, rfl⟩
    · exact hb' (List.mem_cons_of_mem _ (List.mem_map_of_mem he))
    · exact hb rfl

theorem Drained.nil (hev : s.events = []) : Drained x body [] s s where
  events := hev
  posts := (List.append_nil _).symm
  freed _ h := nomatch h
  other _ _ := rfl

theorem mainLoop_cons {st : LoopState c} {turns : List Turn} {result : ProcessResult}
    (h : x.eventProcess env turn st.sdk st.files = .ok (result, t, files')) :
    x.mainLoop env (turn :: turns) st =
      if result.err = .success ∧ result.queueSize ≠ some 0 then
        x.mainLoop env turns (st.next result t files')
      else .ok (some (result.err, st.next result t files')) := by
  rw [mainLoop, h]
  rfl

/-- With room for one more event, all of the transactions are served. -/
theorem Waiting.mainLoop (hR : env.reader.Lawful) {header : List UInt8}
    {q : List (Fin pendingTxCount × Nat)} (hq : RoundRobin.Staged 2 q) :
    ∀ (st : LoopState c) {turns : List Turn}, Waiting x body q st.sdk → q ≠ [] →
      q.length + 1 < c.vtcEventsCount → postHeader st.sdk.mProvider.header = .ok header →
      (∀ turn ∈ turns, turn.Good env) → RoundRobin.work 2 q ≤ turns.length →
      ∃ st', x.mainLoop env turns st = .ok (some (.success, st')) ∧
        Drained x body q st.sdk st'.sdk := by
  refine RoundRobin.turns_induct (P := fun q => ∀ (st : LoopState c) {turns : List Turn},
    Waiting x body q st.sdk → q ≠ [] → q.length + 1 < c.vtcEventsCount →
      postHeader st.sdk.mProvider.header = .ok header → (∀ turn ∈ turns, turn.Good env) →
      RoundRobin.work 2 q ≤ turns.length → ∃ st', x.mainLoop env turns st =
        .ok (some (.success, st')) ∧ Drained x body q st.sdk st'.sdk) ?_ ?_ hq
  · intro _ _ _ hne
    exact absurd rfl hne
  · intro b n rest hn ih st turns h _ hroom hheader hturns hlen
    rw [← RoundRobin.work_turn hn] at hlen
    match turns, hturns, hlen with
    | [], _, hlen => exact absurd hlen (Nat.not_succ_le_zero _)
    | turn :: turns, hturns, hlen =>
        rw [List.forall_mem_cons] at hturns
        obtain ⟨txID, t, files', hpass, hwaiting, hserves⟩ :=
          h.pass st.files hR hroom hturns.1 hheader
        rw [mainLoop_cons hpass]
        have hevents := hwaiting.events
        by_cases hnext : RoundRobin.turn 2 ((b, n) :: rest) = []
        · have hnil : t.events = [] := by rw [hevents, hnext]; rfl
          have hsize : t.mEventsQueue.eventQueueSize = 0 :=
            VtcEventsBuf.eventQueueSize_eq_zero_iff.mpr hnil
          rw [hsize, if_neg fun hgo => hgo.2 rfl]
          refine ⟨_, rfl, .of_turn hn hserves ?_⟩
          rw [hnext]
          exact .nil hnil
        · have hsize : t.mEventsQueue.eventQueueSize ≠ 0 := fun hz => hnext
            (List.map_eq_nil_iff.mp (hevents.symm.trans (VtcEventsBuf.eventQueueSize_eq_zero_iff.mp hz)))
          rw [if_pos ⟨rfl, fun he => hsize (Option.some.inj he)⟩]
          have hlength := RoundRobin.length_turn_le 2 ((b, n) :: rest)
          obtain ⟨st', hloop, hdrained⟩ := ih (st.next _ t files') hwaiting hnext
            (by omega) (by rw [← hheader]; exact congrArg postHeader hserves.header) hturns.2
            (Nat.le_of_succ_le_succ hlen)
          exact ⟨st', hloop, .of_turn hn hserves hdrained⟩

end UnixExample

/-! ## What has been created is sent -/

/-- A call that creates a transaction. -/
def Call.Creates : Call → Prop
  | .op (.pay _ _ _ _ _) | .op (.appl _ _ _ _) => True
  | .op (.schedule _) | .op (.sign _ _) | .process _ _ => False

/-- The event of a transaction that is to be signed. -/
def readyEvent (b : Fin pendingTxCount) : VtcEvt := ⟨.txReadyToSign, b⟩

/-- The events are those of transactions that are to be signed, and nothing has been posted. -/
structure Created (keys : List (Fin pendingTxCount)) (s : Sdk c) : Prop where
  nodup : keys.Nodup
  events : s.events = keys.map readyEvent
  signable : ∀ b ∈ keys, ∃ body, Signable body (s.slot b)
  silent : UnixExample.posts s.history = []

namespace Created

variable {keys : List (Fin pendingTxCount)} {s t : Sdk c} {err : RetCode}

/-- The slot that is taken is none of those whose events wait. -/
theorem index_not_mem (h : Created keys s) (hfree : ¬ s.Occupied s.mTxBufferIdx) :
    s.mTxBufferIdx ∉ keys := by
  intro hmem
  obtain ⟨body, hs⟩ := h.signable _ hmem
  exact hfree hs.occupied

/-- A slot is taken that no event is for yet. -/
theorem taken (h : Created keys s) (hfree : ¬ s.Occupied s.mTxBufferIdx)
    (hh : t.history = s.history ++ [.slotTaken s.mTxBufferIdx]) (hev : t.events = s.events)
    (hother : ∀ b ≠ s.mTxBufferIdx, t.slot b = s.slot b) : Created keys t where
  nodup := h.nodup
  events := hev.trans h.events
  signable b hb := by
    rw [hother b fun he => h.index_not_mem hfree (he ▸ hb)]
    exact h.signable b hb
  silent := by
    rw [hh, UnixExample.posts_append, h.silent]
    rfl

/-- The event is queued for a slot that can be signed, if there is room. -/
theorem schedule (h : Created keys s) {b : Fin pendingTxCount} (hb : b ∉ keys) {body : List UInt8}
    (hs : Signable body (s.slot b)) : ∃ keys, Created keys (s.schedule (readyEvent b)).2 := by
  rcases s.schedule_cases (readyEvent b) with ⟨-, queue, hq, hsched⟩ | ⟨-, hsched⟩
  · rw [hsched]
    refine ⟨keys ++ [b], ?_, ?_, ?_, ?_⟩
    · exact List.nodup_append_comm.mp (List.nodup_cons.mpr ⟨hb, h.nodup⟩)
    · show queue.events = _
      rw [hq, h.events, List.map_append]
      rfl
    · intro b' hb'
      rcases List.mem_append.mp hb' with hb' | hb'
      · exact h.signable b' hb'
      · rw [List.mem_singleton.mp hb']
        exact ⟨body, hs⟩
    · show UnixExample.posts (s.history ++ [.queued _]) = []
      rw [UnixExample.posts_append, h.silent]
      rfl
  · rw [hsched]
    exact ⟨keys, h⟩

/-- Storing a signature queues nothing. -/
theorem sign (h : Created keys s) (b : Fin pendingTxCount)
    (signature : Vector UInt8 signatureLength) : Created keys (s.sign b signature) where
  nodup := h.nodup
  events := h.events
  signable b' hb' := by
    obtain ⟨body, hs⟩ := h.signable b' hb'
    refine ⟨body, ?_⟩
    show Signable body ((s.setSlot b _).slot b')
    rw [Sdk.slot_setSlot]
    split
    · next he =>
        rw [he] at hs
        exact hs.of_payload rfl rfl rfl
    · exact hs
  silent := by
    show UnixExample.posts (s.history ++ [.signed b signature]) = []
    rw [UnixExample.posts_append, h.silent]
    rfl

theorem creation (h : Created keys s) (hW : env.writer.Lawful) {tx₀ : Transaction}
    {reply : HttpReply} (hreq : (∃ pay, tx₀.details.tx = .pay pay) ∨ ∃ appl, tx₀.details.tx = .appl appl)
    (hc : Creation env tx₀ reply s err t) : ∃ keys, Created keys t := by
  cases hc with
  | noMem _ | invalidParam _ _ => exact ⟨keys, h⟩
  | noParams free _ _ _ =>
      exact ⟨keys, h.taken free rfl rfl fun b hb => s.slot_loaded_of_ne _ hb⟩
  | notEncoded free _ _ _ _ _ =>
      refine ⟨keys, h.taken free rfl rfl fun b hb => ?_⟩
      rw [Sdk.slot_setSlot_ne _ _ hb, s.slot_loaded_of_ne _ hb]
  | @scheduled _ _ tx p slot free accepted load _ encode =>
      obtain ⟨-, hnote, htx⟩ := providerTxParamsLoad_sameRequest load
      obtain ⟨-, ops, hops, henc⟩ := encodeTx_request hW (by rw [htx]; exact hreq)
        (by rw [hnote]; exact accepted) encode
      have htaken : Created keys { (s.loaded p).setSlot s.mTxBufferIdx slot with
          mTxBufferIdx := s.mTxBufferIdx + 1 } := by
        refine h.taken free rfl rfl fun b hb => ?_
        show ((s.loaded p).setSlot s.mTxBufferIdx slot).slot b = _
        rw [Sdk.slot_setSlot_ne _ _ hb, s.slot_loaded_of_ne _ hb]
      have hs : Signable (opBytes ops)
          (((s.loaded p).setSlot s.mTxBufferIdx slot).slot s.mTxBufferIdx) := by
        rw [Sdk.slot_setSlot_self]
        exact henc.signable (le_opLength_bodyOps hops)
      exact htaken.schedule (h.index_not_mem free) hs

theorem call (hW : env.writer.Lawful) {call : Call} (h : ∃ keys, Created keys s)
    (hcreates : call.Creates) (hstep : Step env s call t) : ∃ keys, Created keys t := by
  obtain ⟨keys, h⟩ := h
  obtain ⟨err, hstep⟩ := hstep
  match call, hcreates with
  | .op (.pay sender receiver amount params reply), _ =>
      exact h.creation hW (.inl ⟨_, rfl⟩) (transactionPay_creation hstep)
  | .op (.appl sender appId params reply), _ =>
      obtain ⟨_, hc⟩ := transactionAppl_creation hstep
      exact h.creation hW (.inr ⟨_, rfl⟩) hc

theorem run (hW : env.writer.Lawful) {provider : Provider} {accounts : MAccounts}
    {calls : List Call} (hcalls : ∀ call ∈ calls, call.Creates)
    (hrun : Run (Step env) (Sdk.init c provider accounts) calls s) : ∃ keys, Created keys s := by
  refine hrun.preserves (P := fun s => ∃ keys, Created keys s)
    (fun _ _ _ h hc hs => call hW h hc hs) hcalls ⟨[], List.nodup_nil, ?_, nofun, rfl⟩
  exact VtcEventsBuf.events_zero c

/-- They are waiting for the loop. -/
theorem waiting (h : Created keys s) (x : UnixExample) :
    UnixExample.Waiting x (fun b => (s.slot b).toSign) (keys.map fun b => (b, 0)) s where
  staged e he := by
    obtain ⟨b, -, rfl⟩ := List.mem_map.mp he
    exact Nat.zero_le 2
  nodup := by
    rw [RoundRobin.keys_start]
    exact h.nodup
  events := by
    rw [h.events, List.map_map]
    rfl
  signable e he := by
    obtain ⟨b, hb, rfl⟩ := List.mem_map.mp he
    obtain ⟨body, hs⟩ := h.signable b hb
    rw [hs.toSign_eq]
    exact hs
  signed e he hpos := by
    obtain ⟨b, -, rfl⟩ := List.mem_map.mp he
    exact absurd hpos (Nat.lt_irrefl 0)

end Created

namespace UnixExample

variable {x : UnixExample} {s : Sdk c} {provider : Provider} {accounts : MAccounts}
  {calls : List Call}

/-- **All that has been created is sent**: the transactions are signed with the keys of the
account and posted once each, in the order in which they were created, and their slots are
freed. -/
theorem main_loop_sends_all (hW : env.writer.Lawful) (hR : env.reader.Lawful)
    (hcreates : ∀ call ∈ calls, call.Creates)
    (hrun : Run (Step env) (Sdk.init c provider accounts) calls s) (hsome : s.events ≠ [])
    (hroom : s.events.length + 1 < c.vtcEventsCount) {header : List UInt8}
    (hheader : postHeader s.mProvider.header = .ok header) {turns : List Turn}
    (hturns : ∀ turn ∈ turns, turn.Good env) (hlen : 3 * s.events.length ≤ turns.length)
    (files : Files) (txID : Option (Vector UInt8 transactionHashStrMaxLength)) :
    ∃ st, ∃ keys : List (Fin pendingTxCount), x.mainLoop env turns ⟨s, files, txID⟩ = .ok (some (.success, st)) ∧
      st.sdk.events = [] ∧ s.events = keys.map readyEvent ∧
      posts st.sdk.history = keys.map (letter x fun b => (s.slot b).toSign) ∧
      ∀ b ∈ keys, ¬ st.sdk.Occupied b := by
  obtain ⟨keys, h⟩ := Created.run hW hcreates hrun
  have hwaiting := h.waiting x
  have hlength : s.events.length = keys.length := by rw [h.events, List.length_map]
  have hne : (keys.map fun b => (b, 0)) ≠ [] := fun hnil => hsome (by
    rw [h.events, List.map_eq_nil_iff.mp hnil]
    rfl)
  obtain ⟨st, hloop, hdrained⟩ := Waiting.mainLoop hR hwaiting.staged
    ⟨s, files, txID⟩ hwaiting hne (by rw [List.length_map]; omega) hheader hturns
    (by rw [RoundRobin.work_start]; omega)
  refine ⟨st, keys, hloop, hdrained.events, h.events, ?_, fun b hb => ?_⟩
  · rw [hdrained.posts, h.silent, RoundRobin.upTo_start]
    rfl
  · rw [Sdk.Occupied, hdrained.freed b (by rw [RoundRobin.keys_start]; exact hb)]
    exact fun hz => hz rfl

theorem answered_good : answered.Good .example where
  accepted := ⟨rfl, by decide⟩
  fits := by decide +kernel
  legible p p' hp := by
    have hjson : parseAnswers p'.rxString = some txIdJson := by
      rw [rxString_receive (List.cons_ne_nil _ _) hp]
      exact parse_txId
    refine ⟨txIdJson, hjson, ?_⟩
    decide +kernel
  opens := ⟨rfl, rfl⟩

theorem main_loop_sends_all_payment : ∃ (s : Sdk .default) (st : LoopState .default),
    s.events.length = 1 ∧ seven.mainLoop .example [answered, answered, answered]
      ⟨s, ⟨none, none⟩, none⟩ = .ok (some (.success, st)) ∧ st.sdk.events = [] := by
  obtain ⟨s, hrun, hlength, hheader⟩ := payment_run .default (n := 1) (by decide +kernel)
  have hsome : s.events ≠ [] := fun hnil => by rw [hnil] at hlength; exact nomatch hlength
  have hroom : s.events.length + 1 < Config.default.vtcEventsCount := by rw [hlength]; decide
  have hturns : ∀ turn ∈ [answered, answered, answered], turn.Good .example := by
    simp [answered_good]
  obtain ⟨st, -, hloop, hevents, -⟩ := main_loop_sends_all (x := seven) appendWriter_lawful
    formatReader_lawful (by simp [payment, Call.Creates]) hrun hsome hroom
    (by rw [hheader]; rfl) hturns (by simp [hlength]) ⟨none, none⟩ none
  exact ⟨s, st, hlength, hloop, hevents⟩

/-! ## A full queue -/

/-- A pass, whatever its outcome. -/
def PassStep (env : Env) (x : UnixExample) (st : Sdk c × Files) (turn : Turn) (st' : Sdk c × Files) :
    Prop :=
  ∃ result, x.eventProcess env turn st.1 st.2 = .ok (result, st')

/-- The head is signed once more, and stays where it is. -/
theorem eventProcess_full (env : Env) {keys : List (Fin pendingTxCount)} (h : Created keys s)
    (hfull : s.events.length + 1 = c.vtcEventsCount) (turn : Turn) (files : Files) :
    ∃ t, x.eventProcess env turn s files = .ok (⟨.errorNoMem, none, none⟩, t, files) ∧
      Created keys t := by
  have hevents := h.events
  match keys, h with
  | [], h =>
      -- a queue without room for one event at all
      rw [h.events, List.map_nil, List.length_nil, Config.vtcEventsCount] at hfull
      have := Nat.pow_le_pow_right (show 0 < 2 by decide) c.eventsLog_pos
      omega
  | b :: rest, h =>
      obtain ⟨body, hs⟩ := h.signable b List.mem_cons_self
      refine ⟨s.sign b (x.sign body), ?_, h.sign b _⟩
      have hnone : ¬ (s.sign b (x.sign body)).HasRoom := by
        show ¬ s.events.length < c.vtcEventsCount - 1
        omega
      rcases (s.sign b (x.sign body)).schedule_cases ⟨.txSending, b⟩ with ⟨hroom, -⟩ | ⟨-, hsched⟩
      · exact absurd hroom hnone
      · rw [eventProcess_ready env turn files hevents hs, hsched]
        rfl

/-- **A full queue is stuck**: if so many transactions have been created that the queue is
full, each pass fails for want of memory, and however often the loop is run, nothing is
ever posted. -/
theorem full_queue_is_stuck (hW : env.writer.Lawful) (hcreates : ∀ call ∈ calls, call.Creates)
    (hrun : Run (Step env) (Sdk.init c provider accounts) calls s)
    (hfull : s.events.length + 1 = c.vtcEventsCount) {files : Files} {turns : List Turn}
    {st : Sdk c × Files} (hpasses : Run (PassStep env x) (s, files) turns st) :
    st.1.events = s.events ∧ posts st.1.history = [] ∧
      ∀ turn, ∃ t, x.eventProcess env turn st.1 st.2 = .ok (⟨.errorNoMem, none, none⟩, t, st.2) := by
  obtain ⟨keys, h⟩ := Created.run hW hcreates hrun
  have hstuck : Created keys st.1 := by
    refine hpasses.invariant (P := fun st => Created keys st.1) ?_ h
    intro st turn st' hst hpass
    obtain ⟨result, hpass⟩ := hpass
    have hfull' : st.1.events.length + 1 = c.vtcEventsCount := by
      rw [hst.events, ← h.events]
      exact hfull
    obtain ⟨t, hsame, ht⟩ := eventProcess_full (x := x) env hst hfull' turn st.2
    obtain ⟨-, rfl⟩ := Prod.mk.inj (Except.ok.inj (hsame.symm.trans hpass))
    exact ht
  have hevents : st.1.events = s.events := hstuck.events.trans h.events.symm
  refine ⟨hevents, hstuck.silent, fun turn => ?_⟩
  obtain ⟨t, hpass, -⟩ := eventProcess_full (x := x) env hstuck
    (by rw [hevents]; exact hfull) turn st.2
  exact ⟨t, hpass⟩

/-- `VTC_EVENTS_COUNT` is 2. -/
def twoEvents : Config := { Config.default with
  eventsLog := 1, eventsLog_pos := by decide, eventsLog_lt := by decide }

theorem full_queue_is_stuck_payment : ∃ s : Sdk twoEvents, s.events.length = 1 ∧
    ∃ t, seven.eventProcess .example answered s ⟨none, none⟩ =
      .ok (⟨.errorNoMem, none, none⟩, t, ⟨none, none⟩) := by
  obtain ⟨s, hrun, hlength, -⟩ := payment_run twoEvents (n := 1) (by decide +kernel)
  have hfull : s.events.length + 1 = twoEvents.vtcEventsCount := by rw [hlength]; decide
  obtain ⟨-, -, hpass⟩ := full_queue_is_stuck (x := seven) appendWriter_lawful
    (by simp [payment, Call.Creates]) hrun hfull (.nil (s, ⟨none, none⟩))
  exact ⟨s, hlength, hpass answered⟩

end UnixExample

end Vertices
