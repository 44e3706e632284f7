/-
# `Vertices.PendingSlots` — the pending slots and the events of a run in order

In a run in which parameters are always to be had and the handler schedules exactly the
event to send, every transaction goes through three events, each queued when the one
before is handled: it is a job of a `Pipeline` with the stages 0, 1 and 2.  A slot is the
ticket modulo `PENDING_TX_COUNT`.

`Follows p s` says that the slots and the queue of `s` are those of the pipeline `p`;
each call follows a move of the pipeline, or changes nothing (`Follows.call`).  What is
claimed of the slots is then read off the pipeline (`Follows.corresponds`).
-/
import Vertices.Lib.Pipeline
import Vertices.Atomicity
import Vertices.Process
import Mathlib.Data.List.Nodup

namespace Vertices

open Transition

variable {c : Config} {env : Env}

/-! ## The runs considered -/

/-- `provider_tx_params_load` returns `VTC_SUCCESS` or `VTC_ERROR_OFFLINE`. -/
def LoadsParams (env : Env) (s : Sdk c) (reply : HttpReply) : Prop :=
  ∀ tx₀ err tx p, providerTxParamsLoad env.cJSON_Parse s.mProvider reply tx₀ = .ok (err, tx, p) →
    err = .success ∨ err = .errorOffline

/-- What the handler schedules for an event. -/
def followUp (evt : VtcEvt) : List VtcEvt :=
  match evt.type with
  | .txReadyToSign => [⟨.txSending, evt.bufid⟩]
  | .txSending | .txSuccess | .other _ => []

/-- Storing a signature. -/
def Op.Signs : Op → Prop
  | .sign _ _ => True
  | .pay _ _ _ _ _ | .appl _ _ _ _ | .schedule _ => False

/-- The handler stores signatures, and schedules one event to send for one to sign. -/
def Handling.Orderly (handling : Handling) (evt : VtcEvt) : Prop :=
  handling.err = .success ∧
    ∃ signs, (∀ o ∈ signs, o.Signs) ∧ handling.calls = signs ++ (followUp evt).map .schedule

/-- The calls of the runs considered. -/
def Orderly (env : Env) (s : Sdk c) : Call → Prop
  | .op (.pay _ _ _ _ reply) | .op (.appl _ _ _ reply) => LoadsParams env s reply
  | .op (.schedule _) | .op (.sign _ _) => False
  | .process handler _ => ∃ handling, handler = some handling ∧
      ∀ evt ∈ s.events.head?, handling.Orderly evt

/-! ## Slots taken and freed -/

def slotsTaken (history : List Obs) : List Nat :=
  history.filterMap fun
    | .slotTaken b => some b.val
    | _ => none

def slotsFreed (history : List Obs) : List Nat :=
  history.filterMap fun
    | .slotFreed b => some b.val
    | _ => none

theorem slotsTaken_append (history history' : List Obs) :
    slotsTaken (history ++ history') = slotsTaken history ++ slotsTaken history' :=
  List.filterMap_append

theorem slotsFreed_append (history history' : List Obs) :
    slotsFreed (history ++ history') = slotsFreed history ++ slotsFreed history' :=
  List.filterMap_append

/-- From `s` to `t` no slot is taken or freed, and the events `new` are queued. -/
structure Quiet (s t : Sdk c) (new : List VtcEvt) : Prop where
  occupied : ∀ b, t.Occupied b ↔ s.Occupied b
  index : t.mTxBufferIdx = s.mTxBufferIdx
  taken : slotsTaken t.history = slotsTaken s.history
  freed : slotsFreed t.history = slotsFreed s.history
  events : t.events = s.events ++ new

theorem Quiet.refl (s : Sdk c) : Quiet s s [] :=
  ⟨fun _ => Iff.rfl, rfl, rfl, rfl, (List.append_nil _).symm⟩

theorem Quiet.trans {s t u : Sdk c} {new new' : List VtcEvt} (h : Quiet s t new)
    (h' : Quiet t u new') : Quiet s u (new ++ new') where
  occupied b := (h'.occupied b).trans (h.occupied b)
  index := h'.index.trans h.index
  taken := h'.taken.trans h.taken
  freed := h'.freed.trans h.freed
  events := by rw [h'.events, h.events, List.append_assoc]

/-- What is recorded besides. -/
theorem Quiet.of_record {s t : Sdk c} {obs : Obs} (hocc : ∀ b, t.Occupied b ↔ s.Occupied b)
    (hidx : t.mTxBufferIdx = s.mTxBufferIdx) (hh : t.history = s.history ++ [obs])
    (hev : t.events = s.events) (htaken : slotsTaken [obs] = []) (hfreed : slotsFreed [obs] = []) :
    Quiet s t [] where
  occupied := hocc
  index := hidx
  taken := by rw [hh, slotsTaken_append, htaken, List.append_nil]
  freed := by rw [hh, slotsFreed_append, hfreed, List.append_nil]
  events := by rw [hev, List.append_nil]

theorem Quiet.schedule {s : Sdk c} (hroom : s.HasRoom) (evt : VtcEvt) :
    Quiet s (s.schedule evt).2 [evt] := by
  rcases s.schedule_cases evt with ⟨-, queue, hq, hs⟩ | ⟨hfull, -⟩
  · rw [hs]
    refine ⟨fun _ => Iff.rfl, rfl, ?_, ?_, hq⟩
    · exact (slotsTaken_append _ _).trans (List.append_nil _)
    · exact (slotsFreed_append _ _).trans (List.append_nil _)
  · exact absurd hroom hfull

theorem Quiet.sign {s t : Sdk c} {err : RetCode} {bufid : Nat}
    {signature : Vector UInt8 signatureLength}
    (h : storeSignature bufid signature s = .ok (err, t)) : Quiet s t [] := by
  obtain ⟨b, -, ⟨-, rfl⟩ | ⟨-, rfl⟩⟩ := storeSignature_cases h
  · exact .of_record (Sdk.occupied_setSlot rfl) rfl rfl rfl rfl rfl
  · exact .refl _

/-- Sending queues an event if it succeeds, and nothing else. -/
theorem Quiet.sending {s t : Sdk c} {err : RetCode} {b : Fin pendingTxCount} {reply : HttpReply}
    (hroom : s.HasRoom) (h : Sending env b reply s err t) :
    (err ≠ .success ∧ Quiet s t []) ∨ (err = .success ∧ Quiet s t [⟨.txSuccess, b⟩]) := by
  cases h with
  | notPending _ => exact .inl ⟨nofun, .refl s⟩
  | posted _ sign _ _ failed =>
      exact .inl ⟨failed, .of_record (fun _ => Sdk.occupied_posted sign _ _ _ _) rfl rfl rfl rfl rfl⟩
  | @succeeded _ slot _ request id p _ sign _ _ =>
      have hposted : Quiet s (s.posted b { slot with id := id } p request reply) [] :=
        .of_record (fun _ => Sdk.occupied_posted sign _ _ _ _) rfl rfl rfl rfl rfl
      exact .inr ⟨rfl, hposted.trans
        (Quiet.schedule (s := s.posted b { slot with id := id } p request reply) hroom _)⟩

theorem runCalls_append (calls calls' : List Op) (s : Sdk c) :
    runCalls env (calls ++ calls') s = (do runCalls env calls' (← runCalls env calls s)) := by
  induction calls generalizing s with
  | nil => rfl
  | cons o calls ih =>
      simp only [List.cons_append, runCalls, bind_assoc]
      congr 1
      funext ⟨_, t⟩
      exact ih t

/-- The handler stores signatures, then schedules its one event. -/
theorem Quiet.user {s t : Sdk c} {err : RetCode} {handling : Handling} {evt : VtcEvt}
    (hord : handling.Orderly evt) (hroom : s.HasRoom)
    (h : userProcess env (some handling) s = .ok (err, t)) :
    err = .success ∧ Quiet s t (followUp evt) := by
  obtain ⟨herr, signs, hsigns, hcalls⟩ := hord
  obtain ⟨u, hu, h⟩ := bind_eq_ok.mp h
  obtain ⟨rfl, rfl⟩ := pure_eq_ok2.mp h
  refine ⟨herr, ?_⟩
  rw [hcalls, runCalls_append] at hu
  obtain ⟨v, hv, hu⟩ := bind_eq_ok.mp hu
  have hquiet : Quiet s v [] := by
    refine runCalls_induct (P := fun u => Quiet s u []) ?_ (.refl s) hv
    intro o ho u w _ hsu hrun
    have hs := hsigns o ho
    cases o with
    | sign bufid signature => exact hsu.trans (.sign hrun)
    | pay _ _ _ _ _ | appl _ _ _ _ | schedule _ => exact hs.elim
  have hroom' : v.HasRoom := by
    rw [Sdk.HasRoom, hquiet.events, List.append_nil]; exact hroom
  unfold followUp at hu ⊢
  cases htype : evt.type with
  | txReadyToSign =>
      rw [htype] at hu
      rw [← pure_eq_ok.mp hu]
      exact hquiet.trans (.schedule hroom' _)
  | txSending | txSuccess | other _ =>
      rw [htype] at hu
      rw [← pure_eq_ok.mp hu]
      exact hquiet

/-! ## The pipeline of a state -/

/-- The event of a job in its stage. -/
def jobEvent (j : Job) : VtcEvt where
  type := if j.stage = 0 then .txReadyToSign else if j.stage = 1 then .txSending else .txSuccess
  bufid := j.ticket % pendingTxCount

/-- The queue and the slots are those of the jobs of `p`. -/
structure Follows (p : Pipeline 2) (s : Sdk c) : Prop where
  events : s.events = p.queue.map jobEvent
  occupied : ∀ b : Fin pendingTxCount,
    s.Occupied b ↔ ∃ t, p.first ≤ t ∧ t < p.next ∧ t % pendingTxCount = b.val
  index : s.mTxBufferIdx.val = p.next % pendingTxCount
  window : p.next ≤ p.first + pendingTxCount
  taken : slotsTaken s.history = (List.range p.next).map (· % pendingTxCount)
  freed : slotsFreed s.history = (List.range p.first).map (· % pendingTxCount)

namespace Follows

variable {p : Pipeline 2} {s t : Sdk c} {err : RetCode}

theorem init (provider : Provider) (accounts : MAccounts) :
    Follows (.empty 2) (Sdk.init c provider accounts) where
  events := VtcEventsBuf.events_zero c
  occupied b := by
    refine iff_of_false (fun h => h ?_) fun ⟨t, _, ht, _⟩ => absurd ht (Nat.not_lt_zero t)
    simp [Sdk.init, Sdk.slot, SignedTransaction.zero]
  index := rfl
  window := Nat.zero_le _
  taken := rfl
  freed := rfl

theorem quiet (h : Follows p s) (hq : Quiet s t []) : Follows p t where
  events := by rw [hq.events, List.append_nil]; exact h.events
  occupied b := (hq.occupied b).trans (h.occupied b)
  index := by rw [hq.index]; exact h.index
  window := h.window
  taken := hq.taken.trans h.taken
  freed := hq.freed.trans h.freed

theorem length_events (h : Follows p s) : s.events.length ≤ pendingTxCount := by
  have := h.window
  rw [h.events, List.length_map, p.length_queue]
  omega

/-- There is room for two more events. -/
theorem hasRoom (h : Follows p s) (hcount : 8 ≤ c.vtcEventsCount) : s.HasRoom := by
  have := h.length_events
  rw [Sdk.HasRoom]
  simp only [pendingTxCount] at this
  omega

/-- The next slot is taken exactly when all are. -/
theorem occupied_index_iff (h : Follows p s) :
    s.Occupied s.mTxBufferIdx ↔ ∀ b, s.Occupied b := by
  refine ⟨fun hocc b => ?_, fun hall => hall _⟩
  obtain ⟨t, hfirst, hnext, ht⟩ := (h.occupied _).mp hocc
  have hwindow := h.window
  rw [h.index] at ht
  simp only [pendingTxCount] at ht hwindow
  refine (h.occupied b).mpr ⟨p.first + (b.val + 4 - p.first % 4) % 4, by omega, by omega, ?_⟩
  have hb : b.val < 4 := b.isLt
  simp only [pendingTxCount]
  omega

/-! ### The moves -/

theorem arrive (h : Follows p s) (hcount : 8 ≤ c.vtcEventsCount)
    (hfree : ¬ s.Occupied s.mTxBufferIdx) (q : Provider) {slot : SignedTransaction c}
    (hslot : slot.payloadBodyLength ≠ 0) :
    ((s.loaded q).setSlot s.mTxBufferIdx slot).scheduleReadyToSign.1 = .success ∧
      Follows p.arrive ((s.loaded q).setSlot s.mTxBufferIdx slot).scheduleReadyToSign.2 := by
  have hwindow : p.next < p.first + 4 := by
    refine Nat.lt_of_not_le fun hle => hfree ((h.occupied _).mpr ⟨p.next - 4, ?_, ?_, ?_⟩)
    · omega
    · omega
    · rw [h.index]
      simp only [pendingTxCount]
      omega
  have hidx := h.index
  rcases Sdk.scheduleReadyToSign_cases ((s.loaded q).setSlot s.mTxBufferIdx slot) with
    ⟨-, herr, hev, hindex, hhist⟩ | ⟨hfull, -⟩
  · refine ⟨herr, ?_⟩
    constructor
    · rw [hev, Pipeline.arrive, List.map_append, ← h.events]
      have hready : (⟨.txReadyToSign, s.mTxBufferIdx⟩ : VtcEvt) = jobEvent ⟨p.next, 0⟩ :=
        congrArg (VtcEvt.mk .txReadyToSign) hidx
      exact congrArg (s.events ++ [·]) hready
    · intro b
      rw [Sdk.Occupied, Sdk.slot_scheduleReadyToSign, Sdk.slot_setSlot]
      split
      · next hb =>
          refine iff_of_true hslot ⟨p.next, p.first_le, Nat.lt_succ_self _, ?_⟩
          rw [hb, hidx]
      · next hb =>
          rw [s.slot_loaded_of_ne q hb]
          refine (h.occupied b).trans ?_
          constructor
          · rintro ⟨t, h₁, h₂, h₃⟩
            exact ⟨t, h₁, Nat.lt_succ_of_lt h₂, h₃⟩
          · rintro ⟨t, h₁, h₂, h₃⟩
            refine ⟨t, h₁, Nat.lt_of_le_of_ne (Nat.le_of_lt_succ h₂) ?_, h₃⟩
            rintro rfl
            exact hb (Fin.ext (h₃.symm.trans hidx.symm))
    · rw [hindex]
      show (s.mTxBufferIdx + 1).val = (p.next + 1) % pendingTxCount
      rw [Fin.val_add, hidx]
      simp only [pendingTxCount]
      omega
    · show p.next + 1 ≤ p.first + 4
      omega
    · rw [hhist]
      show slotsTaken (s.history ++ [.slotTaken s.mTxBufferIdx] ++ [.queued _]) = _
      rw [List.append_assoc, slotsTaken_append, h.taken, Pipeline.arrive, List.range_succ,
        List.map_append]
      show _ ++ [s.mTxBufferIdx.val] = _ ++ [p.next % pendingTxCount]
      rw [hidx]
    · rw [hhist]
      show slotsFreed (s.history ++ [.slotTaken s.mTxBufferIdx] ++ [.queued _]) = _
      rw [List.append_assoc, slotsFreed_append, h.freed]
      exact List.append_nil _
  · exact absurd (h.hasRoom hcount) hfull

/-- The head is handled, and the event of its next stage queued. -/
theorem advance (h : Follows p s) {j : Job} {rest : List Job} (hq : p.queue = j :: rest)
    (hj : j.stage < 2) (hquiet : Quiet s t [jobEvent j.forward]) :
    Follows (p.advance hq hj) t.pop := by
  have hev : t.mEventsQueue.events = jobEvent j :: (rest.map jobEvent ++ [jobEvent j.forward]) := by
    have := hquiet.events
    rw [h.events, hq] at this
    exact this
  constructor
  · show t.mEventsQueue.pop.events = _
    rw [(VtcEventsBuf.head_eq hev).2, Pipeline.advance, List.map_append]
    rfl
  · exact fun b => (hquiet.occupied b).trans (h.occupied b)
  · show t.mTxBufferIdx.val = _
    rw [hquiet.index]
    exact h.index
  · exact h.window
  · show slotsTaken (t.history ++ [.dequeued _]) = _
    rw [slotsTaken_append, hquiet.taken, h.taken]
    exact List.append_nil _
  · show slotsFreed (t.history ++ [.dequeued _]) = _
    rw [slotsFreed_append, hquiet.freed, h.freed]
    exact List.append_nil _

/-- The last event of the oldest transaction is handled, and its slot freed. -/
theorem leave (h : Follows p s) {j : Job} {rest : List Job} (hq : p.queue = j :: rest)
    (hj : j.stage = 2) (hquiet : Quiet s t []) {b : Fin pendingTxCount}
    (hb : b.val = j.ticket % pendingTxCount) :
    Follows (p.leave hq hj) ((t.setSlot b (.zero c)).record (.slotFreed b)).pop := by
  have hev : t.mEventsQueue.events = jobEvent j :: rest.map jobEvent := by
    have := hquiet.events
    rw [h.events, hq, List.append_nil] at this
    exact this
  have hfirst := p.ticket_of_last hq hj
  have hnext := p.ticket_bounds (j := j) (by rw [hq]; exact List.mem_cons_self)
  have hwindow := h.window
  rw [hfirst] at hb hnext
  simp only [pendingTxCount] at hb hwindow
  constructor
  · show t.mEventsQueue.pop.events = _
    rw [(VtcEventsBuf.head_eq hev).2]
    rfl
  · intro b'
    show Sdk.Occupied (t.setSlot b (.zero c)) b' ↔ ∃ u, p.first + 1 ≤ u ∧ u < p.next ∧ _
    rw [Sdk.Occupied, Sdk.slot_setSlot]
    split
    · next he =>
        refine iff_of_false (fun hz => hz rfl) ?_
        rintro ⟨u, h₁, h₂, h₃⟩
        rw [he, hb] at h₃
        simp only [pendingTxCount] at h₃
        omega
    · next he =>
        refine ((hquiet.occupied b').trans (h.occupied b')).trans ?_
        constructor
        · rintro ⟨u, h₁, h₂, h₃⟩
          refine ⟨u, Nat.lt_of_le_of_ne h₁ ?_, h₂, h₃⟩
          rintro rfl
          exact he (Fin.ext (h₃.symm.trans hb.symm))
        · rintro ⟨u, h₁, h₂, h₃⟩
          exact ⟨u, Nat.le_of_succ_le h₁, h₂, h₃⟩
  · show t.mTxBufferIdx.val = _
    rw [hquiet.index]
    exact h.index
  · show p.next ≤ p.first + 1 + 4
    omega
  · show slotsTaken (t.history ++ [.slotFreed b] ++ [.dequeued _]) = _
    rw [List.append_assoc, slotsTaken_append, hquiet.taken, h.taken]
    exact List.append_nil _
  · show slotsFreed (t.history ++ [.slotFreed b] ++ [.dequeued _]) = _
    rw [List.append_assoc, slotsFreed_append, hquiet.freed, h.freed, Pipeline.leave, List.range_succ,
      List.map_append]
    show _ ++ [b.val] = _ ++ [p.first % pendingTxCount]
    rw [hb]

/-! ### The calls -/

theorem creation (h : Follows p s) (hW : env.writer.Lawful) (hcount : 8 ≤ c.vtcEventsCount)
    {tx₀ : Transaction} {reply : HttpReply} (hparams : LoadsParams env s reply)
    (hreq : (∃ pay, tx₀.details.tx = .pay pay) ∨ ∃ appl, tx₀.details.tx = .appl appl)
    (hc : Creation env tx₀ reply s err t) :
    (err = .errorNoMem ↔ s.Occupied s.mTxBufferIdx) ∧ ∃ p', Follows p' t := by
  cases hc with
  | noMem occupied => exact ⟨iff_of_true rfl occupied, p, h⟩
  | invalidParam free _ => exact ⟨iff_of_false nofun free, p, h⟩
  | noParams _ _ load unusable =>
      rcases hparams _ _ _ _ load with rfl | rfl <;> exact nomatch unusable
  | @notEncoded _ _ tx _ _ free accepted load usable encode failed =>
      obtain ⟨-, hnote, htx⟩ := providerTxParamsLoad_sameRequest load
      exact absurd (encodeTx_request hW (by rw [htx]; exact hreq) (by rw [hnote]; exact accepted)
        encode).1 failed
  | @scheduled _ _ tx q slot free accepted load usable encode =>
      obtain ⟨-, hnote, htx⟩ := providerTxParamsLoad_sameRequest load
      obtain ⟨-, ops, hops, henc⟩ := encodeTx_request hW (by rw [htx]; exact hreq)
        (by rw [hnote]; exact accepted) encode
      have hslot : slot.payloadBodyLength ≠ 0 := by
        have := le_opLength_bodyOps hops
        rw [henc.body]; omega
      obtain ⟨herr, hp⟩ := h.arrive hcount free q hslot
      rw [herr]
      exact ⟨iff_of_false nofun free, p.arrive, hp⟩

/-- What has been queued and what has changed when the head has been handled up to the last
stage. -/
theorem handled (h : Follows p s) (hcount : 8 ≤ c.vtcEventsCount) {j : Job} {rest : List Job}
    (hq : p.queue = j :: rest) {handling : Handling} (hord : handling.Orderly (jobEvent j))
    {reply : HttpReply} {s₁ s₂ : Sdk c} {err' : RetCode}
    (pre : preProcess env reply s = .ok (.success, s₁))
    (user : userProcess env (some handling) s₁ = .ok (err', s₂)) :
    err' = .success ∧ Quiet s s₂ (if j.stage < 2 then [jobEvent j.forward] else []) := by
  have hstage := p.stages j (by rw [hq]; exact List.mem_cons_self)
  have hhead : s.mEventsQueue.head = jobEvent j :=
    (VtcEventsBuf.head_eq (h.events.trans (by rw [hq]; rfl))).1
  have hlength := h.length_events
  obtain ⟨htype, b, hb, hs⟩ | ⟨htype, -, rfl⟩ := preProcess_cases pre
  · -- an event to send
    rw [hhead] at htype hb
    have hj : j.stage = 1 := by
      unfold jobEvent at htype
      split at htype
      · exact nomatch htype
      · split at htype
        · assumption
        · exact nomatch htype
    obtain ⟨hne, -⟩ | ⟨-, hquiet⟩ := Quiet.sending (h.hasRoom hcount) hs
    · exact absurd rfl hne
    · have hroom : s₁.HasRoom := by
        rw [Sdk.HasRoom, hquiet.events, List.length_append, List.length_singleton]
        simp only [pendingTxCount] at hlength
        omega
      obtain ⟨herr, hquiet'⟩ := Quiet.user hord hroom user
      refine ⟨herr, ?_⟩
      have hnext : jobEvent j.forward = ⟨.txSuccess, b⟩ := by
        rw [hb]; simp [jobEvent, Job.forward, hj]
      have hnone : followUp (jobEvent j) = [] := by simp [followUp, jobEvent, hj]
      rw [hnone] at hquiet'
      rw [if_pos (by omega), hnext]
      exact hquiet.trans hquiet'
  · obtain ⟨herr, hquiet⟩ := Quiet.user hord (h.hasRoom hcount) user
    refine ⟨herr, ?_⟩
    rw [hhead] at htype
    by_cases hj : j.stage = 0
    · have hnext : followUp (jobEvent j) = [jobEvent j.forward] := by
        simp [followUp, jobEvent, Job.forward, hj]
      rw [if_pos (by omega), ← hnext]
      exact hquiet
    · have hj' : j.stage = 2 := by
        have : j.stage ≠ 1 := fun h₁ => htype (by simp [jobEvent, h₁])
        omega
      have hnone : followUp (jobEvent j) = [] := by simp [followUp, jobEvent, hj']
      rw [hnone] at hquiet
      rw [if_neg (by omega)]
      exact hquiet

theorem processing (h : Follows p s) (hcount : 8 ≤ c.vtcEventsCount) {handler : Option Handling}
    {reply : HttpReply} {result : ProcessResult} (hord : Orderly env s (.process handler reply))
    (hp : Processing env handler reply s result t) : ∃ p', Follows p' t := by
  obtain ⟨handling, rfl, hord⟩ := hord
  cases hq : p.queue with
  | nil =>
      have hnil : s.events = [] := by rw [h.events, hq]; rfl
      cases hp with
      | empty _ => exact ⟨p, h⟩
      | preFailed hne _ _ | userFailed hne _ _ _ | done hne _ _ _ => exact absurd hnil hne
  | cons j rest =>
      have hev : s.events = jobEvent j :: rest.map jobEvent := by rw [h.events, hq]; rfl
      have hord := hord (jobEvent j) (by rw [hev]; rfl)
      cases hp with
      | empty hnil => exact nomatch hev.symm.trans hnil
      | preFailed _ pre failed =>
          obtain ⟨-, b, -, hs⟩ | ⟨-, herr, -⟩ := preProcess_cases pre
          · obtain ⟨-, hquiet⟩ | ⟨herr, -⟩ := Quiet.sending (h.hasRoom hcount) hs
            · exact ⟨p, h.quiet hquiet⟩
            · exact absurd herr failed
          · exact absurd herr failed
      | userFailed _ pre user failed =>
          exact absurd (h.handled hcount hq hord pre user).1 failed
      | @done _ s₁ s₂ s₃ hne pre user post =>
          obtain ⟨-, hquiet⟩ := h.handled hcount hq hord pre user
          have hhead : s₂.mEventsQueue.head = jobEvent j := by
            have hs := (VtcEventsBuf.head_eq (q := s.mEventsQueue) hev).1
            have happ := (preProcess_appends pre).trans (userProcess_appends user)
            exact (happ.head hne).1.trans hs
          have hstage := p.stages j (by rw [hq]; exact List.mem_cons_self)
          by_cases hj : j.stage < 2
          · rw [if_pos hj] at hquiet
            obtain ⟨-, ⟨htype, -⟩ | ⟨-, -, rfl⟩⟩ := postProcess_cases post
            · rw [hhead] at htype
              have : j.stage = 0 ∨ j.stage = 1 := by omega
              rcases this with hz | ho
              · simp [jobEvent, hz] at htype
              · simp [jobEvent, ho] at htype
            · exact ⟨_, h.advance hq hj hquiet⟩
          · have hj' : j.stage = 2 := by omega
            rw [if_neg hj] at hquiet
            obtain ⟨-, ⟨-, b, hb, -, -, rfl⟩ | ⟨htype, -, -⟩⟩ := postProcess_cases post
            · rw [hhead] at hb
              exact ⟨_, h.leave hq hj' hquiet hb⟩
            · rw [hhead] at htype
              exact absurd (by simp [jobEvent, hj']) htype

theorem call (hW : env.writer.Lawful) (hcount : 8 ≤ c.vtcEventsCount) {call : Call}
    (h : ∃ p, Follows p s) (hstep : guard (Orderly env) (Step env) s call t) :
    ∃ p, Follows p t := by
  obtain ⟨p, h⟩ := h
  obtain ⟨hord, err, hstep⟩ := hstep
  cases call with
  | op o =>
      cases o with
      | pay sender receiver amount params reply =>
          exact (h.creation hW hcount hord (.inl ⟨_, rfl⟩) (transactionPay_creation hstep)).2
      | appl sender appId params reply =>
          obtain ⟨_, hc⟩ := transactionAppl_creation hstep
          exact (h.creation hW hcount hord (.inr ⟨_, rfl⟩) hc).2
      | schedule _ | sign _ _ => exact hord.elim
  | process handler reply =>
      obtain ⟨⟨result, t'⟩, hp, hstep⟩ := bind_eq_ok.mp hstep
      obtain ⟨-, rfl⟩ := pure_eq_ok2.mp hstep
      exact h.processing hcount hord (verticesEventProcess_processing hp)

end Follows

/-! ## What the slots and the events have to do with each other -/

structure Corresponds (env : Env) (s : Sdk c) : Prop where
  /-- Each occupied slot has exactly one queued event, and each event names one. -/
  nodup : (s.events.map VtcEvt.bufid).Nodup
  bijection : ∀ n, n ∈ s.events.map VtcEvt.bufid ↔
    ∃ b : Fin pendingTxCount, b.val = n ∧ s.Occupied b
  /-- The occupied slots are the last ones before `m_tx_buffer_idx`. -/
  window : ∃ n ≤ pendingTxCount, ∀ b, s.Occupied b ↔ (s.mTxBufferIdx - 1 - b).val < n
  /-- Slots are freed in the order in which they have been taken. -/
  order : slotsFreed s.history <+: slotsTaken s.history
  /-- A new transaction finds no slot exactly when all are occupied. -/
  noMem_pay : ∀ sender receiver amount params reply err t, LoadsParams env s reply →
    transactionPay env sender receiver amount params reply s = .ok (err, t) →
    (err = .errorNoMem ↔ ∀ b, s.Occupied b)
  noMem_appl : ∀ sender appId params reply err t, LoadsParams env s reply →
    transactionAppl env sender appId params reply s = .ok (err, t) →
    (err = .errorNoMem ↔ ∀ b, s.Occupied b)
  /-- After a post there is room for the event of its success. -/
  scheduled : ∀ b slot p request reply,
    ((s.posted b slot p request reply).schedule ⟨.txSuccess, b⟩).1 = .success
  /-- The slot of a success is found when its event has been handled. -/
  found : ∀ handler reply s₁ s₂ rest bufid, Orderly env s (.process handler reply) →
    s.events = ⟨.txSuccess, bufid⟩ :: rest → preProcess env reply s = .ok (.success, s₁) →
    userProcess env handler s₁ = .ok (.success, s₂) →
    ∃ b, transactionGet bufid s₂ = .ok (.success, some b)

namespace Follows

variable {p : Pipeline 2} {s : Sdk c}

theorem bufids (h : Follows p s) :
    s.events.map VtcEvt.bufid = (p.queue.map Job.ticket).map (· % pendingTxCount) := by
  rw [h.events, List.map_map, List.map_map]
  rfl

theorem nodup_bufids (h : Follows p s) : (s.events.map VtcEvt.bufid).Nodup := by
  have hwindow := h.window
  rw [h.bufids]
  refine List.Nodup.map_on (fun t ht u hu he => ?_) p.nodup_tickets
  have ht := p.mem_tickets.mp ht
  have hu := p.mem_tickets.mp hu
  simp only [pendingTxCount] at he hwindow
  omega

theorem mem_bufids (h : Follows p s) (n : Nat) :
    n ∈ s.events.map VtcEvt.bufid ↔ ∃ b : Fin pendingTxCount, b.val = n ∧ s.Occupied b := by
  rw [h.bufids, List.mem_map]
  constructor
  · rintro ⟨t, ht, rfl⟩
    obtain ⟨h₁, h₂⟩ := p.mem_tickets.mp ht
    exact ⟨⟨t % pendingTxCount, Nat.mod_lt _ (by decide)⟩, rfl, (h.occupied _).mpr ⟨t, h₁, h₂, rfl⟩⟩
  · rintro ⟨b, rfl, hb⟩
    obtain ⟨t, h₁, h₂, h₃⟩ := (h.occupied b).mp hb
    exact ⟨t, p.mem_tickets.mpr ⟨h₁, h₂⟩, h₃⟩

/-- The distance of a slot to the last one taken. -/
theorem occupied_iff_lt (h : Follows p s) (b : Fin pendingTxCount) :
    s.Occupied b ↔ (s.mTxBufferIdx - 1 - b).val < p.next - p.first := by
  have hwindow := h.window
  have hidx := h.index
  have hb : b.val < 4 := b.isLt
  have hd : (s.mTxBufferIdx - 1 - b).val = (4 - b.val + (3 + p.next % 4) % 4) % 4 := by
    rw [Fin.sub_def, Fin.sub_def, hidx]
    rfl
  rw [h.occupied b, hd]
  simp only [pendingTxCount] at hwindow ⊢
  constructor
  · rintro ⟨t, h₁, h₂, h₃⟩
    omega
  · intro hlt
    exact ⟨p.next - 1 - (4 - b.val + (3 + p.next % 4) % 4) % 4, by omega, by omega, by omega⟩

theorem freed_prefix (h : Follows p s) : slotsFreed s.history <+: slotsTaken s.history := by
  rw [h.freed, h.taken]
  refine List.IsPrefix.map _ ?_
  rw [← Nat.min_eq_left p.first_le, ← List.take_range]
  exact List.take_prefix _ _

/-- The slot of a success is still occupied after the handler. -/
theorem success_found (h : Follows p s) (hcount : 8 ≤ c.vtcEventsCount)
    {handler : Option Handling} {reply : HttpReply} {s₁ s₂ : Sdk c} {rest : List VtcEvt}
    {bufid : Nat} (hord : Orderly env s (.process handler reply))
    (hev : s.events = ⟨.txSuccess, bufid⟩ :: rest)
    (pre : preProcess env reply s = .ok (.success, s₁))
    (user : userProcess env handler s₁ = .ok (.success, s₂)) :
    ∃ b, transactionGet bufid s₂ = .ok (.success, some b) := by
  obtain ⟨handling, rfl, hord⟩ := hord
  cases hq : p.queue with
  | nil =>
      have hnil : s.events = [] := by rw [h.events, hq]; rfl
      exact nomatch hev.symm.trans hnil
  | cons j jobs =>
      have hj : (⟨.txSuccess, bufid⟩ : VtcEvt) = jobEvent j := by
        have := hev.symm.trans (h.events.trans (by rw [hq]; rfl : _ = jobEvent j :: jobs.map jobEvent))
        exact (List.cons.inj this).1
      have hord := hord (jobEvent j) (by rw [hev, hj]; rfl)
      obtain ⟨-, hquiet⟩ := h.handled hcount hq hord pre user
      obtain ⟨h₁, h₂⟩ := p.ticket_bounds (j := j) (by rw [hq]; exact List.mem_cons_self)
      let b : Fin pendingTxCount := ⟨j.ticket % pendingTxCount, Nat.mod_lt _ (by decide)⟩
      have hb : bufid = b.val := congrArg VtcEvt.bufid hj
      have hocc : s₂.Occupied b :=
        (hquiet.occupied b).mpr ((h.occupied b).mpr ⟨j.ticket, h₁, h₂, rfl⟩)
      refine ⟨b, ?_⟩
      rw [hb, transactionGet, subscript_val]
      exact if_pos hocc

theorem corresponds (h : Follows p s) (hW : env.writer.Lawful) (hcount : 8 ≤ c.vtcEventsCount) :
    Corresponds env s where
  nodup := h.nodup_bufids
  bijection := h.mem_bufids
  window := ⟨p.next - p.first, by have := h.window; omega, h.occupied_iff_lt⟩
  order := h.freed_prefix
  noMem_pay sender receiver amount params reply err t hparams hpay := by
    rw [← h.occupied_index_iff]
    exact (h.creation hW hcount hparams (.inl ⟨_, rfl⟩) (transactionPay_creation hpay)).1
  noMem_appl sender appId params reply err t hparams happl := by
    obtain ⟨_, hc⟩ := transactionAppl_creation happl
    rw [← h.occupied_index_iff]
    exact (h.creation hW hcount hparams (.inr ⟨_, rfl⟩) hc).1
  scheduled b slot q request reply := by
    rcases (s.posted b slot q request reply).schedule_cases ⟨.txSuccess, b⟩ with
      ⟨-, _, -, hs⟩ | ⟨hfull, -⟩
    · rw [hs]
    · exact absurd (h.hasRoom hcount) hfull
  found _ _ _ _ _ _ hord hev pre user := h.success_found hcount hord hev pre user

end Follows

/-- In every orderly run the slots and the events correspond. -/
theorem pending_slots_correspond (hW : env.writer.Lawful) (hcount : 8 ≤ c.vtcEventsCount)
    {provider : Provider} {accounts : MAccounts} {calls : List Call} {s : Sdk c}
    (hrun : Run (guard (Orderly env) (Step env)) (Sdk.init c provider accounts) calls s) :
    Corresponds env s := by
  obtain ⟨p, h⟩ := hrun.invariant (P := fun s => ∃ p, Follows p s)
    (fun h hs => Follows.call hW hcount h hs) ⟨_, .init provider accounts⟩
  exact h.corresponds hW hcount

/-- After a payment whose parameters the node has answered. -/
theorem pending_slots_correspond_payment :
    ∃ s : Sdk .default, s.Occupied 0 ∧ Corresponds .example s := by
  have hrun : ((payment.run .example (Sdk.init .default .zero accountInit)).map
      fun r => (r.1, decide (r.2.Occupied 0))) = .ok (.success, true) := by decide +kernel
  cases hpay : payment.run .example (Sdk.init .default .zero accountInit) with
  | error e => rw [hpay] at hrun; exact nomatch hrun
  | ok r =>
      rw [hpay] at hrun
      have hocc : r.2.Occupied 0 := by
        simpa using (Prod.mk.inj (Except.ok.inj hrun)).2
      have hparams : LoadsParams .example (Sdk.init .default .zero accountInit)
          paramsReply := by
        intro tx₀ err tx p hload
        exact .inl (providerTxParamsLoad_params hload)
      have hrun : Run (guard (Orderly .example) (Step .example)) _ [.op payment] r.2 :=
        .cons ⟨hparams, r.1, hpay⟩ (.nil _)
      exact ⟨r.2, hocc, pending_slots_correspond appendWriter_lawful (by decide) hrun⟩

end Vertices
