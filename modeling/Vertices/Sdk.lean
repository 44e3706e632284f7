/-
# `Vertices.Sdk` — the static state of the library, and what it is linked against

`Sdk` gathers the static variables the transaction and event functions use.
`history` is no variable of the program: it records what the calls have done, oldest
first, and no function reads it.
-/
import Vertices.EventRing
import Vertices.Account
import Vertices.Encode

namespace Vertices

/-- The libraries the SDK is linked against. -/
structure Env where
  writer : MpackWriter
  reader : MpackReader
  cJSON_Parse : CJsonParse

/-- An environment to run examples in. -/
def Env.example : Env where
  writer := appendWriter
  reader := formatReader
  cJSON_Parse := parseAnswers

/-- What the calls do to the pending slots, the event queue and the node. -/
inductive Obs where
  /-- `payload_body_length` of a free slot is set. -/
  | slotTaken (bufid : Fin pendingTxCount)
  /-- A slot is cleared. -/
  | slotFreed (bufid : Fin pendingTxCount)
  /-- `http_post` has returned, called for the payload of the slot. -/
  | httpPost (bufid : Fin pendingTxCount) (request : HttpPost) (err : RetCode)
      (responseCode : UInt32)
  /-- A signature is stored in a slot. -/
  | signed (bufid : Fin pendingTxCount) (signature : Vector UInt8 signatureLength)
  /-- An event is written to the queue. -/
  | queued (evt : VtcEvt)
  /-- An event is removed from the queue. -/
  | dequeued (evt : VtcEvt)
  deriving DecidableEq

/-- The static variables. -/
structure Sdk (c : Config) where
  mPendingTxBuffer : Vector (SignedTransaction c) pendingTxCount
  mTxBufferIdx : Fin pendingTxCount
  mEventsQueue : VtcEventsBuf c
  mProvider : Provider
  mAccounts : MAccounts
  history : List Obs

namespace Sdk

variable {c : Config}

/-- Before the first transaction, with the provider and the accounts as they are then. -/
def init (c : Config) (provider : Provider) (accounts : MAccounts) : Sdk c where
  mPendingTxBuffer := Vector.replicate _ (.zero c)
  mTxBufferIdx := 0
  mEventsQueue := .zero c
  mProvider := provider
  mAccounts := accounts
  history := []

/-- `m_pending_tx_buffer[b]`. -/
def slot (s : Sdk c) (b : Fin pendingTxCount) : SignedTransaction c := s.mPendingTxBuffer[b]

/-- Write `m_pending_tx_buffer[b]`. -/
def setSlot (s : Sdk c) (b : Fin pendingTxCount) (tx : SignedTransaction c) : Sdk c :=
  { s with mPendingTxBuffer := s.mPendingTxBuffer.set b tx }

/-- "if not 0, indicates that TX is pending". -/
def Occupied (s : Sdk c) (b : Fin pendingTxCount) : Prop := (s.slot b).payloadBodyLength ≠ 0

instance (s : Sdk c) (b : Fin pendingTxCount) : Decidable (s.Occupied b) :=
  inferInstanceAs (Decidable (_ ≠ _))

/-- The queued events, oldest first. -/
def events (s : Sdk c) : List VtcEvt := s.mEventsQueue.events

def record (s : Sdk c) (obs : Obs) : Sdk c := { s with history := s.history ++ [obs] }

/-- `vertices_event_schedule`. -/
def schedule (s : Sdk c) (evt : VtcEvt) : RetCode × Sdk c :=
  let (err, queue) := s.mEventsQueue.schedule evt
  if err = .success then (err, { s with mEventsQueue := queue }.record (.queued evt))
  else (err, { s with mEventsQueue := queue })

@[simp] theorem slot_setSlot_self (s : Sdk c) (b : Fin pendingTxCount) (tx : SignedTransaction c) :
    (s.setSlot b tx).slot b = tx := by
  simp [slot, setSlot]

theorem slot_setSlot_ne (s : Sdk c) {b b' : Fin pendingTxCount} (tx : SignedTransaction c)
    (h : b' ≠ b) : (s.setSlot b tx).slot b' = s.slot b' := by
  have : b.val ≠ b'.val := fun he => h (Fin.ext he.symm)
  simp [slot, setSlot, this]

theorem slot_setSlot (s : Sdk c) (b b' : Fin pendingTxCount) (tx : SignedTransaction c) :
    (s.setSlot b tx).slot b' = if b' = b then tx else s.slot b' := by
  split
  · next h => rw [h, slot_setSlot_self]
  · next h => exact slot_setSlot_ne s tx h

theorem occupied_congr {s t : Sdk c} {b : Fin pendingTxCount} (h : t.slot b = s.slot b) :
    t.Occupied b ↔ s.Occupied b := by
  rw [Occupied, Occupied, h]

/-- Writing a slot without touching `payload_body_length`. -/
theorem occupied_setSlot {s : Sdk c} {b : Fin pendingTxCount} {tx : SignedTransaction c}
    (h : tx.payloadBodyLength = (s.slot b).payloadBodyLength) (b' : Fin pendingTxCount) :
    (s.setSlot b tx).Occupied b' ↔ s.Occupied b' := by
  rw [Occupied, Occupied, slot_setSlot]
  split
  · next he => rw [he, h]
  · exact Iff.rfl

@[simp] theorem events_setSlot (s : Sdk c) (b : Fin pendingTxCount) (tx : SignedTransaction c) :
    (s.setSlot b tx).events = s.events := rfl

@[simp] theorem history_setSlot (s : Sdk c) (b : Fin pendingTxCount) (tx : SignedTransaction c) :
    (s.setSlot b tx).history = s.history := rfl

@[simp] theorem slot_record (s : Sdk c) (obs : Obs) (b : Fin pendingTxCount) :
    (s.record obs).slot b = s.slot b := rfl

@[simp] theorem events_record (s : Sdk c) (obs : Obs) : (s.record obs).events = s.events := rfl

@[simp] theorem history_record (s : Sdk c) (obs : Obs) :
    (s.record obs).history = s.history ++ [obs] := rfl

/-- There is room for one more event. -/
def HasRoom (s : Sdk c) : Prop := s.events.length < c.vtcEventsCount - 1

instance (s : Sdk c) : Decidable s.HasRoom := inferInstanceAs (Decidable (_ < _))

/-- Scheduling appends the event and says so, or changes nothing. -/
theorem schedule_cases (s : Sdk c) (evt : VtcEvt) :
    (s.HasRoom ∧ ∃ queue, queue.events = s.events ++ [evt] ∧
      s.schedule evt = (.success, { s with mEventsQueue := queue }.record (.queued evt))) ∨
    (¬ s.HasRoom ∧ s.schedule evt = (.errorNoMem, s)) := by
  rcases s.mEventsQueue.schedule_cases evt with ⟨hlt, herr, hev⟩ | ⟨heq, hfull⟩
  · refine .inl ⟨hlt, (s.mEventsQueue.schedule evt).2, hev, ?_⟩
    simp only [schedule, herr, if_true]
  · refine .inr ⟨fun h => absurd heq (Nat.ne_of_lt h), ?_⟩
    simp only [schedule, hfull]
    rw [if_neg (by decide)]

@[simp] theorem slot_schedule (s : Sdk c) (evt : VtcEvt) (b : Fin pendingTxCount) :
    (s.schedule evt).2.slot b = s.slot b := by
  rcases s.schedule_cases evt with ⟨-, queue, -, hs⟩ | ⟨-, hs⟩
  · rw [hs]; rfl
  · rw [hs]

theorem history_schedule (s : Sdk c) (evt : VtcEvt) :
    (s.schedule evt).2.history = s.history ++ (if s.HasRoom then [.queued evt] else []) := by
  rcases s.schedule_cases evt with ⟨hroom, queue, -, hs⟩ | ⟨hroom, hs⟩
  · rw [hs, if_pos hroom]; rfl
  · rw [hs, if_neg hroom, List.append_nil]

end Sdk

end Vertices
