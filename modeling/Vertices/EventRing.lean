/-
# `Vertices.EventRing` — the event queue of `src/vertices.c`

The indices, as the source moves them: `vertices_event_schedule` looks ahead with a
remainder and advances with a mask, `event_queue_size` subtracts in `size_t` and
masks.  `VTC_EVENTS_COUNT` being a power of two, all three are the same arithmetic, and
the buffer is the library's `RingBuffer` (`VtcEventsBuf.ring`); its content is the
list `VtcEventsBuf.events`.

    schedule_of_lt, schedule_of_full     what scheduling does to that list
    eventQueueSize_eq                    the size is its length
    events_eq_head_cons, events_pop      the head, and what removing it leaves
-/
import Vertices.Types

namespace Vertices

open RingBuffer (next)

theorem Config.vtcEventsCount_pos (c : Config) : 0 < c.vtcEventsCount := Nat.two_pow_pos _

theorem Config.vtcEventsCount_le (c : Config) : c.vtcEventsCount ≤ 2 ^ 63 :=
  Nat.pow_le_pow_right (by decide) (Nat.le_of_lt_succ c.eventsLog_lt)

/-- Masking with `VTC_EVENTS_COUNT - 1`. -/
theorem Config.and_mask (c : Config) (n : Nat) :
    n &&& (c.vtcEventsCount - 1) = n % c.vtcEventsCount :=
  Nat.and_two_pow_sub_one_eq_mod n c.eventsLog

/-- `increment_event_index`. -/
def incrementEventIndex (c : Config) (i : Nat) : Nat := (i + 1) &&& (c.vtcEventsCount - 1)

theorem incrementEventIndex_lt (c : Config) (i : Nat) :
    incrementEventIndex c i < c.vtcEventsCount := by
  rw [incrementEventIndex, c.and_mask]
  exact Nat.mod_lt _ c.vtcEventsCount_pos

/-- `vtc_events_buf_t`. -/
structure VtcEventsBuf (c : Config) where
  wrIndex : Nat
  rdIndex : Nat
  evt : Vector VtcEvt c.vtcEventsCount
  wrIndex_lt : wrIndex < c.vtcEventsCount
  rdIndex_lt : rdIndex < c.vtcEventsCount

namespace VtcEventsBuf

variable {c : Config}

/-- `m_events_queue = {0}`. -/
def zero (c : Config) : VtcEventsBuf c where
  wrIndex := 0
  rdIndex := 0
  evt := Vector.replicate _ ⟨.txReadyToSign, 0⟩
  wrIndex_lt := c.vtcEventsCount_pos
  rdIndex_lt := c.vtcEventsCount_pos

/-- `event_queue_size`, subtracting in `size_t`. -/
def eventQueueSize (q : VtcEventsBuf c) : Nat :=
  (q.wrIndex + 2 ^ 64 - q.rdIndex) % 2 ^ 64 &&& (c.vtcEventsCount - 1)

/-- `m_events_queue.evt[m_events_queue.rd_index]`. -/
def head (q : VtcEventsBuf c) : VtcEvt := q.evt[(⟨q.rdIndex, q.rdIndex_lt⟩ : Fin c.vtcEventsCount)]

/-- `vertices_event_schedule`. -/
def schedule (q : VtcEventsBuf c) (evt : VtcEvt) : RetCode × VtcEventsBuf c :=
  let next := (q.wrIndex + 1) % c.vtcEventsCount
  if next = q.rdIndex then (.errorNoMem, q)
  else (.success, { q with
    evt := q.evt.set q.wrIndex evt q.wrIndex_lt
    wrIndex := incrementEventIndex c q.wrIndex
    wrIndex_lt := incrementEventIndex_lt c _ })

/-- `increment_event_index(m_events_queue.rd_index)`. -/
def pop (q : VtcEventsBuf c) : VtcEventsBuf c :=
  { q with
    rdIndex := incrementEventIndex c q.rdIndex
    rdIndex_lt := incrementEventIndex_lt c _ }

/-! ## The list it holds -/

/-- The buffer, its indices taken modulo `VTC_EVENTS_COUNT`. -/
def ring (q : VtcEventsBuf c) : RingBuffer VtcEvt c.vtcEventsCount where
  rd := ⟨q.rdIndex, q.rdIndex_lt⟩
  wr := ⟨q.wrIndex, q.wrIndex_lt⟩
  cells := q.evt

/-- The queued events, oldest first. -/
def events (q : VtcEventsBuf c) : List VtcEvt := q.ring.toList

theorem ring_next (i : Nat) (hi : i < c.vtcEventsCount) :
    (⟨incrementEventIndex c i, incrementEventIndex_lt c i⟩ : Fin c.vtcEventsCount) =
      next ⟨i, hi⟩ := by
  exact Fin.ext (c.and_mask (i + 1))

theorem full_iff (q : VtcEventsBuf c) :
    (q.wrIndex + 1) % c.vtcEventsCount = q.rdIndex ↔
      q.events.length = c.vtcEventsCount - 1 := by
  rw [events, RingBuffer.length_toList, ← RingBuffer.full_iff, Fin.ext_iff]
  rfl

theorem length_events_le (q : VtcEventsBuf c) : q.events.length ≤ c.vtcEventsCount - 1 := by
  have h := q.ring.size_lt
  rw [events, RingBuffer.length_toList]
  omega

theorem ring_schedule {q : VtcEventsBuf c} (evt : VtcEvt)
    (h : (q.wrIndex + 1) % c.vtcEventsCount ≠ q.rdIndex) :
    (q.schedule evt).2.ring = q.ring.push evt := by
  simp only [schedule, if_neg h, ring, RingBuffer.push, ring_next _ q.wrIndex_lt]

/-- While fewer than `VTC_EVENTS_COUNT - 1` events are queued, scheduling appends. -/
theorem schedule_of_lt {q : VtcEventsBuf c} (evt : VtcEvt)
    (h : q.events.length < c.vtcEventsCount - 1) :
    (q.schedule evt).1 = .success ∧ (q.schedule evt).2.events = q.events ++ [evt] := by
  have hne : (q.wrIndex + 1) % c.vtcEventsCount ≠ q.rdIndex := fun he =>
    absurd (q.full_iff.mp he) (Nat.ne_of_lt h)
  refine ⟨by simp only [schedule, if_neg hne], ?_⟩
  rw [events, ring_schedule evt hne]
  refine RingBuffer.push_toList evt fun he => hne ?_
  exact congrArg Fin.val he

/-- A full queue stays as it is. -/
theorem schedule_of_full {q : VtcEventsBuf c} (evt : VtcEvt)
    (h : q.events.length = c.vtcEventsCount - 1) : q.schedule evt = (.errorNoMem, q) :=
  if_pos (q.full_iff.mpr h)

/-- What scheduling can do. -/
theorem schedule_cases (q : VtcEventsBuf c) (evt : VtcEvt) :
    (q.events.length < c.vtcEventsCount - 1 ∧ (q.schedule evt).1 = .success ∧
      (q.schedule evt).2.events = q.events ++ [evt]) ∨
    (q.events.length = c.vtcEventsCount - 1 ∧ q.schedule evt = (.errorNoMem, q)) := by
  rcases Nat.lt_or_ge q.events.length (c.vtcEventsCount - 1) with h | h
  · exact .inl ⟨h, schedule_of_lt evt h⟩
  · have he := Nat.le_antisymm q.length_events_le h
    exact .inr ⟨he, schedule_of_full evt he⟩

/-- The size is the length of the list. -/
theorem eventQueueSize_eq (q : VtcEventsBuf c) : q.eventQueueSize = q.events.length := by
  have hw := q.wrIndex_lt
  have hr := q.rdIndex_lt
  have hn := c.vtcEventsCount_le
  have hdvd : c.vtcEventsCount ∣ 2 ^ 64 := Nat.pow_dvd_pow 2 (Nat.le_of_lt c.eventsLog_lt)
  rw [events, RingBuffer.length_toList, RingBuffer.size, eventQueueSize, c.and_mask,
    Nat.mod_mod_of_dvd _ hdvd]
  -- adding `2 ^ 64` and adding `VTC_EVENTS_COUNT` are the same modulo the latter
  obtain ⟨k, hk⟩ := hdvd
  show _ = (q.wrIndex + c.vtcEventsCount - q.rdIndex) % c.vtcEventsCount
  obtain ⟨j, rfl⟩ : ∃ j, k = j + 1 := ⟨k - 1, by
    have : k ≠ 0 := by rintro rfl; simp at hk
    omega⟩
  rw [hk, Nat.mul_succ, show q.wrIndex + (c.vtcEventsCount * j + c.vtcEventsCount) - q.rdIndex =
    q.wrIndex + c.vtcEventsCount - q.rdIndex + c.vtcEventsCount * j by omega,
    Nat.add_mul_mod_self_left]

theorem events_eq_nil_iff {q : VtcEventsBuf c} : q.events = [] ↔ q.rdIndex = q.wrIndex := by
  rw [events, RingBuffer.toList_eq_nil_iff, Fin.ext_iff]
  rfl

theorem eventQueueSize_eq_zero_iff {q : VtcEventsBuf c} : q.eventQueueSize = 0 ↔ q.events = [] := by
  rw [eventQueueSize_eq, List.length_eq_zero_iff]

theorem ring_pop (q : VtcEventsBuf c) : q.pop.ring = q.ring.pop := by
  simp only [pop, ring, RingBuffer.pop, ring_next _ q.rdIndex_lt]

/-- The cell under the read index is the oldest event, and advancing drops it. -/
theorem events_eq_head_cons {q : VtcEventsBuf c} (h : q.events ≠ []) :
    q.events = q.head :: q.pop.events := by
  have hne : q.ring.rd ≠ q.ring.wr := fun he => h (RingBuffer.toList_eq_nil_iff.mpr he)
  rw [events, RingBuffer.pop_toList hne, events, ring_pop]
  rfl

theorem head_eq {q : VtcEventsBuf c} {e : VtcEvt} {es : List VtcEvt} (h : q.events = e :: es) :
    q.head = e ∧ q.pop.events = es := by
  have h' := events_eq_head_cons (q := q) (by rw [h]; exact List.cons_ne_nil _ _)
  rw [h] at h'
  exact ⟨(List.cons.inj h').1.symm, (List.cons.inj h').2.symm⟩

@[simp] theorem events_zero (c : Config) : (zero c).events = [] := events_eq_nil_iff.mpr rfl

end VtcEventsBuf

end Vertices
