/-
# `Vertices.EventQueue` — the event ring is a bounded FIFO

The handler may schedule events while one is being handled, and sending schedules one
of its own, so the tail of the queue moves between the moment the head is read and the
moment it is removed.  `Sdk.Appends` says that this is all that moves; what one call
of `vertices_event_process` does to the list follows (`Processing.queue`), and that
over a run the events queued are those removed followed by those still there.
-/
import Vertices.Process

namespace Vertices

open Transition

variable {c : Config}

/-- What `vertices_event_schedule` does to the list. -/
structure ScheduleSpec (s : Sdk c) (evt : VtcEvt) : Prop where
  success_iff : (s.schedule evt).1 = .success ↔ s.events.length < c.vtcEventsCount - 1
  appends : (s.schedule evt).1 = .success → (s.schedule evt).2.events = s.events ++ [evt]
  full : (s.schedule evt).1 ≠ .success → s.schedule evt = (.errorNoMem, s)

theorem Sdk.schedule_spec (s : Sdk c) (evt : VtcEvt) : ScheduleSpec s evt := by
  rcases s.schedule_cases evt with ⟨hroom, queue, hq, hs⟩ | ⟨hroom, hs⟩
  · constructor
    · rw [hs]; exact iff_of_true rfl hroom
    · intro _; rw [hs]; exact hq
    · intro hne; exact absurd (by rw [hs]) hne
  · constructor
    · rw [hs]; exact iff_of_false (fun h => nomatch h) hroom
    · intro h; rw [hs] at h; exact nomatch h
    · intro _; exact hs

/-- What `vertices_event_process` does to the list. -/
structure ProcessSpec (env : Env) (handler : Option Handling) (reply : HttpReply) (s : Sdk c)
    (result : ProcessResult) (t : Sdk c) : Prop where
  /-- Nothing happens on an empty queue. -/
  empty : s.events = [] → result.err = .success ∧ t = s
  /-- The outcome is that of the stages, taken in turn until one fails. -/
  stages : Processing env handler reply s result t
  /-- The event handled, at each of the three stages, is the head. -/
  handled : ∀ e rest, s.events = e :: rest → s.mEventsQueue.head = e ∧
    ∀ err₁ s₁, preProcess env reply s = .ok (err₁, s₁) → s₁.mEventsQueue.head = e ∧
      ∀ err₂ s₂, userProcess env handler s₁ = .ok (err₂, s₂) → s₂.mEventsQueue.head = e
  /-- It is removed on success, behind it only appended to. -/
  removed : ∀ e rest, s.events = e :: rest → result.err = .success →
    ∃ obs, t.history = s.history ++ obs ++ [.dequeued e] ∧ dequeuedEvents obs = [] ∧
      t.events = rest ++ queuedEvents obs
  /-- It is kept otherwise. -/
  kept : ∀ e rest, s.events = e :: rest → result.err ≠ .success →
    ∃ obs, t.history = s.history ++ obs ∧ dequeuedEvents obs = [] ∧
      t.events = e :: (rest ++ queuedEvents obs)
  /-- The size reported is the length of the list left. -/
  queueSize : result.err = .success → result.queueSize = some t.events.length

theorem preProcess_head {env : Env} {reply : HttpReply} {s t : Sdk c} {err : RetCode}
    (hne : s.events ≠ []) (h : preProcess env reply s = .ok (err, t)) :
    t.mEventsQueue.head = s.mEventsQueue.head ∧ t.events ≠ [] :=
  (preProcess_appends h).head hne

theorem userProcess_head {env : Env} {handler : Option Handling} {s t : Sdk c} {err : RetCode}
    (hne : s.events ≠ []) (h : userProcess env handler s = .ok (err, t)) :
    t.mEventsQueue.head = s.mEventsQueue.head ∧ t.events ≠ [] :=
  (userProcess_appends h).head hne

/-- Removing the head of a queue that has only grown. -/
theorem Sdk.Appends.pop {s t : Sdk c} (h : s.Appends t) {e : VtcEvt} {rest : List VtcEvt}
    (he : s.events = e :: rest) :
    ∃ obs, t.pop.history = s.history ++ obs ++ [.dequeued e] ∧ dequeuedEvents obs = [] ∧
      t.pop.events = rest ++ queuedEvents obs := by
  have hh := h.head (by rw [he]; exact List.cons_ne_nil _ _)
  obtain ⟨obs, hist, hev, hd⟩ := h
  have hs : s.mEventsQueue.head = e := (VtcEventsBuf.head_eq he).1
  have ht : t.mEventsQueue.events = e :: (rest ++ queuedEvents obs) := by
    rw [← List.cons_append, ← he]; exact hev
  refine ⟨obs, ?_, hd, (VtcEventsBuf.head_eq ht).2⟩
  show t.history ++ [.dequeued t.mEventsQueue.head] = _
  rw [hist, hh.1, hs]

theorem Processing.spec {env : Env} {handler : Option Handling} {reply : HttpReply}
    {s t : Sdk c} {result : ProcessResult} (h : Processing env handler reply s result t) :
    ProcessSpec env handler reply s result t where
  empty hnil := by
    cases h with
    | empty _ => exact ⟨rfl, rfl⟩
    | preFailed hne _ _ | userFailed hne _ _ _ | done hne _ _ _ => exact absurd hnil hne
  stages := h
  handled e rest he := by
    have hne : s.events ≠ [] := by rw [he]; exact List.cons_ne_nil _ _
    have hs : s.mEventsQueue.head = e := (VtcEventsBuf.head_eq he).1
    refine ⟨hs, fun err₁ s₁ hpre => ?_⟩
    obtain ⟨h₁, hne₁⟩ := preProcess_head hne hpre
    refine ⟨h₁.trans hs, fun err₂ s₂ huser => ?_⟩
    exact (userProcess_head hne₁ huser).1.trans (h₁.trans hs)
  removed e rest he hok := by
    cases h with
    | empty hnil => exact absurd (he ▸ hnil) (List.cons_ne_nil _ _)
    | preFailed _ _ hf => exact absurd hok hf
    | userFailed _ _ _ hf => exact absurd hok hf
    | done _ hpre huser hpost =>
        have happ := ((preProcess_appends hpre).trans (userProcess_appends huser)).trans
          (postProcess_appends hpost)
        exact happ.pop he
  kept e rest he hfail := by
    have hkept : s.Appends t := by
      cases h with
      | empty _ => exact absurd rfl hfail
      | preFailed _ hpre _ => exact preProcess_appends hpre
      | userFailed _ hpre huser _ => exact (preProcess_appends hpre).trans (userProcess_appends huser)
      | done _ _ _ _ => exact absurd rfl hfail
    obtain ⟨obs, hh, hev, hd⟩ := hkept
    exact ⟨obs, hh, hd, by rw [hev, he, List.cons_append]⟩
  queueSize hok := by
    cases h with
    | empty hnil => rw [hnil]; rfl
    | preFailed _ _ hf => exact absurd hok hf
    | userFailed _ _ _ hf => exact absurd hok hf
    | done _ _ _ _ => exact congrArg some (VtcEventsBuf.eventQueueSize_eq _)

/-- A stage faults. -/
inductive StageFaults (env : Env) (handler : Option Handling) (reply : HttpReply) (s : Sdk c)
    (fault : Fault) : Prop
  | pre (pre : preProcess env reply s = .error fault)
  | user {s₁ : Sdk c} (pre : preProcess env reply s = .ok (.success, s₁))
      (user : userProcess env handler s₁ = .error fault)
  | post {s₁ s₂ : Sdk c} (pre : preProcess env reply s = .ok (.success, s₁))
      (user : userProcess env handler s₁ = .ok (.success, s₂)) (post : postProcess s₂ = .error fault)

/-- Nothing but a stage faults. -/
theorem verticesEventProcess_error {env : Env} {handler : Option Handling} {reply : HttpReply}
    {s : Sdk c} {fault : Fault} (h : verticesEventProcess env handler reply s = .error fault) :
    s.events ≠ [] ∧ StageFaults env handler reply s fault := by
  unfold verticesEventProcess at h
  split at h
  · exact absurd h nofun
  · next hsize =>
      have hne : s.events ≠ [] := fun he => hsize (VtcEventsBuf.eventQueueSize_eq_zero_iff.mpr he)
      refine ⟨hne, ?_⟩
      rw [if_neg fun he => hne (VtcEventsBuf.events_eq_nil_iff.mpr he)] at h
      rcases bind_eq_error.mp h with hpre | ⟨⟨err₁, s₁⟩, hpre, h⟩
      · exact .pre hpre
      · dsimp only at h
        split at h
        · exact absurd h nofun
        · next hs₁ =>
            obtain rfl := not_not.mp hs₁
            rcases bind_eq_error.mp h with huser | ⟨⟨err₂, s₂⟩, huser, h⟩
            · exact .user hpre huser
            · dsimp only at h
              split at h
              · exact absurd h nofun
              · next hs₂ =>
                  obtain rfl := not_not.mp hs₂
                  rcases bind_eq_error.mp h with hpost | ⟨⟨err₃, txID, s₃⟩, hpost, h⟩
                  · exact .post hpre huser hpost
                  · dsimp only at h
                    split at h <;> exact absurd h nofun

/-! ## Runs -/

/-- The events queued so far are the events removed, then those in the queue. -/
def Sdk.Conserves (s : Sdk c) : Prop :=
  queuedEvents s.history = dequeuedEvents s.history ++ s.events

theorem Sdk.Appends.conserves {s t : Sdk c} (h : s.Appends t) (hs : s.Conserves) :
    t.Conserves := by
  obtain ⟨obs, hh, hev, hd⟩ := h
  rw [dequeuedEvents] at hd
  rw [Conserves, queuedEvents, dequeuedEvents] at hs ⊢
  rw [hh, hev, List.filterMap_append, List.filterMap_append, hd, hs, List.append_nil,
    List.append_assoc]
  rfl

theorem Processing.conserves {env : Env} {handler : Option Handling} {reply : HttpReply}
    {s t : Sdk c} {result : ProcessResult} (h : Processing env handler reply s result t)
    (hs : s.Conserves) : t.Conserves := by
  cases he : s.events with
  | nil => rw [(h.spec.empty he).2]; exact hs
  | cons e rest =>
      by_cases hok : result.err = .success
      · obtain ⟨obs, hh, hd, hev⟩ := h.spec.removed e rest he hok
        rw [dequeuedEvents] at hd
        rw [Sdk.Conserves, queuedEvents, dequeuedEvents] at hs ⊢
        rw [hh, hev]
        simp only [List.filterMap_append, hd, hs, he]
        simp [queuedEvents]
      · obtain ⟨obs, hh, hd, hev⟩ := h.spec.kept e rest he hok
        exact Sdk.Appends.conserves ⟨obs, hh, by rw [hev, he, List.cons_append], hd⟩ hs

theorem Step.conserves {env : Env} {s t : Sdk c} {call : Call} (hs : s.Conserves)
    (h : Step env s call t) : t.Conserves := by
  obtain ⟨err, h⟩ := h
  cases call with
  | op o => exact (Op.appends h).conserves hs
  | process handler reply =>
      obtain ⟨⟨result, t'⟩, hp, h⟩ := bind_eq_ok.mp h
      obtain ⟨-, rfl⟩ := pure_eq_ok2.mp h
      exact (verticesEventProcess_processing hp).conserves hs

/-- In every reachable state the ring is a FIFO of at most `VTC_EVENTS_COUNT - 1` events. -/
theorem event_ring_refines_fifo {env : Env} {provider : Provider} {accounts : MAccounts}
    {calls : List Call} {s : Sdk c}
    (hrun : Run (Step env) (Sdk.init c provider accounts) calls s) :
    s.mEventsQueue.eventQueueSize = s.events.length ∧
    s.events.length ≤ c.vtcEventsCount - 1 ∧
    queuedEvents s.history = dequeuedEvents s.history ++ s.events ∧
    (∀ evt, ScheduleSpec s evt) ∧
    ∀ handler reply,
      (∀ result t, verticesEventProcess env handler reply s = .ok (result, t) →
        ProcessSpec env handler reply s result t) ∧
      ∀ fault, verticesEventProcess env handler reply s = .error fault →
        s.events ≠ [] ∧ StageFaults env handler reply s fault := by
  have hinit : (Sdk.init c provider accounts).Conserves :=
    (VtcEventsBuf.events_zero c).symm
  refine ⟨VtcEventsBuf.eventQueueSize_eq _, VtcEventsBuf.length_events_le _,
    hrun.invariant (P := Sdk.Conserves) Step.conserves hinit, s.schedule_spec, ?_⟩
  intro handler reply
  exact ⟨fun result t h => (verticesEventProcess_processing h).spec,
    fun fault h => verticesEventProcess_error h⟩

/-- A payment is signed; its first post is refused, the second accepted. -/
def sentPayment : List Call :=
  [.op payment, .process (some (signAndSend 0)) offlineReply, .process none refusedReply,
    .process none txIdReply]

/-- The handler and the accepted post have each scheduled an event. -/
theorem event_ring_refines_fifo_sent : ∃ s t : Sdk .default, ∃ result,
    dequeuedEvents s.history = [⟨.txReadyToSign, 0⟩, ⟨.txSending, 0⟩] ∧
      s.events = [⟨.txSuccess, 0⟩] ∧ s.mEventsQueue.eventQueueSize = s.events.length ∧
      queuedEvents s.history = dequeuedEvents s.history ++ s.events ∧
      verticesEventProcess .example none offlineReply s = .ok (result, t) ∧
      ProcessSpec .example none offlineReply s result t := by
  have hseen : (runAll .example sentPayment (Sdk.init .default .zero accountInit) >>= fun s =>
      (verticesEventProcess .example none offlineReply s).map fun _ =>
        (dequeuedEvents s.history, s.events)) =
          .ok ([⟨.txReadyToSign, 0⟩, ⟨.txSending, 0⟩], [⟨.txSuccess, 0⟩]) := by decide +kernel
  obtain ⟨s, hrun, hseen⟩ := bind_eq_ok.mp hseen
  obtain ⟨⟨result, t⟩, hprocess, hseen⟩ := map_eq_ok hseen
  obtain ⟨hdequeued, hevents⟩ := Prod.mk.inj hseen
  obtain ⟨hsize, -, hconserved, -, hspec⟩ := event_ring_refines_fifo (run_of_runAll hrun)
  exact ⟨s, t, result, hdequeued, hevents, hsize, hconserved, hprocess,
    (hspec none offlineReply).1 result t hprocess⟩

end Vertices
