/-
# `Vertices.Submission` — at most one accepted post for each transaction

The post is made before the user handles the event, and the event is removed after.
What fails in between — reading the answer, the user's handler — leaves the event at
the head of the queue, and the next call of `vertices_event_process` posts the same
payload again.  Where nothing fails there (`Undisturbed`), a slot whose payload has been
accepted is posted again only after it has been freed and taken anew.

`Fenced b events` is the invariant: as long as an accepted payload is in slot `b`, every
queued `(SENDING, b)` has a `(TX_SUCCESS, b)` before it, which frees the slot.
-/
import Vertices.Process

namespace Vertices

open Transition

variable {c : Config} {env : Env}

/-! ## Histories -/

/-- `http_post` has returned `VTC_SUCCESS`, with a response code below 300. -/
def Accepted (err : RetCode) (responseCode : UInt32) : Prop := err = .success ∧ responseCode < 300

instance (err : RetCode) (responseCode : UInt32) : Decidable (Accepted err responseCode) :=
  inferInstanceAs (Decidable (_ ∧ _))

/-- Slot `b` is freed, and taken after that. -/
def Renewed (b : Fin pendingTxCount) (history : List Obs) : Prop :=
  ∃ h₁ h₂ h₃, history = h₁ ++ .slotFreed b :: (h₂ ++ .slotTaken b :: h₃)

/-- Between an accepted post of a slot and the next post of it, the slot is freed and
taken. -/
def AtMostOnce (history : List Obs) : Prop :=
  ∀ b before between after request err responseCode request' err' responseCode',
    history = before ++ .httpPost b request err responseCode ::
      (between ++ .httpPost b request' err' responseCode' :: after) →
    Accepted err responseCode → Renewed b between

/-- How far a slot is with an accepted payload. -/
inductive Delivery where
  | clear
  | delivered
  | released
  deriving DecidableEq

def Delivery.next (b : Fin pendingTxCount) (d : Delivery) : Obs → Delivery
  | .httpPost b' _ err responseCode =>
      if b' = b ∧ Accepted err responseCode then .delivered else d
  | .slotFreed b' => if b' = b ∧ d = .delivered then .released else d
  | .slotTaken b' => if b' = b ∧ d = .released then .clear else d
  | .signed _ _ | .queued _ | .dequeued _ => d

def delivery (b : Fin pendingTxCount) (history : List Obs) : Delivery :=
  history.foldl (Delivery.next b) .clear

theorem delivery_snoc (b : Fin pendingTxCount) (history : List Obs) (obs : Obs) :
    delivery b (history ++ [obs]) = (delivery b history).next b obs := by
  rw [delivery, List.foldl_append]
  rfl

theorem Renewed.cons {b : Fin pendingTxCount} {history : List Obs} (h : Renewed b history)
    (obs : Obs) : Renewed b (obs :: history) := by
  obtain ⟨h₁, h₂, h₃, rfl⟩ := h
  exact ⟨obs :: h₁, h₂, h₃, rfl⟩

/-- After an accepted post, only freeing and taking the slot leads back to `clear`; once it
has been freed, only taking it. -/
theorem renewed_of_foldl (b : Fin pendingTxCount) (history : List Obs) :
    (history.foldl (Delivery.next b) .delivered = .clear → Renewed b history) ∧
    (history.foldl (Delivery.next b) .released = .clear → .slotTaken b ∈ history) := by
  induction history with
  | nil => exact ⟨nofun, nofun⟩
  | cons obs history ih =>
      obtain ⟨ihd, ihr⟩ := ih
      have hd := fun h => (ihd h).cons obs
      have hr := fun h => List.mem_cons_of_mem obs (ihr h)
      simp only [List.foldl_cons]
      cases obs with
      | httpPost b' request err responseCode =>
          simp only [Delivery.next]
          split
          · refine ⟨hd, fun h => ?_⟩
            obtain ⟨h₁, h₂, h₃, rfl⟩ := ihd h
            simp
          · exact ⟨hd, hr⟩
      | slotFreed b' =>
          simp only [Delivery.next]
          by_cases hb : b' = b
          · subst hb
            rw [if_pos ⟨rfl, trivial⟩, if_neg (fun h => nomatch h.2)]
            refine ⟨fun h => ?_, hr⟩
            obtain ⟨h₂, h₃, rfl⟩ := List.append_of_mem (ihr h)
            exact ⟨[], h₂, h₃, rfl⟩
          · rw [if_neg (fun h => hb h.1), if_neg (fun h => hb h.1)]
            exact ⟨hd, hr⟩
      | slotTaken b' =>
          simp only [Delivery.next]
          by_cases hb : b' = b
          · subst hb
            rw [if_neg (fun h => nomatch h.2)]
            exact ⟨hd, fun _ => List.mem_cons_self⟩
          · rw [if_neg (fun h => hb h.1), if_neg (fun h => hb h.1)]
            exact ⟨hd, hr⟩
      | signed _ _ | queued _ | dequeued _ => exact ⟨hd, hr⟩

/-- A slot that is `clear` has been freed and taken since its last accepted post. -/
theorem renewed_of_clear {b : Fin pendingTxCount} {before between : List Obs} {request : HttpPost}
    {err : RetCode} {responseCode : UInt32} (hacc : Accepted err responseCode)
    (h : delivery b (before ++ .httpPost b request err responseCode :: between) = .clear) :
    Renewed b between := by
  rw [delivery, List.foldl_append, List.foldl_cons, Delivery.next, if_pos ⟨rfl, hacc⟩] at h
  exact (renewed_of_foldl _ _).1 h

/-- Posts of slots that are `clear` keep the property. -/
theorem AtMostOnce.snoc {history : List Obs} (h : AtMostOnce history) {obs : Obs}
    (hpost : ∀ b request err responseCode, obs = .httpPost b request err responseCode →
      delivery b history = .clear) : AtMostOnce (history ++ [obs]) := by
  intro b before between after request err responseCode request' err' responseCode' hh hacc
  rcases List.eq_nil_or_concat after with rfl | ⟨after, last, rfl⟩
  · -- the second post is the new one
    rw [← List.cons_append, ← List.append_assoc] at hh
    obtain ⟨rfl, hobs⟩ := List.append_inj' hh rfl
    exact renewed_of_clear hacc (hpost b _ _ _ (List.singleton_inj.mp hobs))
  · -- both posts are earlier
    refine h b before between after request err responseCode request' err' responseCode' ?_ hacc
    have hh' : history ++ [obs] = (before ++ .httpPost b request err responseCode ::
        (between ++ .httpPost b request' err' responseCode' :: after)) ++ [last] := by
      rw [hh]; simp
    exact (List.append_inj' hh' rfl).1

/-! ## The queue of a delivered slot -/

/-- Every `(SENDING, b)` comes after a `(TX_SUCCESS, b)`. -/
def Fenced (b : Nat) (events : List VtcEvt) : Prop :=
  ∀ before after, events = before ++ ⟨.txSending, b⟩ :: after → ⟨.txSuccess, b⟩ ∈ before

theorem Fenced.snoc {b : Nat} {events : List VtcEvt} (h : Fenced b events) {evt : VtcEvt}
    (hevt : evt = ⟨.txSending, b⟩ → ⟨.txSuccess, b⟩ ∈ events) : Fenced b (events ++ [evt]) := by
  intro before after he
  rcases List.eq_nil_or_concat after with rfl | ⟨after, last, rfl⟩
  · obtain ⟨rfl, hlast⟩ := List.append_inj' he rfl
    exact hevt (List.singleton_inj.mp hlast)
  · have he' : events ++ [evt] = (before ++ ⟨.txSending, b⟩ :: after) ++ [last] := by
      rw [he]; simp
    exact h before after (List.append_inj' he' rfl).1

theorem Fenced.tail {b : Nat} {evt : VtcEvt} {events : List VtcEvt} (h : Fenced b (evt :: events))
    (hne : evt ≠ ⟨.txSuccess, b⟩) : Fenced b events := by
  intro before after he
  have := h (evt :: before) after (by rw [he]; rfl)
  exact (List.mem_cons.mp this).resolve_left (Ne.symm hne)

theorem Fenced.head_ne {b : Nat} {events : List VtcEvt} : ¬ Fenced b (⟨.txSending, b⟩ :: events) :=
  fun h => nomatch h [] events rfl

theorem fenced_cons {b : Nat} {evt : VtcEvt} {events : List VtcEvt} :
    Fenced b (evt :: events) ↔
      evt = ⟨.txSuccess, b⟩ ∨ (evt ≠ ⟨.txSending, b⟩ ∧ Fenced b events) := by
  constructor
  · intro h
    by_cases hevt : evt = ⟨.txSuccess, b⟩
    · exact .inl hevt
    · exact .inr ⟨fun he => (he ▸ h).head_ne, h.tail hevt⟩
  · intro h before after he
    cases before with
    | nil =>
        obtain ⟨rfl, -⟩ := List.cons.inj he
        exact absurd rfl (h.resolve_left nofun).1
    | cons evt' before =>
        obtain ⟨rfl, hrest⟩ := List.cons.inj he
        rcases h with rfl | ⟨-, h⟩
        · exact List.mem_cons_self
        · exact List.mem_cons_of_mem _ (h before after hrest)

instance decidableFenced (b : Nat) : (events : List VtcEvt) → Decidable (Fenced b events)
  | [] => isTrue fun _ _ he => absurd he.symm (List.append_ne_nil_of_right_ne_nil _ nofun)
  | _ :: events =>
      have := decidableFenced b events
      decidable_of_iff _ fenced_cons.symm

/-! ## What may not go wrong -/

/-- The answer to a post: JSON, and an id that fits its buffer if it has one. -/
def AnswerFits (env : Env) (p : Provider) (reply : HttpReply) : Prop :=
  ∀ p', httpReceive p reply = .ok p' → ∃ json, env.cJSON_Parse p'.rxString = some json ∧
    ∀ txId ∈ json.stringItem "txId", txId.strlen < transactionHashStrMaxLength

instance (env : Env) (p : Provider) (reply : HttpReply) : Decidable (AnswerFits env p reply) :=
  have : DecidablePred fun p' : Provider => ∃ json, env.cJSON_Parse p'.rxString = some json ∧
      ∀ txId ∈ json.stringItem "txId", txId.strlen < transactionHashStrMaxLength :=
    fun p' => inferInstanceAs (Decidable (∃ json ∈ env.cJSON_Parse p'.rxString, _))
  inferInstanceAs (Decidable (∀ p', httpReceive p reply = .ok p' → _))

/-- The calls of a run: the only events scheduled from outside are those to send.  One for
a payload that has been accepted is scheduled only behind its `TX_SUCCESS`. -/
def Op.Undisturbed (s : Sdk c) : Op → Prop
  | .schedule evt => evt.type = .txSending ∧
      ∀ b : Fin pendingTxCount, b.val = evt.bufid → delivery b s.history = .delivered →
        ⟨.txSuccess, b⟩ ∈ s.events
  | .pay _ _ _ _ _ | .appl _ _ _ _ | .sign _ _ => True

instance (s : Sdk c) : (o : Op) → Decidable (o.Undisturbed s)
  | .schedule _ => inferInstanceAs (Decidable (_ ∧ _))
  | .pay _ _ _ _ _ | .appl _ _ _ _ | .sign _ _ => .isTrue trivial

/-- Each call of an invocation, in the state in which it is made. -/
def UndisturbedCalls (env : Env) : List Op → Sdk c → Prop
  | [], _ => True
  | o :: calls, s => o.Undisturbed s ∧
      ∀ err t, o.run env s = .ok (err, t) → UndisturbedCalls env calls t

instance decidableUndisturbedCalls (env : Env) :
    (calls : List Op) → (s : Sdk c) → Decidable (UndisturbedCalls env calls s)
  | [], _ => isTrue trivial
  | o :: calls, s =>
      have : DecidablePred fun r : RetCode × Sdk c => UndisturbedCalls env calls r.2 :=
        fun r => decidableUndisturbedCalls env calls r.2
      decidable_of_iff (o.Undisturbed s ∧ ∀ r, o.run env s = .ok r → UndisturbedCalls env calls r.2)
        ⟨fun h => ⟨h.1, fun err t => h.2 (err, t)⟩, fun h => ⟨h.1, fun r => h.2 r.1 r.2⟩⟩

/-- When a payload is accepted, its answer can be read, the handler does not fail, and no
second event to send it waits before its `TX_SUCCESS`. -/
structure UndisturbedProcess (env : Env) (handler : Option Handling) (reply : HttpReply)
    (s : Sdk c) : Prop where
  accepted : ∀ (b : Fin pendingTxCount) rest, s.events = ⟨.txSending, b⟩ :: rest →
    s.Occupied b → Accepted reply.err reply.responseCode →
    AnswerFits env s.mProvider reply ∧ (∀ handling ∈ handler, handling.err = .success) ∧
      Fenced b rest
  calls : ∀ handling ∈ handler, ∀ s₁, preProcess env reply s = .ok (.success, s₁) →
    UndisturbedCalls env handling.calls s₁

theorem undisturbedProcess_iff {env : Env} {handler : Option Handling} {reply : HttpReply}
    {s : Sdk c} : UndisturbedProcess env handler reply s ↔
      (∀ b : Fin pendingTxCount, s.events.head? = some ⟨.txSending, b⟩ → s.Occupied b →
        Accepted reply.err reply.responseCode → AnswerFits env s.mProvider reply ∧
          (∀ handling ∈ handler, handling.err = .success) ∧ Fenced b s.events.tail) ∧
      ∀ handling ∈ handler, ∀ r, preProcess env reply s = .ok r → r.1 = .success →
        UndisturbedCalls env handling.calls r.2 := by
  constructor
  · refine fun h => ⟨fun b hhead => h.accepted b _ ?_, fun handling hm r hpre hr => ?_⟩
    · exact List.eq_cons_of_mem_head? hhead
    · exact h.calls handling hm r.2 (by rw [hpre, ← hr])
  · refine fun h => ⟨fun b rest hev => ?_, fun handling hm s₁ hpre => h.2 handling hm _ hpre rfl⟩
    have haccepted := h.1 b (by rw [hev]; rfl)
    rwa [hev, List.tail_cons] at haccepted

instance (env : Env) (handler : Option Handling) (reply : HttpReply) (s : Sdk c) :
    Decidable (UndisturbedProcess env handler reply s) :=
  decidable_of_iff _ undisturbedProcess_iff.symm

def Undisturbed (env : Env) (s : Sdk c) : Call → Prop
  | .op o => o.Undisturbed s
  | .process handler reply => UndisturbedProcess env handler reply s

instance (env : Env) (s : Sdk c) : (call : Call) → Decidable (Undisturbed env s call)
  | .op o => inferInstanceAs (Decidable (o.Undisturbed s))
  | .process handler reply => inferInstanceAs (Decidable (UndisturbedProcess env handler reply s))

/-! ## The invariant -/

/-- The first `k` events are events to send that are being handled: the others are those
left to be. -/
structure Delivers (k : Nat) (s : Sdk c) : Prop where
  once : AtMostOnce s.history
  inside : k ≤ s.events.length
  handled : ∀ evt ∈ s.events.take k, evt.type = .txSending
  delivered : ∀ b : Fin pendingTxCount, delivery b s.history = .delivered →
    s.Occupied b ∧ Fenced b (s.events.drop k)
  released : ∀ b : Fin pendingTxCount, delivery b s.history = .released → ¬ s.Occupied b

section Steps

variable {s t : Sdk c} {k : Nat} {err : RetCode}

/-- What one entry of the history has to respect. -/
theorem Delivers.record (h : Delivers k s) (obs : Obs) (hh : t.history = s.history ++ [obs])
    (hev : t.events = s.events ++ queuedEvents [obs])
    (hpost : ∀ b request err responseCode, obs = .httpPost b request err responseCode →
      delivery b s.history = .clear)
    (hdelivered : ∀ b : Fin pendingTxCount, (delivery b s.history).next b obs = .delivered →
      t.Occupied b ∧ Fenced b (s.events.drop k ++ queuedEvents [obs]))
    (hreleased : ∀ b : Fin pendingTxCount, (delivery b s.history).next b obs = .released →
      ¬ t.Occupied b) : Delivers k t where
  once := by rw [hh]; exact h.once.snoc hpost
  inside := by rw [hev, List.length_append]; exact Nat.le_add_right_of_le h.inside
  handled := by rw [hev, List.take_append_of_le_length h.inside]; exact h.handled
  delivered b hb := by
    rw [hev, List.drop_append_of_le_length h.inside]
    exact hdelivered b (by rw [← delivery_snoc, ← hh]; exact hb)
  released b hb := hreleased b (by rw [← delivery_snoc, ← hh]; exact hb)

/-- An event to send a delivered payload goes behind its `TX_SUCCESS`. -/
theorem Delivers.schedule (h : Delivers k s) {evt : VtcEvt}
    (hevt : ∀ b : Fin pendingTxCount, delivery b s.history = .delivered →
      evt = ⟨.txSending, b⟩ → ⟨.txSuccess, b⟩ ∈ s.events.drop k) :
    Delivers k (s.schedule evt).2 := by
  rcases s.schedule_cases evt with ⟨-, queue, hq, hs⟩ | ⟨-, hs⟩
  · rw [hs]
    refine h.record (.queued evt) rfl hq (fun _ _ _ _ => nofun) (fun b hb => ?_) h.released
    obtain ⟨hocc, hf⟩ := h.delivered b hb
    exact ⟨hocc, hf.snoc (hevt b hb)⟩
  · rw [hs]; exact h

theorem Delivers.not_delivered (h : Delivers k s) {b : Fin pendingTxCount} (hb : ¬ s.Occupied b) :
    delivery b s.history ≠ .delivered := fun hd => hb (h.delivered b hd).1

/-- Taking a free slot. -/
theorem Delivers.taken (h : Delivers k s) {b : Fin pendingTxCount} (hfree : ¬ s.Occupied b)
    (hh : t.history = s.history ++ [.slotTaken b]) (hev : t.events = s.events)
    (hslot : ∀ b' ≠ b, t.slot b' = s.slot b') : Delivers k t := by
  refine h.record _ hh (by rw [hev]; exact (List.append_nil _).symm) (fun _ _ _ _ => nofun)
    (fun b' hb' => ?_) (fun b' hb' => ?_)
  · have hd : delivery b' s.history = .delivered := by
      simp only [Delivery.next] at hb'
      split at hb'
      · cases hb'
      · exact hb'
    have hne : b' ≠ b := fun he => h.not_delivered hfree (he ▸ hd)
    obtain ⟨hocc, hf⟩ := h.delivered b' hd
    exact ⟨(Sdk.occupied_congr (hslot b' hne)).mpr hocc, by rw [queuedEvents]; simpa using hf⟩
  · simp only [Delivery.next] at hb'
    split at hb'
    · cases hb'
    · next hcond =>
        have hne : b' ≠ b := fun he => hcond ⟨he.symm, hb'⟩
        exact fun ho => h.released b' hb' ((Sdk.occupied_congr (hslot b' hne)).mp ho)

theorem Delivers.creation (h : Delivers k s) {tx₀ : Transaction} {reply : HttpReply}
    (hc : Creation env tx₀ reply s err t) : Delivers k t := by
  cases hc with
  | noMem _ | invalidParam _ _ => exact h
  | noParams free _ _ _ =>
      exact h.taken free rfl rfl fun b hb => s.slot_loaded_of_ne _ hb
  | notEncoded free _ _ _ _ _ =>
      refine h.taken free rfl rfl fun b hb => ?_
      rw [Sdk.slot_setSlot_ne _ _ hb, s.slot_loaded_of_ne _ hb]
  | @scheduled _ _ tx p slot free _ _ _ _ =>
      have htaken : Delivers k { (s.loaded p).setSlot s.mTxBufferIdx slot with
          mTxBufferIdx := s.mTxBufferIdx + 1 } := by
        refine h.taken free rfl rfl fun b hb => ?_
        show ((s.loaded p).setSlot s.mTxBufferIdx slot).slot b = _
        rw [Sdk.slot_setSlot_ne _ _ hb, s.slot_loaded_of_ne _ hb]
      exact htaken.schedule fun b _ he => nomatch he

theorem Delivers.sign (h : Delivers k s) {bufid : Nat} {signature : Vector UInt8 signatureLength}
    (hc : storeSignature bufid signature s = .ok (err, t)) : Delivers k t := by
  obtain ⟨b, -, ⟨-, rfl⟩ | ⟨-, rfl⟩⟩ := storeSignature_cases hc
  · have hocc : ∀ b' : Fin pendingTxCount,
        ((s.setSlot b { s.slot b with signature := signature }).record
          (.signed b signature)).Occupied b' ↔ s.Occupied b' := Sdk.occupied_setSlot rfl
    refine h.record _ rfl (List.append_nil _).symm (fun _ _ _ _ => nofun) (fun b' hb' => ?_)
      (fun b' hb' ho => h.released b' hb' ((hocc b').mp ho))
    obtain ⟨ho, hf⟩ := h.delivered b' hb'
    exact ⟨(hocc b').mpr ho, by rw [queuedEvents]; simpa using hf⟩
  · exact h

theorem Delivers.op (h : Delivers k s) {o : Op} (hok : o.Undisturbed s)
    (ho : o.run env s = .ok (err, t)) : Delivers k t := by
  cases o with
  | pay sender receiver amount params reply => exact h.creation (transactionPay_creation ho)
  | appl sender appId params reply =>
      obtain ⟨_, hc⟩ := transactionAppl_creation ho
      exact h.creation hc
  | schedule evt =>
      rw [← (Prod.mk.inj (pure_eq_ok.mp ho)).2]
      refine h.schedule fun b hb he => ?_
      subst he
      have hmem := hok.2 b rfl hb
      rw [← List.take_append_drop k s.events] at hmem
      -- the events being handled are none of success
      exact (List.mem_append.mp hmem).resolve_left fun hm => nomatch h.handled _ hm
  | sign bufid signature => exact h.sign ho

theorem Delivers.calls {calls : List Op} {s t : Sdk c} (h : Delivers k s)
    (hok : UndisturbedCalls env calls s) (hr : runCalls env calls s = .ok t) : Delivers k t := by
  induction calls generalizing s with
  | nil =>
      rw [← pure_eq_ok.mp hr]
      exact h
  | cons o calls ih =>
      obtain ⟨⟨err, s₁⟩, ho, hr⟩ := bind_eq_ok.mp hr
      exact ih (h.op hok.1 ho) (hok.2 err s₁ ho) hr

/-! ### One call of `vertices_event_process` -/

/-- A post that is not accepted leaves every delivery as it is. -/
theorem Delivery.next_post_of_not {b b' : Fin pendingTxCount} {d : Delivery} {request : HttpPost}
    {err : RetCode} {responseCode : UInt32} (h : b' = b → ¬ Accepted err responseCode) :
    d.next b (.httpPost b' request err responseCode) = d :=
  if_neg fun ⟨hb, hacc⟩ => h hb hacc

/-- A payload that is about to be posted has not been delivered. -/
theorem Delivers.clear_of_head (h : Delivers 0 s) {b : Fin pendingTxCount} {rest : List VtcEvt}
    (hev : s.events = ⟨.txSending, b⟩ :: rest) (hocc : s.Occupied b) :
    delivery b s.history = .clear := by
  cases hd : delivery b s.history with
  | clear => rfl
  | delivered =>
      have hf := (h.delivered b hd).2
      rw [List.drop_zero, hev] at hf
      exact absurd hf Fenced.head_ne
  | released => exact absurd hocc (h.released b hd)

/-- A post that is not accepted. -/
theorem Delivers.rejected (h : Delivers 0 s) {b : Fin pendingTxCount} {rest : List VtcEvt}
    (hev : s.events = ⟨.txSending, b⟩ :: rest) (hocc : s.Occupied b) {reply : HttpReply}
    (hrej : ¬ Accepted reply.err reply.responseCode) {err' : RetCode} {slot : SignedTransaction c}
    (sign : encodeTxReplaceSignature env.reader (s.slot b) = .ok (err', slot))
    (id : Vector UInt8 transactionHashStrMaxLength) (p : Provider) (request : HttpPost) :
    Delivers 0 (s.posted b { slot with id := id } p request reply) := by
  refine h.record _ rfl (List.append_nil _).symm (fun b' _ _ _ he => ?_) (fun b' hb' => ?_)
    (fun b' hb' => ?_)
  · obtain ⟨rfl, -⟩ := Obs.httpPost.inj he
    exact h.clear_of_head hev hocc
  · rw [Delivery.next_post_of_not fun _ => hrej] at hb'
    obtain ⟨ho, hf⟩ := h.delivered b' hb'
    exact ⟨(Sdk.occupied_posted sign _ _ _ _).mpr ho, by rw [queuedEvents]; simpa using hf⟩
  · rw [Delivery.next_post_of_not fun _ => hrej] at hb'
    exact fun ho => h.released b' hb' ((Sdk.occupied_posted sign _ _ _ _).mp ho)

/-- A post that is accepted, its event being the one handled. -/
theorem Delivers.accepted (h : Delivers 0 s) {b : Fin pendingTxCount} {rest : List VtcEvt}
    (hev : s.events = ⟨.txSending, b⟩ :: rest) (hocc : s.Occupied b) (hfence : Fenced b rest)
    {reply : HttpReply} {err' : RetCode} {slot : SignedTransaction c}
    (sign : encodeTxReplaceSignature env.reader (s.slot b) = .ok (err', slot))
    (id : Vector UInt8 transactionHashStrMaxLength) (p : Provider) (request : HttpPost) :
    Delivers 1 (s.posted b { slot with id := id } p request reply) where
  once := by
    refine h.once.snoc fun b' _ _ _ he => ?_
    obtain ⟨rfl, -⟩ := Obs.httpPost.inj he
    exact h.clear_of_head hev hocc
  inside := by
    show 1 ≤ s.events.length
    rw [hev]; exact Nat.le_add_left 1 _
  handled := by
    show ∀ evt ∈ s.events.take 1, _
    rw [hev]
    intro evt hevt
    rw [List.mem_singleton.mp hevt]
  delivered b' hb' := by
    refine ⟨?_, ?_⟩
    · rw [Sdk.occupied_posted sign]
      by_cases hb : b = b'
      · exact hb ▸ hocc
      · refine (h.delivered b' ?_).1
        rwa [Sdk.posted, Sdk.history_record, delivery_snoc,
          Delivery.next_post_of_not fun he => absurd he hb] at hb'
    · show Fenced b' (s.events.drop 1)
      rw [hev]
      by_cases hb : b = b'
      · exact hb ▸ hfence
      · have hd : delivery b' s.history = .delivered := by
          rwa [Sdk.posted, Sdk.history_record, delivery_snoc,
            Delivery.next_post_of_not fun he => absurd he hb] at hb'
        have hf := (h.delivered b' hd).2
        rw [List.drop_zero, hev] at hf
        exact hf.tail nofun
  released b' hb' := by
    rw [Sdk.occupied_posted sign]
    rw [Sdk.posted, Sdk.history_record, delivery_snoc, Delivery.next] at hb'
    split at hb'
    · exact nomatch hb'
    · exact h.released b' hb'

/-- An accepted post whose answer fits succeeds. -/
theorem providerTxPost_fits {p p' : Provider} {reply : HttpReply} {body : List UInt8}
    {id id' : Vector UInt8 transactionHashStrMaxLength} {request : HttpPost}
    (hfits : AnswerFits env p reply) (hacc : Accepted reply.err reply.responseCode)
    (h : providerTxPost env.cJSON_Parse p reply body id = .ok (request, err, id', p')) :
    err = .success := by
  have hstatus : postStatus reply = .success := by
    rw [postStatus, if_neg (UInt32.not_le.mpr hacc.2), hacc.1]
  obtain ⟨hp, -, ⟨hne, -⟩ | ⟨-, hread⟩⟩ := providerTxPost_err h
  · exact absurd hstatus hne
  · obtain ⟨json, hjson, hlen⟩ := hfits p' hp
    rw [readTxId, hjson] at hread
    dsimp only at hread
    split at hread
    · exact (pure_eq_ok2.mp hread).1.symm
    · next txId hid =>
        rw [if_neg (Nat.not_le.mpr (hlen txId hid))] at hread
        obtain ⟨_, -, hread⟩ := bind_eq_ok.mp hread
        exact (pure_eq_ok2.mp hread).1.symm

/-- What handling the head has come to: a payload has been accepted and nothing will keep
its event, or nothing has changed but for the events behind the head. -/
def Handled (handler : Option Handling) (err : RetCode) (t : Sdk c) : Prop :=
  (err = .success ∧ (∀ handling ∈ handler, handling.err = .success) ∧ Delivers 1 t) ∨
    Delivers 0 t

theorem Delivers.sending (h : Delivers 0 s) {handler : Option Handling} {reply : HttpReply}
    (hok : UndisturbedProcess env handler reply s) {b : Fin pendingTxCount} {rest : List VtcEvt}
    (hev : s.events = ⟨.txSending, b⟩ :: rest) (hs : Sending env b reply s err t) :
    Handled handler err t := by
  by_cases hacc : Accepted reply.err reply.responseCode
  · cases hs with
    | notPending _ => exact .inr h
    | posted occupied sign _ post failed =>
        obtain ⟨hfits, -⟩ := hok.accepted b rest hev occupied hacc
        exact absurd (providerTxPost_fits hfits hacc post) failed
    | succeeded occupied sign _ _ =>
        obtain ⟨-, hhandler, hfence⟩ := hok.accepted b rest hev occupied hacc
        refine .inl ⟨rfl, hhandler, ?_⟩
        exact (h.accepted hev occupied hfence sign _ _ _).schedule fun _ _ he => nomatch he
  · cases hs with
    | notPending _ => exact .inr h
    | posted occupied sign _ _ _ => exact .inr (h.rejected hev occupied hacc sign _ _ _)
    | succeeded occupied sign _ _ =>
        refine .inr ?_
        exact (h.rejected hev occupied hacc sign _ _ _).schedule fun _ _ he => nomatch he

theorem Delivers.pre (h : Delivers 0 s) {handler : Option Handling} {reply : HttpReply}
    (hne : s.events ≠ []) (hok : UndisturbedProcess env handler reply s)
    (hp : preProcess env reply s = .ok (err, t)) : Handled handler err t := by
  obtain ⟨htype, b, hb, hs⟩ | ⟨-, -, rfl⟩ := preProcess_cases hp
  · have hev : s.events = ⟨.txSending, b⟩ :: s.mEventsQueue.pop.events := by
      rw [Sdk.events, VtcEventsBuf.events_eq_head_cons hne, hb, ← htype]
    exact h.sending hok hev hs
  · exact .inr h

theorem Delivers.user (h : Delivers k s) {handler : Option Handling}
    (hok : ∀ handling ∈ handler, UndisturbedCalls env handling.calls s)
    (hu : userProcess env handler s = .ok (err, t)) : Delivers k t := by
  cases handler with
  | none => rw [← (pure_eq_ok2.mp hu).2]; exact h
  | some handling =>
      obtain ⟨u, hcalls, hu⟩ := bind_eq_ok.mp hu
      rw [← (pure_eq_ok2.mp hu).2]
      exact h.calls (hok handling rfl) hcalls

theorem userProcess_err {handler : Option Handling} (hu : userProcess env handler s = .ok (err, t))
    (hok : ∀ handling ∈ handler, handling.err = .success) : err = .success := by
  cases handler with
  | none => exact (pure_eq_ok2.mp hu).1.symm
  | some handling =>
      obtain ⟨u, -, hu⟩ := bind_eq_ok.mp hu
      rw [← (pure_eq_ok2.mp hu).1]
      exact hok handling rfl

/-- Removing the event that was handled. -/
theorem Delivers.pop (h : Delivers k s) (hk : k ≤ 1) (hne : s.events ≠ [])
    (hhead : ∀ b : Fin pendingTxCount, delivery b s.history = .delivered →
      s.mEventsQueue.head ≠ ⟨.txSuccess, b⟩) : Delivers 0 s.pop := by
  have hev : s.events = s.mEventsQueue.head :: s.pop.events :=
    VtcEventsBuf.events_eq_head_cons hne
  have hhist : ∀ b, delivery b s.pop.history = delivery b s.history := fun b => delivery_snoc _ _ _
  constructor
  · exact h.once.snoc fun _ _ _ _ => nofun
  · exact Nat.zero_le _
  · intro evt hevt
    exact nomatch hevt
  · intro b hb
    rw [hhist] at hb
    obtain ⟨hocc, hf⟩ := h.delivered b hb
    refine ⟨hocc, ?_⟩
    rw [hev] at hf
    rcases Nat.le_one_iff_eq_zero_or_eq_one.mp hk with rfl | rfl
    · exact hf.tail (hhead b hb)
    · exact hf
  · intro b hb
    rw [hhist] at hb
    exact h.released b hb

/-- The slot of a success is freed before its event goes. -/
theorem Delivers.freed (h : Delivers k s) {b : Fin pendingTxCount} :
    Delivers k ((s.setSlot b (.zero c)).record (.slotFreed b)) := by
  refine h.record _ rfl (List.append_nil _).symm (fun _ _ _ _ => nofun) (fun b' hb' => ?_)
    (fun b' hb' => ?_)
  · have hd : b' ≠ b ∧ delivery b' s.history = .delivered := by
      simp only [Delivery.next] at hb'
      split at hb'
      · exact nomatch hb'
      · next hcond => exact ⟨fun he => hcond ⟨he.symm, hb'⟩, hb'⟩
    obtain ⟨hocc, hf⟩ := h.delivered b' hd.2
    exact ⟨(Sdk.occupied_congr (s.slot_setSlot_ne _ hd.1)).mpr hocc, by
      rw [queuedEvents]; simpa using hf⟩
  · rw [Sdk.Occupied, Sdk.slot_record, Sdk.slot_setSlot]
    split
    · exact fun ho => ho rfl
    · next hne =>
        refine h.released b' ?_
        simpa only [Delivery.next, if_neg fun h : b = b' ∧ _ => hne h.1.symm] using hb'

theorem Delivers.post (h : Delivers k s) (hk : k ≤ 1) (hne : s.events ≠ [])
    {txID : Option (Vector UInt8 transactionHashStrMaxLength)}
    (hp : postProcess s = .ok (err, txID, t)) : Delivers 0 t.pop := by
  obtain ⟨-, ⟨htype, b, hb, -, -, rfl⟩ | ⟨htype, -, rfl⟩⟩ := postProcess_cases hp
  · refine h.freed.pop hk hne fun b' hb' he => ?_
    have hbb : b' = b := Fin.ext ((congrArg VtcEvt.bufid he).symm.trans hb.symm)
    subst hbb
    rw [Sdk.history_record, delivery_snoc] at hb'
    simp only [Delivery.next] at hb'
    split at hb'
    · exact nomatch hb'
    · next hcond => exact hcond ⟨trivial, hb'⟩
  · exact h.pop hk hne fun b' _ he => htype (congrArg VtcEvt.type he)

theorem Delivers.processing (h : Delivers 0 s) {handler : Option Handling} {reply : HttpReply}
    {result : ProcessResult} (hok : UndisturbedProcess env handler reply s)
    (hp : Processing env handler reply s result t) : Delivers 0 t := by
  cases hp with
  | empty _ => exact h
  | preFailed hne pre failed =>
      exact (h.pre hne hok pre).resolve_left fun hacc => failed hacc.1
  | userFailed hne pre user failed =>
      obtain ⟨-, hhandler, -⟩ | h₁ := h.pre hne hok pre
      · exact absurd (userProcess_err user hhandler) failed
      · exact h₁.user (fun handling hm => hok.calls handling hm _ pre) user
  | done hne pre user post =>
      have hne₁ := ((preProcess_appends pre).head hne).2
      have hne₂ := ((userProcess_appends user).head hne₁).2
      have hcalls := fun handling hm => hok.calls handling hm _ pre
      obtain ⟨-, -, h₁⟩ | h₁ := h.pre hne hok pre
      · exact (h₁.user hcalls user).post (Nat.le_refl 1) hne₂ post
      · exact (h₁.user hcalls user).post (Nat.zero_le 1) hne₂ post

theorem Delivers.call (h : Delivers 0 s) {call : Call}
    (hstep : guard (Undisturbed env) (Step env) s call t) : Delivers 0 t := by
  obtain ⟨hok, err, hstep⟩ := hstep
  cases call with
  | op o => exact h.op hok hstep
  | process handler reply =>
      obtain ⟨⟨result, t'⟩, hp, hstep⟩ := bind_eq_ok.mp hstep
      obtain ⟨-, rfl⟩ := pure_eq_ok2.mp hstep
      exact h.processing hok (verticesEventProcess_processing hp)

end Steps

theorem Delivers.init (provider : Provider) (accounts : MAccounts) :
    Delivers 0 (Sdk.init c provider accounts) where
  once b before between after _ _ _ _ _ _ hh := by
    exact absurd hh.symm (List.append_ne_nil_of_right_ne_nil _ (List.cons_ne_nil _ _))
  inside := Nat.zero_le _
  handled _ h := nomatch h
  delivered _ h := nomatch h
  released _ h := nomatch h

/-- In a run that nothing disturbs, a slot whose payload has been accepted is posted again
only after it has been freed and taken. -/
theorem submitted_at_most_once {provider : Provider} {accounts : MAccounts} {calls : List Call}
    {s : Sdk c}
    (hrun : Run (guard (Undisturbed env) (Step env)) (Sdk.init c provider accounts) calls s) :
    AtMostOnce s.history :=
  (hrun.invariant (P := Delivers 0) (fun h hs => h.call hs) (.init provider accounts)).once

/-- The slot and the outcome of a post. -/
def Obs.post? : Obs → Option (Fin pendingTxCount × RetCode × UInt32)
  | .httpPost b _ err responseCode => some (b, err, responseCode)
  | _ => none

/-- A payment is signed and posted, once more when the first post is refused, and done with. -/
def deliveredPayment : List Call :=
  [.op payment, .process (some (signAndSend 0)) offlineReply, .process none refusedReply,
    .process none txIdReply, .process none offlineReply]

theorem submitted_at_most_once_payment : ∃ s : Sdk .default,
    s.history.filterMap Obs.post? = [(0, .success, 400), (0, .success, 200)] ∧
      s.events = [] ∧ AtMostOnce s.history := by
  have hseen : (runGuarded .example (Undisturbed .example) deliveredPayment
      (Sdk.init .default .zero accountInit)).map (fun s => (s.history.filterMap Obs.post?, s.events))
        = some ([(0, .success, 400), (0, .success, 200)], []) := by decide +kernel
  obtain ⟨s, hrun, hseen⟩ := Option.map_eq_some_iff.mp hseen
  obtain ⟨hposts, hevents⟩ := Prod.mk.inj hseen
  exact ⟨s, hposts, hevents, submitted_at_most_once (run_of_runGuarded hrun)⟩

/-! ## An answer that cannot be read -/

/-- The payload is accepted, with an answer that is no JSON. -/
def illegibleReply : HttpReply := ⟨[lit "accepted"], .success, 200⟩

/-- A payment is signed and posted; the event is processed again. -/
def repeatedPost : List Call :=
  [.op payment, .process (some (signAndSend 0)) offlineReply, .process none illegibleReply,
    .process none illegibleReply]

theorem Obs.post?_eq_some {obs : Obs} {b : Fin pendingTxCount} {err : RetCode}
    {responseCode : UInt32} (h : obs.post? = some (b, err, responseCode)) :
    ∃ request, obs = .httpPost b request err responseCode := by
  cases obs with
  | httpPost b' request err' responseCode' =>
      obtain ⟨rfl, rfl, rfl⟩ := by simpa [Obs.post?] using h
      exact ⟨request, rfl⟩
  | slotTaken _ | slotFreed _ | signed _ _ | queued _ | dequeued _ => exact nomatch h

/-- The payload that was accepted is posted again. -/
theorem submitted_twice :
    ∃ s : Sdk .default, Run (Step .example) (Sdk.init .default .zero accountInit)
      repeatedPost s ∧ ¬ AtMostOnce s.history := by
  have hposts : (runAll .example repeatedPost
      (Sdk.init .default .zero accountInit)).map (fun s => (s.history.drop 5).map Obs.post?)
        = .ok [some (0, .success, 200), some (0, .success, 200)] := by decide +kernel
  cases hrun : runAll .example repeatedPost (Sdk.init .default .zero accountInit) with
  | error e => rw [hrun] at hposts; exact nomatch hposts
  | ok s =>
      refine ⟨s, run_of_runAll hrun, fun honce => ?_⟩
      rw [hrun] at hposts
      obtain ⟨o, l, hl, ho, hl'⟩ := List.map_eq_cons_iff.mp (Except.ok.inj hposts)
      obtain ⟨o', l', rfl, ho', hnil⟩ := List.map_eq_cons_iff.mp hl'
      obtain ⟨request, rfl⟩ := Obs.post?_eq_some ho
      obtain ⟨request', rfl⟩ := Obs.post?_eq_some ho'
      have hh : s.history = s.history.take 5 ++ .httpPost 0 request .success 200 ::
          ([] ++ .httpPost 0 request' .success 200 :: l') := by
        rw [List.nil_append, ← hl, List.take_append_drop]
      obtain ⟨h₁, h₂, h₃, hnone⟩ := honce 0 _ _ _ _ _ _ _ _ _ hh (by decide)
      exact absurd hnone.symm (List.append_ne_nil_of_right_ne_nil _ (List.cons_ne_nil _ _))

end Vertices
