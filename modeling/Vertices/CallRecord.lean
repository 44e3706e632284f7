/-
# `Vertices.CallRecord` — the calls a parse makes on its callbacks

`parse_element` hands the elements of a buffer to callbacks, one call after the other.
Run with callbacks that also write down what they are called with, it yields the list of
these calls; when a call faults the list ends with it.  What every call preserves holds
wherever a call is made.
-/
import Vertices.Parser

namespace Vertices

open MsgPack

/-- A call of one of the callbacks. -/
inductive Event where
  | nil
  | bool (b : Bool)
  | int (i : Int)
  | uint (value : UInt64)
  | string (data : Option (List UInt8)) (length : Nat)
  | startMap (count : Nat)
  | startArray (count : Nat)
  | finishMap
  | finishArray
  deriving DecidableEq, Repr

def Event.isString : Event → Bool
  | .string _ _ => true
  | _ => false

variable {σ : Type} {R : MpackReader} {cb : Callbacks σ}

/-- What the call does. -/
def Callbacks.handle (cb : Callbacks σ) : Event → σ → Except Fault (RetCode × σ)
  | .nil, s => cb.nilElement s
  | .bool b, s => cb.boolElement s b
  | .int i, s => cb.intElement s i
  | .uint value, s => cb.uintElement s value
  | .string data length, s => cb.stringElement s data length
  | .startMap count, s => cb.startMap s count
  | .startArray count, s => cb.startArray s count
  | .finishMap, s => cb.finishMap s
  | .finishArray, s => cb.finishArray s

/-- A call, with the context it is made in. -/
structure Made (σ : Type) where
  event : Event
  before : σ

/-- The context, the calls so far, and the fault of the last one, if it had one. -/
structure Recorder (σ : Type) where
  state : σ
  made : List (Made σ)
  fault : Option Fault

/-- The call, written down.  After a fault there is nothing to run. -/
def record (cb : Callbacks σ) (event : Event) (r : Recorder σ) : RetCode × Recorder σ :=
  match r.fault with
  | some _ => (.success, r)
  | none =>
      let made := r.made ++ [⟨event, r.state⟩]
      match cb.handle event r.state with
      | .ok (err, s) => (err, { state := s, made := made, fault := none })
      | .error f => (.success, { state := r.state, made := made, fault := some f })

/-- The callbacks that write their calls down. -/
def recording (cb : Callbacks σ) : Callbacks (Recorder σ) where
  nilElement r := .ok (record cb .nil r)
  boolElement r b := .ok (record cb (.bool b) r)
  intElement r i := .ok (record cb (.int i) r)
  uintElement r value := .ok (record cb (.uint value) r)
  stringElement r data length := .ok (record cb (.string data length) r)
  startMap r count := .ok (record cb (.startMap count) r)
  startArray r count := .ok (record cb (.startArray count) r)
  finishMap r := .ok (record cb .finishMap r)
  finishArray r := .ok (record cb .finishArray r)

theorem recording_handle (event : Event) (r : Recorder σ) :
    (recording cb).handle event r = .ok (record cb event r) := by
  cases event <;> rfl

/-! ## What every call preserves -/

section Loops

variable {I : ReaderState → σ → Prop} {element : ReaderState → σ → Except Fault (Parsed σ)}

/-- `I` where an element leaves off. -/
def LeavesAt (I : ReaderState → σ → Prop) (result : Except Fault (Parsed σ)) : Prop :=
  ∀ err reader ctx, result = .ok (err, reader, ctx) → I reader ctx

theorem arrayLoop_keeps (he : ∀ reader ctx, I reader ctx → LeavesAt I (element reader ctx)) :
    ∀ {count : Nat} {reader reader' : ReaderState} {ctx ctx' : σ}, I reader ctx →
      arrayLoop element count reader ctx = .ok (reader', ctx') → I reader' ctx' := by
  intro count
  induction count with
  | zero =>
      intro reader reader' ctx ctx' hI h
      cases pure_eq_ok.mp h
      exact hI
  | succ count ih =>
      intro reader reader' ctx ctx' hI h
      rw [arrayLoop] at h
      obtain ⟨⟨err₁, reader₁, ctx₁⟩, h₁, h⟩ := bind_eq_ok.mp h
      have hI₁ := he reader ctx hI _ _ _ h₁
      dsimp only at h
      split at h
      · cases pure_eq_ok.mp h
        exact hI₁
      · exact ih hI₁ h

theorem mapLoop_keeps (he : ∀ reader ctx, I reader ctx → LeavesAt I (element reader ctx)) :
    ∀ {count : Nat} {reader reader' : ReaderState} {ctx ctx' : σ}, I reader ctx →
      mapLoop element count reader ctx = .ok (reader', ctx') → I reader' ctx' := by
  intro count
  induction count with
  | zero =>
      intro reader reader' ctx ctx' hI h
      cases pure_eq_ok.mp h
      exact hI
  | succ count ih =>
      intro reader reader' ctx ctx' hI h
      rw [mapLoop] at h
      obtain ⟨⟨err₁, reader₁, ctx₁⟩, h₁, h⟩ := bind_eq_ok.mp h
      have hI₁ := he reader ctx hI _ _ _ h₁
      dsimp only at h
      split at h
      · cases pure_eq_ok.mp h
        exact hI₁
      · obtain ⟨⟨err₂, reader₂, ctx₂⟩, h₂, h⟩ := bind_eq_ok.mp h
        have hI₂ := he reader₁ ctx₁ hI₁ _ _ _ h₂
        dsimp only at h
        split at h
        · cases pure_eq_ok.mp h
          exact hI₂
        · exact ih hI₂ h

theorem scalarElement_keeps {reader : ReaderState} {result : Except Fault (RetCode × σ)}
    (h : ∀ err ctx, result = .ok (err, ctx) → I reader ctx) :
    LeavesAt I (scalarElement reader result) := by
  intro err reader' ctx hr
  obtain ⟨⟨err', ctx'⟩, hres, hr⟩ := bind_eq_ok.mp hr
  cases pure_eq_ok.mp hr
  exact h _ _ hres

theorem container_keeps {start finish : σ → Except Fault (RetCode × σ)}
    {loop : ReaderState → σ → Except Fault (ReaderState × σ)}
    (hstart : ∀ {reader ctx err ctx'}, I reader ctx → start ctx = .ok (err, ctx') → I reader ctx')
    (hloop : ∀ {reader reader' ctx ctx'}, I reader ctx → loop reader ctx = .ok (reader', ctx') →
      I reader' ctx')
    (hfinish : ∀ {reader ctx err ctx'}, I reader ctx → finish ctx = .ok (err, ctx') → I reader ctx')
    {reader : ReaderState} {ctx : σ} (hI : I reader ctx) :
    LeavesAt I (do
      let (err, ctx) ← start ctx
      if err ≠ .success then return (err, reader, ctx)
      else do
        let (reader, ctx) ← loop reader ctx
        scalarElement reader (finish ctx)) := by
  intro err reader' ctx' h
  obtain ⟨⟨err₁, ctx₁⟩, h₁, h⟩ := bind_eq_ok.mp h
  have hI₁ := hstart hI h₁
  dsimp only at h
  split at h
  · cases pure_eq_ok.mp h
    exact hI₁
  · obtain ⟨⟨reader₂, ctx₂⟩, h₂, h⟩ := bind_eq_ok.mp h
    exact scalarElement_keeps (fun err ctx' => hfinish (hloop hI₁ h₂)) _ _ _ h

end Loops

section Preserved

variable {P : σ → Prop}

/-- `P` of the context an element leaves. -/
def Leaves (P : σ → Prop) (result : Except Fault (Parsed σ)) : Prop :=
  ∀ err reader ctx, result = .ok (err, reader, ctx) → P ctx

theorem arrayLoop_leaves {element : ReaderState → σ → Except Fault (Parsed σ)}
    (he : ∀ reader ctx, P ctx → Leaves P (element reader ctx)) {count : Nat}
    {reader reader' : ReaderState} {ctx ctx' : σ} (hP : P ctx)
    (h : arrayLoop element count reader ctx = .ok (reader', ctx')) : P ctx' :=
  arrayLoop_keeps (I := fun _ => P) he hP h

theorem mapLoop_leaves {element : ReaderState → σ → Except Fault (Parsed σ)}
    (he : ∀ reader ctx, P ctx → Leaves P (element reader ctx)) {count : Nat}
    {reader reader' : ReaderState} {ctx ctx' : σ} (hP : P ctx)
    (h : mapLoop element count reader ctx = .ok (reader', ctx')) : P ctx' :=
  mapLoop_keeps (I := fun _ => P) he hP h

/-- What every call preserves, a whole element preserves. -/
theorem parseElement_leaves
    (hcb : ∀ event ctx err ctx', P ctx → cb.handle event ctx = .ok (err, ctx') → P ctx') :
    ∀ (levels : Nat) (reader : ReaderState) (ctx : σ), P ctx →
      Leaves P (parseElement R cb levels reader ctx) := by
  intro levels
  induction levels with
  | zero =>
      intro reader ctx hP err reader' ctx' h
      cases pure_eq_ok.mp h
      exact hP
  | succ levels ih =>
      intro reader ctx hP
      rw [parseElement]
      generalize R.mpackReadTag reader = tagged
      obtain ⟨tag, reader⟩ := tagged
      dsimp only
      split
      · intro err reader' ctx' h
        cases pure_eq_ok.mp h
        exact hP
      · have hcall : ∀ event {ctx : σ} {err : RetCode} {ctx' : σ}, P ctx →
            cb.handle event ctx = .ok (err, ctx') → P ctx' := fun event _ _ _ => hcb event _ _ _
        have hkeeps : ∀ event reader, LeavesAt (fun _ => P) (scalarElement reader (cb.handle event ctx)) :=
          fun event _ => scalarElement_keeps (I := fun _ => P) fun _ _ => hcall event hP
        cases tag with
        | nil => exact hkeeps .nil _
        | bool b => exact hkeeps (.bool b) _
        | int i => exact hkeeps (.int i) _
        | uint n => exact hkeeps (.uint _) _
        | str length => exact hkeeps (.string _ length) _
        | array count =>
            exact container_keeps (I := fun _ => P) (hcall (.startArray count)) (arrayLoop_keeps ih)
              (hcall .finishArray) hP
        | map count =>
            exact container_keeps (I := fun _ => P) (hcall (.startMap count)) (mapLoop_keeps ih)
              (hcall .finishMap) hP
        | float _ | double _ | bin _ | ext _ _ =>
            intro err reader' ctx' h
            cases pure_eq_ok.mp h
            exact hP

end Preserved

/-! ## The record is true -/

/-- The recorder shows the outcome `x`: its fault, or the context it ends in. -/
def Shows {β : Type} (x : Except Fault β) (mk : σ → β) (r : Recorder σ) : Prop :=
  match r.fault with
  | none => x = .ok (mk r.state)
  | some f => x = .error f

theorem Shows.bind {β γ : Type} {x : Except Fault β} {k : β → Except Fault γ} {mk : σ → β}
    {mk' : σ → γ} {r r' : Recorder σ} (h : Shows x mk r)
    (hk : r.fault = none → Shows (k (mk r.state)) mk' r')
    (hf : ∀ f, r.fault = some f → r'.fault = some f) : Shows (x >>= k) mk' r' := by
  unfold Shows at h
  split at h
  · next hn =>
      rw [h]
      exact hk hn
  · next f hs =>
      unfold Shows
      rw [hf f hs, h]
      rfl

theorem Shows.pure {β : Type} {x : Except Fault β} {mk : σ → β} {r : Recorder σ}
    (h : r.fault = none) (hx : x = .ok (mk r.state)) : Shows x mk r := by
  rw [Shows, h]
  exact hx

theorem record_shows {event : Event} {r r' : Recorder σ} {err : RetCode} (hr : r.fault = none)
    (h : record cb event r = (err, r')) : Shows (cb.handle event r.state) (fun s => (err, s)) r' := by
  rw [record, hr] at h
  dsimp only at h
  split at h
  · next err' s hok =>
      cases h
      exact hok
  · next f hf =>
      cases h
      exact hf

theorem record_fault {event : Event} {r r' : Recorder σ} {err : RetCode} {f : Fault}
    (hr : r.fault = some f) (h : record cb event r = (err, r')) : r'.fault = some f := by
  rw [record, hr] at h
  cases h
  exact hr

/-- After a fault the recorder stays as it is. -/
theorem parseElement_fault {levels : Nat} {reader reader' : ReaderState} {r r' : Recorder σ}
    {err : RetCode} {f : Fault} (hr : r.fault = some f)
    (h : parseElement R (recording cb) levels reader r = .ok (err, reader', r')) :
    r'.fault = some f := by
  refine parseElement_leaves (P := fun r => r.fault = some f) ?_ levels reader r hr _ _ _ h
  intro event r err r' hr h
  rw [recording_handle, Except.ok.injEq] at h
  exact record_fault hr h

section Recorded

variable {element : ReaderState → σ → Except Fault (Parsed σ)}
  {element' : ReaderState → Recorder σ → Except Fault (Parsed (Recorder σ))}

/-- `element'` is `element`, recorded. -/
structure Recorded (element : ReaderState → σ → Except Fault (Parsed σ))
    (element' : ReaderState → Recorder σ → Except Fault (Parsed (Recorder σ))) : Prop where
  shows : ∀ {reader reader' : ReaderState} {r r' : Recorder σ} {err}, r.fault = none →
    element' reader r = .ok (err, reader', r') →
    Shows (element reader r.state) (fun s => (err, reader', s)) r'
  fault : ∀ {reader reader' : ReaderState} {r r' : Recorder σ} {err f}, r.fault = some f →
    element' reader r = .ok (err, reader', r') → r'.fault = some f

theorem mapLoop_fault (he : Recorded element element') {count : Nat} {reader reader' : ReaderState}
    {r r' : Recorder σ} {f : Fault} (hr : r.fault = some f)
    (h : mapLoop element' count reader r = .ok (reader', r')) : r'.fault = some f :=
  mapLoop_leaves (P := fun r => r.fault = some f) (fun _ _ hr _ _ _ h => he.fault hr h) hr h

theorem mapLoop_shows (he : Recorded element element') :
    ∀ {count : Nat} {reader reader' : ReaderState} {r r' : Recorder σ}, r.fault = none →
      mapLoop element' count reader r = .ok (reader', r') →
      Shows (mapLoop element count reader r.state) (fun s => (reader', s)) r' := by
  intro count
  induction count with
  | zero =>
      intro reader reader' r r' hr h
      cases pure_eq_ok.mp h
      exact .pure hr rfl
  | succ count ih =>
      intro reader reader' r r' hr h
      rw [mapLoop] at h ⊢
      obtain ⟨⟨err₁, reader₁, r₁⟩, h₁, h⟩ := bind_eq_ok.mp h
      dsimp only at h
      refine (he.shows hr h₁).bind (fun hr₁ => ?_) fun f hf => ?_
      · dsimp only
        split at h
        · next herr =>
            rw [if_pos herr]
            cases pure_eq_ok.mp h
            exact .pure hr₁ rfl
        · next herr =>
            rw [if_neg herr]
            obtain ⟨⟨err₂, reader₂, r₂⟩, h₂, h⟩ := bind_eq_ok.mp h
            dsimp only at h
            refine (he.shows hr₁ h₂).bind (fun hr₂ => ?_) fun f hf => ?_
            · dsimp only
              split at h
              · next hstop =>
                  rw [if_pos hstop]
                  cases pure_eq_ok.mp h
                  exact .pure hr₂ rfl
              · next hstop =>
                  rw [if_neg hstop]
                  exact ih hr₂ h
            · split at h
              · cases pure_eq_ok.mp h
                exact hf
              · exact mapLoop_fault he hf h
      · split at h
        · cases pure_eq_ok.mp h
          exact hf
        · obtain ⟨⟨err₂, reader₂, r₂⟩, h₂, h⟩ := bind_eq_ok.mp h
          have hf₂ := he.fault hf h₂
          dsimp only at h
          split at h
          · cases pure_eq_ok.mp h
            exact hf₂
          · exact mapLoop_fault he hf₂ h

theorem arrayLoop_fault (he : Recorded element element') {count : Nat}
    {reader reader' : ReaderState} {r r' : Recorder σ} {f : Fault} (hr : r.fault = some f)
    (h : arrayLoop element' count reader r = .ok (reader', r')) : r'.fault = some f :=
  arrayLoop_leaves (P := fun r => r.fault = some f) (fun _ _ hr _ _ _ h => he.fault hr h) hr h

theorem arrayLoop_shows (he : Recorded element element') :
    ∀ {count : Nat} {reader reader' : ReaderState} {r r' : Recorder σ}, r.fault = none →
      arrayLoop element' count reader r = .ok (reader', r') →
      Shows (arrayLoop element count reader r.state) (fun s => (reader', s)) r' := by
  intro count
  induction count with
  | zero =>
      intro reader reader' r r' hr h
      cases pure_eq_ok.mp h
      exact .pure hr rfl
  | succ count ih =>
      intro reader reader' r r' hr h
      rw [arrayLoop] at h ⊢
      obtain ⟨⟨err₁, reader₁, r₁⟩, h₁, h⟩ := bind_eq_ok.mp h
      dsimp only at h
      refine (he.shows hr h₁).bind (fun hr₁ => ?_) fun f hf => ?_
      · dsimp only
        split at h
        · next hstop =>
            rw [if_pos hstop]
            cases pure_eq_ok.mp h
            exact .pure hr₁ rfl
        · next hstop =>
            rw [if_neg hstop]
            exact ih hr₁ h
      · split at h
        · cases pure_eq_ok.mp h
          exact hf
        · exact arrayLoop_fault he hf h

theorem scalarElement_shows {event : Event} {reader reader' : ReaderState} {r r' : Recorder σ}
    {err : RetCode} (hr : r.fault = none)
    (h : scalarElement reader (.ok (record cb event r)) = .ok (err, reader', r')) :
    Shows (scalarElement reader (cb.handle event r.state)) (fun s => (err, reader', s)) r' := by
  obtain ⟨⟨err₁, r₁⟩, h₁, h⟩ := bind_eq_ok.mp h
  cases pure_eq_ok.mp h
  exact (record_shows hr (Except.ok.inj h₁)).bind (fun hr' => .pure hr' rfl) fun f hf => hf

theorem scalarElement_fault {event : Event} {reader reader' : ReaderState} {r r' : Recorder σ}
    {err : RetCode} {f : Fault} (hr : r.fault = some f)
    (h : scalarElement reader (.ok (record cb event r)) = .ok (err, reader', r')) :
    r'.fault = some f := by
  obtain ⟨⟨err₁, r₁⟩, h₁, h⟩ := bind_eq_ok.mp h
  cases pure_eq_ok.mp h
  exact record_fault hr (Except.ok.inj h₁)

/-- A container: its start, its elements, its end. -/
theorem container_shows {start finish : Event} {loop : ReaderState → σ → Except Fault (ReaderState × σ)}
    {loop' : ReaderState → Recorder σ → Except Fault (ReaderState × Recorder σ)}
    (hshows : ∀ {reader reader' r r'}, r.fault = none → loop' reader r = .ok (reader', r') →
      Shows (loop reader r.state) (fun s => (reader', s)) r')
    (hfault : ∀ {reader reader' r r' f}, r.fault = some f → loop' reader r = .ok (reader', r') →
      r'.fault = some f)
    {reader reader' : ReaderState} {r r' : Recorder σ} {err : RetCode} (hr : r.fault = none)
    (h : (do
      let (err, ctx) ← Except.ok (record cb start r)
      if err ≠ .success then return (err, reader, ctx)
      else do
        let (reader, ctx) ← loop' reader ctx
        scalarElement reader (.ok (record cb finish ctx)) : Except Fault (Parsed (Recorder σ))) =
      .ok (err, reader', r')) :
    Shows (do
      let (err, ctx) ← cb.handle start r.state
      if err ≠ .success then return (err, reader, ctx)
      else do
        let (reader, ctx) ← loop reader ctx
        scalarElement reader (cb.handle finish ctx)) (fun s => (err, reader', s)) r' := by
  obtain ⟨⟨err₁, r₁⟩, h₁, h⟩ := bind_eq_ok.mp h
  dsimp only at h
  refine (record_shows hr (Except.ok.inj h₁)).bind (fun hr₁ => ?_) fun f hf => ?_
  · dsimp only
    split at h
    · next herr =>
        rw [if_pos herr]
        cases pure_eq_ok.mp h
        exact .pure hr₁ rfl
    · next herr =>
        rw [if_neg herr]
        obtain ⟨⟨reader₂, r₂⟩, h₂, h⟩ := bind_eq_ok.mp h
        exact (hshows hr₁ h₂).bind (fun hr₂ => scalarElement_shows hr₂ h)
          fun f hf => scalarElement_fault hf h
  · split at h
    · cases pure_eq_ok.mp h
      exact hf
    · obtain ⟨⟨reader₂, r₂⟩, h₂, h⟩ := bind_eq_ok.mp h
      exact scalarElement_fault (hfault hf h₂) h

end Recorded

/-- The recorded parse is the parse. -/
theorem parseElement_shows : ∀ {levels : Nat} {reader reader' : ReaderState} {r r' : Recorder σ}
    {err : RetCode}, r.fault = none →
      parseElement R (recording cb) levels reader r = .ok (err, reader', r') →
      Shows (parseElement R cb levels reader r.state) (fun s => (err, reader', s)) r' := by
  intro levels
  induction levels with
  | zero =>
      intro reader reader' r r' err hr h
      cases pure_eq_ok.mp h
      exact .pure hr rfl
  | succ levels ih =>
      intro reader reader' r r' err hr h
      have ih : Recorded (parseElement R cb levels) (parseElement R (recording cb) levels) :=
        ⟨ih, parseElement_fault⟩
      rw [parseElement] at h ⊢
      generalize R.mpackReadTag reader = tagged at h ⊢
      obtain ⟨tag, reader⟩ := tagged
      dsimp only at h ⊢
      split at h
      · next hok =>
          rw [if_pos hok]
          cases pure_eq_ok.mp h
          exact .pure hr rfl
      · next hok =>
          rw [if_neg hok]
          cases tag with
          | nil | bool _ | int _ | uint _ | str _ => exact scalarElement_shows hr h
          | array count => exact container_shows (arrayLoop_shows ih) (arrayLoop_fault ih) hr h
          | map count => exact container_shows (mapLoop_shows ih) (mapLoop_fault ih) hr h
          | float _ | double _ | bin _ | ext _ _ =>
              cases pure_eq_ok.mp h
              exact .pure hr rfl

/-! ## The record ends -/

section Ends

variable {element : ReaderState → σ → Except Fault (Parsed σ)}

theorem mapLoop_ends (he : ∀ reader ctx, ∃ p, element reader ctx = .ok p) :
    ∀ (count : Nat) (reader : ReaderState) (ctx : σ), ∃ p, mapLoop element count reader ctx = .ok p := by
  intro count
  induction count with
  | zero =>
      intro reader ctx
      exact ⟨(reader, ctx), rfl⟩
  | succ count ih =>
      intro reader ctx
      obtain ⟨⟨err₁, reader₁, ctx₁⟩, h₁⟩ := he reader ctx
      obtain ⟨⟨err₂, reader₂, ctx₂⟩, h₂⟩ := he reader₁ ctx₁
      rw [mapLoop, h₁]
      show ∃ p, (if err₁ ≠ .success then _ else _) = _
      split
      · exact ⟨_, rfl⟩
      · rw [h₂]
        show ∃ p, (if reader₂.ok = false ∨ err₂ ≠ .success then _ else _) = _
        split
        · exact ⟨_, rfl⟩
        · exact ih reader₂ ctx₂

theorem arrayLoop_ends (he : ∀ reader ctx, ∃ p, element reader ctx = .ok p) :
    ∀ (count : Nat) (reader : ReaderState) (ctx : σ), ∃ p, arrayLoop element count reader ctx = .ok p := by
  intro count
  induction count with
  | zero =>
      intro reader ctx
      exact ⟨(reader, ctx), rfl⟩
  | succ count ih =>
      intro reader ctx
      obtain ⟨⟨err₁, reader₁, ctx₁⟩, h₁⟩ := he reader ctx
      rw [arrayLoop, h₁]
      show ∃ p, (if reader₁.ok = false ∨ err₁ ≠ .success then _ else _) = _
      split
      · exact ⟨_, rfl⟩
      · exact ih reader₁ ctx₁

end Ends

theorem container_ends {start finish : Event} {reader : ReaderState} {r : Recorder σ}
    {loop : ReaderState → Recorder σ → Except Fault (ReaderState × Recorder σ)}
    (hloop : ∀ reader r, ∃ p, loop reader r = .ok p) :
    ∃ p, (do
      let (err, ctx) ← Except.ok (record cb start r)
      if err ≠ .success then return (err, reader, ctx)
      else do
        let (reader, ctx) ← loop reader ctx
        scalarElement reader (.ok (record cb finish ctx)) : Except Fault (Parsed (Recorder σ))) =
      .ok p := by
  generalize record cb start r = started
  obtain ⟨err₁, r₁⟩ := started
  show ∃ p, (if err₁ ≠ .success then _ else _) = _
  split
  · exact ⟨_, rfl⟩
  · obtain ⟨p, hp⟩ := hloop reader r₁
    rw [hp]
    exact ⟨_, rfl⟩

/-- Recording leaves no fault. -/
theorem parseElement_ends : ∀ (levels : Nat) (reader : ReaderState) (r : Recorder σ),
    ∃ p, parseElement R (recording cb) levels reader r = .ok p := by
  intro levels
  induction levels with
  | zero =>
      intro reader r
      exact ⟨_, rfl⟩
  | succ levels ih =>
      intro reader r
      rw [parseElement]
      generalize R.mpackReadTag reader = tagged
      obtain ⟨tag, reader⟩ := tagged
      dsimp only
      split
      · exact ⟨_, rfl⟩
      · cases tag with
        | array count => exact container_ends (arrayLoop_ends ih count)
        | map count => exact container_ends (mapLoop_ends ih count)
        | _ => exact ⟨_, rfl⟩

/-! ## The calls of a parse -/

/-- Nothing done yet. -/
def Recorder.start (s : σ) : Recorder σ := { state := s, made := [], fault := none }

/-- The calls made in parsing `buf` from the context `s`. -/
def madeCalls (R : MpackReader) (cb : Callbacks σ) (buf : List UInt8) (s : σ) : List (Made σ) :=
  match parseElement R (recording cb) 32 (mpackReaderInitData buf) (.start s) with
  | .ok (_, _, r) => r.made
  | .error _ => []

/-- The parse of a whole buffer and its record. -/
theorem parseElement_recorded (R : MpackReader) (cb : Callbacks σ) (buf : List UInt8) (s : σ) :
    ∃ err reader r,
      parseElement R (recording cb) 32 (mpackReaderInitData buf) (.start s) = .ok (err, reader, r) ∧
      madeCalls R cb buf s = r.made ∧
      Shows (parseElement R cb 32 (mpackReaderInitData buf) s) (fun s => (err, reader, s)) r := by
  obtain ⟨⟨err, reader, r⟩, hp⟩ :=
    parseElement_ends (R := R) 32 (mpackReaderInitData buf) (Recorder.start s)
  have hmade : madeCalls R cb buf s = r.made := by
    rw [madeCalls, hp]
  exact ⟨err, reader, r, hp, hmade, parseElement_shows (r := .start s) rfl hp⟩

/-- What the start satisfies and every call preserves holds where the parse ends. -/
theorem recorded_induction {P : Recorder σ → Prop} (R : MpackReader) (buf : List UInt8) {s : σ}
    (hstart : P (.start s)) (hrecord : ∀ event r, P r → P (record cb event r).2) :
    ∃ err reader r, P r ∧ madeCalls R cb buf s = r.made ∧
      Shows (parseElement R cb 32 (mpackReaderInitData buf) s) (fun s => (err, reader, s)) r := by
  obtain ⟨err, reader, r, hp, hmade, hshows⟩ := parseElement_recorded R cb buf s
  have hcb : ∀ event r err r', P r → (recording cb).handle event r = .ok (err, r') → P r' := by
    intro event r err r' hr h
    rw [recording_handle, Except.ok.injEq] at h
    exact (congrArg (fun q => P q.2) h).mp (hrecord event r hr)
  exact ⟨err, reader, r, parseElement_leaves hcb 32 _ _ hstart _ _ _ hp, hmade, hshows⟩

/-- A call made in a context with `I`, if it satisfies `Q`, leaves `I`; then `I` holds
before every call, and where the parse ends, as long as every call satisfies `Q`. -/
theorem parse_invariant {I : σ → Prop} {Q : Made σ → Prop}
    (hcb : ∀ event s err s', I s → Q ⟨event, s⟩ → cb.handle event s = .ok (err, s') → I s')
    {buf : List UInt8} {s : σ} (hs : I s) (hQ : ∀ m ∈ madeCalls R cb buf s, Q m) :
    (∀ m ∈ madeCalls R cb buf s, I m.before) ∧
      ∀ err reader s', parseElement R cb 32 (mpackReaderInitData buf) s = .ok (err, reader, s') →
        I s' := by
  let P : Recorder σ → Prop := fun r =>
    (∀ m ∈ r.made, Q m) → (∀ m ∈ r.made, I m.before) ∧ (r.fault = none → I r.state)
  have hstart : P (.start s) := fun _ => ⟨List.forall_mem_nil _, fun _ => hs⟩
  have hrecord : ∀ event r, P r → P (record cb event r).2 := by
    intro event r hr
    rw [record]
    split
    · exact hr
    · next hnone =>
        dsimp only
        split <;> intro hQ' <;> rw [List.forall_mem_append] at hQ'
        · next err s' hok =>
            obtain ⟨hbefore, hstate⟩ := hr hQ'.1
            refine ⟨?_, fun _ => hcb event r.state err s' (hstate hnone) (hQ'.2 _ List.mem_cons_self) hok⟩
            rw [List.forall_mem_append, List.forall_mem_singleton]
            exact ⟨hbefore, hstate hnone⟩
        · next f hf =>
            obtain ⟨hbefore, hstate⟩ := hr hQ'.1
            refine ⟨?_, fun h => nomatch h⟩
            rw [List.forall_mem_append, List.forall_mem_singleton]
            exact ⟨hbefore, hstate hnone⟩
  obtain ⟨err, reader, r, hr, hmade, hshows⟩ := recorded_induction R buf hstart hrecord
  rw [hmade] at hQ ⊢
  obtain ⟨hbefore, hstate⟩ := hr hQ
  refine ⟨hbefore, fun err' reader' s' h => ?_⟩
  rw [h, Shows] at hshows
  split at hshows
  · next hnone =>
      cases hshows
      exact hstate hnone
  · exact nomatch hshows

/-- The parse faults as one of its calls does. -/
theorem parse_error_iff {buf : List UInt8} {s : σ} {f : Fault} :
    parseElement R cb 32 (mpackReaderInitData buf) s = .error f ↔
      ∃ m ∈ madeCalls R cb buf s, cb.handle m.event m.before = .error f := by
  let P : Recorder σ → Prop := fun r =>
    ∀ f, r.fault = some f ↔ ∃ m ∈ r.made, cb.handle m.event m.before = .error f
  have hstart : P (.start s) := by
    intro f
    constructor
    · exact fun h => nomatch h
    · exact fun ⟨m, hm, _⟩ => nomatch hm
  have hrecord : ∀ event r, P r → P (record cb event r).2 := by
    intro event r hr
    rw [record]
    split
    · exact hr
    · next hnone =>
        have hsound : ∀ m ∈ r.made, ∀ f, cb.handle m.event m.before ≠ .error f := by
          intro m hm f hf
          exact nomatch hnone.symm.trans ((hr f).mpr ⟨m, hm, hf⟩)
        dsimp only
        split
        · next err s' hok =>
            intro f
            constructor
            · exact fun h => nomatch h
            · rintro ⟨m, hm, hf⟩
              rcases List.mem_append.mp hm with hm | hm
              · exact absurd hf (hsound m hm f)
              · cases List.mem_singleton.mp hm
                exact nomatch hok.symm.trans hf
        · next g hg =>
            intro f
            constructor
            · rintro h
              cases h
              exact ⟨_, List.mem_append_right _ List.mem_cons_self, hg⟩
            · rintro ⟨m, hm, hf⟩
              rcases List.mem_append.mp hm with hm | hm
              · exact absurd hf (hsound m hm f)
              · cases List.mem_singleton.mp hm
                cases hg.symm.trans hf
                rfl
  obtain ⟨err, reader, r, hr, hmade, hshows⟩ := recorded_induction R buf hstart hrecord
  rw [hmade, ← hr f]
  unfold Shows at hshows
  split at hshows
  · next hnone =>
      rw [hshows, hnone]
      exact ⟨nofun, nofun⟩
  · next g hg =>
      rw [hshows, hg, Except.error.injEq, Option.some.injEq]

/-! ## What a callback does to the account -/

/-- The account after a call made at `s`. -/
inductive AccountEdit (s : AccountParser) : AccountDetails → Prop
  | keep : AccountEdit s s.account
  | amount (n : Int32) :
      AccountEdit s { s.account with info := { s.account.info with amount := n } }
  | rewards (n : Int32) : AccountEdit s { s.account with rewards := n }
  | rewardBase (n : Int32) : AccountEdit s { s.account with rewardBase := n }
  | entry {a : Fin appsMaxCount} (happ : s.app = .ok a) (app : AppsLocalState) :
      AccountEdit s (s.modifyApp a fun _ => app).account
  | nextEntry : AccountEdit s { s.account with appIdx := s.account.appIdx + 1 }

section Edits

variable {s s' : AccountParser} {err : RetCode}

theorem lookupKey_account {data : Option (List UInt8)} {length : Nat}
    {keys : List (String × ParserAccountStep)} {unknown : RetCode}
    (h : lookupKey s data length keys unknown = .ok (err, s')) : s'.account = s.account := by
  cases data with
  | none => exact absurd h (throw_ne_ok _ _)
  | some data =>
      rw [lookupKey] at h
      split at h <;>
        · cases pure_eq_ok.mp h
          rfl

theorem storeValue_edit {f : AppKeyValue → AppKeyValue} (h : storeValue s f = .ok (err, s')) :
    AccountEdit s s'.account := by
  obtain ⟨a, happ, h⟩ := bind_eq_ok.mp h
  split at h
  · cases pure_eq_ok.mp h
    exact .keep
  · obtain ⟨idx, -, h⟩ := bind_eq_ok.mp h
    cases pure_eq_ok.mp h
    exact .entry happ _

theorem uintElement_edit {value : UInt64} (h : uintElement s value = .ok (err, s')) :
    AccountEdit s s'.account := by
  obtain ⟨step, d⟩ := s
  cases step with
  | algo =>
      cases pure_eq_ok.mp h
      exact .amount _
  | ebase =>
      cases pure_eq_ok.mp h
      exact .rewardBase _
  | ern =>
      cases pure_eq_ok.mp h
      exact .rewards _
  | appl =>
      change (if d.appIdx < appsMaxCount then _ else _) = _ at h
      split at h
      · obtain ⟨a, happ, h⟩ := bind_eq_ok.mp h
        cases pure_eq_ok.mp h
        exact .entry happ _
      · cases pure_eq_ok.mp h
        exact .keep
  | appKvType | appKvValueInt => exact storeValue_edit h
  | _ =>
      cases pure_eq_ok.mp h
      exact .keep

theorem stringElement_edit {data : Option (List UInt8)} {length : Nat}
    (h : stringElement s data length = .ok (err, s')) : AccountEdit s s'.account := by
  obtain ⟨step, d⟩ := s
  cases step with
  | root | applId | appSch | appKvVar | tsch =>
      rw [lookupKey_account h]
      exact .keep
  | appKv =>
      obtain ⟨a, happ, h⟩ := bind_eq_ok.mp h
      obtain ⟨idx, -, h⟩ := bind_eq_ok.mp h
      cases data with
      | none => exact absurd h (throw_ne_ok _ _)
      | some data =>
          cases pure_eq_ok.mp h
          exact .entry happ _
  | _ =>
      cases pure_eq_ok.mp h
      exact .keep

theorem finishMap_edit (h : finishMap s = .ok (err, s')) : AccountEdit s s'.account := by
  obtain ⟨step, d⟩ := s
  cases step with
  | appKvVar =>
      obtain ⟨a, happ, h⟩ := bind_eq_ok.mp h
      cases pure_eq_ok.mp h
      exact .entry happ _
  | applId =>
      cases pure_eq_ok.mp h
      exact .nextEntry
  | _ =>
      cases pure_eq_ok.mp h
      exact .keep

/-- Every callback makes one of the edits. -/
theorem handle_edit {event : Event} (h : accountCallbacks.handle event s = .ok (err, s')) :
    AccountEdit s s'.account := by
  cases event with
  | uint value => exact uintElement_edit h
  | string data length => exact stringElement_edit h
  | finishMap => exact finishMap_edit h
  | nil | bool _ | int _ | startMap _ | startArray _ | finishArray =>
      cases pure_eq_ok.mp h
      exact .keep

end Edits

end Vertices
