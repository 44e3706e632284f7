/-
# `Vertices.ParseTrace` — a parse, step by step

`parse_element` with a trace: it notes at which depth it is entered, each tag that is
read, with what is left of the buffer behind it, and each call of a callback.  The calls
are recorded as they are in `Vertices.CallRecord`, and a fault ends the trace with them.

    `traceElement_recorded`   forgetting the trace leaves the recorded parse
    `traceElement_keeps`      what every kind of step keeps, the traced parse keeps
-/
import Vertices.RunPairs

namespace Vertices

open MsgPack

/-- What `parse_element` does. -/
inductive ParseStep where
  | entered (depth : Nat)
  | tagRead (tag : Tag) (rest : List UInt8)
  | called (depth : Nat) (event : Event)
  deriving DecidableEq, Repr

/-- The recorder, and the steps so far. -/
structure Tracer (σ : Type) where
  recorder : Recorder σ
  steps : List ParseStep

section Tracing

variable {σ : Type} {R : MpackReader} {cb : Callbacks σ}

/-- Nothing done yet. -/
def Tracer.start (s : σ) : Tracer σ := ⟨.start s, []⟩

/-- One step more, unless there was a fault. -/
def Tracer.note (t : Tracer σ) (step : ParseStep) : Tracer σ :=
  if t.recorder.fault = none then { t with steps := t.steps ++ [step] } else t

/-- The call, noted and recorded. -/
def Tracer.call (cb : Callbacks σ) (depth : Nat) (event : Event) (t : Tracer σ) : RetCode × Tracer σ :=
  ((record cb event t.recorder).1,
    { t.note (.called depth event) with recorder := (record cb event t.recorder).2 })

/-- The callbacks for the elements at `depth`. -/
def tracing (cb : Callbacks σ) (depth : Nat) : Callbacks (Tracer σ) where
  nilElement t := .ok (t.call cb depth .nil)
  boolElement t b := .ok (t.call cb depth (.bool b))
  intElement t i := .ok (t.call cb depth (.int i))
  uintElement t value := .ok (t.call cb depth (.uint value))
  stringElement t data length := .ok (t.call cb depth (.string data length))
  startMap t count := .ok (t.call cb depth (.startMap count))
  startArray t count := .ok (t.call cb depth (.startArray count))
  finishMap t := .ok (t.call cb depth .finishMap)
  finishArray t := .ok (t.call cb depth .finishArray)

/-- `parse_element` at `depth`, with `levels` levels left, and its trace. -/
def traceElement (R : MpackReader) (cb : Callbacks σ) :
    Nat → Nat → ReaderState → Tracer σ → Except Fault (Parsed (Tracer σ))
  | 0, depth, reader, t => return (.success, reader.flagError, t.note (.entered depth))
  | levels + 1, depth, reader, t =>
      let (tag, reader) := R.mpackReadTag reader
      let t := t.note (.entered depth)
      if reader.ok = false then return (.success, reader, t)
      else switchTag (tracing cb depth) (traceElement R cb levels (depth + 1)) tag reader
        (t.note (.tagRead tag reader.rest))

@[simp] theorem Tracer.note_recorder (t : Tracer σ) (step : ParseStep) :
    (t.note step).recorder = t.recorder := by
  rw [Tracer.note]
  split
  · rfl
  · rfl

theorem tracing_handle (depth : Nat) (event : Event) (t : Tracer σ) :
    (tracing cb depth).handle event t = .ok (t.call cb depth event) := by
  cases event <;> rfl

end Tracing

/-! ## Without the trace -/

section

variable {σ : Type} {R : MpackReader} {cb : Callbacks σ}

/-- Without its trace, the traced parse is the recorded parse. -/
theorem traceElement_recorded : ∀ (levels depth : Nat) (reader : ReaderState) (t : Tracer σ),
    parseElement R (recording cb) levels reader t.recorder =
      (traceElement R cb levels depth reader t).map (throughParsed Tracer.recorder) := by
  intro levels
  induction levels with
  | zero =>
      intro depth reader t
      show Except.ok (RetCode.success, reader.flagError, t.recorder) =
        .ok (.success, reader.flagError, (t.note (.entered depth)).recorder)
      rw [Tracer.note_recorder]
  | succ levels ih =>
      intro depth reader t
      rw [parseElement, traceElement]
      generalize R.mpackReadTag reader = tagged
      obtain ⟨tag, reader⟩ := tagged
      dsimp only
      split
      · show Except.ok (RetCode.success, reader, t.recorder) =
          .ok (.success, reader, (t.note (.entered depth)).recorder)
        rw [Tracer.note_recorder]
      · have hcb : ∀ event (c : Tracer σ), (recording cb).handle event c.recorder =
            ((tracing cb depth).handle event c).map fun q => (q.1, q.2.recorder) := by
          intro event c
          rw [recording_handle, tracing_handle]
          rfl
        have hswitch := switchTag_through hcb (ih (depth + 1)) tag reader
          ((t.note (.entered depth)).note (.tagRead tag reader.rest))
        rw [Tracer.note_recorder, Tracer.note_recorder] at hswitch
        exact hswitch

theorem traceElement_ends (levels depth : Nat) (reader : ReaderState) (t : Tracer σ) :
    ∃ err reader' t', traceElement R cb levels depth reader t = .ok (err, reader', t') := by
  have hrecorded : parseElement R (recording cb) levels reader t.recorder =
      (traceElement R cb levels depth reader t).map (throughParsed Tracer.recorder) :=
    traceElement_recorded levels depth reader t
  obtain ⟨p, hp⟩ : ∃ p, parseElement R (recording cb) levels reader t.recorder = .ok p :=
    parseElement_ends levels reader t.recorder
  rw [hp] at hrecorded
  cases htrace : traceElement R cb levels depth reader t with
  | error f =>
      rw [htrace] at hrecorded
      cases hrecorded
  | ok q => exact ⟨q.1, q.2.1, q.2.2, rfl⟩

end

/-! ## What every step keeps -/

section StepsKeep

variable {σ : Type} {R : MpackReader} {cb : Callbacks σ} {I : ReaderState → Tracer σ → Prop}

/-- The steps of `parse_element` keep `I`: an element that is no more than entered, one whose
tag is read, with its string if it is one, any other call, and an error of the reader. -/
structure StepsKeep (R : MpackReader) (cb : Callbacks σ) (I : ReaderState → Tracer σ → Prop) : Prop where
  entered {reader reader' : ReaderState} {t : Tracer σ} {depth : Nat} :
    I reader t → depth ≤ 32 → reader'.rest = reader.rest → reader'.ok = false →
      I reader' (t.note (.entered depth))
  tag {reader : ReaderState} {t : Tracer σ} {depth : Nat} {tag : Tag} {rest : List UInt8} :
    I reader t → depth < 32 → (∀ length, tag ≠ .str length) →
      reader.ok = true → R.readTag reader.rest = some (tag, rest) →
      I ⟨rest, true⟩ ((t.note (.entered depth)).note (.tagRead tag rest))
  string {reader : ReaderState} {t : Tracer σ} {depth length : Nat} {rest : List UInt8} :
    I reader t → depth < 32 → reader.ok = true → R.readTag reader.rest = some (.str length, rest) →
      I (mpackReadBytesInplace ⟨rest, true⟩ length).2
        (((t.note (.entered depth)).note (.tagRead (.str length) rest)).call cb depth
          (.string (mpackReadBytesInplace ⟨rest, true⟩ length).1 length)).2
  call {reader : ReaderState} {t : Tracer σ} {depth : Nat} {event : Event} :
    I reader t → depth < 32 → event.isString = false → I reader (t.call cb depth event).2
  flagError {reader : ReaderState} {t : Tracer σ} : I reader t → I reader.flagError t

theorem mpackReadTag_cases (R : MpackReader) (reader : ReaderState) :
    ((R.mpackReadTag reader).2.ok = false ∧ (R.mpackReadTag reader).2.rest = reader.rest) ∨
      ∃ tag rest, reader.ok = true ∧ R.readTag reader.rest = some (tag, rest) ∧
        R.mpackReadTag reader = (tag, ⟨rest, true⟩) := by
  rw [MpackReader.mpackReadTag]
  split
  · next hok =>
      split
      · next tag rest htag => exact .inr ⟨tag, rest, hok, htag, by rw [hok]⟩
      · exact .inl ⟨rfl, rfl⟩
  · next hok => exact .inl ⟨Bool.not_eq_true _ ▸ hok, rfl⟩

theorem mpackReadBytesInplace_suffix (reader : ReaderState) (count : Nat) :
    (mpackReadBytesInplace reader count).2.rest <:+ reader.rest := by
  rw [mpackReadBytesInplace]
  split
  · split
    · exact List.drop_suffix _ _
    · exact List.suffix_rfl
  · exact List.suffix_rfl

/-- A traced parse keeps what its steps keep. -/
theorem traceElement_keeps (hI : StepsKeep R cb I) : ∀ (levels depth : Nat) (reader : ReaderState)
    (t : Tracer σ), depth + levels = 32 → I reader t →
      LeavesAt I (traceElement R cb levels depth reader t) := by
  intro levels
  induction levels with
  | zero =>
      intro depth reader t hdepth hstart err reader' t' h
      cases pure_eq_ok.mp h
      exact hI.entered hstart hdepth.le rfl rfl
  | succ levels ih =>
      intro depth reader t hdepth hstart
      have hlt : depth < 32 := by omega
      have ih : ∀ reader t, I reader t → LeavesAt I (traceElement R cb levels (depth + 1) reader t) :=
        fun reader t => ih (depth + 1) reader t (by omega)
      have hcalled : ∀ event, event.isString = false → ∀ {reader : ReaderState} {t : Tracer σ}
          {err : RetCode} {t' : Tracer σ}, I reader t →
          Except.ok (t.call cb depth event) = Except.ok (ε := Fault) (err, t') → I reader t' := by
        intro event hevent reader t err t' ht hcall
        have hkept := hI.call ht hlt hevent
        rw [Except.ok.inj hcall] at hkept
        exact hkept
      rw [traceElement]
      rcases mpackReadTag_cases R reader with ⟨hfailed, hrest⟩ | ⟨tag, rest, hok, htag, hread⟩
      · generalize R.mpackReadTag reader = tagged at hfailed hrest ⊢
        obtain ⟨tag, reader₁⟩ := tagged
        dsimp only at hfailed hrest ⊢
        rw [if_pos hfailed]
        intro err reader' t' h
        cases pure_eq_ok.mp h
        exact hI.entered hstart hlt.le hrest hfailed
      · rw [hread]
        dsimp only
        rw [if_neg Bool.noConfusion]
        cases tag with
        | str length =>
            refine scalarElement_keeps fun err t' hcall => ?_
            cases hcall
            exact hI.string hstart hlt hok htag
        | nil | bool _ | int _ | uint _ =>
            have htaken := hI.tag hstart hlt (fun _ => Tag.noConfusion) hok htag
            exact scalarElement_keeps fun err t' => hcalled _ rfl htaken
        | array count =>
            have htaken := hI.tag hstart hlt (fun _ => Tag.noConfusion) hok htag
            exact container_keeps (hcalled (.startArray count) rfl) (arrayLoop_keeps ih)
              (hcalled .finishArray rfl) htaken
        | map count =>
            have htaken := hI.tag hstart hlt (fun _ => Tag.noConfusion) hok htag
            exact container_keeps (hcalled (.startMap count) rfl) (mapLoop_keeps ih)
              (hcalled .finishMap rfl) htaken
        | float _ | double _ | bin _ | ext _ _ =>
            have htaken := hI.tag hstart hlt (fun _ => Tag.noConfusion) hok htag
            intro err reader' t' h
            cases pure_eq_ok.mp h
            exact hI.flagError htaken

end StepsKeep

/-! ## The steps of a parse -/

section Steps

variable {σ : Type} {R : MpackReader} {cb : Callbacks σ}

/-- The steps made in parsing `buf` from the context `s`. -/
def parseSteps (R : MpackReader) (cb : Callbacks σ) (buf : List UInt8) (s : σ) : List ParseStep :=
  match traceElement R cb 32 0 (mpackReaderInitData buf) (.start s) with
  | .ok (_, _, t) => t.steps
  | .error _ => []

/-- The parse of a whole buffer, its record and its trace. -/
theorem traceElement_shows (R : MpackReader) (cb : Callbacks σ) (buf : List UInt8) (s : σ) :
    ∃ err reader t,
      traceElement R cb 32 0 (mpackReaderInitData buf) (.start s) = .ok (err, reader, t) ∧
      parseSteps R cb buf s = t.steps ∧ madeCalls R cb buf s = t.recorder.made ∧
      Shows (parseElement R cb 32 (mpackReaderInitData buf) s) (fun s => (err, reader, s))
        t.recorder := by
  obtain ⟨err, reader, t, htrace⟩ : ∃ err reader t,
      traceElement R cb 32 0 (mpackReaderInitData buf) (.start s) = .ok (err, reader, t) :=
    traceElement_ends 32 0 (mpackReaderInitData buf) (.start s)
  obtain ⟨err', reader', r, hparse, hmade, hshows⟩ := parseElement_recorded R cb buf s
  have hrecorded : parseElement R (recording cb) 32 (mpackReaderInitData buf) (Tracer.start s).recorder =
      (traceElement R cb 32 0 (mpackReaderInitData buf) (.start s)).map
        (throughParsed Tracer.recorder) :=
    traceElement_recorded 32 0 (mpackReaderInitData buf) (.start s)
  rw [htrace, show (Tracer.start s).recorder = .start s from rfl, hparse] at hrecorded
  cases hrecorded
  have hsteps : parseSteps R cb buf s = t.steps := by
    rw [parseSteps, htrace]
  exact ⟨err, reader, t, htrace, hsteps, hmade, hshows⟩

/-- What the start satisfies and every step keeps holds where the parse ends. -/
theorem trace_induction {I : ReaderState → Tracer σ → Prop} (hI : StepsKeep R cb I) {buf : List UInt8}
    {s : σ} (hstart : I (mpackReaderInitData buf) (.start s)) :
    ∃ reader t, I reader t ∧ parseSteps R cb buf s = t.steps ∧
      madeCalls R cb buf s = t.recorder.made := by
  obtain ⟨err, reader, t, htrace, hsteps, hmade, -⟩ := traceElement_shows R cb buf s
  exact ⟨reader, t, traceElement_keeps hI 32 0 _ _ rfl hstart _ _ _ htrace, hsteps, hmade⟩

theorem Tracer.steps_note (t : Tracer σ) (step : ParseStep) :
    (t.note step).steps = if t.recorder.fault = none then t.steps ++ [step] else t.steps := by
  rw [Tracer.note]
  split
  · rfl
  · rfl

theorem record_made (event : Event) (r : Recorder σ) :
    (record cb event r).2.made = if r.fault = none then r.made ++ [⟨event, r.state⟩] else r.made := by
  rw [record]
  split
  · next f hf =>
      rw [hf, if_neg (Option.some_ne_none f)]
  · next hnone =>
      rw [hnone, if_pos rfl]
      dsimp only
      split
      · rfl
      · rfl

end Steps

end Vertices
