/-
# `Vertices.StringCalls` — the strings handed to the account callbacks

`parse_element` reads the tag of a string, then its bytes, and calls `string_element` with
what it got.  Between the two nobody asks the reader: where the bytes are not there the
callback is handed a null pointer, with the length that was declared.
-/
import Vertices.ParseTrace
import Vertices.IndexSafety

namespace Vertices

open MsgPack

/-! ## A call for each string -/

/-- The call that goes with a step: that of a string whose tag is read. -/
def ParseStep.stringCall : ParseStep → Option Event
  | .tagRead (.str length) rest =>
      some (.string (mpackReadBytesInplace ⟨rest, true⟩ length).1 length)
  | _ => none

/-- The calls made for strings. -/
def Recorder.strings {σ : Type} (r : Recorder σ) : List Event :=
  (r.made.map Made.event).filter Event.isString

/-- The reader is in the buffer, so is what follows each tag, and the calls for strings are
those of their tags. -/
structure Located {σ : Type} (buf : List UInt8) (reader : ReaderState) (t : Tracer σ) : Prop where
  reader : reader.rest <:+ buf
  tags : ∀ tag rest, .tagRead tag rest ∈ t.steps → rest <:+ buf
  calls : t.recorder.strings = t.steps.filterMap ParseStep.stringCall

section

variable {σ : Type} {cb : Callbacks σ} {R : MpackReader} {buf : List UInt8}

theorem Located.start (buf : List UInt8) (s : σ) : Located buf (mpackReaderInitData buf) (.start s) where
  reader := List.suffix_rfl
  tags _ _ h := nomatch h
  calls := rfl

theorem Located.rest {reader : ReaderState} {t : Tracer σ} (h : Located buf reader t) (hR : R.Consumes)
    {tag : Tag} {rest : List UInt8} (htag : R.readTag reader.rest = some (tag, rest)) : rest <:+ buf := by
  obtain ⟨b, bs', hbs, hsuffix⟩ := hR _ _ _ htag
  exact (hsuffix.trans (hbs ▸ List.suffix_cons b bs')).trans h.reader

theorem record_strings (event : Event) (r : Recorder σ) : (record cb event r).2.strings =
    if r.fault = none then r.strings ++ [event].filter Event.isString else r.strings := by
  rw [Recorder.strings, record_made]
  split
  · rw [List.map_append, List.filter_append]
    rfl
  · rfl

/-- Steps taken before any fault, with their calls. -/
theorem Located.extend {reader reader' : ReaderState} {t t' : Tracer σ} (h : Located buf reader t)
    (more : List ParseStep) (hreader : reader'.rest <:+ buf)
    (hsteps : t'.steps = if t.recorder.fault = none then t.steps ++ more else t.steps)
    (hmore : ∀ tag rest, .tagRead tag rest ∈ more → rest <:+ buf)
    (hcalls : t'.recorder.strings = if t.recorder.fault = none then
      t.recorder.strings ++ more.filterMap ParseStep.stringCall else t.recorder.strings) :
    Located buf reader' t' := by
  refine ⟨hreader, ?_, ?_⟩
  · intro tag rest hmem
    rw [hsteps] at hmem
    split at hmem
    · rcases List.mem_append.mp hmem with hmem | hmem
      · exact h.tags tag rest hmem
      · exact hmore tag rest hmem
    · exact h.tags tag rest hmem
  · rw [hcalls, hsteps, h.calls]
    split
    · rw [List.filterMap_append]
    · rfl

theorem located_keeps (hR : R.Consumes) : StepsKeep R cb (Located buf) where
  entered {reader reader' t depth} h _ hrest _ := by
    refine h.extend [.entered depth] (hrest ▸ h.reader) (t.steps_note _) ?_ ?_
    · intro tag rest hmem
      cases List.mem_singleton.mp hmem
    · rw [Tracer.note_recorder, List.filterMap_cons_none rfl, List.filterMap_nil, List.append_nil,
        ite_self]
  tag {reader t depth tag rest} h _ hstr _ htag := by
    have hrest := h.rest hR htag
    have hcall : (ParseStep.tagRead tag rest).stringCall = none := by
      cases tag with
      | str length => exact absurd rfl (hstr length)
      | _ => rfl
    refine h.extend [.entered depth, .tagRead tag rest] hrest ?_ ?_ ?_
    · rw [Tracer.steps_note, Tracer.note_recorder, Tracer.steps_note]
      split
      · rw [List.append_assoc, List.singleton_append]
      · rfl
    · intro tag' rest' hmem
      rcases List.mem_cons.mp hmem with hmem | hmem
      · cases hmem
      · cases List.mem_singleton.mp hmem
        exact hrest
    · rw [Tracer.note_recorder, Tracer.note_recorder, List.filterMap_cons_none rfl,
        List.filterMap_cons_none hcall, List.filterMap_nil, List.append_nil, ite_self]
  string {reader t depth length rest} h _ _ htag := by
    have hrest := h.rest hR htag
    let event := Event.string (mpackReadBytesInplace ⟨rest, true⟩ length).1 length
    refine h.extend [.entered depth, .tagRead (.str length) rest, .called depth event]
      ((mpackReadBytesInplace_suffix _ _).trans hrest) ?_ ?_ ?_
    · show (Tracer.note _ _).steps = _
      rw [Tracer.steps_note, Tracer.note_recorder, Tracer.note_recorder, Tracer.steps_note,
        Tracer.note_recorder, Tracer.steps_note]
      split
      · rw [List.append_assoc, List.append_assoc, List.singleton_append, List.singleton_append]
      · rfl
    · intro tag' rest' hmem
      rcases List.mem_cons.mp hmem with hmem | hmem
      · cases hmem
      · rcases List.mem_cons.mp hmem with hmem | hmem
        · cases hmem
          exact hrest
        · cases List.mem_singleton.mp hmem
    · show (record cb event _).2.strings = _
      rw [record_strings, Tracer.note_recorder, Tracer.note_recorder]
      rfl
  call {reader t depth event} h _ hevent := by
    refine h.extend [.called depth event] h.reader (t.steps_note _) ?_ ?_
    · intro tag rest hmem
      cases List.mem_singleton.mp hmem
    · show (record cb event _).2.strings = _
      have hfilter : [event].filter Event.isString = [] := by
        rw [List.filter_cons, hevent]
        rfl
      rw [record_strings, hfilter]
      rfl
  flagError h := ⟨h.reader, h.tags, h.calls⟩

/-- The calls made for strings are those of the tags of strings, which all are in the
buffer. -/
theorem strings_of_steps (cb : Callbacks σ) (hR : R.Consumes) (buf : List UInt8) (s : σ) :
    ((madeCalls R cb buf s).map Made.event).filter Event.isString =
        (parseSteps R cb buf s).filterMap ParseStep.stringCall ∧
      ∀ tag rest, .tagRead tag rest ∈ parseSteps R cb buf s → rest <:+ buf := by
  have hkeeps : StepsKeep R cb (Located buf) := located_keeps hR
  obtain ⟨reader, t, ht, hsteps, hmade⟩ := trace_induction hkeeps (Located.start buf s)
  rw [hsteps, hmade]
  exact ⟨ht.calls, ht.tags⟩

end

/-! ## Strings that exist -/

/-- The steps of a parse of an account. -/
def accountSteps (R : MpackReader) (buf : List UInt8) (d : AccountDetails) : List ParseStep :=
  parseSteps R accountCallbacks buf ⟨.root, d⟩

/-- `data` is `length` bytes of the buffer. -/
def InBuffer (buf : List UInt8) (data : Option (List UInt8)) (length : Nat) : Prop :=
  ∃ off, off + length ≤ buf.length ∧ data = some ((buf.drop off).take length)

/-- Whenever `string_element` is called with a length, there are as many bytes of the buffer
where it is told to look. -/
def StringsExist (R : MpackReader) (buf : List UInt8) (d : AccountDetails) : Prop :=
  ∀ m ∈ accountCalls R buf d, ∀ data length, m.event = .string data length → 0 < length →
    InBuffer buf data length

theorem inBuffer_inplace_iff {buf rest : List UInt8} {length : Nat} (hrest : rest <:+ buf) :
    InBuffer buf (mpackReadBytesInplace ⟨rest, true⟩ length).1 length ↔ length ≤ rest.length := by
  rw [mpackReadBytesInplace, if_pos rfl]
  split
  · next hle =>
      refine iff_of_true ?_ hle
      obtain ⟨before, rfl⟩ := hrest
      have hwithin : before.length + length ≤ (before ++ rest).length := by
        rw [List.length_append]
        exact Nat.add_le_add_left hle _
      exact ⟨before.length, hwithin, by rw [List.drop_left]⟩
  · next hlong =>
      refine iff_of_false ?_ hlong
      rintro ⟨off, -, hdata⟩
      cases hdata

/-- The strings handed to the account callbacks all exist exactly if no string's tag is read
that declares more bytes than are left. -/
theorem strings_exist_iff {R : MpackReader} (hR : R.Consumes) (buf : List UInt8) (d : AccountDetails) :
    StringsExist R buf d ↔
      ∀ length rest, .tagRead (.str length) rest ∈ accountSteps R buf d → length ≤ rest.length := by
  obtain ⟨hcalls, htags⟩ := strings_of_steps accountCallbacks hR buf ⟨.root, d⟩
  constructor
  · intro h length rest hmem
    rcases Nat.eq_zero_or_pos length with rfl | hpos
    · exact Nat.zero_le _
    · have hevent : .string (mpackReadBytesInplace ⟨rest, true⟩ length).1 length ∈
          ((accountCalls R buf d).map Made.event).filter Event.isString := by
        rw [accountCalls, hcalls]
        exact List.mem_filterMap.mpr ⟨_, hmem, rfl⟩
      obtain ⟨m, hm, hevent⟩ := List.mem_map.mp (List.mem_filter.mp hevent).1
      exact (inBuffer_inplace_iff (htags _ _ hmem)).mp (h m hm _ length hevent hpos)
  · intro h m hm data length hevent hpos
    have hmem : .string data length ∈ (parseSteps R accountCallbacks buf ⟨.root, d⟩).filterMap
        ParseStep.stringCall := by
      rw [← hcalls, ← hevent]
      refine List.mem_filter.mpr ⟨List.mem_map_of_mem hm, ?_⟩
      rw [hevent]
      rfl
    obtain ⟨step, hstep, hcall⟩ := List.mem_filterMap.mp hmem
    cases step with
    | tagRead tag rest =>
        cases tag with
        | str declared =>
            cases hcall
            exact (inBuffer_inplace_iff (htags _ _ hstep)).mpr (h _ _ hstep)
        | _ => cases hcall
    | entered _ | called _ _ => cases hcall

/-- A map with one key and its value. -/
def wholeAmount : List UInt8 := [0x81, 0xa4, 0x61, 0x6c, 0x67, 0x6f, 0x05]

theorem strings_exist_iff_whole : StringsExist formatReader wholeAmount .zero := by
  refine (strings_exist_iff formatReader_consumes wholeAmount .zero).mpr ?_
  have hsteps : accountSteps formatReader wholeAmount .zero = [.entered 0,
      .tagRead (.map 1) [0xa4, 0x61, 0x6c, 0x67, 0x6f, 0x05], .called 0 (.startMap 1), .entered 1,
      .tagRead (.str 4) [0x61, 0x6c, 0x67, 0x6f, 0x05],
      .called 1 (.string (some [0x61, 0x6c, 0x67, 0x6f]) 4), .entered 1, .tagRead (.uint 5) [],
      .called 1 (.uint 5), .called 0 .finishMap] := by decide +kernel
  intro length rest hmem
  rw [hsteps] at hmem
  simp only [List.mem_cons, List.not_mem_nil, reduceCtorEq, ParseStep.tagRead.injEq,
    Tag.str.injEq, false_and, or_false, false_or] at hmem
  obtain ⟨rfl, rfl⟩ := hmem
  decide

/-- The same, cut within the key. -/
def cutAmount : List UInt8 := [0x81, 0xa4, 0x61]

/-- The callback is handed a null pointer for the four characters, and reads them. -/
theorem cut_string_is_handed_over :
    (accountCalls formatReader cutAmount .zero).map Made.event = [.startMap 1, .string none 4] ∧
      parserAccountMpack formatReader cutAmount .zero = .error .nullDeref ∧
      ¬ StringsExist formatReader cutAmount .zero := by
  have hcalls : (accountCalls formatReader cutAmount .zero).map Made.event =
      [.startMap 1, .string none 4] := by decide +kernel
  refine ⟨hcalls, by decide +kernel, ?_⟩
  intro h
  have hmem : Event.string none 4 ∈ (accountCalls formatReader cutAmount .zero).map Made.event := by
    rw [hcalls]
    exact List.mem_cons_of_mem _ List.mem_cons_self
  obtain ⟨m, hm, hevent⟩ := List.mem_map.mp hmem
  obtain ⟨off, -, hdata⟩ := h m hm none 4 hevent (by decide)
  cases hdata

end Vertices
