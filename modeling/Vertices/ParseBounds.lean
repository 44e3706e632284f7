/-
# `Vertices.ParseBounds` — how much a parse does

The counts of maps and arrays come from the buffer, and the loops run as many times, unless
the reader is in error when they look.  What bounds them is the buffer: a tag takes a byte
of it, and where none is left the reader is in error for good.

    `TagBound`   the tags that were read, and the bytes still to come
    `Spends`     how often `parse_element` is entered beyond that: an element that fails
                 costs an entry, and one more at each map it is the key in
-/
import Vertices.ParseTrace

namespace Vertices

open MsgPack

/-! ## Counting -/

def ParseStep.isTag : ParseStep → Bool
  | .tagRead _ _ => true
  | .entered _ | .called _ _ => false

def ParseStep.isEntry : ParseStep → Bool
  | .entered _ => true
  | .tagRead _ _ | .called _ _ => false

/-- `parse_element` is entered at most at depth 32, and calls are made above it. -/
def ParseStep.DepthFits : ParseStep → Prop
  | .entered depth => depth ≤ 32
  | .called depth _ => depth < 32
  | .tagRead _ _ => True

section

variable {σ : Type} {cb : Callbacks σ} {R : MpackReader}

/-- The tags that were read. -/
def Tracer.tags (t : Tracer σ) : Nat := t.steps.countP ParseStep.isTag

/-- The times `parse_element` was entered. -/
def Tracer.entries (t : Tracer σ) : Nat := t.steps.countP ParseStep.isEntry

theorem Tracer.tags_note (t : Tracer σ) (step : ParseStep) : (t.note step).tags =
    t.tags + if t.recorder.fault = none ∧ step.isTag = true then 1 else 0 := by
  rw [Tracer.tags, Tracer.steps_note]
  by_cases hf : t.recorder.fault = none
  · simp only [hf, if_true, true_and, List.countP_append, List.countP_singleton, Tracer.tags]
  · simp only [hf, if_false, false_and, Nat.add_zero, Tracer.tags]

theorem Tracer.entries_note (t : Tracer σ) (step : ParseStep) : (t.note step).entries =
    t.entries + if t.recorder.fault = none ∧ step.isEntry = true then 1 else 0 := by
  rw [Tracer.entries, Tracer.steps_note]
  by_cases hf : t.recorder.fault = none
  · simp only [hf, if_true, true_and, List.countP_append, List.countP_singleton, Tracer.entries]
  · simp only [hf, if_false, false_and, Nat.add_zero, Tracer.entries]

theorem Tracer.tags_entered (t : Tracer σ) (depth : Nat) : (t.note (.entered depth)).tags = t.tags := by
  rw [Tracer.tags_note, if_neg fun h => Bool.noConfusion (And.right h), Nat.add_zero]

@[simp] theorem Tracer.tags_call (t : Tracer σ) (depth : Nat) (event : Event) :
    (t.call cb depth event).2.tags = t.tags := by
  show (t.note (.called depth event)).tags = _
  rw [Tracer.tags_note, if_neg fun h => Bool.noConfusion (And.right h), Nat.add_zero]

@[simp] theorem Tracer.entries_call (t : Tracer σ) (depth : Nat) (event : Event) :
    (t.call cb depth event).2.entries = t.entries := by
  show (t.note (.called depth event)).entries = _
  rw [Tracer.entries_note, if_neg fun h => Bool.noConfusion (And.right h), Nat.add_zero]

/-! ## The depth, and the tags -/

/-- The depth is kept to, and a byte is gone for every tag. -/
structure TagBound (n : Nat) (reader : ReaderState) (t : Tracer σ) : Prop where
  tags : t.tags + reader.rest.length ≤ n
  depth : ∀ step ∈ t.steps, step.DepthFits

theorem TagBound.note {n : Nat} {reader reader' : ReaderState} {t : Tracer σ} (h : TagBound n reader t)
    {step : ParseStep} (hstep : step.DepthFits)
    (hrest : reader'.rest.length + (if step.isTag = true then 1 else 0) ≤ reader.rest.length) :
    TagBound n reader' (t.note step) := by
  refine ⟨?_, ?_⟩
  · have htags := h.tags
    rw [Tracer.tags_note]
    by_cases htag : step.isTag = true
    · rw [if_pos htag] at hrest
      split <;> omega
    · rw [if_neg htag] at hrest
      rw [if_neg fun hc => htag hc.2]
      omega
  · intro step' hmem
    rw [Tracer.steps_note] at hmem
    split at hmem
    · rcases List.mem_append.mp hmem with hmem | hmem
      · exact h.depth step' hmem
      · rw [List.mem_singleton.mp hmem]
        exact hstep
    · exact h.depth step' hmem

theorem TagBound.call {n : Nat} {reader reader' : ReaderState} {t : Tracer σ} (h : TagBound n reader t)
    {depth : Nat} (hdepth : depth < 32) (event : Event)
    (hrest : reader'.rest.length ≤ reader.rest.length) :
    TagBound n reader' (t.call cb depth event).2 := by
  have hnote : TagBound n reader' (t.note (.called depth event)) := h.note hdepth hrest
  exact ⟨hnote.tags, hnote.depth⟩

theorem TagBound.read {n : Nat} {reader : ReaderState} {t : Tracer σ} (h : TagBound n reader t)
    (hR : R.Consumes) {depth : Nat} (hdepth : depth < 32) {tag : Tag} {rest : List UInt8}
    (htag : R.readTag reader.rest = some (tag, rest)) :
    TagBound n ⟨rest, true⟩ ((t.note (.entered depth)).note (.tagRead tag rest)) := by
  obtain ⟨b, bs', hbs, hsuffix⟩ := hR _ _ _ htag
  have hentered : TagBound n reader (t.note (.entered depth)) := h.note hdepth.le le_rfl
  refine hentered.note trivial ?_
  have hlen := hsuffix.length_le
  rw [hbs, List.length_cons]
  exact Nat.succ_le_succ hlen

theorem tagBound_keeps (hR : R.Consumes) (n : Nat) : StepsKeep R cb (TagBound n) where
  entered h hdepth hrest _ := h.note hdepth (hrest ▸ le_rfl)
  tag h hdepth _ _ htag := h.read hR hdepth htag
  string h hdepth _ htag := (h.read hR hdepth htag).call hdepth _
    (mpackReadBytesInplace_suffix _ _).length_le
  call h hdepth _ := h.call hdepth _ le_rfl
  flagError h := ⟨h.tags, h.depth⟩

/-! ## The entries -/

/-- From one state of a parse to another the reader does not recover, and there is an entry
for each tag, with `slack` more where the reader is lost on the way. -/
structure Spends (slack : Nat) (reader : ReaderState) (t : Tracer σ) (reader' : ReaderState)
    (t' : Tracer σ) : Prop where
  sticky : reader.ok = false → reader'.ok = false
  entries : t'.entries + t.tags ≤ t.entries + t'.tags +
    if reader'.ok = true then 0 else if reader.ok = true then slack else 1

variable {slack slack' : Nat} {reader reader₁ reader' : ReaderState} {t t₁ t' : Tracer σ}

theorem Spends.mono (h : Spends slack reader t reader' t') (hle : slack ≤ slack') :
    Spends slack' reader t reader' t' := by
  refine ⟨h.sticky, h.entries.trans ?_⟩
  split
  · exact le_rfl
  · split
    · exact Nat.add_le_add_left hle _
    · exact le_rfl

/-- Nothing entered and no tag read. -/
theorem Spends.same (hsticky : reader.ok = false → reader'.ok = false) (hentries : t'.entries = t.entries)
    (htags : t'.tags = t.tags) : Spends slack reader t reader' t' := by
  refine ⟨hsticky, ?_⟩
  rw [hentries, htags]
  exact Nat.le_add_right _ _

/-- The reader is not lost before the second part. -/
theorem Spends.trans (h : Spends slack reader t reader₁ t₁) (h' : Spends slack' reader₁ t₁ reader' t')
    (hok₁ : reader₁.ok = true) (hok : reader.ok = true) : Spends slack' reader t reader' t' := by
  have hfirst := h.entries
  have hsecond := h'.entries
  rw [if_pos hok₁] at hfirst hsecond
  refine ⟨fun hlost => absurd (hlost.symm.trans hok) Bool.noConfusion, ?_⟩
  rw [if_pos hok]
  omega

/-- The reader is lost before the second part, which then is one entry. -/
theorem Spends.trans_lost (h : Spends slack reader t reader₁ t₁)
    (h' : Spends slack' reader₁ t₁ reader' t') (hlost₁ : reader₁.ok = false) (hok : reader.ok = true) :
    Spends (slack + 1) reader t reader' t' := by
  have hlost : reader'.ok = false := h'.sticky hlost₁
  have hfirst := h.entries
  have hsecond := h'.entries
  simp only [hlost₁, hlost, hok, Bool.false_eq_true, if_false, if_true] at hfirst hsecond
  refine ⟨fun hno => absurd (hno.symm.trans hok) Bool.noConfusion, ?_⟩
  simp only [hlost, hok, Bool.false_eq_true, if_false, if_true]
  omega

variable {element : ReaderState → Tracer σ → Except Fault (Parsed (Tracer σ))}

/-- What is asked of parsing an element. -/
def ElementSpends (slack : Nat)
    (element : ReaderState → Tracer σ → Except Fault (Parsed (Tracer σ))) : Prop :=
  ∀ {reader t err reader' t'}, element reader t = .ok (err, reader', t') → Spends slack reader t reader' t'

theorem arrayLoop_spends (he : ElementSpends slack element) {count : Nat} :
    ∀ {reader reader' : ReaderState} {t t' : Tracer σ}, reader.ok = true →
      arrayLoop element count reader t = .ok (reader', t') → Spends slack reader t reader' t' := by
  induction count with
  | zero =>
      intro reader reader' t t' _ h
      cases pure_eq_ok.mp h
      exact .same id rfl rfl
  | succ count ih =>
      intro reader reader' t t' hok h
      rw [arrayLoop] at h
      obtain ⟨⟨err₁, reader₁, t₁⟩, h₁, h⟩ := bind_eq_ok.mp h
      have hfirst := he h₁
      dsimp only at h
      split at h
      · cases pure_eq_ok.mp h
        exact hfirst
      · next hgo =>
          have hok₁ : reader₁.ok = true := Bool.of_not_eq_false fun hlost => hgo (.inl hlost)
          exact hfirst.trans (ih hok₁ h) hok₁ hok

/-- In a map the reader is asked after the value only: a key that loses it costs one entry
more. -/
theorem mapLoop_spends (he : ElementSpends slack element) {count : Nat} :
    ∀ {reader reader' : ReaderState} {t t' : Tracer σ}, reader.ok = true →
      mapLoop element count reader t = .ok (reader', t') → Spends (slack + 1) reader t reader' t' := by
  induction count with
  | zero =>
      intro reader reader' t t' _ h
      cases pure_eq_ok.mp h
      exact .same id rfl rfl
  | succ count ih =>
      intro reader reader' t t' hok h
      rw [mapLoop] at h
      obtain ⟨⟨err₁, reader₁, t₁⟩, h₁, h⟩ := bind_eq_ok.mp h
      have hkey := he h₁
      dsimp only at h
      split at h
      · cases pure_eq_ok.mp h
        exact hkey.mono (Nat.le_succ _)
      · obtain ⟨⟨err₂, reader₂, t₂⟩, h₂, h⟩ := bind_eq_ok.mp h
        have hvalue := he h₂
        have hpair : Spends (slack + 1) reader t reader₂ t₂ := by
          by_cases hok₁ : reader₁.ok = true
          · exact (hkey.trans hvalue hok₁ hok).mono (Nat.le_succ _)
          · exact hkey.trans_lost hvalue (Bool.of_not_eq_true hok₁) hok
        dsimp only at h
        split at h
        · cases pure_eq_ok.mp h
          exact hpair
        · next hgo =>
            have hok₂ : reader₂.ok = true := Bool.of_not_eq_false fun hlost => hgo (.inl hlost)
            exact hpair.trans (ih hok₂ h) hok₂ hok

theorem scalarElement_spends {err : RetCode} {depth : Nat} {event : Event} (hok : reader.ok = true)
    (h : scalarElement reader₁ (.ok (t.call cb depth event)) = .ok (err, reader', t')) :
    Spends slack reader t reader' t' := by
  obtain ⟨⟨err₁, t₁⟩, hcall, h⟩ := bind_eq_ok.mp h
  cases pure_eq_ok.mp h
  have ht : (t.call cb depth event).2 = t' := congrArg Prod.snd (Except.ok.inj hcall)
  refine .same (fun hlost => absurd (hlost.symm.trans hok) Bool.noConfusion) ?_ ?_
  · rw [← ht, Tracer.entries_call]
  · rw [← ht, Tracer.tags_call]

theorem container_spends {start finish : Event} {depth : Nat} {err : RetCode}
    {loop : ReaderState → Tracer σ → Except Fault (ReaderState × Tracer σ)}
    (hloop : ∀ {reader reader' : ReaderState} {t t' : Tracer σ}, reader.ok = true →
      loop reader t = .ok (reader', t') → Spends slack reader t reader' t')
    (hok : reader.ok = true)
    (h : (do
      let (err, t) ← Except.ok (t.call cb depth start)
      if err ≠ .success then return (err, reader, t)
      else do
        let (reader, t) ← loop reader t
        scalarElement reader (.ok (t.call cb depth finish)) : Except Fault (Parsed (Tracer σ))) =
      .ok (err, reader', t')) : Spends slack reader t reader' t' := by
  obtain ⟨⟨err₁, t₁⟩, hcall, h⟩ := bind_eq_ok.mp h
  have ht₁ : (t.call cb depth start).2 = t₁ := congrArg Prod.snd (Except.ok.inj hcall)
  have hstart : Spends slack reader t reader t₁ := by
    refine .same id ?_ ?_
    · rw [← ht₁, Tracer.entries_call]
    · rw [← ht₁, Tracer.tags_call]
  dsimp only at h
  split at h
  · cases pure_eq_ok.mp h
    exact hstart
  · obtain ⟨⟨reader₂, t₂⟩, h₂, h⟩ := bind_eq_ok.mp h
    obtain ⟨⟨err₃, t₃⟩, hcall₃, h⟩ := bind_eq_ok.mp h
    cases pure_eq_ok.mp h
    have ht₃ : (t₂.call cb depth finish).2 = t' := congrArg Prod.snd (Except.ok.inj hcall₃)
    have hinner := hstart.trans (hloop hok h₂) hok hok
    refine ⟨hinner.sticky, ?_⟩
    rw [← ht₃, Tracer.entries_call, Tracer.tags_call]
    exact hinner.entries

/-- Entered with `levels` levels left, `parse_element` spends at most one entry a level, and
its own, beyond those with a tag. -/
theorem traceElement_spends : ∀ (levels depth : Nat),
    ElementSpends (levels + 1) (traceElement R cb levels depth) := by
  intro levels
  induction levels with
  | zero =>
      intro depth reader t err reader' t' h
      cases pure_eq_ok.mp h
      refine ⟨fun _ => rfl, ?_⟩
      rw [Tracer.entries_note, Tracer.tags_entered,
        if_neg (show ¬ reader.flagError.ok = true from Bool.noConfusion)]
      split <;> split <;> omega
  | succ levels ih =>
      intro depth reader t err reader' t' h
      rw [traceElement] at h
      rcases mpackReadTag_cases R reader with ⟨hfailed, -⟩ | ⟨tag, rest, hok, -, hread⟩
      · generalize R.mpackReadTag reader = tagged at hfailed h
        obtain ⟨tag, reader₁⟩ := tagged
        dsimp only at hfailed h
        rw [if_pos hfailed] at h
        cases pure_eq_ok.mp h
        refine ⟨fun _ => hfailed, ?_⟩
        have hlost : ¬ reader'.ok = true := Bool.not_eq_true _ ▸ hfailed
        rw [Tracer.entries_note, Tracer.tags_entered, if_neg hlost]
        split <;> split <;> omega
      · rw [hread] at h
        dsimp only at h
        rw [if_neg Bool.noConfusion] at h
        generalize ht₂ : (t.note (.entered depth)).note (.tagRead tag rest) = t₂ at h
        -- an entry and its tag
        have hown : Spends (levels + 2) reader t ⟨rest, true⟩ t₂ := by
          refine ⟨fun hlost => absurd (hlost.symm.trans hok) Bool.noConfusion, ?_⟩
          rw [← ht₂, Tracer.entries_note, Tracer.entries_note, Tracer.tags_note, Tracer.tags_note,
            Tracer.note_recorder]
          by_cases hf : t.recorder.fault = none
          · simp only [hf, ParseStep.isEntry, ParseStep.isTag, and_self, and_false,
              Bool.false_eq_true, if_true, if_false, Nat.add_zero]
            omega
          · simp only [hf, false_and, if_false, Nat.add_zero]
            omega
        refine hown.trans ?_ rfl hok
        cases tag with
        | nil | bool _ | int _ | uint _ | str _ => exact scalarElement_spends rfl h
        | array count =>
            exact (container_spends (arrayLoop_spends (ih (depth + 1))) rfl h).mono (Nat.le_succ _)
        | map count => exact container_spends (mapLoop_spends (ih (depth + 1))) rfl h
        | float _ | double _ | bin _ | ext _ _ =>
            cases pure_eq_ok.mp h
            exact .same (fun _ => rfl) rfl rfl

end

/-! ## A whole parse -/

/-- Whatever the buffer declares, the parse of an account of `n` bytes comes to its end: it
reads at most `n` tags, enters `parse_element` at most 33 times more, never below depth 32,
and calls nothing for an element that deep. -/
theorem account_parse_bounded {R : MpackReader} (hR : R.Consumes) (buf : List UInt8)
    (d : AccountDetails) :
    ∃ err reader t,
      traceElement R accountCallbacks 32 0 (mpackReaderInitData buf) (.start ⟨.root, d⟩) =
        .ok (err, reader, t) ∧
      Shows (parserAccountMpack R buf d) (fun s => (err, s.account)) t.recorder ∧
      (∀ depth, .entered depth ∈ t.steps → depth ≤ 32) ∧
      (∀ depth event, .called depth event ∈ t.steps → depth < 32) ∧
      t.tags ≤ buf.length ∧ t.entries ≤ buf.length + 33 := by
  obtain ⟨err, reader, t, htrace, -, -, hshows⟩ :=
    traceElement_shows R accountCallbacks buf ⟨.root, d⟩
  have hstart : TagBound buf.length (mpackReaderInitData buf)
      (Tracer.start (⟨.root, d⟩ : AccountParser)) :=
    ⟨(Nat.zero_add _).le, List.forall_mem_nil _⟩
  have hbound := traceElement_keeps (tagBound_keeps hR buf.length) 32 0 _ _ rfl hstart _ _ _ htrace
  have hspends := (traceElement_spends 32 0 htrace).entries
  have htags : t.tags ≤ buf.length := (Nat.le_add_right _ _).trans hbound.tags
  refine ⟨err, reader, t, htrace, ?_, fun depth => hbound.depth _, fun depth event => hbound.depth _,
    htags, ?_⟩
  · exact hshows.bind (fun hnone => .pure hnone rfl) fun f hf => hf
  · have hnothing : (Tracer.start (⟨.root, d⟩ : AccountParser)).entries = 0 := rfl
    have hnone : (Tracer.start (⟨.root, d⟩ : AccountParser)).tags = 0 := rfl
    rw [hnothing, hnone] at hspends
    have hslack : (if reader.ok = true then 0
        else if (mpackReaderInitData buf).ok = true then 32 + 1 else 1) ≤ 33 := by
      split
      · exact Nat.zero_le _
      · exact le_rfl
    omega

/-- A map that declares 4294967295 pairs, and has one. -/
theorem account_parse_bounded_cut : ∃ err reader t,
    traceElement formatReader accountCallbacks 32 0
        (mpackReaderInitData [0xdf, 0xff, 0xff, 0xff, 0xff, 0xa4, 0x61, 0x6c, 0x67, 0x6f, 0x05])
        (.start ⟨.root, .zero⟩) = .ok (err, reader, t) ∧
      t.tags ≤ 11 ∧ t.entries ≤ 44 := by
  obtain ⟨err, reader, t, htrace, -, -, -, htags, hentries⟩ := account_parse_bounded
    formatReader_consumes [0xdf, 0xff, 0xff, 0xff, 0xff, 0xa4, 0x61, 0x6c, 0x67, 0x6f, 0x05] .zero
  exact ⟨err, reader, t, htrace, htags, hentries⟩

end Vertices
