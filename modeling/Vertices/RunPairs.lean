/-
# `Vertices.RunPairs` — two parses of one buffer

The same buffer, parsed from two contexts.  Where the callbacks do the same with both,
up to a change of the context, so does the parse.  Where they do so only until the second
run is lost, the parse leaves it lost, or the two side by side.

| | |
| :-- | :-- |
| `throughParsed φ` | the outcome of an element, seen through a map of the contexts |
| `Commutes f` | every callback commutes with `f`, a change of the context |
| `Lockstep rel lost` | every callback takes `rel` to `rel` with the same code, or the second context to a lost one |
| `Simulates rel` | what a callback returns, another that knows less of the context returns too |
-/
import Vertices.CallRecord

namespace Vertices

open MsgPack

variable {σ : Type} {R : MpackReader} {cb : Callbacks σ}

/-! ## Contexts that hold more than another -/

section Context

variable {τ : Type} {φ : τ → σ}

/-- What parsing an element yields, seen through `φ`. -/
def throughParsed (φ : τ → σ) (p : Parsed τ) : Parsed σ := (p.1, p.2.1, φ p.2.2)

variable {element : ReaderState → σ → Except Fault (Parsed σ)}
  {element' : ReaderState → τ → Except Fault (Parsed τ)}

theorem arrayLoop_through
    (he : ∀ reader c, element reader (φ c) = (element' reader c).map (throughParsed φ)) :
    ∀ (count : Nat) (reader : ReaderState) (c : τ), arrayLoop element count reader (φ c) =
      (arrayLoop element' count reader c).map fun p => (p.1, φ p.2) := by
  intro count
  induction count with
  | zero =>
      intro reader c
      rfl
  | succ count ih =>
      intro reader c
      rw [arrayLoop, arrayLoop, he]
      cases element' reader c with
      | error f => rfl
      | ok p =>
          obtain ⟨err, reader₁, c₁⟩ := p
          show (if reader₁.ok = false ∨ err ≠ .success then _ else _) =
            Except.map _ (if reader₁.ok = false ∨ err ≠ .success then _ else _)
          split
          · rfl
          · exact ih reader₁ c₁

theorem mapLoop_through
    (he : ∀ reader c, element reader (φ c) = (element' reader c).map (throughParsed φ)) :
    ∀ (count : Nat) (reader : ReaderState) (c : τ), mapLoop element count reader (φ c) =
      (mapLoop element' count reader c).map fun p => (p.1, φ p.2) := by
  intro count
  induction count with
  | zero =>
      intro reader c
      rfl
  | succ count ih =>
      intro reader c
      rw [mapLoop, mapLoop, he]
      cases element' reader c with
      | error f => rfl
      | ok p =>
          obtain ⟨err, reader₁, c₁⟩ := p
          show (if err ≠ .success then _ else element reader₁ (φ c₁) >>= _) =
            Except.map _ (if err ≠ .success then _ else _)
          split
          · rfl
          · rw [he]
            cases element' reader₁ c₁ with
            | error f => rfl
            | ok p =>
                obtain ⟨err₂, reader₂, c₂⟩ := p
                show (if reader₂.ok = false ∨ err₂ ≠ .success then _ else _) =
                  Except.map _ (if reader₂.ok = false ∨ err₂ ≠ .success then _ else _)
                split
                · rfl
                · exact ih reader₂ c₂

theorem scalarElement_through {reader : ReaderState} {result : Except Fault (RetCode × σ)}
    {result' : Except Fault (RetCode × τ)} (h : result = result'.map fun q => (q.1, φ q.2)) :
    scalarElement reader result = (scalarElement reader result').map (throughParsed φ) := by
  rw [h]
  cases result' with
  | error f => rfl
  | ok q => rfl

theorem container_through {start finish : σ → Except Fault (RetCode × σ)}
    {start' finish' : τ → Except Fault (RetCode × τ)}
    {loop : ReaderState → σ → Except Fault (ReaderState × σ)}
    {loop' : ReaderState → τ → Except Fault (ReaderState × τ)}
    (hstart : ∀ c, start (φ c) = (start' c).map fun q => (q.1, φ q.2))
    (hloop : ∀ reader c, loop reader (φ c) = (loop' reader c).map fun p => (p.1, φ p.2))
    (hfinish : ∀ c, finish (φ c) = (finish' c).map fun q => (q.1, φ q.2))
    (reader : ReaderState) (c : τ) :
    (do
      let (err, ctx) ← start (φ c)
      if err ≠ .success then return (err, reader, ctx)
      else do
        let (reader, ctx) ← loop reader ctx
        scalarElement reader (finish ctx)) =
      Except.map (throughParsed φ) (do
        let (err, ctx) ← start' c
        if err ≠ .success then return (err, reader, ctx)
        else do
          let (reader, ctx) ← loop' reader ctx
          scalarElement reader (finish' ctx)) := by
  rw [hstart]
  cases start' c with
  | error f => rfl
  | ok q =>
      obtain ⟨err, c₁⟩ := q
      show (if err ≠ .success then _ else loop reader (φ c₁) >>= _) =
        Except.map _ (if err ≠ .success then _ else _)
      split
      · rfl
      · rw [hloop]
        cases loop' reader c₁ with
        | error f => rfl
        | ok p => exact scalarElement_through (hfinish p.2)

theorem switchTag_through {cb : Callbacks σ} {cb' : Callbacks τ}
    (hcb : ∀ event c, cb.handle event (φ c) = (cb'.handle event c).map fun q => (q.1, φ q.2))
    (he : ∀ reader c, element reader (φ c) = (element' reader c).map (throughParsed φ))
    (tag : Tag) (reader : ReaderState) (c : τ) :
    switchTag cb element tag reader (φ c) =
      (switchTag cb' element' tag reader c).map (throughParsed φ) := by
  cases tag with
  | nil => exact scalarElement_through (hcb .nil c)
  | bool b => exact scalarElement_through (hcb (.bool b) c)
  | int i => exact scalarElement_through (hcb (.int i) c)
  | uint n => exact scalarElement_through (hcb (.uint (UInt64.ofNat n)) c)
  | str length =>
      exact scalarElement_through (hcb (.string (mpackReadBytesInplace reader length).1 length) c)
  | array count =>
      exact container_through (hcb (.startArray count)) (arrayLoop_through he count)
        (hcb .finishArray) reader c
  | map count =>
      exact container_through (hcb (.startMap count)) (mapLoop_through he count)
        (hcb .finishMap) reader c
  | float _ | double _ | bin _ | ext _ _ => rfl

/-- What every callback does to the contexts of both kinds, a whole element does. -/
theorem parseElement_through {cb : Callbacks σ} {cb' : Callbacks τ}
    (hcb : ∀ event c, cb.handle event (φ c) = (cb'.handle event c).map fun q => (q.1, φ q.2)) :
    ∀ (levels : Nat) (reader : ReaderState) (c : τ), parseElement R cb levels reader (φ c) =
      (parseElement R cb' levels reader c).map (throughParsed φ) := by
  intro levels
  induction levels with
  | zero =>
      intro reader c
      rfl
  | succ levels ih =>
      intro reader c
      rw [parseElement, parseElement]
      generalize R.mpackReadTag reader = tagged
      obtain ⟨tag, reader⟩ := tagged
      dsimp only
      split
      · rfl
      · exact switchTag_through hcb ih tag reader c

end Context

/-! ## A context, changed -/

section Changed

variable {f : σ → σ}

/-- Every callback does the same with the changed context. -/
def Commutes (cb : Callbacks σ) (f : σ → σ) : Prop :=
  ∀ event s, cb.handle event (f s) = (cb.handle event s).map fun r => (r.1, f r.2)

/-- The outcome of an element, with its context changed. -/
def changed (f : σ → σ) (result : Except Fault (Parsed σ)) : Except Fault (Parsed σ) :=
  result.map fun r => (r.1, r.2.1, f r.2.2)

/-- What every callback does the same with, a whole element does. -/
theorem parseElement_changed (h : Commutes cb f) : ∀ (levels : Nat) (reader : ReaderState) (s : σ),
    parseElement R cb levels reader (f s) = changed f (parseElement R cb levels reader s) :=
  parseElement_through h

end Changed

/-! ## Two contexts side by side -/

section SideBySide

variable {rel : σ → σ → Prop} {lost : σ → Prop}

/-- From related contexts every callback returns the same code and related contexts, or
the second is lost; and the lost stay lost.  A callback may also fault. -/
structure Lockstep (cb : Callbacks σ) (rel : σ → σ → Prop) (lost : σ → Prop) : Prop where
  together : ∀ event s t err s' err' t', rel s t → cb.handle event s = .ok (err, s') →
    cb.handle event t = .ok (err', t') → (err = err' ∧ rel s' t') ∨ lost t'
  lost : ∀ event t err t', lost t → cb.handle event t = .ok (err, t') → lost t'

/-- The outcomes of an element in the two runs. -/
def Abreast (rel : σ → σ → Prop) (lost : σ → Prop) (result result' : Except Fault (Parsed σ)) :
    Prop :=
  ∀ err reader s err' reader' t, result = .ok (err, reader, s) → result' = .ok (err', reader', t) →
    (err = err' ∧ reader = reader' ∧ rel s t) ∨ lost t

/-- The outcomes of a loop in the two runs. -/
def LoopAbreast (rel : σ → σ → Prop) (lost : σ → Prop)
    (loop : ReaderState → σ → Except Fault (ReaderState × σ)) : Prop :=
  ∀ reader s t reader₁ s' reader₂ t', rel s t → loop reader s = .ok (reader₁, s') →
    loop reader t = .ok (reader₂, t') → (reader₁ = reader₂ ∧ rel s' t') ∨ lost t'

theorem scalarElement_abreast (event : Event) {reader : ReaderState} {s t : σ}
    (h : Lockstep cb rel lost) (hst : rel s t) :
    Abreast rel lost (scalarElement reader (cb.handle event s))
      (scalarElement reader (cb.handle event t)) := by
  intro err reader₁ s' err' reader₂ t' hs ht
  obtain ⟨⟨e₁, s₁⟩, hs₁, hs⟩ := bind_eq_ok.mp hs
  obtain ⟨⟨e₂, t₁⟩, ht₁, ht⟩ := bind_eq_ok.mp ht
  cases pure_eq_ok.mp hs
  cases pure_eq_ok.mp ht
  rcases h.together event s t _ _ _ _ hst hs₁ ht₁ with ⟨he, hrel⟩ | hlost
  · exact .inl ⟨he, rfl, hrel⟩
  · exact .inr hlost

variable {element : ReaderState → σ → Except Fault (Parsed σ)}

/-- An element that keeps the two runs together, and the lost run lost. -/
structure ElementAbreast (rel : σ → σ → Prop) (lost : σ → Prop)
    (element : ReaderState → σ → Except Fault (Parsed σ)) : Prop where
  together : ∀ reader s t, rel s t → Abreast rel lost (element reader s) (element reader t)
  lost : ∀ reader t, lost t → Leaves lost (element reader t)

theorem arrayLoop_abreast (he : ElementAbreast rel lost element) :
    ∀ count, LoopAbreast rel lost (arrayLoop element count) := by
  intro count
  induction count with
  | zero =>
      intro reader s t reader₁ s' reader₂ t' hst hs ht
      cases pure_eq_ok.mp hs
      cases pure_eq_ok.mp ht
      exact .inl ⟨rfl, hst⟩
  | succ count ih =>
      intro reader s t reader₁ s' reader₂ t' hst hs ht
      rw [arrayLoop] at hs ht
      obtain ⟨⟨e₁, r₁, s₁⟩, hs₁, hs⟩ := bind_eq_ok.mp hs
      obtain ⟨⟨e₂, r₂, t₁⟩, ht₁, ht⟩ := bind_eq_ok.mp ht
      dsimp only at hs ht
      rcases he.together reader s t hst _ _ _ _ _ _ hs₁ ht₁ with ⟨rfl, rfl, hrel⟩ | hlost
      · split at hs
        · next hstop =>
            rw [if_pos hstop] at ht
            cases pure_eq_ok.mp hs
            cases pure_eq_ok.mp ht
            exact .inl ⟨rfl, hrel⟩
        · next hgo =>
            rw [if_neg hgo] at ht
            exact ih _ _ _ _ _ _ _ hrel hs ht
      · right
        split at ht
        · cases pure_eq_ok.mp ht
          exact hlost
        · exact arrayLoop_leaves he.lost hlost ht

theorem mapLoop_abreast (he : ElementAbreast rel lost element) :
    ∀ count, LoopAbreast rel lost (mapLoop element count) := by
  intro count
  induction count with
  | zero =>
      intro reader s t reader₁ s' reader₂ t' hst hs ht
      cases pure_eq_ok.mp hs
      cases pure_eq_ok.mp ht
      exact .inl ⟨rfl, hst⟩
  | succ count ih =>
      intro reader s t reader₁ s' reader₂ t' hst hs ht
      rw [mapLoop] at hs ht
      obtain ⟨⟨e₁, r₁, s₁⟩, hs₁, hs⟩ := bind_eq_ok.mp hs
      obtain ⟨⟨e₂, r₂, t₁⟩, ht₁, ht⟩ := bind_eq_ok.mp ht
      dsimp only at hs ht
      rcases he.together reader s t hst _ _ _ _ _ _ hs₁ ht₁ with ⟨rfl, rfl, hrel⟩ | hlost
      · split at hs
        · next hstop =>
            rw [if_pos hstop] at ht
            cases pure_eq_ok.mp hs
            cases pure_eq_ok.mp ht
            exact .inl ⟨rfl, hrel⟩
        · next hgo =>
            rw [if_neg hgo] at ht
            obtain ⟨⟨e₃, r₃, s₂⟩, hs₂, hs⟩ := bind_eq_ok.mp hs
            obtain ⟨⟨e₄, r₄, t₂⟩, ht₂, ht⟩ := bind_eq_ok.mp ht
            dsimp only at hs ht
            rcases he.together _ _ _ hrel _ _ _ _ _ _ hs₂ ht₂ with ⟨rfl, rfl, hrel₂⟩ | hlost
            · split at hs
              · next hstop =>
                  rw [if_pos hstop] at ht
                  cases pure_eq_ok.mp hs
                  cases pure_eq_ok.mp ht
                  exact .inl ⟨rfl, hrel₂⟩
              · next hgo =>
                  rw [if_neg hgo] at ht
                  exact ih _ _ _ _ _ _ _ hrel₂ hs ht
            · right
              split at ht
              · cases pure_eq_ok.mp ht
                exact hlost
              · exact mapLoop_leaves he.lost hlost ht
      · right
        split at ht
        · cases pure_eq_ok.mp ht
          exact hlost
        · obtain ⟨⟨e₄, r₄, t₂⟩, ht₂, ht⟩ := bind_eq_ok.mp ht
          have hlost₂ := he.lost _ _ hlost _ _ _ ht₂
          dsimp only at ht
          split at ht
          · cases pure_eq_ok.mp ht
            exact hlost₂
          · exact mapLoop_leaves he.lost hlost₂ ht

theorem container_abreast (start finish : Event) {reader : ReaderState} {s t : σ}
    {loop : ReaderState → σ → Except Fault (ReaderState × σ)} (h : Lockstep cb rel lost)
    (hloop : LoopAbreast rel lost loop)
    (hlost : ∀ {reader reader' t t'}, lost t → loop reader t = .ok (reader', t') → lost t')
    (hst : rel s t) :
    Abreast rel lost
      (do
        let (err, ctx) ← cb.handle start s
        if err ≠ .success then return (err, reader, ctx)
        else do
          let (reader, ctx) ← loop reader ctx
          scalarElement reader (cb.handle finish ctx))
      (do
        let (err, ctx) ← cb.handle start t
        if err ≠ .success then return (err, reader, ctx)
        else do
          let (reader, ctx) ← loop reader ctx
          scalarElement reader (cb.handle finish ctx)) := by
  intro err reader₁ s' err' reader₂ t' hs ht
  obtain ⟨⟨e₁, s₁⟩, hs₁, hs⟩ := bind_eq_ok.mp hs
  obtain ⟨⟨e₂, t₁⟩, ht₁, ht⟩ := bind_eq_ok.mp ht
  dsimp only at hs ht
  have hfinish : ∀ {reader t}, lost t → Leaves lost (scalarElement reader (cb.handle finish t)) :=
    fun hl => scalarElement_keeps (I := fun _ => lost) fun err ctx => h.lost finish _ err ctx hl
  rcases h.together start s t _ _ _ _ hst hs₁ ht₁ with ⟨rfl, hrel⟩ | hl
  · split at hs
    · next herr =>
        rw [if_pos herr] at ht
        cases pure_eq_ok.mp hs
        cases pure_eq_ok.mp ht
        exact .inl ⟨rfl, rfl, hrel⟩
    · next herr =>
        rw [if_neg herr] at ht
        obtain ⟨⟨r₁, s₂⟩, hs₂, hs⟩ := bind_eq_ok.mp hs
        obtain ⟨⟨r₂, t₂⟩, ht₂, ht⟩ := bind_eq_ok.mp ht
        dsimp only at hs ht
        rcases hloop _ _ _ _ _ _ _ hrel hs₂ ht₂ with ⟨rfl, hrel₂⟩ | hl
        · exact scalarElement_abreast finish h hrel₂ _ _ _ _ _ _ hs ht
        · exact .inr (hfinish hl _ _ _ ht)
  · right
    split at ht
    · cases pure_eq_ok.mp ht
      exact hl
    · obtain ⟨⟨r₂, t₂⟩, ht₂, ht⟩ := bind_eq_ok.mp ht
      exact hfinish (hlost hl ht₂) _ _ _ ht

/-- The two parses end side by side, or the second is lost. -/
theorem parseElement_abreast (h : Lockstep cb rel lost) :
    ∀ (levels : Nat) (reader : ReaderState) (s t : σ), rel s t →
      Abreast rel lost (parseElement R cb levels reader s) (parseElement R cb levels reader t) := by
  intro levels
  induction levels with
  | zero =>
      intro reader s t hst err reader₁ s' err' reader₂ t' hs ht
      cases pure_eq_ok.mp hs
      cases pure_eq_ok.mp ht
      exact .inl ⟨rfl, rfl, hst⟩
  | succ levels ih =>
      intro reader s t hst
      have hstop : ∀ err reader, Abreast rel lost (.ok (err, reader, s)) (.ok (err, reader, t)) := by
        intro err reader err₁ reader₁ s' err₂ reader₂ t' hs ht
        cases hs
        cases ht
        exact .inl ⟨rfl, rfl, hst⟩
      rw [parseElement, parseElement]
      generalize R.mpackReadTag reader = tagged
      obtain ⟨tag, reader⟩ := tagged
      dsimp only
      split
      · exact hstop _ _
      · have ih : ElementAbreast rel lost (parseElement R cb levels) :=
          ⟨ih, parseElement_leaves h.lost levels⟩
        cases tag with
        | nil => exact scalarElement_abreast .nil h hst
        | bool b => exact scalarElement_abreast (.bool b) h hst
        | int i => exact scalarElement_abreast (.int i) h hst
        | uint n => exact scalarElement_abreast (.uint _) h hst
        | str length => exact scalarElement_abreast (.string _ length) h hst
        | array count =>
            exact container_abreast (.startArray count) .finishArray h
              (arrayLoop_abreast ih count) (arrayLoop_leaves ih.lost) hst
        | map count =>
            exact container_abreast (.startMap count) .finishMap h
              (mapLoop_abreast ih count) (mapLoop_leaves ih.lost) hst
        | float _ | double _ | bin _ | ext _ _ => exact hstop _ _

end SideBySide

/-! ## Callbacks that know less -/

section Simulation

variable {τ : Type} {cb' : Callbacks τ} {rel : σ → τ → Prop}

/-- What `cb` returns, `cb'` returns from a related context, and the contexts stay related. -/
def Simulates (cb : Callbacks σ) (cb' : Callbacks τ) (rel : σ → τ → Prop) : Prop :=
  ∀ event s t err s', rel s t → cb.handle event s = .ok (err, s') →
    ∃ t', cb'.handle event t = .ok (err, t') ∧ rel s' t'

/-- The same of an element. -/
def ElementSimulates (rel : σ → τ → Prop) (result : Except Fault (Parsed σ))
    (result' : Except Fault (Parsed τ)) : Prop :=
  ∀ err reader s, result = .ok (err, reader, s) → ∃ t, result' = .ok (err, reader, t) ∧ rel s t

/-- The same of a loop. -/
def LoopSimulates (rel : σ → τ → Prop) (result : Except Fault (ReaderState × σ))
    (result' : Except Fault (ReaderState × τ)) : Prop :=
  ∀ reader s, result = .ok (reader, s) → ∃ t, result' = .ok (reader, t) ∧ rel s t

theorem scalarElement_simulates (event : Event) {reader : ReaderState} {s : σ} {t : τ}
    (h : Simulates cb cb' rel) (hst : rel s t) :
    ElementSimulates rel (scalarElement reader (cb.handle event s))
      (scalarElement reader (cb'.handle event t)) := by
  intro err reader' s' hs
  obtain ⟨⟨e, s₁⟩, hs₁, hs⟩ := bind_eq_ok.mp hs
  cases pure_eq_ok.mp hs
  obtain ⟨t', ht, hrel⟩ := h event s t _ _ hst hs₁
  refine ⟨t', ?_, hrel⟩
  rw [ht]
  rfl

variable {element : ReaderState → σ → Except Fault (Parsed σ)}
  {element' : ReaderState → τ → Except Fault (Parsed τ)}

theorem arrayLoop_simulates
    (he : ∀ reader s t, rel s t → ElementSimulates rel (element reader s) (element' reader t)) :
    ∀ (count : Nat) (reader : ReaderState) (s : σ) (t : τ), rel s t →
      LoopSimulates rel (arrayLoop element count reader s) (arrayLoop element' count reader t) := by
  intro count
  induction count with
  | zero =>
      intro reader s t hst reader' s' hs
      cases pure_eq_ok.mp hs
      exact ⟨t, rfl, hst⟩
  | succ count ih =>
      intro reader s t hst reader' s' hs
      rw [arrayLoop] at hs
      obtain ⟨⟨e, r, s₁⟩, hs₁, hs⟩ := bind_eq_ok.mp hs
      obtain ⟨t₁, ht₁, hrel⟩ := he reader s t hst _ _ _ hs₁
      rw [arrayLoop, ht₁]
      dsimp only [bind, Except.bind] at hs ⊢
      split at hs
      · next hstop =>
          cases pure_eq_ok.mp hs
          exact ⟨t₁, if_pos hstop, hrel⟩
      · next hgo =>
          rw [if_neg hgo]
          exact ih r s₁ t₁ hrel reader' s' hs

theorem mapLoop_simulates
    (he : ∀ reader s t, rel s t → ElementSimulates rel (element reader s) (element' reader t)) :
    ∀ (count : Nat) (reader : ReaderState) (s : σ) (t : τ), rel s t →
      LoopSimulates rel (mapLoop element count reader s) (mapLoop element' count reader t) := by
  intro count
  induction count with
  | zero =>
      intro reader s t hst reader' s' hs
      cases pure_eq_ok.mp hs
      exact ⟨t, rfl, hst⟩
  | succ count ih =>
      intro reader s t hst reader' s' hs
      rw [mapLoop] at hs
      obtain ⟨⟨e, r, s₁⟩, hs₁, hs⟩ := bind_eq_ok.mp hs
      obtain ⟨t₁, ht₁, hrel⟩ := he reader s t hst _ _ _ hs₁
      rw [mapLoop, ht₁]
      dsimp only [bind, Except.bind] at hs ⊢
      split at hs
      · next hstop =>
          cases pure_eq_ok.mp hs
          exact ⟨t₁, if_pos hstop, hrel⟩
      · next hgo =>
          rw [if_neg hgo]
          obtain ⟨⟨e₂, r₂, s₂⟩, hs₂, hs⟩ := bind_eq_ok.mp hs
          obtain ⟨t₂, ht₂, hrel₂⟩ := he r s₁ t₁ hrel _ _ _ hs₂
          rw [ht₂]
          dsimp only at hs ⊢
          split at hs
          · next hstop =>
              cases pure_eq_ok.mp hs
              exact ⟨t₂, if_pos hstop, hrel₂⟩
          · next hgo =>
              rw [if_neg hgo]
              exact ih r₂ s₂ t₂ hrel₂ reader' s' hs

theorem container_simulates (start finish : Event) {reader : ReaderState} {s : σ} {t : τ}
    {loop : ReaderState → σ → Except Fault (ReaderState × σ)}
    {loop' : ReaderState → τ → Except Fault (ReaderState × τ)} (h : Simulates cb cb' rel)
    (hloop : ∀ reader s t, rel s t → LoopSimulates rel (loop reader s) (loop' reader t))
    (hst : rel s t) :
    ElementSimulates rel
      (do
        let (err, ctx) ← cb.handle start s
        if err ≠ .success then return (err, reader, ctx)
        else do
          let (reader, ctx) ← loop reader ctx
          scalarElement reader (cb.handle finish ctx))
      (do
        let (err, ctx) ← cb'.handle start t
        if err ≠ .success then return (err, reader, ctx)
        else do
          let (reader, ctx) ← loop' reader ctx
          scalarElement reader (cb'.handle finish ctx)) := by
  intro err reader' s' hs
  obtain ⟨⟨e, s₁⟩, hs₁, hs⟩ := bind_eq_ok.mp hs
  obtain ⟨t₁, ht₁, hrel⟩ := h start s t _ _ hst hs₁
  rw [ht₁]
  dsimp only [bind, Except.bind] at hs ⊢
  split at hs
  · next hstop =>
      cases pure_eq_ok.mp hs
      exact ⟨t₁, if_pos hstop, hrel⟩
  · next hgo =>
      rw [if_neg hgo]
      obtain ⟨⟨r, s₂⟩, hs₂, hs⟩ := bind_eq_ok.mp hs
      obtain ⟨t₂, ht₂, hrel₂⟩ := hloop reader s₁ t₁ hrel _ _ hs₂
      rw [ht₂]
      exact scalarElement_simulates finish h hrel₂ _ _ _ hs

/-- A parse that returns, returns with the callbacks that know less. -/
theorem parseElement_simulates (h : Simulates cb cb' rel) :
    ∀ (levels : Nat) (reader : ReaderState) (s : σ) (t : τ), rel s t →
      ElementSimulates rel (parseElement R cb levels reader s)
        (parseElement R cb' levels reader t) := by
  intro levels
  induction levels with
  | zero =>
      intro reader s t hst err reader' s' hs
      cases pure_eq_ok.mp hs
      exact ⟨t, rfl, hst⟩
  | succ levels ih =>
      intro reader s t hst
      have hstop : ∀ err reader, ElementSimulates rel (.ok (err, reader, s)) (.ok (err, reader, t)) := by
        intro err reader err' reader' s' hs
        cases hs
        exact ⟨t, rfl, hst⟩
      rw [parseElement, parseElement]
      generalize R.mpackReadTag reader = tagged
      obtain ⟨tag, reader⟩ := tagged
      dsimp only
      split
      · exact hstop _ _
      · cases tag with
        | nil => exact scalarElement_simulates .nil h hst
        | bool b => exact scalarElement_simulates (.bool b) h hst
        | int i => exact scalarElement_simulates (.int i) h hst
        | uint n => exact scalarElement_simulates (.uint _) h hst
        | str length => exact scalarElement_simulates (.string _ length) h hst
        | array count =>
            exact container_simulates (.startArray count) .finishArray h
              (arrayLoop_simulates ih count) hst
        | map count =>
            exact container_simulates (.startMap count) .finishMap h
              (mapLoop_simulates ih count) hst
        | float _ | double _ | bin _ | ext _ _ => exact hstop _ _

end Simulation

end Vertices
