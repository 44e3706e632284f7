/-
# `Vertices.Elements` — the elements of a value, and the calls made for them

`parse_element` has two ways to go wrong: a reader in error, and a code that is not
`VTC_SUCCESS`.  Where neither happens the recursion is a plain walk: there is a value
in the buffer, and the callbacks have been called once for each of its elements, in the
order they are written.

    `walks_accepted`      a value whose elements are accepted is read to its end
    `parseElement_sound`  a parse that ends well has read such a value

For the second, callbacks that remember an error are needed: after one of them the loops
go on reading, and the code is overwritten.
-/
import Vertices.Walk
import Vertices.CallRecord
import Vertices.Lib.Transition

namespace Vertices

open MsgPack Transition

/-! ## Elements -/

/-- The values `parse_element` takes with `levels` levels left. -/
def Readable : Nat → Value → Prop
  | 0, _ => False
  | _ + 1, .nil | _ + 1, .bool _ | _ + 1, .int _ | _ + 1, .uint _ | _ + 1, .str _ => True
  | levels + 1, .array us => ∀ u ∈ us, Readable levels u
  | levels + 1, .map kvs => ∀ u ∈ flatten kvs, Readable levels u
  | _ + 1, .float _ | _ + 1, .double _ | _ + 1, .bin _ | _ + 1, .ext _ _ => False

/-- The calls for a value, in order. -/
def events : Nat → Value → List Event
  | 0, _ => []
  | _ + 1, .nil => [.nil]
  | _ + 1, .bool b => [.bool b]
  | _ + 1, .int i => [.int i]
  | _ + 1, .uint n => [.uint (UInt64.ofNat n)]
  | _ + 1, .str s => [.string (some s) s.length]
  | levels + 1, .array us =>
      .startArray us.length :: (us.flatMap (events levels) ++ [.finishArray])
  | levels + 1, .map kvs =>
      .startMap kvs.length :: ((flatten kvs).flatMap (events levels) ++ [.finishMap])
  | _ + 1, .float _ | _ + 1, .double _ | _ + 1, .bin _ | _ + 1, .ext _ _ => []

section

variable {σ : Type} {R : MpackReader} {cb : Callbacks σ}

/-- A call that reports no error. -/
def Callbacks.Accepts (cb : Callbacks σ) (s : σ) (event : Event) (t : σ) : Prop :=
  cb.handle event s = .ok (.success, t)

/-! ## A value whose elements are accepted is read to its end -/

theorem run_single {s t : σ} {event : Event} (h : Run cb.Accepts s [event] t) :
    cb.handle event s = .ok (.success, t) := by
  cases h with
  | cons hs hnil =>
      cases hnil
      exact hs

theorem parseElement_scalar (hR : R.Lawful) {levels : Nat} {bs r r' : List UInt8} {t : Tag}
    {v : Value} {s s' : σ} (ht : decodeTag bs = some (t, r)) (hv : MsgPack.scalar t r = some (v, r'))
    (hread : Readable (levels + 1) v) (hrun : Run cb.Accepts s (events (levels + 1) v) s') :
    parseElement R cb (levels + 1) ⟨bs, true⟩ s = .ok (.success, ⟨r', true⟩, s') := by
  rw [parseElement_tag hR ht]
  cases t with
  | nil | bool _ | int _ | uint _ =>
      cases hv
      exact congrArg (scalarElement ⟨r, true⟩) (run_single hrun)
  | str n =>
      rw [MsgPack.scalar, payload] at hv
      split at hv
      · next hn =>
          cases hv
          have h := run_single hrun
          rw [List.length_take, Nat.min_eq_left hn] at h
          rw [switchTag, mpackReadBytesInplace_take hn]
          exact congrArg (scalarElement ⟨r.drop n, true⟩) h
      · cases hv
  | bin n | ext _ n =>
      rw [MsgPack.scalar, payload] at hv
      split at hv
      · cases hv
        exact hread.elim
      · cases hv
  | float _ | double _ =>
      cases hv
      exact hread.elim
  | array _ | map _ => cases hv

/-- The loop of an array over values that are read to their ends. -/
theorem arrayLoop_accepted {levels : Nat}
    (ih : ∀ v s s', Readable levels v → Run cb.Accepts s (events levels v) s' →
      Walks R cb levels v s s') {us : List Value} :
    ∀ {s s' : σ}, (∀ u ∈ us, Readable levels u) → Run cb.Accepts s (us.flatMap (events levels)) s' →
      ∀ bs vs rest, Reads bs (us ++ vs) rest → ∃ bs', Reads bs' vs rest ∧
        arrayLoop (parseElement R cb levels) us.length ⟨bs, true⟩ s = .ok (⟨bs', true⟩, s') := by
  induction us with
  | nil =>
      intro s s' _ hrun bs vs rest hr
      cases hrun
      exact ⟨bs, hr, rfl⟩
  | cons u us ihus =>
      intro s s' hread hrun bs vs rest hr
      obtain ⟨s₁, hu, hus⟩ := Run.of_append hrun
      obtain ⟨bs₁, hr₁, hparse⟩ := ih u s s₁ (hread u List.mem_cons_self) hu bs (us ++ vs) rest hr
      obtain ⟨bs', hr', hloop⟩ :=
        ihus (fun u' hu' => hread u' (List.mem_cons_of_mem _ hu')) hus bs₁ vs rest hr₁
      refine ⟨bs', hr', ?_⟩
      rw [List.length_cons, arrayLoop, hparse]
      exact hloop

/-- The pairs of a map, each value read to its end. -/
theorem walksPairs_accepted {levels : Nat}
    (ih : ∀ v s s', Readable levels v → Run cb.Accepts s (events levels v) s' →
      Walks R cb levels v s s') {kvs : List (Value × Value)} :
    ∀ {s s' : σ}, (∀ u ∈ flatten kvs, Readable levels u) →
      Run cb.Accepts s ((flatten kvs).flatMap (events levels)) s' →
      WalksPairs R cb levels kvs s s' := by
  induction kvs with
  | nil =>
      intro s s' _ hrun
      cases hrun
      exact .nil
  | cons kv kvs ihkvs =>
      obtain ⟨k, v⟩ := kv
      intro s s' hread hrun
      rw [flatten, List.forall_mem_cons, List.forall_mem_cons] at hread
      obtain ⟨hk, hv, hkvs⟩ := hread
      obtain ⟨s₁, hrunk, hrun⟩ := Run.of_append hrun
      obtain ⟨s₂, hrunv, hrun⟩ := Run.of_append hrun
      exact .cons (ih k s s₁ hk hrunk) (ih v s₁ s₂ hv hrunv) (ihkvs hkvs hrun)

theorem walks_accepted (hR : R.Lawful) : ∀ (levels : Nat) (v : Value) (s s' : σ),
    Readable levels v → Run cb.Accepts s (events levels v) s' → Walks R cb levels v s s' := by
  intro levels
  induction levels with
  | zero =>
      intro v s s' hread
      exact hread.elim
  | succ levels ih =>
      intro v s s' hread hrun
      cases v with
      | array us =>
          cases hrun with
          | cons hstart hrun =>
              obtain ⟨s₂, hus, hfinish⟩ := Run.of_append hrun
              intro bs vs rest hr
              obtain ⟨r, r', ht, hur, hvs⟩ := hr.head_array
              obtain ⟨bs', hr', hloop⟩ := arrayLoop_accepted ih hread hus r vs rest (hur.append hvs)
              refine ⟨bs', hr', ?_⟩
              have hstart : cb.startArray s us.length = _ := hstart
              rw [parseElement_tag hR ht, switchTag, hstart]
              show (arrayLoop (parseElement R cb levels) us.length ⟨r, true⟩ _ >>= _) = _
              rw [hloop]
              exact congrArg (scalarElement ⟨bs', true⟩) (run_single hfinish)
      | map kvs =>
          cases hrun with
          | cons hstart hrun =>
              obtain ⟨s₂, hkvs, hfinish⟩ := Run.of_append hrun
              exact .map hR hstart (walksPairs_accepted ih hread hkvs) (run_single hfinish)
      | nil | bool _ | int _ | uint _ | float _ | double _ | str _ | bin _ | ext _ _ =>
          intro bs vs rest hr
          obtain ⟨t, r, r', ht, hv, hvs⟩ :=
            hr.head_scalar (fun _ => Value.noConfusion) (fun _ => Value.noConfusion)
          exact ⟨r', hvs, parseElement_scalar hR ht hv hread hrun⟩

/-! ## A parse that ends well has read such a value -/

/-- Callbacks that remember: where `Good` holds after a call it held before, and the call
reported no error. -/
def Callbacks.Remembers (cb : Callbacks σ) (Good : σ → Prop) : Prop :=
  ∀ event s err s', cb.handle event s = .ok (err, s') → Good s' → Good s ∧ err = .success

/-- From `reader` and `s` on, `vs` are read and their elements accepted, up to `mid` and
`s'`. -/
structure Took (cb : Callbacks σ) (Good : σ → Prop) (levels : Nat) (reader : ReaderState) (s : σ)
    (vs : List Value) (mid : List UInt8) (s' : σ) : Prop where
  ok : reader.ok = true
  good : Good s
  reads : Reads reader.rest vs mid
  readable : ∀ v ∈ vs, Readable levels v
  accepted : Run cb.Accepts s (vs.flatMap (events levels)) s'

variable {Good : σ → Prop}

theorem Took.nil {levels : Nat} {mid : List UInt8} {s : σ} (h : Good s) :
    Took cb Good levels ⟨mid, true⟩ s [] mid s :=
  ⟨rfl, h, .nil mid, List.forall_mem_nil _, .nil s⟩

theorem Took.append {levels : Nat} {reader : ReaderState} {s s₁ s' : σ} {us vs : List Value}
    {mid₁ mid : List UInt8} (h : Took cb Good levels reader s us mid₁ s₁)
    (h' : Took cb Good levels ⟨mid₁, true⟩ s₁ vs mid s') :
    Took cb Good levels reader s (us ++ vs) mid s' where
  ok := h.ok
  good := h.good
  reads := h.reads.append h'.reads
  readable := List.forall_mem_append.mpr ⟨h.readable, h'.readable⟩
  accepted := by
    rw [List.flatMap_append]
    exact h.accepted.append h'.accepted

/-- What is asked of parsing an element: if it ends well, it took one value. -/
def Sound (cb : Callbacks σ) (Good : σ → Prop) (levels : Nat)
    (element : ReaderState → σ → Except Fault (Parsed σ)) : Prop :=
  ∀ reader s err mid s', element reader s = .ok (err, ⟨mid, true⟩, s') → Good s' →
    err = .success ∧ ∃ v, Took cb Good levels reader s [v] mid s'

/-- A reader in error stays so. -/
theorem Took.rest {levels : Nat} {reader : ReaderState} {s s' : σ} {vs : List Value}
    {mid : List UInt8} (h : Took cb Good levels reader s vs mid s') : reader = ⟨reader.rest, true⟩ := by
  obtain ⟨rest, ok⟩ := reader
  have hok : ok = true := h.ok
  rw [hok]

theorem arrayLoop_sound {levels : Nat} {element : ReaderState → σ → Except Fault (Parsed σ)}
    (he : Sound cb Good levels element) {count : Nat} :
    ∀ {reader : ReaderState} {s s' : σ} {mid : List UInt8},
      arrayLoop element count reader s = .ok (⟨mid, true⟩, s') → Good s' →
      ∃ us, us.length = count ∧ Took cb Good levels reader s us mid s' := by
  induction count with
  | zero =>
      intro reader s s' mid h hgood
      cases pure_eq_ok.mp h
      exact ⟨[], rfl, .nil hgood⟩
  | succ count ih =>
      intro reader s s' mid h hgood
      rw [arrayLoop] at h
      obtain ⟨⟨err₁, ⟨mid₁, ok₁⟩, s₁⟩, h₁, h⟩ := bind_eq_ok.mp h
      dsimp only at h
      split at h
      · next hstop =>
          cases pure_eq_ok.mp h
          obtain ⟨rfl, -⟩ := he _ _ _ _ _ h₁ hgood
          simp at hstop
      · obtain ⟨us, hlen, hus⟩ := ih h hgood
        have hok : ok₁ = true := hus.ok
        subst hok
        obtain ⟨-, u, hu⟩ := he _ _ _ _ _ h₁ hus.good
        exact ⟨[u] ++ us, by rw [List.length_append, hlen, List.length_singleton, Nat.add_comm],
          hu.append hus⟩

theorem mapLoop_sound {levels : Nat} {element : ReaderState → σ → Except Fault (Parsed σ)}
    (he : Sound cb Good levels element) {count : Nat} :
    ∀ {reader : ReaderState} {s s' : σ} {mid : List UInt8},
      mapLoop element count reader s = .ok (⟨mid, true⟩, s') → Good s' →
      ∃ kvs, kvs.length = count ∧ Took cb Good levels reader s (flatten kvs) mid s' := by
  induction count with
  | zero =>
      intro reader s s' mid h hgood
      cases pure_eq_ok.mp h
      exact ⟨[], rfl, .nil hgood⟩
  | succ count ih =>
      intro reader s s' mid h hgood
      rw [mapLoop] at h
      obtain ⟨⟨err₁, ⟨mid₁, ok₁⟩, s₁⟩, h₁, h⟩ := bind_eq_ok.mp h
      dsimp only at h
      split at h
      · next hstop =>
          cases pure_eq_ok.mp h
          obtain ⟨rfl, -⟩ := he _ _ _ _ _ h₁ hgood
          exact absurd rfl hstop
      · obtain ⟨⟨err₂, ⟨mid₂, ok₂⟩, s₂⟩, h₂, h⟩ := bind_eq_ok.mp h
        dsimp only at h
        split at h
        · next hstop =>
            cases pure_eq_ok.mp h
            obtain ⟨rfl, -⟩ := he _ _ _ _ _ h₂ hgood
            simp at hstop
        · obtain ⟨kvs, hlen, hkvs⟩ := ih h hgood
          have hok₂ : ok₂ = true := hkvs.ok
          subst hok₂
          obtain ⟨-, v, hv⟩ := he _ _ _ _ _ h₂ hkvs.good
          have hok₁ : ok₁ = true := hv.ok
          subst hok₁
          obtain ⟨-, k, hk⟩ := he _ _ _ _ _ h₁ hv.good
          exact ⟨(k, v) :: kvs, by rw [List.length_cons, hlen], hk.append (hv.append hkvs)⟩

theorem scalarElement_sound (hcb : cb.Remembers Good) {event : Event} {reader : ReaderState}
    {s s' : σ} {err : RetCode} {mid : List UInt8}
    (h : scalarElement reader (cb.handle event s) = .ok (err, ⟨mid, true⟩, s')) (hgood : Good s') :
    reader = ⟨mid, true⟩ ∧ Good s ∧ err = .success ∧ cb.handle event s = .ok (.success, s') := by
  obtain ⟨⟨err₁, s₁⟩, h₁, h⟩ := bind_eq_ok.mp h
  cases pure_eq_ok.mp h
  obtain ⟨hs, rfl⟩ := hcb _ _ _ _ h₁ hgood
  exact ⟨rfl, hs, rfl, h₁⟩

/-- A container that ends well: its start is accepted, its loop ends well, its end is
accepted. -/
theorem container_sound (hcb : cb.Remembers Good) (start finish : Event)
    (loop : ReaderState → σ → Except Fault (ReaderState × σ)) (reader : ReaderState) (s s' : σ)
    (err : RetCode) (mid : List UInt8)
    (h : (do
      let (err, s) ← cb.handle start s
      if err ≠ .success then return (err, reader, s)
      else do
        let (reader, s) ← loop reader s
        scalarElement reader (cb.handle finish s) : Except Fault (Parsed σ)) =
      .ok (err, ⟨mid, true⟩, s'))
    (hgood : Good s') :
    ∃ s₁ s₂, cb.handle start s = .ok (.success, s₁) ∧ loop reader s₁ = .ok (⟨mid, true⟩, s₂) ∧
      Good s₂ ∧ cb.handle finish s₂ = .ok (.success, s') ∧ err = .success := by
  obtain ⟨⟨err₁, s₁⟩, h₁, h⟩ := bind_eq_ok.mp h
  dsimp only at h
  split at h
  · next herr =>
      cases pure_eq_ok.mp h
      exact absurd (hcb _ _ _ _ h₁ hgood).2 herr
  · next herr =>
      obtain ⟨⟨reader₂, s₂⟩, h₂, h⟩ := bind_eq_ok.mp h
      obtain ⟨hreader, hs₂, rfl, hfinish⟩ := scalarElement_sound hcb h hgood
      have herr : err₁ = RetCode.success := not_not.mp herr
      subst herr
      cases hreader
      exact ⟨s₁, s₂, h₁, h₂, hs₂, hfinish, rfl⟩

/-- A tag read without error. -/
theorem mpackReadTag_exact (hR : R.Exact) {reader reader' : ReaderState} {tag : Tag}
    (h : R.mpackReadTag reader = (tag, reader')) (hok : reader'.ok = true) :
    reader.ok = true ∧ ∃ r, decodeTag reader.rest = some (tag, r) ∧ reader' = ⟨r, true⟩ := by
  obtain ⟨rest, ok⟩ := reader
  rw [MpackReader.mpackReadTag] at h
  cases ok with
  | false =>
      cases h
      cases hok
  | true =>
      rw [if_pos rfl, hR] at h
      dsimp only at h
      split at h
      · next t r ht =>
          cases h
          exact ⟨rfl, r, ht, rfl⟩
      · cases h
        cases hok

/-- A tag whose element is one call, and the value it is the tag of. -/
theorem scalar_sound (hcb : cb.Remembers Good) {levels : Nat} {bs r r' : List UInt8} {t : Tag}
    {v : Value} {event : Event} {s s' : σ} {err : RetCode} {mid : List UInt8}
    (ht : decodeTag bs = some (t, r)) (hv : MsgPack.scalar t r = some (v, r'))
    (hread : Readable levels v) (hevents : events levels v = [event])
    (h : scalarElement ⟨r', true⟩ (cb.handle event s) = .ok (err, ⟨mid, true⟩, s'))
    (hgood : Good s') : err = .success ∧ ∃ v, Took cb Good levels ⟨bs, true⟩ s [v] mid s' := by
  obtain ⟨hreader, hs, rfl, hcall⟩ := scalarElement_sound hcb h hgood
  cases hreader
  refine ⟨rfl, v, rfl, hs, .scalar ht hv (.nil _), List.forall_mem_singleton.mpr hread, ?_⟩
  rw [List.flatMap_singleton, hevents]
  exact .single hcall

theorem parseElement_sound (hR : R.Exact) (hcb : cb.Remembers Good) :
    ∀ levels, Sound cb Good levels (parseElement R cb levels) := by
  intro levels
  induction levels with
  | zero =>
      intro reader s err mid s' h
      cases pure_eq_ok.mp h
  | succ levels ih =>
      intro reader s err mid s' h hgood
      rw [parseElement] at h
      generalize hread : R.mpackReadTag reader = tagged at h
      obtain ⟨tag, reader'⟩ := tagged
      dsimp only at h
      split at h
      · next hnok =>
          cases pure_eq_ok.mp h
          cases hnok
      · next hok =>
          obtain ⟨hrok, r, ht, rfl⟩ := mpackReadTag_exact hR hread (Bool.not_eq_false _ ▸ hok)
          obtain ⟨bs, ok⟩ := reader
          have hrok : ok = true := hrok
          subst hrok
          cases tag with
          | nil | bool _ | int _ | uint _ => exact scalar_sound hcb ht rfl trivial rfl h hgood
          | str n =>
              rw [switchTag, mpackReadBytesInplace] at h
              by_cases hn : n ≤ r.length
              · have hv : MsgPack.scalar (.str n) r = some (.str (r.take n), r.drop n) := by
                  rw [MsgPack.scalar, payload, if_pos hn]
                have hlen : (r.take n).length = n := List.length_take_of_le hn
                have hevents : events (levels + 1) (.str (r.take n)) = [.string (some (r.take n)) n] := by
                  rw [events, hlen]
                rw [if_pos rfl, if_pos hn] at h
                exact scalar_sound hcb ht hv trivial hevents h hgood
              · rw [if_pos rfl, if_neg hn] at h
                have hnull : scalarElement _ (cb.handle (.string none n) s) = _ := h
                cases (scalarElement_sound hcb hnull hgood).1
          | array count =>
              obtain ⟨s₁, s₂, hstart, hloop, hs₂, hfinish, rfl⟩ :=
                container_sound hcb (.startArray count) .finishArray
                  (arrayLoop (parseElement R cb levels) count) ⟨r, true⟩ s s' err mid h hgood
              obtain ⟨us, rfl, hus⟩ := arrayLoop_sound ih hloop hs₂
              refine ⟨rfl, .array us, rfl, (hcb _ _ _ _ hstart hus.good).1, ?_, ?_, ?_⟩
              · exact .array ht hus.reads (.nil _)
              · exact List.forall_mem_singleton.mpr hus.readable
              · rw [List.flatMap_singleton, events]
                exact .cons hstart (hus.accepted.append (.single hfinish))
          | map count =>
              obtain ⟨s₁, s₂, hstart, hloop, hs₂, hfinish, rfl⟩ :=
                container_sound hcb (.startMap count) .finishMap
                  (mapLoop (parseElement R cb levels) count) ⟨r, true⟩ s s' err mid h hgood
              obtain ⟨kvs, rfl, hkvs⟩ := mapLoop_sound ih hloop hs₂
              refine ⟨rfl, .map kvs, rfl, (hcb _ _ _ _ hstart hkvs.good).1, ?_, ?_, ?_⟩
              · exact .map ht hkvs.reads (.nil _)
              · exact List.forall_mem_singleton.mpr hkvs.readable
              · rw [List.flatMap_singleton, events]
                exact .cons hstart (hkvs.accepted.append (.single hfinish))
          | float _ | double _ | bin _ | ext _ _ => cases pure_eq_ok.mp h

end

end Vertices
