/-
# `Vertices.Walk` — rules for parsing a value with callbacks

`parseElement` has no result but what its callbacks do.  Two judgements say what that
is, whatever follows the value in the buffer.

| | |
| :-- | :-- |
| `Walks v ctx ctx'` | the value is read to its end, and the callbacks lead from `ctx` to `ctx'` |
| `Strays P v ctx` | somewhere in the value the callbacks reach a context with `P`, and from there on they keep `P` |

After an error code the loops no longer follow the nesting: what an inner map did not
read is read by the outer ones, a pair of elements at a time.  `Strays` therefore speaks
of the values still ahead, and asks of each that it keeps `P`.
-/
import Vertices.Parser

namespace MsgPack

theorem Reads.append {bs mid rest : List UInt8} {us vs : List Value} (h : Reads bs us mid)
    (h' : Reads mid vs rest) : Reads bs (us ++ vs) rest := by
  induction h with
  | nil => exact h'
  | scalar ht hv _ ih => exact .scalar ht hv (ih h')
  | array ht hu _ _ ih => exact .array ht hu (ih h')
  | map ht hu _ _ ih => exact .map ht hu (ih h')

end MsgPack

namespace Vertices

open MsgPack

section Rules

variable {σ : Type} {R : MpackReader} {cb : Callbacks σ}

/-! ## Values read to the end -/

/-- Parsing `v`, with `levels` levels left, leads from `ctx` to `ctx'`. -/
def Walks (R : MpackReader) (cb : Callbacks σ) (levels : Nat) (v : Value) (ctx ctx' : σ) : Prop :=
  ∀ bs vs rest, Reads bs (v :: vs) rest → ∃ bs', Reads bs' vs rest ∧
    parseElement R cb levels ⟨bs, true⟩ ctx = .ok (.success, ⟨bs', true⟩, ctx')

/-- The loop over a map reads the pairs `kvs` and goes on, from `ctx` to `ctx'`. -/
def WalksPairs (R : MpackReader) (cb : Callbacks σ) (levels : Nat) (kvs : List (Value × Value))
    (ctx ctx' : σ) : Prop :=
  ∀ bs vs rest, Reads bs (flatten kvs ++ vs) rest → ∃ bs', Reads bs' vs rest ∧ ∀ m,
    mapLoop (parseElement R cb levels) (kvs.length + m) ⟨bs, true⟩ ctx =
      mapLoop (parseElement R cb levels) m ⟨bs', true⟩ ctx'

/-- What `parse_element` does with a tag it could read. -/
theorem parseElement_tag (hR : R.Lawful) {levels : Nat} {bs rest : List UInt8} {t : Tag} {ctx : σ}
    (h : decodeTag bs = some (t, rest)) :
    parseElement R cb (levels + 1) ⟨bs, true⟩ ctx =
      switchTag cb (parseElement R cb levels) t ⟨rest, true⟩ ctx := by
  rw [parseElement, hR.mpackReadTag h]
  rfl

theorem Walks.uint (hR : R.Lawful) {levels n : Nat} {ctx ctx' : σ}
    (h : cb.uintElement ctx (UInt64.ofNat n) = .ok (.success, ctx')) :
    Walks R cb (levels + 1) (.uint n) ctx ctx' := by
  intro bs vs rest hr
  obtain ⟨r, ht, hvs⟩ := hr.head_uint
  refine ⟨r, hvs, ?_⟩
  rw [parseElement_tag hR ht, switchTag, scalarElement, h]
  rfl

/-- The string is handed over whole. -/
theorem mpackReadBytesInplace_take {bs : List UInt8} {n : Nat} (h : n ≤ bs.length) :
    mpackReadBytesInplace ⟨bs, true⟩ n = (some (bs.take n), ⟨bs.drop n, true⟩) := by
  simp [mpackReadBytesInplace, h]

theorem Walks.str (hR : R.Lawful) {levels : Nat} {s : List UInt8} {ctx ctx' : σ}
    (h : cb.stringElement ctx (some s) s.length = .ok (.success, ctx')) :
    Walks R cb (levels + 1) (.str s) ctx ctx' := by
  intro bs vs rest hr
  obtain ⟨r, ht, hl, hs, hvs⟩ := hr.head_str
  refine ⟨r.drop s.length, hvs, ?_⟩
  rw [parseElement_tag hR ht, switchTag, mpackReadBytesInplace_take hl, hs]
  show scalarElement _ (cb.stringElement ctx (some s) s.length) = _
  rw [h]
  rfl

theorem WalksPairs.nil {levels : Nat} {ctx : σ} : WalksPairs R cb levels [] ctx ctx := by
  intro bs vs rest hr
  exact ⟨bs, hr, fun m => by rw [List.length_nil, Nat.zero_add]⟩

theorem WalksPairs.cons {levels : Nat} {k v : Value} {kvs : List (Value × Value)}
    {ctx ctx₁ ctx₂ ctx' : σ} (hk : Walks R cb levels k ctx ctx₁) (hv : Walks R cb levels v ctx₁ ctx₂)
    (hkvs : WalksPairs R cb levels kvs ctx₂ ctx') :
    WalksPairs R cb levels ((k, v) :: kvs) ctx ctx' := by
  intro bs vs rest hr
  obtain ⟨bs₁, hr₁, hk⟩ := hk bs (v :: (flatten kvs ++ vs)) rest hr
  obtain ⟨bs₂, hr₂, hv⟩ := hv bs₁ (flatten kvs ++ vs) rest hr₁
  obtain ⟨bs', hr', hkvs⟩ := hkvs bs₂ vs rest hr₂
  refine ⟨bs', hr', fun m => ?_⟩
  rw [← hkvs m, List.length_cons, Nat.add_right_comm, mapLoop, hk]
  show (parseElement R cb levels ⟨bs₁, true⟩ ctx₁ >>= _) = _
  rw [hv]
  rfl

theorem WalksPairs.append {levels : Nat} {kvs kvs' : List (Value × Value)} {ctx ctx₁ ctx' : σ}
    (h : WalksPairs R cb levels kvs ctx ctx₁) (h' : WalksPairs R cb levels kvs' ctx₁ ctx') :
    WalksPairs R cb levels (kvs ++ kvs') ctx ctx' := by
  intro bs vs rest hr
  rw [flatten_append, List.append_assoc] at hr
  obtain ⟨bs₁, hr₁, h⟩ := h bs (flatten kvs' ++ vs) rest hr
  obtain ⟨bs', hr', h'⟩ := h' bs₁ vs rest hr₁
  refine ⟨bs', hr', fun m => ?_⟩
  rw [List.length_append, Nat.add_assoc, h, h']

/-- Pairs read one after the other, each where what is asked of it holds: `f` gives the
contexts between them, and a pair leaves what is asked of those apart from it. -/
theorem WalksPairs.foldl {α τ : Type} {levels : Nat} {f : τ → σ} {entry : α → Value × Value}
    {next : τ → α → τ} {ok : τ → α → Prop} {apart : α → α → Prop}
    (hone : ∀ t a, ok t a → WalksPairs R cb levels [entry a] (f t) (f (next t a)))
    (hnext : ∀ t a b, apart a b → ok t b → ok (next t a) b) :
    ∀ {l : List α} {t : τ}, l.Pairwise apart → (∀ a ∈ l, ok t a) →
      WalksPairs R cb levels (l.map entry) (f t) (f (l.foldl next t)) := by
  intro l
  induction l with
  | nil => exact fun _ _ => .nil
  | cons a l ih =>
      intro t hapart hok
      obtain ⟨ha, hapart⟩ := List.pairwise_cons.mp hapart
      refine (hone t a (hok a List.mem_cons_self)).append (ih hapart fun b hb => ?_)
      exact hnext t a b (ha b hb) (hok b (List.mem_cons_of_mem _ hb))

theorem Walks.map (hR : R.Lawful) {levels : Nat} {kvs : List (Value × Value)}
    {ctx ctx₁ ctx₂ ctx' : σ} (hs : cb.startMap ctx kvs.length = .ok (.success, ctx₁))
    (hkvs : WalksPairs R cb levels kvs ctx₁ ctx₂)
    (hf : cb.finishMap ctx₂ = .ok (.success, ctx')) :
    Walks R cb (levels + 1) (.map kvs) ctx ctx' := by
  intro bs vs rest hr
  obtain ⟨r, r', ht, hkr, hvs⟩ := hr.head_map
  obtain ⟨bs', hr', hloop⟩ := hkvs r vs rest (hkr.append hvs)
  refine ⟨bs', hr', ?_⟩
  have hdone := hloop 0
  rw [Nat.add_zero] at hdone
  rw [parseElement_tag hR ht, switchTag, hs]
  show (mapLoop (parseElement R cb levels) kvs.length ⟨r, true⟩ ctx₁ >>= _) = _
  rw [hdone, mapLoop]
  show scalarElement ⟨bs', true⟩ (cb.finishMap ctx₂) = _
  rw [hf]
  rfl

/-- A key the callback refuses ends the loop: the map ends where the pairs in front of it
led, and what is behind it is not looked at. -/
theorem parseElement_map_refused (hR : R.Lawful) {levels : Nat} {kvs kvs' : List (Value × Value)}
    {s : List UInt8} {v : Value} {ctx ctx₁ ctx₂ ctx₃ ctx' : σ} {err err' : RetCode}
    (hs : cb.startMap ctx (kvs ++ (.str s, v) :: kvs').length = .ok (.success, ctx₁))
    (hkvs : WalksPairs R cb (levels + 1) kvs ctx₁ ctx₂)
    (hkey : cb.stringElement ctx₂ (some s) s.length = .ok (err, ctx₃)) (herr : err ≠ .success)
    (hf : cb.finishMap ctx₃ = .ok (err', ctx')) {bs rest : List UInt8}
    (hr : Reads bs [.map (kvs ++ (.str s, v) :: kvs')] rest) :
    ∃ reader, parseElement R cb (levels + 2) ⟨bs, true⟩ ctx = .ok (err', reader, ctx') := by
  obtain ⟨r, r', ht, hkr, hrest⟩ := hr.head_map
  have hall := hkr.append hrest
  rw [flatten_append, List.append_assoc] at hall
  obtain ⟨bs₁, hr₁, hloop⟩ := hkvs r _ rest hall
  obtain ⟨r₁, ht₁, hl, htake, _⟩ := hr₁.head_str
  have hread : parseElement R cb (levels + 1) ⟨bs₁, true⟩ ctx₂ =
      .ok (err, ⟨r₁.drop s.length, true⟩, ctx₃) := by
    rw [parseElement_tag hR ht₁, switchTag, mpackReadBytesInplace_take hl, htake]
    show scalarElement _ (cb.stringElement ctx₂ (some s) s.length) = _
    rw [hkey]
    rfl
  have hend : mapLoop (parseElement R cb (levels + 1)) (kvs'.length + 1) ⟨bs₁, true⟩ ctx₂ =
      .ok (⟨r₁.drop s.length, true⟩, ctx₃) := by
    rw [mapLoop, hread]
    show (if err ≠ .success then _ else _) = _
    rw [if_pos herr]
    rfl
  have hcount : (kvs ++ (Value.str s, v) :: kvs').length = kvs.length + (kvs'.length + 1) := by simp
  refine ⟨⟨r₁.drop s.length, true⟩, ?_⟩
  rw [parseElement_tag hR ht, switchTag, hs]
  show (mapLoop (parseElement R cb (levels + 1)) (kvs ++ (.str s, v) :: kvs').length ⟨r, true⟩ ctx₁
    >>= _) = _
  rw [hcount, hloop, hend]
  show scalarElement _ (cb.finishMap ctx₃) = _
  rw [hf]
  rfl

/-! ## Contexts the callbacks keep to -/

/-- The callbacks keep `P`, when the strings they are handed satisfy `S`; those for kinds of
values that no account has do nothing. -/
structure CallbacksKeep (cb : Callbacks σ) (S : List UInt8 → Prop) (P : σ → Prop) : Prop where
  nilElement : ∀ ctx, cb.nilElement ctx = .ok (.success, ctx)
  boolElement : ∀ ctx b, cb.boolElement ctx b = .ok (.success, ctx)
  intElement : ∀ ctx i, cb.intElement ctx i = .ok (.success, ctx)
  startArray : ∀ ctx n, cb.startArray ctx n = .ok (.success, ctx)
  finishArray : ∀ ctx, cb.finishArray ctx = .ok (.success, ctx)
  uintElement : ∀ {ctx} n, P ctx → ∃ err ctx', cb.uintElement ctx n = .ok (err, ctx') ∧ P ctx'
  stringElement : ∀ {ctx s}, S s → P ctx →
    ∃ err ctx', cb.stringElement ctx (some s) s.length = .ok (err, ctx') ∧ P ctx'
  startMap : ∀ {ctx} n, P ctx → cb.startMap ctx n = .ok (.success, ctx)
  finishMap : ∀ {ctx}, P ctx → ∃ err ctx', cb.finishMap ctx = .ok (err, ctx') ∧ P ctx'

/-- The strings of the value satisfy `S`, those inside its arrays and maps included. -/
inductive StringsIn (S : List UInt8 → Prop) : Value → Prop
  | nil : StringsIn S .nil
  | bool (b : Bool) : StringsIn S (.bool b)
  | int (i : Int) : StringsIn S (.int i)
  | uint (n : Nat) : StringsIn S (.uint n)
  | float (bits : Nat) : StringsIn S (.float bits)
  | double (bits : Nat) : StringsIn S (.double bits)
  | str {s : List UInt8} : S s → StringsIn S (.str s)
  | bin (s : List UInt8) : StringsIn S (.bin s)
  | ext (type : Nat) (s : List UInt8) : StringsIn S (.ext type s)
  | array {vs : List Value} : (∀ v ∈ vs, StringsIn S v) → StringsIn S (.array vs)
  | map {kvs : List (Value × Value)} : (∀ v ∈ flatten kvs, StringsIn S v) → StringsIn S (.map kvs)

mutual

/-- Where every string satisfies `S`, those of any value do. -/
theorem stringsIn_of_forall {S : List UInt8 → Prop} (h : ∀ s, S s) : ∀ v, StringsIn S v
  | .nil => .nil
  | .bool b => .bool b
  | .int i => .int i
  | .uint n => .uint n
  | .float bits => .float bits
  | .double bits => .double bits
  | .str s => .str (h s)
  | .bin s => .bin s
  | .ext type s => .ext type s
  | .array vs => .array (stringsIn_list h vs)
  | .map kvs => .map (stringsIn_pairs h kvs)

theorem stringsIn_list {S : List UInt8 → Prop} (h : ∀ s, S s) :
    ∀ vs : List Value, ∀ v ∈ vs, StringsIn S v
  | [] => List.forall_mem_nil _
  | v :: vs => List.forall_mem_cons.mpr ⟨stringsIn_of_forall h v, stringsIn_list h vs⟩

theorem stringsIn_pairs {S : List UInt8 → Prop} (h : ∀ s, S s) :
    ∀ kvs : List (Value × Value), ∀ v ∈ flatten kvs, StringsIn S v
  | [] => List.forall_mem_nil _
  | (k, v) :: kvs => List.forall_mem_cons.mpr ⟨stringsIn_of_forall h k,
      List.forall_mem_cons.mpr ⟨stringsIn_of_forall h v, stringsIn_pairs h kvs⟩⟩

end

theorem StringsIn.mono {S S' : List UInt8 → Prop} (h : ∀ s, S s → S' s) {v : Value}
    (hv : StringsIn S v) : StringsIn S' v := by
  induction hv with
  | nil => exact .nil
  | bool b => exact .bool b
  | int i => exact .int i
  | uint n => exact .uint n
  | float bits => exact .float bits
  | double bits => exact .double bits
  | str hs => exact .str (h _ hs)
  | bin s => exact .bin s
  | ext type s => exact .ext type s
  | array _ ih => exact .array ih
  | map _ ih => exact .map ih

/-- At least `n` such values are ahead, unless the reader is in error. -/
def Ahead (S : List UInt8 → Prop) (n : Nat) (reader : ReaderState) : Prop :=
  reader.ok = true → ∃ vs rest, Reads reader.rest vs rest ∧ n ≤ vs.length ∧ ∀ v ∈ vs, StringsIn S v

theorem Ahead.mono {S : List UInt8 → Prop} {m n : Nat} {reader : ReaderState} (h : Ahead S n reader)
    (hm : m ≤ n) : Ahead S m reader := fun hok =>
  let ⟨vs, rest, hr, hn, hvs⟩ := h hok
  ⟨vs, rest, hr, hm.trans hn, hvs⟩

theorem Ahead.flagError {S : List UInt8 → Prop} {n : Nat} {reader : ReaderState} :
    Ahead S n reader.flagError := fun hok => nomatch hok

/-- What parsing does where the callbacks keep `P`: it ends, in a context with `P`, with
`n` values ahead. -/
def Stays (S : List UInt8 → Prop) (P : σ → Prop) (n : Nat) (result : Except Fault (Parsed σ)) : Prop :=
  ∃ err reader ctx, result = .ok (err, reader, ctx) ∧ P ctx ∧ Ahead S n reader

variable {S : List UInt8 → Prop} {P : σ → Prop}

/-- A loop reads its pairs, or leaves some of them. -/
theorem mapLoop_stays {element : ReaderState → σ → Except Fault (Parsed σ)}
    (he : ∀ n reader ctx, Ahead S (n + 1) reader → P ctx → Stays S P n (element reader ctx)) :
    ∀ {count n : Nat} {reader : ReaderState} {ctx : σ}, Ahead S (2 * count + n) reader → P ctx →
      ∃ reader' ctx', mapLoop element count reader ctx = .ok (reader', ctx') ∧ P ctx' ∧
        Ahead S n reader' := by
  intro count
  induction count with
  | zero =>
      intro n reader ctx ha hP
      exact ⟨reader, ctx, rfl, hP, ha.mono (by omega)⟩
  | succ count ih =>
      intro n reader ctx ha hP
      obtain ⟨err₁, reader₁, ctx₁, h₁, hP₁, ha₁⟩ :=
        he (2 * count + n + 1) reader ctx (ha.mono (by omega)) hP
      obtain ⟨err₂, reader₂, ctx₂, h₂, hP₂, ha₂⟩ := he (2 * count + n) reader₁ ctx₁ ha₁ hP₁
      rw [mapLoop, h₁]
      show ∃ reader' ctx', (if err₁ ≠ .success then _ else _) = _ ∧ _
      split
      · exact ⟨reader₁, ctx₁, rfl, hP₁, ha₁.mono (by omega)⟩
      · rw [h₂]
        show ∃ reader' ctx', (if reader₂.ok = false ∨ err₂ ≠ .success then _ else _) = _ ∧ _
        split
        · exact ⟨reader₂, ctx₂, rfl, hP₂, ha₂.mono (by omega)⟩
        · exact ih ha₂ hP₂

/-- A loop over an array, likewise. -/
theorem arrayLoop_stays {element : ReaderState → σ → Except Fault (Parsed σ)}
    (he : ∀ n reader ctx, Ahead S (n + 1) reader → P ctx → Stays S P n (element reader ctx)) :
    ∀ {count n : Nat} {reader : ReaderState} {ctx : σ}, Ahead S (count + n) reader → P ctx →
      ∃ reader' ctx', arrayLoop element count reader ctx = .ok (reader', ctx') ∧ P ctx' ∧
        Ahead S n reader' := by
  intro count
  induction count with
  | zero =>
      intro n reader ctx ha hP
      exact ⟨reader, ctx, rfl, hP, ha.mono (by omega)⟩
  | succ count ih =>
      intro n reader ctx ha hP
      obtain ⟨err₁, reader₁, ctx₁, h₁, hP₁, ha₁⟩ :=
        he (count + n) reader ctx (ha.mono (by omega)) hP
      rw [arrayLoop, h₁]
      show ∃ reader' ctx', (if reader₁.ok = false ∨ err₁ ≠ .success then _ else _) = _ ∧ _
      split
      · exact ⟨reader₁, ctx₁, rfl, hP₁, ha₁.mono (by omega)⟩
      · exact ih ha₁ hP₁

/-- A value that is no container. -/
theorem switchTag_stays (hcb : CallbacksKeep cb S P)
    {element : ReaderState → σ → Except Fault (Parsed σ)} {n : Nat} {t : Tag} {bs bs' : List UInt8}
    {v : Value} {ctx : σ} (hval : MsgPack.scalar t bs = some (v, bs')) (hv : StringsIn S v)
    (hP : P ctx) (ha : Ahead S n ⟨bs', true⟩) :
    Stays S P n (switchTag cb element t ⟨bs, true⟩ ctx) := by
  cases t with
  | nil =>
      obtain ⟨-, rfl⟩ := Prod.mk.inj (Option.some.inj hval)
      refine ⟨.success, ⟨bs, true⟩, ctx, ?_, hP, ha⟩
      rw [switchTag, scalarElement, hcb.nilElement]
      rfl
  | bool b =>
      obtain ⟨-, rfl⟩ := Prod.mk.inj (Option.some.inj hval)
      refine ⟨.success, ⟨bs, true⟩, ctx, ?_, hP, ha⟩
      rw [switchTag, scalarElement, hcb.boolElement]
      rfl
  | int i =>
      obtain ⟨-, rfl⟩ := Prod.mk.inj (Option.some.inj hval)
      refine ⟨.success, ⟨bs, true⟩, ctx, ?_, hP, ha⟩
      rw [switchTag, scalarElement, hcb.intElement]
      rfl
  | uint m =>
      obtain ⟨-, rfl⟩ := Prod.mk.inj (Option.some.inj hval)
      obtain ⟨err, ctx', hc, hP'⟩ := hcb.uintElement (UInt64.ofNat m) hP
      refine ⟨err, ⟨bs, true⟩, ctx', ?_, hP', ha⟩
      rw [switchTag, scalarElement, hc]
      rfl
  | str length =>
      rw [MsgPack.scalar, payload] at hval
      split at hval
      · next hle =>
          obtain ⟨rfl, rfl⟩ := Prod.mk.inj (Option.some.inj hval)
          cases hv with
          | str hs =>
              obtain ⟨err, ctx', hc, hP'⟩ := hcb.stringElement hs hP
              rw [List.length_take_of_le hle] at hc
              refine ⟨err, ⟨bs.drop length, true⟩, ctx', ?_, hP', ha⟩
              rw [switchTag, mpackReadBytesInplace_take hle]
              show scalarElement _ (cb.stringElement ctx (some (bs.take length)) length) = _
              rw [hc]
              rfl
      · cases hval
  | float _ | double _ | bin _ | ext _ _ =>
      exact ⟨.success, ReaderState.flagError ⟨bs, true⟩, ctx, rfl, hP, .flagError⟩
  | array _ | map _ => cases hval

theorem switchTag_array_stays (hcb : CallbacksKeep cb S P)
    {element : ReaderState → σ → Except Fault (Parsed σ)}
    (he : ∀ n reader ctx, Ahead S (n + 1) reader → P ctx → Stays S P n (element reader ctx))
    {count n : Nat} {bs : List UInt8} {ctx : σ} (ha : Ahead S (count + n) ⟨bs, true⟩) (hP : P ctx) :
    Stays S P n (switchTag cb element (.array count) ⟨bs, true⟩ ctx) := by
  obtain ⟨reader', ctx', hloop, hP', ha'⟩ := arrayLoop_stays he ha hP
  refine ⟨.success, reader', ctx', ?_, hP', ha'⟩
  rw [switchTag, hcb.startArray]
  show (arrayLoop element count ⟨bs, true⟩ ctx >>= _) = _
  rw [hloop]
  show scalarElement reader' (cb.finishArray ctx') = _
  rw [hcb.finishArray]
  rfl

theorem switchTag_map_stays (hcb : CallbacksKeep cb S P)
    {element : ReaderState → σ → Except Fault (Parsed σ)}
    (he : ∀ n reader ctx, Ahead S (n + 1) reader → P ctx → Stays S P n (element reader ctx))
    {count n : Nat} {bs : List UInt8} {ctx : σ} (ha : Ahead S (2 * count + n) ⟨bs, true⟩) (hP : P ctx) :
    Stays S P n (switchTag cb element (.map count) ⟨bs, true⟩ ctx) := by
  obtain ⟨reader', ctx', hloop, hP', ha'⟩ := mapLoop_stays he ha hP
  obtain ⟨err, ctx'', hf, hP''⟩ := hcb.finishMap hP'
  refine ⟨err, reader', ctx'', ?_, hP'', ha'⟩
  rw [switchTag, hcb.startMap _ hP]
  show (mapLoop element count ⟨bs, true⟩ ctx >>= _) = _
  rw [hloop]
  show scalarElement reader' (cb.finishMap ctx') = _
  rw [hf]
  rfl

theorem parseElement_stays (hR : R.Lawful) (hcb : CallbacksKeep cb S P) :
    ∀ (levels n : Nat) (reader : ReaderState) (ctx : σ), Ahead S (n + 1) reader → P ctx →
      Stays S P n (parseElement R cb levels reader ctx) := by
  intro levels
  induction levels with
  | zero =>
      intro n reader ctx _ hP
      exact ⟨.success, reader.flagError, ctx, rfl, hP, .flagError⟩
  | succ levels ih =>
      intro n reader ctx ha hP
      obtain ⟨bs, ok⟩ := reader
      cases ok with
      | false => exact ⟨.success, ⟨bs, false⟩, ctx, rfl, hP, fun hok => nomatch hok⟩
      | true =>
          obtain ⟨vs, rest, hr, hlen, hvs⟩ := ha rfl
          cases hr with
          | nil => exact absurd hlen (Nat.not_succ_le_zero n)
          | scalar ht hval hrest =>
              obtain ⟨hv, hvs⟩ := List.forall_mem_cons.mp hvs
              rw [parseElement_tag hR ht]
              exact switchTag_stays hcb hval hv hP fun _ =>
                ⟨_, rest, hrest, Nat.le_of_succ_le_succ hlen, hvs⟩
          | @array _ r _ _ us vs ht hur hrest =>
              obtain ⟨hus, hvs⟩ := List.forall_mem_cons.mp hvs
              have hn : n ≤ vs.length := Nat.le_of_succ_le_succ hlen
              have hahead : Ahead S (us.length + n) ⟨r, true⟩ := by
                refine fun _ => ⟨us ++ vs, rest, hur.append hrest, ?_, fun w hw => ?_⟩
                · rw [List.length_append]
                  omega
                · cases hus with
                  | array hus => exact (List.mem_append.mp hw).elim (hus w) (hvs w)
              rw [parseElement_tag hR ht]
              exact switchTag_array_stays hcb ih hahead hP
          | @map _ r _ _ kvs vs ht hkr hrest =>
              obtain ⟨hkvs, hvs⟩ := List.forall_mem_cons.mp hvs
              have hn : n ≤ vs.length := Nat.le_of_succ_le_succ hlen
              have hahead : Ahead S (2 * kvs.length + n) ⟨r, true⟩ := by
                refine fun _ => ⟨flatten kvs ++ vs, rest, hkr.append hrest, ?_, fun w hw => ?_⟩
                · rw [List.length_append, length_flatten]
                  omega
                · cases hkvs with
                  | map hkvs => exact (List.mem_append.mp hw).elim (hkvs w) (hvs w)
              rw [parseElement_tag hR ht]
              exact switchTag_map_stays hcb ih hahead hP

/-- Within `v`, parsed from `ctx`, the callbacks come to a context with `P` and stay. -/
def Strays (R : MpackReader) (cb : Callbacks σ) (S : List UInt8 → Prop) (P : σ → Prop)
    (levels : Nat) (v : Value) (ctx : σ) : Prop :=
  ∀ n bs vs rest, Reads bs (v :: vs) rest → n ≤ vs.length → (∀ w ∈ vs, StringsIn S w) →
    Stays S P n (parseElement R cb levels ⟨bs, true⟩ ctx)

theorem Strays.of_stringsIn (hR : R.Lawful) (hcb : CallbacksKeep cb S P) {levels : Nat} {v : Value} {ctx : σ}
    (hv : StringsIn S v) (hP : P ctx) : Strays R cb S P levels v ctx := by
  intro n bs vs rest hr hn hvs
  refine parseElement_stays hR hcb levels n ⟨bs, true⟩ ctx (fun _ => ⟨v :: vs, rest, hr, ?_, ?_⟩) hP
  · rw [List.length_cons]
    omega
  · intro w hw
    rcases List.mem_cons.mp hw with rfl | hw
    · exact hv
    · exact hvs w hw

/-- The pairs up to the one that strays are read to their end; what follows it only has
to keep `P`. -/
theorem Strays.map (hR : R.Lawful) (hcb : CallbacksKeep cb S P) {levels : Nat}
    {kvs kvs' : List (Value × Value)} {k v : Value} {ctx ctx₁ ctx₂ ctx₃ : σ}
    (hs : cb.startMap ctx (kvs ++ (k, v) :: kvs').length = .ok (.success, ctx₁))
    (hkvs : WalksPairs R cb levels kvs ctx₁ ctx₂) (hk : Walks R cb levels k ctx₂ ctx₃)
    (hv : Strays R cb S P levels v ctx₃) (hkvs' : ∀ w ∈ flatten kvs', StringsIn S w) :
    Strays R cb S P (levels + 1) (.map (kvs ++ (k, v) :: kvs')) ctx := by
  intro n bs vs rest hr hn hvs
  obtain ⟨r, r', ht, hkr, hrest⟩ := hr.head_map
  have hall := hkr.append hrest
  rw [flatten_append, List.append_assoc] at hall
  obtain ⟨bs₁, hr₁, hloop⟩ := hkvs r _ rest hall
  obtain ⟨bs₂, hr₂, hk⟩ := hk bs₁ (v :: (flatten kvs' ++ vs)) rest hr₁
  have hah : ∀ w ∈ flatten kvs' ++ vs, StringsIn S w := fun w hw =>
    (List.mem_append.mp hw).elim (hkvs' w) (hvs w)
  obtain ⟨err, reader₃, ctx₃', hv, hP, ha⟩ := hv (2 * kvs'.length + n) bs₂ (flatten kvs' ++ vs) rest hr₂
    (by simp; omega) hah
  -- the rest of the loop, whether it goes on or not
  have hend : ∃ reader' ctx', mapLoop (parseElement R cb levels) (kvs'.length + 1) ⟨bs₁, true⟩ ctx₂ =
      .ok (reader', ctx') ∧ P ctx' ∧ Ahead S n reader' := by
    rw [mapLoop, hk]
    show ∃ reader' ctx', (parseElement R cb levels ⟨bs₂, true⟩ ctx₃ >>= _) = _ ∧ _
    rw [hv]
    show ∃ reader' ctx', (if reader₃.ok = false ∨ err ≠ .success then _ else _) = _ ∧ _
    split
    · exact ⟨reader₃, ctx₃', rfl, hP, ha.mono (by omega)⟩
    · exact mapLoop_stays (parseElement_stays hR hcb levels) ha hP
  obtain ⟨reader', ctx', hend, hP', ha'⟩ := hend
  obtain ⟨err', ctx'', hf, hP''⟩ := hcb.finishMap hP'
  refine ⟨err', reader', ctx'', ?_, hP'', ha'⟩
  have hcount : (kvs ++ (k, v) :: kvs').length = kvs.length + (kvs'.length + 1) := by simp
  rw [parseElement_tag hR ht, switchTag, hs]
  show (mapLoop (parseElement R cb levels) (kvs ++ (k, v) :: kvs').length ⟨r, true⟩ ctx₁ >>= _) = _
  rw [hcount, hloop, hend]
  show scalarElement reader' (cb.finishMap ctx') = _
  rw [hf]
  rfl

/-- The pairs up to a context with `P` are read to their end. -/
theorem Strays.map_of_keeps (hR : R.Lawful) (hcb : CallbacksKeep cb S P) {levels : Nat}
    {kvs kvs' : List (Value × Value)} {ctx ctx₁ ctx₂ : σ}
    (hs : cb.startMap ctx (kvs ++ kvs').length = .ok (.success, ctx₁))
    (hkvs : WalksPairs R cb levels kvs ctx₁ ctx₂) (hP : P ctx₂)
    (hkvs' : ∀ w ∈ flatten kvs', StringsIn S w) :
    Strays R cb S P (levels + 1) (.map (kvs ++ kvs')) ctx := by
  intro n bs vs rest hr hn hvs
  obtain ⟨r, r', ht, hkr, hrest⟩ := hr.head_map
  have hall := hkr.append hrest
  rw [flatten_append, List.append_assoc] at hall
  obtain ⟨bs₁, hr₁, hloop⟩ := hkvs r _ rest hall
  have hahead : Ahead S (2 * kvs'.length + n) ⟨bs₁, true⟩ := fun _ =>
    ⟨flatten kvs' ++ vs, rest, hr₁, by simp; omega, fun w hw =>
      (List.mem_append.mp hw).elim (hkvs' w) (hvs w)⟩
  obtain ⟨reader', ctx', hend, hP', ha'⟩ := mapLoop_stays (parseElement_stays hR hcb levels) hahead hP
  obtain ⟨err', ctx'', hf, hP''⟩ := hcb.finishMap hP'
  refine ⟨err', reader', ctx'', ?_, hP'', ha'⟩
  rw [parseElement_tag hR ht, switchTag, hs]
  show (mapLoop (parseElement R cb levels) (kvs ++ kvs').length ⟨r, true⟩ ctx₁ >>= _) = _
  rw [List.length_append, hloop, hend]
  show scalarElement reader' (cb.finishMap ctx') = _
  rw [hf]
  rfl

end Rules

end Vertices
