/-
# `Vertices.Lib.MsgPack` — the MessagePack format

Three views of one byte string, and how they fit.

| | |
| :-- | :-- |
| `Tag`, `decodeTag` | the head of a value, as a streaming reader hands it out |
| `Value`, `decode` | whole values, containers included |
| `Item`, `Item.bytes` | what a streaming writer appends: a head with its payload, in shortest form |

`Reads bs vs rest` is the grammar as a relation: `bs` begins with the encodings
of the values `vs`, one after the other, and `rest` is left.  `decode` computes
it (`decode_eq_some_iff`).  Forward, `Reads.uintItem`, …, `Reads.mapItem` say
that what is written is read back.  Backward, `length_of_decode` counts: a stream
of items that is one value has exactly one more item than its containers announce
children, so a container that announces more than it was given cannot parse.
-/
import Mathlib.Tactic.Common
import Vertices.Lib.ByteOrder

namespace MsgPack

open ByteOrder

/-! ## Tags -/

/-- The head of a value: its type, and its value, length or count. -/
inductive Tag where
  | nil
  | bool (b : Bool)
  | int (i : Int)
  | uint (n : Nat)
  | float (bits : Nat)
  | double (bits : Nat)
  | str (length : Nat)
  | bin (length : Nat)
  | array (count : Nat)
  | map (count : Nat)
  | ext (type length : Nat)
  deriving DecidableEq, Repr

/-- A big-endian field of `k` bytes. -/
def field (k : Nat) (mk : Nat → Tag) (bs : List UInt8) : Option (Tag × List UInt8) :=
  if k ≤ bs.length then some (mk (beNat (bs.take k)), bs.drop k) else none

/-- The two's-complement reading of a field of `k` bytes. -/
def signed (k n : Nat) : Int :=
  if 2 * n < 256 ^ k then (n : Int) else (n : Int) - 256 ^ k

/-- An extension head: `k` bytes of length, then the type byte. -/
def extField (k : Nat) (bs : List UInt8) : Option (Tag × List UInt8) :=
  if k + 1 ≤ bs.length then
    some (.ext (beNat ((bs.drop k).take 1)) (beNat (bs.take k)), bs.drop (k + 1))
  else none

/-- The heads whose first byte is between `0xc0` and `0xdf`. -/
def decodeWide (n : Nat) (bs : List UInt8) : Option (Tag × List UInt8) :=
  match n with
  | 0xc0 => some (.nil, bs)
  | 0xc2 => some (.bool false, bs)
  | 0xc3 => some (.bool true, bs)
  | 0xc4 => field 1 .bin bs
  | 0xc5 => field 2 .bin bs
  | 0xc6 => field 4 .bin bs
  | 0xc7 => extField 1 bs
  | 0xc8 => extField 2 bs
  | 0xc9 => extField 4 bs
  | 0xca => field 4 .float bs
  | 0xcb => field 8 .double bs
  | 0xcc => field 1 .uint bs
  | 0xcd => field 2 .uint bs
  | 0xce => field 4 .uint bs
  | 0xcf => field 8 .uint bs
  | 0xd0 => field 1 (fun m => .int (signed 1 m)) bs
  | 0xd1 => field 2 (fun m => .int (signed 2 m)) bs
  | 0xd2 => field 4 (fun m => .int (signed 4 m)) bs
  | 0xd3 => field 8 (fun m => .int (signed 8 m)) bs
  | 0xd4 => field 1 (fun ty => .ext ty 1) bs
  | 0xd5 => field 1 (fun ty => .ext ty 2) bs
  | 0xd6 => field 1 (fun ty => .ext ty 4) bs
  | 0xd7 => field 1 (fun ty => .ext ty 8) bs
  | 0xd8 => field 1 (fun ty => .ext ty 16) bs
  | 0xd9 => field 1 .str bs
  | 0xda => field 2 .str bs
  | 0xdb => field 4 .str bs
  | 0xdc => field 2 .array bs
  | 0xdd => field 4 .array bs
  | 0xde => field 2 .map bs
  | 0xdf => field 4 .map bs
  | _ => none

/-- The tag at the front of `bs`, and what follows it.  `0xc1` starts nothing. -/
def decodeTag : List UInt8 → Option (Tag × List UInt8)
  | [] => none
  | b :: bs =>
      let n := b.toNat
      if n < 0x80 then some (.uint n, bs)
      else if n < 0x90 then some (.map (n - 0x80), bs)
      else if n < 0xa0 then some (.array (n - 0x90), bs)
      else if n < 0xc0 then some (.str (n - 0xa0), bs)
      else if n < 0xe0 then decodeWide n bs
      else some (.int ((n : Int) - 256), bs)

theorem field_suffix {k : Nat} {mk : Nat → Tag} {bs r : List UInt8} {t : Tag}
    (h : field k mk bs = some (t, r)) : r <:+ bs := by
  unfold field at h
  split at h
  · obtain ⟨-, rfl⟩ := Prod.mk.inj (Option.some.inj h)
    exact List.drop_suffix _ _
  · exact nomatch h

theorem extField_suffix {k : Nat} {bs r : List UInt8} {t : Tag}
    (h : extField k bs = some (t, r)) : r <:+ bs := by
  unfold extField at h
  split at h
  · obtain ⟨-, rfl⟩ := Prod.mk.inj (Option.some.inj h)
    exact List.drop_suffix _ _
  · exact nomatch h

theorem decodeWide_suffix {n : Nat} {bs r : List UInt8} {t : Tag}
    (h : decodeWide n bs = some (t, r)) : r <:+ bs := by
  unfold decodeWide at h
  split at h
  all_goals first
    | exact field_suffix h
    | exact extField_suffix h
    | exact (Prod.mk.inj (Option.some.inj h)).2 ▸ List.suffix_rfl
    | exact nomatch h

/-- A tag is read off the front, and takes at least one byte. -/
theorem decodeTag_suffix {bs r : List UInt8} {t : Tag} (h : decodeTag bs = some (t, r)) :
    ∃ b bs', bs = b :: bs' ∧ r <:+ bs' := by
  cases bs with
  | nil => exact nomatch h
  | cons b bs =>
      refine ⟨b, bs, rfl, ?_⟩
      simp only [decodeTag] at h
      split at h
      · exact (Prod.mk.inj (Option.some.inj h)).2 ▸ List.suffix_rfl
      split at h
      · exact (Prod.mk.inj (Option.some.inj h)).2 ▸ List.suffix_rfl
      split at h
      · exact (Prod.mk.inj (Option.some.inj h)).2 ▸ List.suffix_rfl
      split at h
      · exact (Prod.mk.inj (Option.some.inj h)).2 ▸ List.suffix_rfl
      split at h
      · exact decodeWide_suffix h
      · exact (Prod.mk.inj (Option.some.inj h)).2 ▸ List.suffix_rfl

theorem decodeTag_shorter {bs r : List UInt8} {t : Tag} (h : decodeTag bs = some (t, r)) :
    r.length < bs.length := by
  obtain ⟨b, bs', rfl, hr⟩ := decodeTag_suffix h
  exact Nat.lt_succ_of_le hr.length_le

/-! ## Values -/

/-- A MessagePack value. -/
inductive Value where
  | nil
  | bool (b : Bool)
  | int (i : Int)
  | uint (n : Nat)
  | float (bits : Nat)
  | double (bits : Nat)
  | str (bytes : List UInt8)
  | bin (bytes : List UInt8)
  | ext (type : Nat) (bytes : List UInt8)
  | array (vs : List Value)
  | map (kvs : List (Value × Value))
  deriving Repr

/-- `n` bytes of payload. -/
def payload (n : Nat) (mk : List UInt8 → Value) (bs : List UInt8) : Option (Value × List UInt8) :=
  if n ≤ bs.length then some (mk (bs.take n), bs.drop n) else none

/-- The value a tag starts, when it is no container. -/
def scalar : Tag → List UInt8 → Option (Value × List UInt8)
  | .nil, bs => some (.nil, bs)
  | .bool b, bs => some (.bool b, bs)
  | .int i, bs => some (.int i, bs)
  | .uint n, bs => some (.uint n, bs)
  | .float n, bs => some (.float n, bs)
  | .double n, bs => some (.double n, bs)
  | .str n, bs => payload n .str bs
  | .bin n, bs => payload n .bin bs
  | .ext ty n, bs => payload n (.ext ty) bs
  | .array _, _ => none
  | .map _, _ => none

/-- The keys and values of a map, in the order they are encoded. -/
def flatten : List (Value × Value) → List Value
  | [] => []
  | kv :: kvs => kv.1 :: kv.2 :: flatten kvs

/-- Consecutive values taken as the pairs of a map. -/
def pairUp : List Value → List (Value × Value)
  | k :: v :: vs => (k, v) :: pairUp vs
  | _ => []

@[simp] theorem length_flatten (kvs : List (Value × Value)) :
    (flatten kvs).length = 2 * kvs.length := by
  induction kvs with
  | nil => rfl
  | cons kv kvs ih =>
      simp only [flatten, List.length_cons, ih]
      omega

theorem flatten_append (kvs kvs' : List (Value × Value)) :
    flatten (kvs ++ kvs') = flatten kvs ++ flatten kvs' := by
  induction kvs with
  | nil => rfl
  | cons kv kvs ih => simp [flatten, ih]

@[simp] theorem pairUp_flatten (kvs : List (Value × Value)) : pairUp (flatten kvs) = kvs := by
  induction kvs with
  | nil => rfl
  | cons kv kvs ih => simp [flatten, pairUp, ih]

theorem flatten_pairUp : ∀ {n : Nat} {vs : List Value}, vs.length = 2 * n →
    flatten (pairUp vs) = vs ∧ (pairUp vs).length = n
  | 0, vs, h => by
      obtain rfl := List.length_eq_zero_iff.mp (by omega : vs.length = 0)
      exact ⟨rfl, rfl⟩
  | n + 1, vs, h => by
      match vs, h with
      | k :: v :: vs, h =>
          have hlength : vs.length = 2 * n := by
            simp only [List.length_cons] at h
            omega
          have ih := flatten_pairUp hlength
          exact ⟨by simp [pairUp, flatten, ih.1], by simp [pairUp, ih.2]⟩

/-- `Reads bs vs rest`: `bs` is the encodings of `vs`, then `rest`. -/
inductive Reads : List UInt8 → List Value → List UInt8 → Prop
  | nil (bs : List UInt8) : Reads bs [] bs
  | scalar {bs r r' rest : List UInt8} {t : Tag} {v : Value} {vs : List Value} :
      decodeTag bs = some (t, r) → scalar t r = some (v, r') → Reads r' vs rest →
      Reads bs (v :: vs) rest
  | array {bs r r' rest : List UInt8} {us vs : List Value} :
      decodeTag bs = some (.array us.length, r) → Reads r us r' → Reads r' vs rest →
      Reads bs (.array us :: vs) rest
  | map {bs r r' rest : List UInt8} {kvs : List (Value × Value)} {vs : List Value} :
      decodeTag bs = some (.map kvs.length, r) → Reads r (flatten kvs) r' → Reads r' vs rest →
      Reads bs (.map kvs :: vs) rest

/-- Decode `n` consecutive values.  Every value takes a byte, so `fuel` need not
exceed the number of bytes. -/
def decodeN : Nat → Nat → List UInt8 → Option (List Value × List UInt8)
  | _, 0, bs => some ([], bs)
  | 0, _ + 1, _ => none
  | fuel + 1, n + 1, bs =>
      match decodeTag bs with
      | none => none
      | some (.array m, r) =>
          match decodeN fuel m r with
          | none => none
          | some (us, r') => (decodeN fuel n r').map fun p => (.array us :: p.1, p.2)
      | some (.map m, r) =>
          match decodeN fuel (2 * m) r with
          | none => none
          | some (us, r') => (decodeN fuel n r').map fun p => (.map (pairUp us) :: p.1, p.2)
      | some (t, r) =>
          match scalar t r with
          | none => none
          | some (v, r') => (decodeN fuel n r').map fun p => (v :: p.1, p.2)

/-- Decode one value. -/
def decode (bs : List UInt8) : Option (Value × List UInt8) :=
  match decodeN bs.length 1 bs with
  | some ([v], rest) => some (v, rest)
  | _ => none

/-! ### `decode` computes `Reads` -/

theorem payload_shorter {n : Nat} {mk : List UInt8 → Value} {bs r : List UInt8} {v : Value}
    (h : payload n mk bs = some (v, r)) : r.length ≤ bs.length := by
  unfold payload at h
  split at h
  · obtain ⟨-, rfl⟩ := Prod.mk.inj (Option.some.inj h)
    simp
  · exact nomatch h

theorem scalar_shorter {t : Tag} {bs r : List UInt8} {v : Value}
    (h : scalar t bs = some (v, r)) : r.length ≤ bs.length := by
  cases t with
  | str n | bin n | ext _ n => exact payload_shorter h
  | array _ | map _ => exact nomatch h
  | _ => exact (congrArg (fun p => p.2.length) (Option.some.inj h)).ge

theorem Reads.shorter {bs rest : List UInt8} {vs : List Value} (h : Reads bs vs rest) :
    rest.length + vs.length ≤ bs.length := by
  induction h with
  | nil bs => simp
  | scalar ht hv _ ih =>
      have h₁ := decodeTag_shorter ht
      have h₂ := scalar_shorter hv
      simp only [List.length_cons]; omega
  | array ht _ _ ihu ih | map ht _ _ ihu ih =>
      have h₁ := decodeTag_shorter ht
      simp only [List.length_cons]; omega

theorem decodeN_sound : ∀ (fuel n : Nat) {bs rest : List UInt8} {vs : List Value},
    decodeN fuel n bs = some (vs, rest) → Reads bs vs rest ∧ vs.length = n
  | fuel, 0, bs, rest, vs, h => by
      rw [decodeN] at h
      obtain ⟨rfl, rfl⟩ := Prod.mk.inj (Option.some.inj h)
      exact ⟨.nil _, rfl⟩
  | 0, _ + 1, _, _, _, h => by rw [decodeN] at h; exact nomatch h
  | fuel + 1, n + 1, bs, rest, vs, h => by
      rw [decodeN] at h
      split at h
      · exact nomatch h
      · next m r ht =>
          split at h
          · exact nomatch h
          · next us r' hu =>
              obtain ⟨p, hp, he⟩ := Option.map_eq_some_iff.mp h
              obtain ⟨rfl, rfl⟩ := Prod.mk.inj he
              obtain ⟨hus, hlen⟩ := decodeN_sound fuel m hu
              obtain ⟨hvs, hn⟩ := decodeN_sound fuel n (show decodeN fuel n r' = some (p.1, p.2) from hp)
              exact ⟨.array (hlen ▸ ht) hus hvs, by rw [List.length_cons, hn]⟩
      · next m r ht =>
          split at h
          · exact nomatch h
          · next us r' hu =>
              obtain ⟨p, hp, he⟩ := Option.map_eq_some_iff.mp h
              obtain ⟨rfl, rfl⟩ := Prod.mk.inj he
              obtain ⟨hus, hlen⟩ := decodeN_sound fuel (2 * m) hu
              obtain ⟨hf, hm⟩ := flatten_pairUp hlen
              obtain ⟨hvs, hn⟩ := decodeN_sound fuel n (show decodeN fuel n r' = some (p.1, p.2) from hp)
              exact ⟨.map (by rw [hm]; exact ht) (by rw [hf]; exact hus) hvs,
                by rw [List.length_cons, hn]⟩
      · next t r _ _ ht =>
          split at h
          · exact nomatch h
          · next v r' hv =>
              obtain ⟨p, hp, he⟩ := Option.map_eq_some_iff.mp h
              obtain ⟨rfl, rfl⟩ := Prod.mk.inj he
              obtain ⟨hvs, hn⟩ := decodeN_sound fuel n (show decodeN fuel n r' = some (p.1, p.2) from hp)
              exact ⟨.scalar ht hv hvs, by rw [List.length_cons, hn]⟩

theorem decodeN_complete {bs rest : List UInt8} {vs : List Value} (h : Reads bs vs rest) :
    ∀ fuel, bs.length ≤ fuel → decodeN fuel vs.length bs = some (vs, rest) := by
  induction h with
  | nil bs => intro fuel _; cases fuel <;> rfl
  | @scalar bs r r' rest t v vs ht hv hvs ih =>
      intro fuel hf
      have h₁ := decodeTag_shorter ht
      have h₂ := scalar_shorter hv
      obtain ⟨fuel, rfl⟩ : ∃ f, fuel = f + 1 := ⟨fuel - 1, by omega⟩
      rw [List.length_cons, decodeN, ht]
      cases t with
      | array _ | map _ => exact nomatch hv
      | _ => simp only [hv, ih fuel (by omega), Option.map_some]
  | @array bs r r' rest us vs ht hu hvs ihu ih =>
      intro fuel hf
      have h₁ := decodeTag_shorter ht
      have h₂ := hu.shorter
      obtain ⟨fuel, rfl⟩ : ∃ f, fuel = f + 1 := ⟨fuel - 1, by omega⟩
      rw [List.length_cons, decodeN, ht]
      simp only [ihu fuel (by omega), ih fuel (by omega), Option.map_some]
  | @map bs r r' rest kvs vs ht hu hvs ihu ih =>
      intro fuel hf
      have h₁ := decodeTag_shorter ht
      have h₂ := hu.shorter
      obtain ⟨fuel, rfl⟩ : ∃ f, fuel = f + 1 := ⟨fuel - 1, by omega⟩
      have hu' := ihu fuel (by omega)
      rw [length_flatten] at hu'
      rw [List.length_cons, decodeN, ht]
      simp only [hu', ih fuel (by omega), Option.map_some, pairUp_flatten]

/-- `decode` is the grammar, computed. -/
theorem decode_eq_some_iff {bs rest : List UInt8} {v : Value} :
    decode bs = some (v, rest) ↔ Reads bs [v] rest := by
  unfold decode
  constructor
  · intro h
    split at h
    · next w r hd =>
        obtain ⟨rfl, rfl⟩ := Prod.mk.inj (Option.some.inj h)
        exact (decodeN_sound _ _ hd).1
    · exact nomatch h
  · intro h
    have := decodeN_complete h bs.length (Nat.le_refl _)
    rw [show ([v] : List Value).length = 1 from rfl] at this
    rw [this]

/-! ### Taking a parse apart, one value at a time -/

theorem Reads.head_scalar {bs rest : List UInt8} {v : Value} {vs : List Value}
    (h : Reads bs (v :: vs) rest) (ha : ∀ us, v ≠ .array us) (hm : ∀ kvs, v ≠ .map kvs) :
    ∃ t r r', decodeTag bs = some (t, r) ∧ MsgPack.scalar t r = some (v, r') ∧
      Reads r' vs rest := by
  cases h with
  | scalar ht hv hvs => exact ⟨_, _, _, ht, hv, hvs⟩
  | array _ _ _ => exact absurd rfl (ha _)
  | map _ _ _ => exact absurd rfl (hm _)

theorem scalar_uint {t : Tag} {bs r : List UInt8} {n : Nat}
    (h : scalar t bs = some (.uint n, r)) : t = .uint n ∧ r = bs := by
  cases t with
  | str _ | bin _ | ext _ _ =>
      simp only [scalar, payload] at h
      split at h <;> simp at h
  | uint m =>
      simp only [scalar, Option.some.injEq, Prod.mk.injEq, Value.uint.injEq] at h
      exact ⟨by rw [h.1], h.2.symm⟩
  | _ => simp [scalar] at h

theorem scalar_str {t : Tag} {bs r s : List UInt8} (h : scalar t bs = some (.str s, r)) :
    t = .str s.length ∧ s.length ≤ bs.length ∧ s = bs.take s.length ∧ r = bs.drop s.length := by
  cases t with
  | str n =>
      simp only [scalar, payload] at h
      split at h
      · next hn =>
          simp only [Option.some.injEq, Prod.mk.injEq, Value.str.injEq] at h
          obtain ⟨rfl, rfl⟩ := h
          have hl : (bs.take n).length = n := by simp [hn]
          rw [hl]
          exact ⟨rfl, hn, rfl, rfl⟩
      · exact nomatch h
  | bin _ | ext _ _ =>
      simp only [scalar, payload] at h
      split at h <;> simp at h
  | _ => simp [scalar] at h

theorem Reads.head_uint {bs rest : List UInt8} {n : Nat} {vs : List Value}
    (h : Reads bs (.uint n :: vs) rest) :
    ∃ r, decodeTag bs = some (.uint n, r) ∧ Reads r vs rest := by
  obtain ⟨t, r, r', ht, hv, hvs⟩ := h.head_scalar (fun _ => nofun) (fun _ => nofun)
  obtain ⟨rfl, rfl⟩ := scalar_uint hv
  exact ⟨r', ht, hvs⟩

theorem Reads.head_str {bs rest s : List UInt8} {vs : List Value}
    (h : Reads bs (.str s :: vs) rest) :
    ∃ r, decodeTag bs = some (.str s.length, r) ∧ s.length ≤ r.length ∧ r.take s.length = s ∧
      Reads (r.drop s.length) vs rest := by
  obtain ⟨t, r, r', ht, hv, hvs⟩ := h.head_scalar (fun _ => nofun) (fun _ => nofun)
  obtain ⟨rfl, hl, hs, rfl⟩ := scalar_str hv
  exact ⟨r, ht, hl, hs.symm, hvs⟩

theorem Reads.head_map {bs rest : List UInt8} {kvs : List (Value × Value)} {vs : List Value}
    (h : Reads bs (.map kvs :: vs) rest) :
    ∃ r r', decodeTag bs = some (.map kvs.length, r) ∧ Reads r (flatten kvs) r' ∧
      Reads r' vs rest := by
  cases h with
  | @scalar _ _ _ _ t _ _ ht hv _ =>
      cases t with
      | str _ | bin _ | ext _ _ =>
          simp only [MsgPack.scalar, payload] at hv
          split at hv <;> simp at hv
      | _ => simp [MsgPack.scalar] at hv
  | map ht hu hvs => exact ⟨_, _, ht, hu, hvs⟩

theorem Reads.head_array {bs rest : List UInt8} {us vs : List Value}
    (h : Reads bs (.array us :: vs) rest) :
    ∃ r r', decodeTag bs = some (.array us.length, r) ∧ Reads r us r' ∧ Reads r' vs rest := by
  cases h with
  | @scalar _ _ _ _ t _ _ ht hv _ =>
      cases t with
      | str _ | bin _ | ext _ _ =>
          simp only [MsgPack.scalar, payload] at hv
          split at hv <;> simp at hv
      | _ => simp [MsgPack.scalar] at hv
  | array ht hu hvs => exact ⟨_, _, ht, hu, hvs⟩

/-! ## Items: what a streaming writer appends -/

/-- A head together with the payload that goes with it. -/
inductive Item where
  | uint (n : Nat)
  | str (bytes : List UInt8)
  | bin (bytes : List UInt8)
  | array (count : Nat)
  | map (count : Nat)
  deriving DecidableEq, Repr

/-- The head of an item in its shortest form. -/
def Item.head : Item → List UInt8
  | .uint n =>
      if n < 0x80 then [UInt8.ofNat n]
      else if n < 0x100 then 0xcc :: beBytes 1 n
      else if n < 0x10000 then 0xcd :: beBytes 2 n
      else if n < 0x100000000 then 0xce :: beBytes 4 n
      else 0xcf :: beBytes 8 n
  | .str s =>
      if s.length < 32 then [UInt8.ofNat (0xa0 + s.length)]
      else if s.length < 0x100 then 0xd9 :: beBytes 1 s.length
      else if s.length < 0x10000 then 0xda :: beBytes 2 s.length
      else 0xdb :: beBytes 4 s.length
  | .bin s =>
      if s.length < 0x100 then 0xc4 :: beBytes 1 s.length
      else if s.length < 0x10000 then 0xc5 :: beBytes 2 s.length
      else 0xc6 :: beBytes 4 s.length
  | .array n =>
      if n < 16 then [UInt8.ofNat (0x90 + n)]
      else if n < 0x10000 then 0xdc :: beBytes 2 n
      else 0xdd :: beBytes 4 n
  | .map n =>
      if n < 16 then [UInt8.ofNat (0x80 + n)]
      else if n < 0x10000 then 0xde :: beBytes 2 n
      else 0xdf :: beBytes 4 n

/-- The bytes that follow the head. -/
def Item.payload : Item → List UInt8
  | .str s | .bin s => s
  | _ => []

def Item.bytes (i : Item) : List UInt8 := i.head ++ i.payload

/-- The tag a reader sees. -/
def Item.tag : Item → Tag
  | .uint n => .uint n
  | .str s => .str s.length
  | .bin s => .bin s.length
  | .array n => .array n
  | .map n => .map n

/-- The values the item announces after itself. -/
def Item.children : Item → Nat
  | .array n => n
  | .map n => 2 * n
  | _ => 0

/-- The numbers in the head fit the widest field the format has for them. -/
def Item.Fits : Item → Prop
  | .uint n => n < 2 ^ 64
  | .str s | .bin s => s.length < 2 ^ 32
  | .array n | .map n => n < 2 ^ 32

/-! ### Lengths -/

theorem Item.length_uint (n : Nat) :
    1 ≤ (Item.uint n).bytes.length ∧ (Item.uint n).bytes.length ≤ 9 := by
  simp only [Item.bytes, Item.head, Item.payload, List.append_nil]
  repeat' split
  all_goals simp

theorem Item.length_str {s : List UInt8} (h : s.length < 32) :
    (Item.str s).bytes.length = 1 + s.length := by
  simp only [Item.bytes, Item.head, Item.payload, if_pos h, List.length_append,
    List.length_singleton]

theorem Item.length_bin {s : List UInt8} (h : s.length < 256) :
    (Item.bin s).bytes.length = 2 + s.length := by
  simp only [Item.bytes, Item.head, Item.payload, if_pos h, List.length_append,
    List.length_cons, length_beBytes]

theorem Item.length_bin_le (s : List UInt8) : (Item.bin s).bytes.length ≤ 5 + s.length := by
  simp only [Item.bytes, Item.head, Item.payload, List.length_append]
  repeat' split
  all_goals simp only [List.length_cons, length_beBytes]; omega

theorem Item.length_array {n : Nat} (h : n < 16) : (Item.array n).bytes.length = 1 := by
  simp only [Item.bytes, Item.head, Item.payload, if_pos h, List.append_nil, List.length_singleton]

theorem Item.length_map {n : Nat} (h : n < 16) : (Item.map n).bytes.length = 1 := by
  simp only [Item.bytes, Item.head, Item.payload, if_pos h, List.append_nil, List.length_singleton]

theorem decodeTag_wide {b : UInt8} {n : Nat} (hb : b.toNat = n) (hlo : 0xc0 ≤ n) (hhi : n < 0xe0)
    (bs : List UInt8) : decodeTag (b :: bs) = decodeWide n bs := by
  simp only [decodeTag, hb]
  rw [if_neg (by omega), if_neg (by omega), if_neg (by omega), if_neg (by omega), if_pos hhi]

theorem field_beBytes {k n : Nat} (mk : Nat → Tag) (h : n < 256 ^ k) (bs : List UInt8) :
    field k mk (beBytes k n ++ bs) = some (mk n, bs) := by
  have hl := length_beBytes k n
  rw [field, if_pos (by simp), List.take_left' hl, List.drop_left' hl, beNat_beBytes h]

theorem toNat_ofNat_of_lt {n : Nat} (h : n < 256) : (UInt8.ofNat n).toNat = n := by
  rw [UInt8.toNat_ofNat']; omega

/-- The reader sees the tag the writer wrote. -/
theorem decodeTag_head {i : Item} (h : i.Fits) (bs : List UInt8) :
    decodeTag (i.head ++ bs) = some (i.tag, bs) := by
  cases i with
  | uint n =>
      simp only [Item.head]
      split
      · next hn =>
          simp only [List.singleton_append, decodeTag, toNat_ofNat_of_lt (show n < 256 by omega)]
          rw [if_pos hn]; rfl
      split
      · rw [List.cons_append, decodeTag_wide rfl (by decide) (by decide)]
        exact field_beBytes .uint (by omega) bs
      split
      · rw [List.cons_append, decodeTag_wide rfl (by decide) (by decide)]
        exact field_beBytes .uint (by omega) bs
      split
      · rw [List.cons_append, decodeTag_wide rfl (by decide) (by decide)]
        exact field_beBytes .uint (by omega) bs
      · rw [List.cons_append, decodeTag_wide rfl (by decide) (by decide)]
        exact field_beBytes .uint (by simp only [Item.Fits] at h; omega) bs
  | str s =>
      simp only [Item.head]
      split
      · next hn =>
          simp only [List.singleton_append, decodeTag,
            toNat_ofNat_of_lt (show 0xa0 + s.length < 256 by omega)]
          rw [if_neg (by omega), if_neg (by omega), if_neg (by omega), if_pos (by omega),
            show 0xa0 + s.length - 0xa0 = s.length by omega]
          rfl
      split
      · rw [List.cons_append, decodeTag_wide rfl (by decide) (by decide)]
        exact field_beBytes .str (by omega) bs
      split
      · rw [List.cons_append, decodeTag_wide rfl (by decide) (by decide)]
        exact field_beBytes .str (by omega) bs
      · rw [List.cons_append, decodeTag_wide rfl (by decide) (by decide)]
        exact field_beBytes .str (by simp only [Item.Fits] at h; omega) bs
  | bin s =>
      simp only [Item.head]
      split
      · rw [List.cons_append, decodeTag_wide rfl (by decide) (by decide)]
        exact field_beBytes .bin (by omega) bs
      split
      · rw [List.cons_append, decodeTag_wide rfl (by decide) (by decide)]
        exact field_beBytes .bin (by omega) bs
      · rw [List.cons_append, decodeTag_wide rfl (by decide) (by decide)]
        exact field_beBytes .bin (by simp only [Item.Fits] at h; omega) bs
  | array n =>
      simp only [Item.head]
      split
      · next hn =>
          simp only [List.singleton_append, decodeTag,
            toNat_ofNat_of_lt (show 0x90 + n < 256 by omega)]
          rw [if_neg (by omega), if_neg (by omega), if_pos (by omega),
            show 0x90 + n - 0x90 = n by omega]
          rfl
      split
      · rw [List.cons_append, decodeTag_wide rfl (by decide) (by decide)]
        exact field_beBytes .array (by omega) bs
      · rw [List.cons_append, decodeTag_wide rfl (by decide) (by decide)]
        exact field_beBytes .array (by simp only [Item.Fits] at h; omega) bs
  | map n =>
      simp only [Item.head]
      split
      · next hn =>
          simp only [List.singleton_append, decodeTag,
            toNat_ofNat_of_lt (show 0x80 + n < 256 by omega)]
          rw [if_neg (by omega), if_pos (by omega), show 0x80 + n - 0x80 = n by omega]
          rfl
      split
      · rw [List.cons_append, decodeTag_wide rfl (by decide) (by decide)]
        exact field_beBytes .map (by omega) bs
      · rw [List.cons_append, decodeTag_wide rfl (by decide) (by decide)]
        exact field_beBytes .map (by simp only [Item.Fits] at h; omega) bs

theorem decodeTag_bytes {i : Item} (h : i.Fits) (bs : List UInt8) :
    decodeTag (i.bytes ++ bs) = some (i.tag, i.payload ++ bs) := by
  rw [Item.bytes, List.append_assoc, decodeTag_head h]

/-! ### What is written is read back -/

theorem Reads.uintItem {n : Nat} (h : n < 2 ^ 64) {bs rest : List UInt8} {vs : List Value}
    (hvs : Reads bs vs rest) : Reads ((Item.uint n).bytes ++ bs) (.uint n :: vs) rest :=
  .scalar (decodeTag_bytes (i := .uint n) h bs) rfl hvs

theorem Reads.strItem {s : List UInt8} (h : s.length < 2 ^ 32) {bs rest : List UInt8}
    {vs : List Value} (hvs : Reads bs vs rest) :
    Reads ((Item.str s).bytes ++ bs) (.str s :: vs) rest := by
  refine .scalar (decodeTag_bytes (i := .str s) h bs) ?_ hvs
  simp [MsgPack.scalar, Item.tag, Item.payload, MsgPack.payload]

theorem Reads.binItem {s : List UInt8} (h : s.length < 2 ^ 32) {bs rest : List UInt8}
    {vs : List Value} (hvs : Reads bs vs rest) :
    Reads ((Item.bin s).bytes ++ bs) (.bin s :: vs) rest := by
  refine .scalar (decodeTag_bytes (i := .bin s) h bs) ?_ hvs
  simp [MsgPack.scalar, Item.tag, Item.payload, MsgPack.payload]

theorem Reads.arrayItem {us vs : List Value} (h : us.length < 2 ^ 32) {bs r rest : List UInt8}
    (hus : Reads bs us r) (hvs : Reads r vs rest) :
    Reads ((Item.array us.length).bytes ++ bs) (.array us :: vs) rest :=
  .array (decodeTag_bytes (i := .array us.length) h bs) hus hvs

theorem Reads.mapItem {kvs : List (Value × Value)} {vs : List Value} (h : kvs.length < 2 ^ 32)
    {bs r rest : List UInt8} (hkvs : Reads bs (flatten kvs) r) (hvs : Reads r vs rest) :
    Reads ((Item.map kvs.length).bytes ++ bs) (.map kvs :: vs) rest :=
  .map (decodeTag_bytes (i := .map kvs.length) h bs) hkvs hvs

/-! ### Counting

A container announces its children before they are written.  Reading a stream of
items consumes, for each value asked for, that value's head and everything it
announces; so the items consumed are as many as the values asked for plus the
children announced on the way. -/

/-- The bytes of a stream of items. -/
def itemBytes (is : List Item) : List UInt8 := is.flatMap Item.bytes

theorem Item.head_ne_nil (i : Item) : i.head ≠ [] := by
  cases i <;> simp only [Item.head] <;> (repeat' split) <;> simp

theorem itemBytes_eq_nil {is : List Item} (h : itemBytes is = []) : is = [] := by
  cases is with
  | nil => rfl
  | cons i is =>
      simp only [itemBytes, List.flatMap_cons, Item.bytes, List.append_eq_nil_iff] at h
      exact absurd h.1.1 i.head_ne_nil

theorem decodeTag_items {is : List Item} {t : Tag} {r : List UInt8} (hf : ∀ i ∈ is, i.Fits)
    (h : decodeTag (itemBytes is) = some (t, r)) :
    ∃ i is', is = i :: is' ∧ t = i.tag ∧ r = i.payload ++ itemBytes is' := by
  cases is with
  | nil => exact nomatch h
  | cons i is =>
      rw [itemBytes, List.flatMap_cons, decodeTag_bytes (hf i List.mem_cons_self)] at h
      obtain ⟨rfl, rfl⟩ := Prod.mk.inj (Option.some.inj h)
      exact ⟨i, is, rfl, rfl, rfl⟩

theorem scalar_item {i : Item} {bs r : List UInt8} {v : Value}
    (h : scalar i.tag (i.payload ++ bs) = some (v, r)) : r = bs ∧ i.children = 0 := by
  cases i with
  | uint n => exact ⟨(Prod.mk.inj (Option.some.inj h)).2.symm, rfl⟩
  | str s | bin s =>
      simp only [Item.tag, Item.payload, scalar, MsgPack.payload, List.length_append,
        Nat.le_add_right, if_true, List.drop_left, Option.some.injEq, Prod.mk.injEq] at h
      exact ⟨h.2.symm, rfl⟩
  | array _ | map _ => exact nomatch h

theorem Item.eq_array {i : Item} {n : Nat} (h : .array n = i.tag) : i = .array n := by
  cases i with
  | array m => exact congrArg _ (Tag.array.inj h).symm
  | _ => exact nomatch h

theorem Item.eq_map {i : Item} {n : Nat} (h : .map n = i.tag) : i = .map n := by
  cases i with
  | map m => exact congrArg _ (Tag.map.inj h).symm
  | _ => exact nomatch h

theorem Reads.items_consumed {bs rest : List UInt8} {vs : List Value} (h : Reads bs vs rest) :
    ∀ {is : List Item}, (∀ i ∈ is, i.Fits) → bs = itemBytes is →
      ∃ done left, is = done ++ left ∧ rest = itemBytes left ∧
        done.length = vs.length + (done.map Item.children).sum := by
  induction h with
  | nil bs => intro is _ hb; exact ⟨[], is, rfl, hb, rfl⟩
  | scalar ht hv _ ih =>
      intro is hf hb
      obtain ⟨i, is', rfl, rfl, rfl⟩ := decodeTag_items hf (hb ▸ ht)
      obtain ⟨rfl, hc⟩ := scalar_item hv
      obtain ⟨done, left, rfl, hr, hn⟩ := ih (fun j hj => hf j (List.mem_cons_of_mem _ hj)) rfl
      refine ⟨i :: done, left, rfl, hr, ?_⟩
      simp only [List.length_cons, List.map_cons, List.sum_cons, hc]; omega
  | array ht _ _ ihu ih =>
      intro is hf hb
      obtain ⟨i, is', rfl, hi, rfl⟩ := decodeTag_items hf (hb ▸ ht)
      obtain rfl := Item.eq_array hi
      obtain ⟨du, lu, rfl, hr, hn⟩ := ihu (fun j hj => hf j (List.mem_cons_of_mem _ hj)) rfl
      obtain ⟨dv, lv, rfl, hr', hn'⟩ := ih
        (fun j hj => hf j (List.mem_cons_of_mem _ (List.mem_append_right _ hj))) hr
      refine ⟨.array _ :: (du ++ dv), lv, by rw [List.cons_append, List.append_assoc], hr', ?_⟩
      simp only [List.length_cons, List.map_cons, List.sum_cons, Item.children, List.length_append,
        List.map_append, List.sum_append]
      omega
  | map ht _ _ ihu ih =>
      intro is hf hb
      obtain ⟨i, is', rfl, hi, rfl⟩ := decodeTag_items hf (hb ▸ ht)
      obtain rfl := Item.eq_map hi
      obtain ⟨du, lu, rfl, hr, hn⟩ := ihu (fun j hj => hf j (List.mem_cons_of_mem _ hj)) rfl
      obtain ⟨dv, lv, rfl, hr', hn'⟩ := ih
        (fun j hj => hf j (List.mem_cons_of_mem _ (List.mem_append_right _ hj))) hr
      rw [length_flatten] at hn
      refine ⟨.map _ :: (du ++ dv), lv, by rw [List.cons_append, List.append_assoc], hr', ?_⟩
      simp only [List.length_cons, List.map_cons, List.sum_cons, Item.children, List.length_append,
        List.map_append, List.sum_append]
      omega

/-- A stream of items that is exactly one value has one item more than its
containers announce children. -/
theorem length_of_decode {is : List Item} (hf : ∀ i ∈ is, i.Fits) {v : Value}
    (h : decode (itemBytes is) = some (v, [])) :
    is.length = 1 + (is.map Item.children).sum := by
  obtain ⟨done, left, rfl, hl, hn⟩ := (decode_eq_some_iff.mp h).items_consumed hf rfl
  obtain rfl := itemBytes_eq_nil hl.symm
  simpa using hn

end MsgPack
