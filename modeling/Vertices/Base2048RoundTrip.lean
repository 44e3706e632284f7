/-
# `Vertices.Base2048RoundTrip` — bytes as words of eleven bits, and back

The words of a byte string are its bits, low bits first, with zeros behind to fill the
last word.  `b2048_decode` takes the whole bytes out again and drops what is left, so the
zeros come back as one byte at most.  The loop of `seed_from_mnemonic` stores what
`b2048_decode` pushes, the 33rd byte of 24 words behind its block.
-/
import Vertices.PhraseAccess

namespace Vertices

/-! ## The decoder -/

/-- `while (bits >= 8)` pushes the whole bytes that `val` holds. -/
theorem b2048Drain_eq (val : Int32) (bits : Nat) (h : val.toUInt32.toNat < 2 ^ 31) :
    ∃ rest : Int32, rest.toUInt32.toNat = val.toUInt32.toNat / 2 ^ (8 * (bits / 8)) ∧
      b2048Drain val bits =
        ((Radix.low 8 (bits / 8) val.toUInt32.toNat).map UInt8.ofNat, rest, bits % 8) := by
  induction bits using Nat.strongRecOn generalizing val with
  | ind bits ih =>
      by_cases h8 : 8 ≤ bits
      · have hshift : (val >>> 8).toUInt32.toNat = val.toUInt32.toNat / 2 ^ 8 := by
          rw [toUInt32_shiftRight8 h]
          exact toNat_shiftRight_ofNat val.toUInt32 (k := 8) (by decide)
        obtain ⟨rest, hrest, hdrain⟩ := ih (bits - 8) (by omega) (val >>> 8) (by omega)
        have hk : bits / 8 = (bits - 8) / 8 + 1 := by omega
        have hmod : (bits - 8) % 8 = bits % 8 := by omega
        have hlow : (val &&& 0xFF).toUInt32.toUInt8 = UInt8.ofNat (val.toUInt32.toNat % 2 ^ 8) :=
          toUInt8_low8 val.toUInt32
        refine ⟨rest, ?_, ?_⟩
        · rw [hrest, hshift, Nat.div_div_eq_div_mul, ← Nat.pow_add, hk, Nat.mul_succ, Nat.add_comm]
        · rw [b2048Drain, if_pos h8, hdrain, hk, Radix.low, List.map_cons, hlow, hshift, hmod]
      · have hk : bits / 8 = 0 := by omega
        refine ⟨val, by simp [hk], ?_⟩
        rw [b2048Drain, if_neg h8, hk, Nat.mod_eq_of_lt (by omega), Radix.low, List.map_nil]

/-- Bytes are what they spell. -/
theorem map_toNat_low8 (k v : Nat) :
    ((Radix.low 8 k v).map UInt8.ofNat).map UInt8.toNat = Radix.low 8 k v := by
  rw [List.map_map]
  refine (List.map_congr_left fun d hd => ?_).trans (List.map_id _)
  have hlt : d < 2 ^ 8 := Radix.low_lt hd
  rw [Function.comp_apply, UInt8.toNat_ofNat', Nat.mod_eq_of_lt hlt, id]

/-- `val |= (v << bits)` in the `int` of the decoder and in the `unsigned` of
`seed_from_mnemonic`. -/
theorem toUInt32_or_word (val : Int32) (v : UInt16) {bits : Nat} (hb : bits < 32) :
    (val ||| (v.toUInt32.toInt32 <<< Int32.ofNat bits)).toUInt32 =
      val.toUInt32 ||| (v.toUInt32 <<< UInt32.ofNat bits) :=
  toUInt32_or_shiftLeft val v.toUInt32.toInt32 hb

/-- What `b2048_decode` pushes for words of eleven bits: the digits that are whole. -/
theorem b2048DecodeLoop_eq {vs : List UInt16} {val : Int32} {bits : Nat} (hb : bits < 8)
    (hv : val.toUInt32.toNat < 2 ^ bits) (hvs : ∀ v ∈ vs, v.toNat < 2048) :
    (b2048DecodeLoop val bits vs).map UInt8.toNat =
      (Radix.regroup 11 8 val.toUInt32.toNat bits (vs.map UInt16.toNat)).take
        ((bits + 11 * vs.length) / 8) := by
  induction vs generalizing val bits with
  | nil =>
      have hk : (bits + 11 * 0) / 8 = 0 := by omega
      rw [b2048DecodeLoop, List.length_nil, hk, List.take_zero, List.map_nil]
  | cons v vs ih =>
      rw [List.forall_mem_cons] at hvs
      have hv11 : v.toNat < 2 ^ 11 := hvs.1
      have hor := toNat_or_shiftLeft (d := v.toUInt32) hv hv11 (by omega)
      rw [← toUInt32_or_word val v (by omega), UInt16.toNat_toUInt32] at hor
      have hheld := Radix.held_lt hv hv11
      have hword : 2 ^ (bits + 11) ≤ 2 ^ 31 := Nat.pow_le_pow_right (by decide) (by omega)
      rw [b2048DecodeLoop, List.map_cons, Radix.regroup, ← hor]
      rw [← hor] at hheld
      generalize val ||| (v.toUInt32.toInt32 <<< Int32.ofNat bits) = held at *
      obtain ⟨rest, hrest, hdrain⟩ := b2048Drain_eq held (bits + 11) (by omega)
      have hk : (bits + 11 * (v :: vs).length) / 8 =
          (bits + 11) / 8 + ((bits + 11) % 8 + 11 * vs.length) / 8 := by
        rw [List.length_cons]
        omega
      rw [hdrain]
      dsimp only
      rw [List.map_append, map_toNat_low8, hk,
        ih (Nat.mod_lt _ (by decide)) (hrest ▸ Radix.rest_lt hheld) hvs.2, ← hrest]
      have hlow := Radix.length_low 8 ((bits + 11) / 8) held.toUInt32.toNat
      generalize Radix.low 8 ((bits + 11) / 8) held.toUInt32.toNat = front at *
      rw [← hlow, List.take_length_add_append]

/-! ## There and back -/

theorem b2048Decode_b2048Encode (bs : List UInt8) :
    b2048Decode (b2048Encode bs) =
      bs ++ List.replicate (11 * ((8 * bs.length + 10) / 11) / 8 - bs.length) 0 := by
  have hloop : (b2048DecodeLoop 0 0 (b2048Encode bs)).map UInt8.toNat = _ :=
    b2048DecodeLoop_eq (by decide) (by decide) fun w hw => b2048Encode_lt hw
  obtain ⟨k, hk⟩ := Nat.exists_eq_add_of_le
    (by omega : bs.length ≤ (11 * ((8 * bs.length + 10) / 11) + 7) / 8)
  have hback := Radix.regroup_regroup (a := 8) (b := 11) (k := k) (by decide) (by decide)
    (byte_digits bs) (by rw [List.length_map]; exact hk)
  have hnat : (b2048Decode (b2048Encode bs)).map UInt8.toNat =
      (bs ++ List.replicate (11 * ((8 * bs.length + 10) / 11) / 8 - bs.length) 0).map
        UInt8.toNat := by
    have htake : 11 * ((8 * bs.length + 10) / 11) / 8 =
        (bs.map UInt8.toNat).length + (11 * ((8 * bs.length + 10) / 11) / 8 - bs.length) := by
      rw [List.length_map]
      omega
    rw [b2048Decode, hloop, b2048Encode_eq, length_b2048Encode, Nat.zero_add]
    show (Radix.regroup 11 8 0 0 _).take _ = _
    rw [hback, htake, List.take_length_add_append, List.take_replicate, List.map_append,
      List.map_replicate, List.length_map]
    congr 2
    omega
  rw [← map_ofNat_toNat (b2048Decode (b2048Encode bs)), hnat, map_ofNat_toNat]

/-! ## The third loop -/

/-- Whatever a word holds, `val` keeps clear of the sign. -/
theorem or_word_lt {val : UInt32} (v : UInt16) {bits : Nat} (hb : bits < 8)
    (hv : val.toNat < 2 ^ 16) : (val ||| (v.toUInt32 <<< UInt32.ofNat bits)).toNat < 2 ^ 23 := by
  have hbits : (UInt32.ofNat bits).toNat % 32 = bits := by
    rw [UInt32.toNat_ofNat']
    omega
  have hshift : v.toNat * 2 ^ bits < 2 ^ 23 := by
    calc v.toNat * 2 ^ bits ≤ v.toNat * 2 ^ 7 :=
          Nat.mul_le_mul_left _ (Nat.pow_le_pow_right (by decide) (by omega))
      _ < 2 ^ 16 * 2 ^ 7 := Nat.mul_lt_mul_of_pos_right v.toNat_lt (by decide)
      _ = 2 ^ 23 := by decide
  rw [UInt32.toNat_or, UInt32.toNat_shiftLeft, hbits, UInt16.toNat_toUInt32, Nat.shiftLeft_eq,
    Nat.mod_eq_of_lt (by omega)]
  exact Nat.or_lt_two_pow (by omega) hshift

/-- The loop of `seed_from_mnemonic` stores what `b2048_decode` pushes for the values of
the words. -/
theorem unpackTrace_decode {map : List (CStr × Nat)} (size : Nat) {ws : List CStr}
    {vs : List UInt16} (h : List.Forall₂ (fun w v => lookupWordMap map w = .ok v.toNat) ws vs) :
    ∀ (t : UnpackTrace) (i : Nat) (val : Int32), t.bits < 8 → t.val = val.toUInt32 →
      val.toUInt32.toNat < 2 ^ 16 →
      ∃ t', unpackTrace map size t i ws = .ok t' ∧
        t'.data = t.data ++ b2048DecodeLoop val t.bits vs ∧
        t'.bits = (t.bits + 11 * ws.length) % 8 := by
  induction h with
  | nil =>
      intro t i val hb _ _
      refine ⟨t, rfl, (List.append_nil _).symm, ?_⟩
      exact (Nat.mod_eq_of_lt hb).symm
  | @cons w v ws vs hw _ ih =>
      intro t i val hb hval hlt
      let word : Int32 := val ||| (v.toUInt32.toInt32 <<< Int32.ofNat t.bits)
      let taken : UnpackTrace := (t.readWord size i).take v.toNat
      have hword : taken.val = word.toUInt32 := by
        show t.val ||| (UInt32.ofNat v.toNat <<< UInt32.ofNat t.bits) = _
        rw [toUInt32_or_word val v (by omega), hval, UInt32.ofNat_uInt16ToNat]
      have hlt23 : word.toUInt32.toNat < 2 ^ 23 := by
        rw [toUInt32_or_word val v (by omega)]
        exact or_word_lt v hb hlt
      obtain ⟨hdata, hrest, hbits⟩ := drainTrace_spec taken
      obtain ⟨rest, hrest', hdrain⟩ := b2048Drain_eq word (t.bits + 11) (by omega)
      have hbits : (drainTrace taken).bits = (t.bits + 11) % 8 := hbits
      have hsame : (drainTrace taken).val = rest.toUInt32 := by
        apply UInt32.toNat_inj.mp
        rw [hrest, hrest', hword]
        rfl
      have hlt16 : rest.toUInt32.toNat < 2 ^ 16 := by
        have hpow : 2 ^ 8 ≤ 2 ^ (8 * ((t.bits + 11) / 8)) :=
          Nat.pow_le_pow_right (by decide) (by omega)
        rw [hrest']
        exact Nat.lt_of_le_of_lt (Nat.div_le_div_left hpow (by decide)) (by omega)
      obtain ⟨t', hrun, hdata', hbits'⟩ :=
        ih (drainTrace taken) (i + 1) rest (by omega) hsame hlt16
      refine ⟨t', ?_, ?_, ?_⟩
      · rw [unpackTrace]
        simp only [hw]
        exact hrun
      · rw [hdata', hdata, hbits, hword, b2048DecodeLoop, hdrain, List.append_assoc]
        rfl
      · rw [hbits', hbits, List.length_cons]
        omega

/-! ## Both ways -/

/-- A byte string as bits, the low bit of each byte first. -/
def bitsOfBytes (bs : List UInt8) : List Bool := bs.flatMap fun b => Radix.lowBits 8 b.toNat

/-- Words of eleven bits as bits, the low bit of each word first. -/
def bitsOfWords (ws : List UInt16) : List Bool := ws.flatMap fun w => Radix.lowBits 11 w.toNat

theorem bitsOfWords_b2048Encode (bs : List UInt8) :
    bitsOfWords (b2048Encode bs) =
      bitsOfBytes bs ++
        List.replicate (11 * ((8 * bs.length + 10) / 11) - 8 * bs.length) false := by
  have hbits := Radix.flatMap_regroup (a := 8) (b := 11) (by decide) (by decide) (byte_digits bs)
  rw [← b2048Encode_eq, List.flatMap_map, List.flatMap_map, List.length_map] at hbits
  exact hbits

/-- With the values `vs` for the words the unpacking of `seed_from_mnemonic` comes to the
bytes of `b2048_decode`, and has none left to flush.  The loop with its block of 32 bytes does
the same, as long as there is room. -/
def UnpacksTo (map : List (CStr × Nat)) (ws : List CStr) (vs : List UInt16) : Prop :=
  ∃ t, unpackTrace map 24 (loopStart 25) 0 ws = .ok t ∧ t.data = b2048Decode vs ∧ flushTrace t = t ∧
    unpackWords map ⟨[], 0, 0⟩ ws = replay (.ok t)

theorem unpacksTo_24 {map : List (CStr × Nat)} {ws : List CStr} {vs : List UInt16}
    (hlen : ws.length = 24)
    (h : List.Forall₂ (fun w v => lookupWordMap map w = .ok v.toNat) ws vs) :
    UnpacksTo map ws vs := by
  obtain ⟨t, hrun, hdata, hbits⟩ :=
    unpackTrace_decode 24 h (loopStart 25) 0 0 (by decide) rfl (by decide)
  have h0 : t.bits = 0 := by
    rw [hbits, hlen]
    rfl
  have hroom : (loopStart 25).data.length ≤ 32 := Nat.zero_le 32
  have hblock : unpackWords map ⟨[], 0, 0⟩ ws = replay (unpackTrace map 24 (loopStart 25) 0 ws) :=
    unpackWords_replay hroom
  rw [hrun] at hblock
  exact ⟨t, hrun, hdata, if_neg (by omega), hblock⟩

/-- **Bytes survive as words, and both decoders agree.**  At most one zero byte comes back
behind the bytes. -/
theorem base2048_round_trip :
    (∀ b : List UInt8,
      (b2048Encode b).length = (8 * b.length + 10) / 11 ∧
      (∀ w ∈ b2048Encode b, w.toNat < 2048) ∧
      bitsOfWords (b2048Encode b) =
        bitsOfBytes b ++ List.replicate (11 * (b2048Encode b).length - 8 * b.length) false ∧
      ∃ k ≤ 1, b2048Decode (b2048Encode b) = b ++ List.replicate k 0) ∧
    ∀ (map : List (CStr × Nat)) (ws : List CStr) (vs : List UInt16), ws.length = 24 →
      List.Forall₂ (fun w v => lookupWordMap map w = .ok v.toNat) ws vs → UnpacksTo map ws vs := by
  refine ⟨fun b => ⟨length_b2048Encode b, fun w hw => b2048Encode_lt hw, ?_, ?_⟩, ?_⟩
  · rw [length_b2048Encode]
    exact bitsOfWords_b2048Encode b
  · exact ⟨_, by omega, b2048Decode_b2048Encode b⟩
  · intro map ws vs hlen h
    exact unpacksTo_24 hlen h

/-- Every 89th word of the list, from "abandon" to "zoo". -/
theorem base2048_round_trip_zoo :
    UnpacksTo englishVec.zipIdx ((List.range 24).map fun i => englishVec.getD (89 * i) (cString []))
      ((List.range 24).map fun i => UInt16.ofNat (89 * i)) := by
  refine base2048_round_trip.2 _ _ _ (by simp) ?_
  rw [List.forall₂_map_left_iff, List.forall₂_map_right_iff, List.forall₂_same]
  intro i hi
  have hlt : 89 * i < englishVec.length := by
    rw [length_englishVec]
    have := List.mem_range.mp hi
    omega
  have hget : englishVec[89 * i]? = some (englishVec.getD (89 * i) (cString [])) := by
    rw [List.getD_eq_getElem?_getD, List.getElem?_eq_getElem hlt, Option.getD_some]
  have hvalue : (UInt16.ofNat (89 * i)).toNat = 89 * i := by
    rw [UInt16.toNat_ofNat']
    have := List.mem_range.mp hi
    omega
  rw [hvalue, lookupWordMap_zipIdx nodup_englishVec hget, Nat.zero_add]

end Vertices
