/-
# `Vertices.Base2048` — `src/utils/base2048.c`

`b2048_encode` cuts a byte string into words of eleven bits, low bits first.  Its
accumulator is an `unsigned` that never holds more than eighteen bits, so the words
are those of `Radix.regroup`.
-/
import Vertices.Lib.Radix
import Vertices.Types

namespace Vertices

/-- The loop of `b2048_encode`, with the `bits` bits of `val` still to push. -/
def b2048EncodeLoop (val : UInt32) (bits : Nat) : List UInt8 → List UInt16
  | [] => if 0 < bits then [(val &&& 0x7FF).toUInt16] else []
  | b :: rest =>
      let val := val ||| (b.toUInt32 <<< UInt32.ofNat bits)
      if 11 ≤ bits + 8 then
        (val &&& 0x7FF).toUInt16 :: b2048EncodeLoop (val >>> 11) (bits + 8 - 11) rest
      else b2048EncodeLoop val (bits + 8) rest

/-- `b2048_encode`. -/
def b2048Encode (input : List UInt8) : List UInt16 := b2048EncodeLoop 0 0 input

/-- `while (bits >= 8)` of `b2048_decode`: the bytes pushed, and `val` and `bits` behind the
loop. -/
def b2048Drain (val : Int32) (bits : Nat) : List UInt8 × Int32 × Nat :=
  if 8 ≤ bits then
    let (out, val', bits') := b2048Drain (val >>> 8) (bits - 8)
    ((val &&& 0xFF).toUInt32.toUInt8 :: out, val', bits')
  else ([], val, bits)
termination_by bits

/-- The loop of `b2048_decode`.  What `val` still holds at the end is not pushed. -/
def b2048DecodeLoop (val : Int32) (bits : Nat) : List UInt16 → List UInt8
  | [] => []
  | v :: rest =>
      let (out, val, bits) := b2048Drain (val ||| (v.toUInt32.toInt32 <<< Int32.ofNat bits)) (bits + 11)
      out ++ b2048DecodeLoop val bits rest

/-- `b2048_decode`. -/
def b2048Decode (input : List UInt16) : List UInt8 := b2048DecodeLoop 0 0 input

/-! ## The accumulator -/

/-- A shift of an `int` by less than 32 is by as much. -/
theorem smod_ofNat {k : Nat} (hk : k < 32) : (Int32.ofNat k).toBitVec.smod 32 = BitVec.ofNat 32 k := by
  have hall : ∀ k : Fin 32, (Int32.ofNat k.val).toBitVec.smod 32 = BitVec.ofNat 32 k.val := by
    decide +kernel
  exact hall ⟨k, hk⟩

/-- The `int` of the decoder holds the bits that an `unsigned` would. -/
theorem toUInt32_or_shiftLeft (val d : Int32) {k : Nat} (hk : k < 32) :
    (val ||| (d <<< Int32.ofNat k)).toUInt32 = val.toUInt32 ||| (d.toUInt32 <<< UInt32.ofNat k) := by
  have hmod : (UInt32.ofNat k).toBitVec % 32 = BitVec.ofNat 32 k := by
    apply BitVec.eq_of_toNat_eq
    rw [BitVec.toNat_umod, UInt32.toNat_toBitVec, UInt32.toNat_ofNat', BitVec.toNat_ofNat]
    show k % 2 ^ 32 % 32 = k % 2 ^ 32
    omega
  apply UInt32.toBitVec_inj.mp
  rw [UInt32.toBitVec_or, UInt32.toBitVec_shiftLeft, hmod]
  show (val ||| (d <<< Int32.ofNat k)).toBitVec = _
  rw [Int32.toBitVec_or, Int32.toBitVec_shiftLeft, smod_ofNat hk]
  rfl

/-- Without a sign the shift to the right is that of the `unsigned`. -/
theorem toUInt32_shiftRight8 {val : Int32} (h : val.toUInt32.toNat < 2 ^ 31) :
    (val >>> 8).toUInt32 = val.toUInt32 >>> 8 := by
  have hmsb : val.toBitVec.msb = false := by
    rw [BitVec.msb_eq_false_iff_two_mul_lt]
    have hlt : val.toBitVec.toNat < 2 ^ 31 := h
    omega
  apply UInt32.toBitVec_inj.mp
  show (val >>> 8).toBitVec = _
  rw [Int32.toBitVec_shiftRight, UInt32.toBitVec_shiftRight, BitVec.sshiftRight_eq',
    BitVec.sshiftRight_eq_of_msb_false hmsb]
  rfl

/-- `val |= d << bits` puts `d` above the bits already held. -/
theorem toNat_or_shiftLeft {val d : UInt32} {bits a : Nat} (hv : val.toNat < 2 ^ bits)
    (hd : d.toNat < 2 ^ a) (h32 : bits + a < 32) :
    (val ||| (d <<< UInt32.ofNat bits)).toNat = val.toNat + 2 ^ bits * d.toNat := by
  have hheld : val.toNat + 2 ^ bits * d.toNat < 2 ^ (bits + a) := Radix.held_lt hv hd
  have hword : 2 ^ (bits + a) ≤ 2 ^ 32 := Nat.pow_le_pow_right (by decide) (by omega)
  have hbits : (UInt32.ofNat bits).toNat % 32 = bits := by
    rw [UInt32.toNat_ofNat']
    omega
  rw [UInt32.toNat_or, UInt32.toNat_shiftLeft, hbits, Nat.shiftLeft_eq, Nat.mul_comm,
    Nat.mod_eq_of_lt (by omega), Nat.or_comm, ← Nat.two_pow_add_eq_or_of_lt hv, Nat.add_comm]

theorem toNat_shiftRight_ofNat (val : UInt32) {k : Nat} (hk : k < 32) :
    (val >>> UInt32.ofNat k).toNat = val.toNat / 2 ^ k := by
  have : (UInt32.ofNat k).toNat % 32 = k := by
    rw [UInt32.toNat_ofNat']
    omega
  rw [UInt32.toNat_shiftRight, this, Nat.shiftRight_eq_div_pow]

/-- `val & 0x7FF`, as a `uint16_t`. -/
theorem toNat_low11 (val : UInt32) : (val &&& 0x7FF).toUInt16.toNat = val.toNat % 2 ^ 11 := by
  have hmask : (val &&& 0x7FF).toNat = val.toNat % 2 ^ 11 := by
    rw [UInt32.toNat_and]
    exact Nat.and_two_pow_sub_one_eq_mod _ 11
  rw [UInt32.toNat_toUInt16, hmask]
  omega

/-! ## The words -/

theorem b2048EncodeLoop_eq {bs : List UInt8} {val : UInt32} {bits : Nat} (hb : bits < 11)
    (hv : val.toNat < 2 ^ bits) :
    (b2048EncodeLoop val bits bs).map UInt16.toNat =
      Radix.regroup 8 11 val.toNat bits (bs.map UInt8.toNat) := by
  induction bs generalizing val bits with
  | nil =>
      rw [b2048EncodeLoop, List.map_nil, Radix.regroup]
      split
      · next h0 =>
          have hlt : val.toNat < 2 ^ 11 :=
            Nat.lt_of_lt_of_le hv (Nat.pow_le_pow_right (by decide) hb.le)
          rw [if_neg (by omega), List.map_singleton, toNat_low11, Nat.mod_eq_of_lt hlt]
      · next h0 => rw [if_pos (by omega), List.map_nil]
  | cons b bs ih =>
      have hd : b.toUInt32.toNat < 2 ^ 8 := by
        rw [UInt8.toNat_toUInt32]
        exact b.toNat_lt
      have hor := toNat_or_shiftLeft hv hd (by omega)
      rw [UInt8.toNat_toUInt32] at hor
      have hheld := Radix.held_lt hv (b.toNat_lt : b.toNat < 2 ^ 8)
      rw [← hor] at hheld
      rw [b2048EncodeLoop, List.map_cons, Radix.regroup, ← hor]
      generalize val ||| (b.toUInt32 <<< UInt32.ofNat bits) = held at *
      split
      · next h11 =>
          have hk : (bits + 8) / 11 = 1 := by omega
          have hmod : (bits + 8) % 11 = bits + 8 - 11 := by omega
          have hshift := toNat_shiftRight_ofNat held (k := 11) (by decide)
          have hrest : (held >>> 11).toNat < 2 ^ (bits + 8 - 11) := by
            rw [show (11 : UInt32) = UInt32.ofNat 11 from rfl, hshift, ← hmod]
            have := Radix.rest_lt (b := 11) hheld
            rwa [hk] at this
          rw [List.map_cons, toNat_low11, ih (by omega) hrest, hk, hmod,
            show (11 : UInt32) = UInt32.ofNat 11 from rfl, hshift]
          rfl
      · next h11 =>
          have hk : (bits + 8) / 11 = 0 := by omega
          rw [ih (by omega) hheld, hk, Nat.mod_eq_of_lt (by omega)]
          simp [Radix.low]

theorem b2048Encode_eq (bs : List UInt8) :
    (b2048Encode bs).map UInt16.toNat = Radix.regroup 8 11 0 0 (bs.map UInt8.toNat) :=
  b2048EncodeLoop_eq (by decide) (by decide)

theorem byte_digits (bs : List UInt8) : ∀ d ∈ bs.map UInt8.toNat, d < 2 ^ 8 := by
  intro d hd
  obtain ⟨b, _, rfl⟩ := List.mem_map.mp hd
  exact b.toNat_lt

theorem map_ofNat_toNat (bs : List UInt8) : (bs.map UInt8.toNat).map UInt8.ofNat = bs := by
  rw [List.map_map]
  exact List.map_id'' (fun b => UInt8.ofNat_toNat) _

theorem b2048Encode_lt {bs : List UInt8} {w : UInt16} (hw : w ∈ b2048Encode bs) :
    w.toNat < 2048 := by
  have h := List.mem_map_of_mem (f := UInt16.toNat) hw
  rw [b2048Encode_eq] at h
  exact Radix.regroup_lt (by decide) (by decide) (byte_digits bs) _ h

theorem length_b2048Encode (bs : List UInt8) :
    (b2048Encode bs).length = (8 * bs.length + 10) / 11 := by
  have h := congrArg List.length (b2048Encode_eq bs)
  rw [List.length_map, Radix.length_regroup (by decide), List.length_map, Nat.zero_add] at h
  exact h

end Vertices
