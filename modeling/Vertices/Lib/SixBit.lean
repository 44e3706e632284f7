/-
# `Vertices.Lib.SixBit` — bytes in digits of six bits

The digits of RFC 4648's base64: three bytes are four digits, and what is left over at the
end is filled up with zero bits.  Which characters stand for the digits is another matter.
`map_toNat_digits` says that they are the digits of the string of bits.
-/
import Mathlib.Tactic.IntervalCases
import Vertices.Lib.BitString

namespace SixBit

/-! ## The four digits of a group -/

def digit₀ (a : UInt8) : UInt8 := a >>> 2

def digit₁ (a b : UInt8) : UInt8 := (a &&& 3) <<< 4 ||| b >>> 4

def digit₂ (b c : UInt8) : UInt8 := (b &&& 15) <<< 2 ||| c >>> 6

def digit₃ (c : UInt8) : UInt8 := c &&& 63

/-- The digits that stand for `bytes`. -/
def digits : List UInt8 → List UInt8
  | a :: b :: c :: rest => digit₀ a :: digit₁ a b :: digit₂ b c :: digit₃ c :: digits rest
  | [a, b] => [digit₀ a, digit₁ a b, digit₂ b 0]
  | [a] => [digit₀ a, digit₁ a 0]
  | [] => []

theorem length_digits (bytes : List UInt8) : (digits bytes).length = (bytes.length * 4 + 2) / 3 := by
  fun_induction digits bytes with
  | case1 a b c rest ih =>
      simp only [List.length_cons, ih]
      omega
  | case2 a b => simp only [List.length_cons, List.length_nil]
  | case3 a => simp only [List.length_cons, List.length_nil]
  | case4 => rfl

/-! ## A byte from its two digits -/

theorem first_byte (a b : UInt8) : digit₀ a <<< 2 ||| digit₁ a b >>> 4 = a := by
  apply UInt8.toBitVec_inj.mp
  ext i hi
  interval_cases i <;> simp [digit₀, digit₁]

theorem second_byte (a b c : UInt8) : digit₁ a b <<< 4 ||| digit₂ b c >>> 2 = b := by
  apply UInt8.toBitVec_inj.mp
  ext i hi
  interval_cases i <;> simp [digit₁, digit₂]

theorem third_byte (b c : UInt8) : digit₂ b c <<< 6 ||| digit₃ c = c := by
  apply UInt8.toBitVec_inj.mp
  ext i hi
  interval_cases i <;> simp [digit₂, digit₃]

/-! ## The digits are below 64 -/

/-- The two high bits are zero. -/
theorem lt_of_shiftRight_eq_zero {d : UInt8} (h : d >>> 6 = 0) : d.toNat < 64 := by
  have hshift : d.toNat >>> 6 = 0 := congrArg UInt8.toNat h
  rw [Nat.shiftRight_eq_div_pow] at hshift
  omega

theorem digit₀_lt (a : UInt8) : (digit₀ a).toNat < 64 := by
  apply lt_of_shiftRight_eq_zero
  apply UInt8.toBitVec_inj.mp
  ext i hi
  interval_cases i <;> simp [digit₀]

theorem digit₁_lt (a b : UInt8) : (digit₁ a b).toNat < 64 := by
  apply lt_of_shiftRight_eq_zero
  apply UInt8.toBitVec_inj.mp
  ext i hi
  interval_cases i <;> simp [digit₁]

theorem digit₂_lt (b c : UInt8) : (digit₂ b c).toNat < 64 := by
  apply lt_of_shiftRight_eq_zero
  apply UInt8.toBitVec_inj.mp
  ext i hi
  interval_cases i <;> simp [digit₂]

theorem digit₃_lt (c : UInt8) : (digit₃ c).toNat < 64 := by
  apply lt_of_shiftRight_eq_zero
  apply UInt8.toBitVec_inj.mp
  ext i hi
  interval_cases i <;> simp [digit₃]

theorem digits_lt (bytes : List UInt8) : ∀ d ∈ digits bytes, d.toNat < 64 := by
  fun_induction digits bytes with
  | case1 a b c rest ih =>
      simp only [List.forall_mem_cons]
      exact ⟨digit₀_lt a, digit₁_lt a b, digit₂_lt b c, digit₃_lt c, ih⟩
  | case2 a b =>
      simp only [List.forall_mem_cons]
      exact ⟨digit₀_lt a, digit₁_lt a b, digit₂_lt b 0, nofun⟩
  | case3 a =>
      simp only [List.forall_mem_cons]
      exact ⟨digit₀_lt a, digit₁_lt a 0, nofun⟩
  | case4 => exact nofun

/-! ## The digits are those of the bits -/

open BitString (bits groups)

/-- Three bytes and their four digits are the same 24 bits. -/
theorem bits_digits (a b c : UInt8) : bits 8 a.toNat ++ (bits 8 b.toNat ++ bits 8 c.toNat) =
    bits 6 (digit₀ a).toNat ++ (bits 6 (digit₁ a b).toNat ++
      (bits 6 (digit₂ b c).toNat ++ bits 6 (digit₃ c).toNat)) := by
  simp only [bits, ← UInt8.toNat_toBitVec, BitVec.testBit_toNat, digit₀, digit₁, digit₂, digit₃]
  simp

/-- The digits of a group, and those of the bits behind it. -/
theorem groups_group (n : Nat) (a b c : UInt8) (behind : List Bool) :
    groups 6 (n + 4) (bits 8 a.toNat ++ (bits 8 b.toNat ++ bits 8 c.toNat) ++ behind) =
      (digit₀ a).toNat :: (digit₁ a b).toNat :: (digit₂ b c).toNat :: (digit₃ c).toNat ::
        groups 6 n behind := by
  rw [bits_digits, List.append_assoc, BitString.groups_bits_append (digit₀_lt a), List.append_assoc,
    BitString.groups_bits_append (digit₁_lt a b), List.append_assoc,
    BitString.groups_bits_append (digit₂_lt b c), BitString.groups_bits_append (digit₃_lt c)]

/-- The digits of a group that is filled up with zeros. -/
theorem groups_short {n m : Nat} {bs : List Bool} (a b c : UInt8) (hn : n ≤ 4)
    (h : bs ++ List.replicate m false = bits 8 a.toNat ++ (bits 8 b.toNat ++ bits 8 c.toNat)) :
    groups 6 n bs =
      [(digit₀ a).toNat, (digit₁ a b).toNat, (digit₂ b c).toNat, (digit₃ c).toNat].take n := by
  have hgroup := groups_group 0 a b c []
  rw [List.append_nil, Nat.zero_add, groups] at hgroup
  rw [← hgroup, BitString.take_groups, Nat.min_eq_left hn, ← h, BitString.groups_append_zeros]

theorem map_toNat_digits (bytes : List UInt8) :
    (digits bytes).map UInt8.toNat =
      groups 6 ((8 * bytes.length + 5) / 6) (bytes.flatMap fun b => bits 8 b.toNat) := by
  fun_induction digits bytes with
  | case1 a b c rest ih =>
      have hlen : (8 * (a :: b :: c :: rest).length + 5) / 6 = (8 * rest.length + 5) / 6 + 4 := by
        simp only [List.length_cons]
        omega
      simp only [List.map_cons, ih, hlen, List.flatMap_cons, ← List.append_assoc]
      rw [List.append_assoc (bits 8 a.toNat), groups_group]
  | case2 a b =>
      simp only [List.flatMap_cons, List.flatMap_nil, List.append_nil, List.length_cons, List.length_nil]
      exact (groups_short (n := 3) (m := 8) a b 0 (by decide) (List.append_assoc _ _ _)).symm
  | case3 a =>
      simp only [List.flatMap_cons, List.flatMap_nil, List.append_nil, List.length_cons, List.length_nil]
      exact (groups_short (n := 2) (m := 16) a 0 0 (by decide) rfl).symm
  | case4 => rfl

end SixBit
