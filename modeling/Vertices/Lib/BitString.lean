/-
# `Vertices.Lib.BitString` — strings of bits, the high bit first

What RFC 4648 calls a bit stream: the digits of one width are written out as bits and
read again as digits of another.  A digit string `ds` of width `k` stands for
`ds.flatMap (bits k)`, so two digit strings spell the same where these agree.
-/
import Mathlib.Algebra.Order.Ring.Nat
import Mathlib.Tactic.Common

namespace BitString

/-- The `k` low bits of `n`. -/
def bits : Nat → Nat → List Bool
  | 0, _ => []
  | k + 1, n => n.testBit k :: bits k n

/-- The number that a string of bits spells. -/
def value : List Bool → Nat
  | [] => 0
  | b :: bs => b.toNat * 2 ^ bs.length + value bs

/-- The first `n` digits of width `k` in a string of bits, which is filled up with
zeros. -/
def groups (k : Nat) : Nat → List Bool → List Nat
  | 0, _ => []
  | n + 1, bs => value ((bs ++ List.replicate k false).take k) :: groups k n (bs.drop k)

/-- Characters that stand for digits, filled up to whole groups of `n`. -/
def fillUp {α : Type} (n : Nat) (pad : α) (chars : List α) : List α :=
  chars ++ List.replicate ((n - chars.length % n) % n) pad

/-! ## Bits of a number -/

@[simp] theorem length_bits (k n : Nat) : (bits k n).length = k := by
  induction k with
  | zero => rfl
  | succ k ih => rw [bits, List.length_cons, ih]

theorem bits_congr {k m n : Nat} (h : ∀ i < k, m.testBit i = n.testBit i) : bits k m = bits k n := by
  induction k with
  | zero => rfl
  | succ k ih =>
      rw [bits, bits, h k (Nat.lt_succ_self k), ih fun i hi => h i (Nat.lt_succ_of_lt hi)]

/-- The high bits stand first. -/
theorem bits_add (j k n : Nat) : bits (j + k) n = bits j (n >>> k) ++ bits k n := by
  induction j with
  | zero => rw [Nat.zero_add, bits, List.nil_append]
  | succ j ih =>
      rw [Nat.succ_add, bits, bits, ih, Nat.testBit_shiftRight, Nat.add_comm k, List.cons_append]

/-- Only the low bits count. -/
theorem bits_mod (k n : Nat) : bits k (n % 2 ^ k) = bits k n := by
  apply bits_congr
  intro i hi
  rw [Nat.testBit_mod_two_pow, decide_eq_true hi, Bool.true_and]

theorem testBit_of_bits_eq {k m n i : Nat} (h : bits k m = bits k n) (hi : i < k) :
    m.testBit i = n.testBit i := by
  induction k with
  | zero => exact absurd hi (Nat.not_lt_zero i)
  | succ k ih =>
      rw [bits, bits, List.cons.injEq] at h
      rcases Nat.lt_succ_iff_lt_or_eq.mp hi with hi | rfl
      · exact ih h.2 hi
      · exact h.1

theorem bits_inj {k m n : Nat} (hm : m < 2 ^ k) (hn : n < 2 ^ k) (h : bits k m = bits k n) :
    m = n := by
  apply Nat.eq_of_testBit_eq
  intro i
  by_cases hi : i < k
  · exact testBit_of_bits_eq h hi
  · have hpow : 2 ^ k ≤ 2 ^ i := Nat.pow_le_pow_right Nat.two_pos (Nat.le_of_not_lt hi)
    rw [Nat.testBit_lt_two_pow (Nat.lt_of_lt_of_le hm hpow),
      Nat.testBit_lt_two_pow (Nat.lt_of_lt_of_le hn hpow)]

theorem value_lt (bs : List Bool) : value bs < 2 ^ bs.length := by
  induction bs with
  | nil => exact Nat.one_pos
  | cons b bs ih =>
      have hb : b.toNat * 2 ^ bs.length ≤ 1 * 2 ^ bs.length := Nat.mul_le_mul_right _ b.toNat_le
      rw [value, List.length_cons, Nat.pow_succ]
      omega

theorem bits_value (bs : List Bool) : bits bs.length (value bs) = bs := by
  induction bs with
  | nil => rfl
  | cons b bs ih =>
      have hlt := value_lt bs
      have hhigh : (value (b :: bs)).testBit bs.length = b := by
        rw [value, Nat.mul_comm, Nat.testBit_two_pow_mul_add _ hlt, if_neg (Nat.lt_irrefl _),
          Nat.sub_self]
        cases b with
        | false => rfl
        | true => rfl
      have hlow : ∀ i < bs.length, (value (b :: bs)).testBit i = (value bs).testBit i := by
        intro i hi
        rw [value, Nat.mul_comm, Nat.testBit_two_pow_mul_add _ hlt, if_pos hi]
      rw [List.length_cons, bits, hhigh, bits_congr hlow, ih]

theorem value_bits {k n : Nat} (h : n < 2 ^ k) : value (bits k n) = n := by
  have hlt := value_lt (bits k n)
  have hbits := bits_value (bits k n)
  rw [length_bits] at hlt hbits
  exact bits_inj hlt h hbits

theorem bits_zero (k : Nat) : bits k 0 = List.replicate k false := by
  induction k with
  | zero => rfl
  | succ k ih => rw [bits, ih, Nat.zero_testBit, List.replicate_succ]

/-! ## Digits -/

@[simp] theorem length_groups (k n : Nat) (bs : List Bool) : (groups k n bs).length = n := by
  induction n generalizing bs with
  | zero => rfl
  | succ n ih => rw [groups, List.length_cons, ih]

theorem groups_lt {k n d : Nat} {bs : List Bool} (h : d ∈ groups k n bs) : d < 2 ^ k := by
  induction n generalizing bs with
  | zero => exact absurd h List.not_mem_nil
  | succ n ih =>
      rcases List.mem_cons.mp h with rfl | h
      · have hlen : ((bs ++ List.replicate k false).take k).length = k := by
          rw [List.length_take, List.length_append, List.length_replicate]
          exact Nat.min_eq_left (Nat.le_add_left _ _)
        have hlt := value_lt ((bs ++ List.replicate k false).take k)
        rwa [hlen] at hlt
      · exact ih h

/-- The first digit of a string. -/
theorem groups_bits_append {k n d : Nat} (hd : d < 2 ^ k) (bs : List Bool) :
    groups k (n + 1) (bits k d ++ bs) = d :: groups k n bs := by
  rw [groups, List.append_assoc, List.take_left' (length_bits k d), List.drop_left' (length_bits k d),
    value_bits hd]

theorem take_groups (k n m : Nat) (bs : List Bool) :
    (groups k n bs).take m = groups k (min m n) bs := by
  induction n generalizing bs m with
  | zero => rw [groups, List.take_nil, Nat.min_zero, groups]
  | succ n ih =>
      cases m with
      | zero => rw [List.take_zero, Nat.zero_min, groups]
      | succ m => rw [groups, List.take_succ_cons, ih, Nat.succ_min_succ, groups]

/-- Zeros behind a string are no part of its digits. -/
theorem groups_append_zeros (k n m : Nat) (bs : List Bool) :
    groups k n (bs ++ List.replicate m false) = groups k n bs := by
  induction n generalizing bs m with
  | zero => rfl
  | succ n ih =>
      have hfirst : ((bs ++ List.replicate m false) ++ List.replicate k false).take k =
          (bs ++ List.replicate k false).take k := by
        rw [List.append_assoc, List.replicate_append_replicate, List.take_append, List.take_append,
          List.take_replicate, List.take_replicate]
        congr 2
        omega
      rw [groups, groups, hfirst, List.drop_append, List.drop_replicate, ih]

/-- Enough digits spell the whole string, and zeros after it. -/
theorem flatMap_groups {k n : Nat} {bs : List Bool} (h : bs.length ≤ k * n) :
    (groups k n bs).flatMap (bits k) = bs ++ List.replicate (k * n - bs.length) false := by
  induction n generalizing bs with
  | zero =>
      have hnil : bs = [] := List.length_eq_zero_iff.mp (Nat.le_zero.mp h)
      rw [hnil]
      rfl
  | succ n ih =>
      have hlen : ((bs ++ List.replicate k false).take k).length = k := by
        rw [List.length_take, List.length_append, List.length_replicate]
        exact Nat.min_eq_left (Nat.le_add_left _ _)
      have hfirst := bits_value ((bs ++ List.replicate k false).take k)
      rw [hlen] at hfirst
      have hrest : (bs.drop k).length ≤ k * n := by
        rw [List.length_drop]
        rw [Nat.mul_succ] at h
        omega
      rw [groups, List.flatMap_cons, hfirst, ih hrest, List.length_drop, Nat.mul_succ]
      by_cases hshort : bs.length ≤ k
      · -- the last digit
        rw [List.drop_eq_nil_of_le hshort, List.nil_append, List.take_append,
          List.take_of_length_le hshort, List.take_replicate, List.append_assoc,
          List.replicate_append_replicate, Nat.min_eq_left (Nat.sub_le _ _)]
        congr 2
        omega
      · have hlong : k ≤ bs.length := Nat.le_of_not_le hshort
        rw [List.take_append_of_le_length hlong, ← List.append_assoc, List.take_append_drop]
        congr 2
        omega

/-! ## Whole groups of characters -/

theorem length_fillUp {α : Type} {n : Nat} (hn : 0 < n) (pad : α) (chars : List α) :
    (fillUp n pad chars).length = (chars.length + (n - 1)) / n * n := by
  rw [fillUp, List.length_append, List.length_replicate]
  have hsplit := Nat.div_add_mod chars.length n
  have hlt := Nat.mod_lt chars.length hn
  generalize chars.length / n = q at hsplit
  generalize chars.length % n = r at hsplit hlt ⊢
  have hgroups : (chars.length + (n - 1)) / n = q + (r + (n - 1)) / n := by
    rw [← hsplit, Nat.add_assoc, Nat.mul_add_div hn]
  rw [hgroups, Nat.add_mul, Nat.mul_comm q]
  by_cases hr : r = 0
  · rw [hr, Nat.sub_zero, Nat.mod_self, Nat.zero_add, Nat.div_eq_of_lt (Nat.sub_lt hn Nat.one_pos)]
    omega
  · have hone : (r + (n - 1)) / n = 1 := Nat.div_eq_of_lt_le (by omega) (by omega)
    rw [hone, Nat.mod_eq_of_lt (by omega), Nat.one_mul]
    omega

end BitString
