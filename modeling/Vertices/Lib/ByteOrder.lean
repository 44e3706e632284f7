/-
# `Vertices.Lib.ByteOrder` — numbers as byte strings, low byte first and high byte first

`leBytes k n` is the `k` low bytes of `n`, least significant first — what a
little-endian host has in memory; `beBytes` is its mirror image, the order of
network formats.  Both are inverse to `leNat`, `beNat` below `256 ^ k`.
-/
import Mathlib.Algebra.Order.Ring.Nat
import Mathlib.Tactic.Common

namespace ByteOrder

/-- The number a byte string spells, first byte least significant. -/
def leNat : List UInt8 → Nat
  | [] => 0
  | b :: bs => b.toNat + 256 * leNat bs

/-- The `k` low bytes of `n`, least significant first. -/
def leBytes : Nat → Nat → List UInt8
  | 0, _ => []
  | k + 1, n => UInt8.ofNat n :: leBytes k (n / 256)

/-- The number a byte string spells, first byte most significant. -/
def beNat (bs : List UInt8) : Nat := leNat bs.reverse

/-- The `k` low bytes of `n`, most significant first. -/
def beBytes (k n : Nat) : List UInt8 := (leBytes k n).reverse

@[simp] theorem length_leBytes : ∀ k n : Nat, (leBytes k n).length = k := by
  intro k
  induction k with
  | zero =>
      intro n
      rfl
  | succ k ih =>
      intro n
      simp [leBytes, ih]

@[simp] theorem length_beBytes (k n : Nat) : (beBytes k n).length = k := by
  simp [beBytes]

theorem leNat_leBytes : ∀ k n : Nat, leNat (leBytes k n) = n % 256 ^ k := by
  intro k
  induction k with
  | zero =>
      intro n
      simp [leBytes, leNat, Nat.mod_one]
  | succ k ih =>
      intro n
      have hb : (UInt8.ofNat n).toNat = n % 256 := UInt8.toNat_ofNat'
      rw [leBytes, leNat, ih, hb, Nat.pow_succ, Nat.mul_comm (256 ^ k) 256, Nat.mod_mul]

theorem leNat_lt (bs : List UInt8) : leNat bs < 256 ^ bs.length := by
  induction bs with
  | nil => simp [leNat]
  | cons b bs ih =>
      have hb := b.toNat_lt
      rw [leNat, List.length_cons, Nat.pow_succ]
      omega

theorem leBytes_leNat (bs : List UInt8) : leBytes bs.length (leNat bs) = bs := by
  induction bs with
  | nil => rfl
  | cons b bs ih =>
      have hb := b.toNat_lt
      have hd : (b.toNat + 256 * leNat bs) / 256 = leNat bs := by omega
      have hm : UInt8.ofNat (b.toNat + 256 * leNat bs) = b := by
        apply UInt8.toNat_inj.mp
        rw [UInt8.toNat_ofNat']
        omega
      rw [List.length_cons, leNat, leBytes, hd, hm, ih]

theorem beNat_beBytes {k n : Nat} (h : n < 256 ^ k) : beNat (beBytes k n) = n := by
  rw [beNat, beBytes, List.reverse_reverse, leNat_leBytes, Nat.mod_eq_of_lt h]

end ByteOrder
