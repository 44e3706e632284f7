/-
# `Vertices.Lib.Radix` — regrouping the bits of a digit string

A converter between two power-of-two radices reads digits of `a` bits, least
significant first, into an accumulator, and takes digits of `b` bits out of it as
soon as it holds that many; at the end what is left makes one last digit.  Both
strings spell the same number, so converting there and back gives the first string
again, followed by as many zeros as the rounding up added.
-/
import Mathlib.Data.Nat.Digits.Defs
import Mathlib.Tactic.Common
import Mathlib.Tactic.Ring

namespace Radix

open Nat (ofDigits)

/-- The `k` low digits of `b` bits of `v`. -/
def low (b : Nat) : Nat → Nat → List Nat
  | 0, _ => []
  | k + 1, v => v % 2 ^ b :: low b k (v / 2 ^ b)

/-- The converter, with `bits` bits in the accumulator `val`. -/
def regroup (a b : Nat) : Nat → Nat → List Nat → List Nat
  | val, bits, [] => if bits = 0 then [] else [val]
  | val, bits, d :: ds =>
      let held := val + 2 ^ bits * d
      let k := (bits + a) / b
      low b k held ++ regroup a b (held / 2 ^ (b * k)) ((bits + a) % b) ds

/-- The `k` low bits of `n`, the low bit first. -/
def lowBits (k n : Nat) : List Bool := (List.range k).map n.testBit

@[simp] theorem length_low (b : Nat) : ∀ k v : Nat, (low b k v).length = k := by
  intro k
  induction k with
  | zero =>
      intro v
      rfl
  | succ k ih =>
      intro v
      rw [low, List.length_cons, ih]

theorem low_lt {b : Nat} : ∀ {k v d : Nat}, d ∈ low b k v → d < 2 ^ b := by
  intro k
  induction k with
  | zero =>
      intro v d h
      exact absurd h List.not_mem_nil
  | succ k ih =>
      intro v d h
      rcases List.mem_cons.mp h with rfl | h
      · exact Nat.mod_lt _ (Nat.two_pow_pos b)
      · exact ih h

theorem ofDigits_low (b : Nat) : ∀ k v : Nat, ofDigits (2 ^ b) (low b k v) = v % 2 ^ (b * k) := by
  intro k
  induction k with
  | zero =>
      intro v
      simp [low, Nat.mod_one]
  | succ k ih =>
      intro v
      rw [low, Nat.ofDigits_cons, ih, Nat.mul_succ, Nat.add_comm (b * k), Nat.pow_add, Nat.mod_mul]

/-- A digit on top of `bits` bits needs `a` more. -/
theorem held_lt {a bits val d : Nat} (hv : val < 2 ^ bits) (hd : d < 2 ^ a) :
    val + 2 ^ bits * d < 2 ^ (bits + a) := by
  have h : 2 ^ bits * (d + 1) ≤ 2 ^ bits * 2 ^ a := Nat.mul_le_mul_left _ hd
  rw [Nat.pow_add]
  rw [Nat.mul_succ] at h
  omega

/-- What stays in the accumulator fits the bits that stay. -/
theorem rest_lt {b n v : Nat} (h : v < 2 ^ n) : v / 2 ^ (b * (n / b)) < 2 ^ (n % b) := by
  apply Nat.div_lt_of_lt_mul
  rw [← Nat.pow_add, Nat.div_add_mod]
  exact h

/-- The digits taken out spell what was put in. -/
theorem ofDigits_regroup {a b : Nat} :
    ∀ {ds : List Nat} {val bits : Nat}, val < 2 ^ bits → (∀ d ∈ ds, d < 2 ^ a) →
      ofDigits (2 ^ b) (regroup a b val bits ds) = val + 2 ^ bits * ofDigits (2 ^ a) ds := by
  intro ds
  induction ds with
  | nil =>
      intro val bits hv _
      rw [regroup]
      split
      · next h0 =>
          subst h0
          have : val = 0 := by simpa using hv
          simp [this]
      · simp
  | cons d ds ih =>
      intro val bits hv hds
      have hd : d < 2 ^ a := hds d List.mem_cons_self
      have hlt : val + 2 ^ bits * d < 2 ^ (bits + a) := held_lt hv hd
      have ih := ih (rest_lt (b := b) hlt) fun e he => hds e (List.mem_cons_of_mem _ he)
      simp only [regroup]
      rw [Nat.ofDigits_append, ofDigits_low, length_low, ih, Nat.ofDigits_cons, ← Nat.pow_mul]
      have hbits : 2 ^ (b * ((bits + a) / b)) * 2 ^ ((bits + a) % b) = 2 ^ (bits + a) := by
        rw [← Nat.pow_add, Nat.div_add_mod]
      -- the bits of `held` are those taken out below those that stay
      calc _ = ((val + 2 ^ bits * d) % 2 ^ (b * ((bits + a) / b)) +
              2 ^ (b * ((bits + a) / b)) * ((val + 2 ^ bits * d) / 2 ^ (b * ((bits + a) / b)))) +
            (2 ^ (b * ((bits + a) / b)) * 2 ^ ((bits + a) % b)) * ofDigits (2 ^ a) ds := by ring
        _ = (val + 2 ^ bits * d) + 2 ^ (bits + a) * ofDigits (2 ^ a) ds := by
            rw [Nat.mod_add_div, hbits]
        _ = val + 2 ^ bits * (d + 2 ^ a * ofDigits (2 ^ a) ds) := by
            rw [Nat.pow_add]
            ring

theorem regroup_lt {a b : Nat} :
    ∀ {ds : List Nat} {val bits : Nat}, bits < b → val < 2 ^ bits → (∀ d ∈ ds, d < 2 ^ a) →
      ∀ d ∈ regroup a b val bits ds, d < 2 ^ b := by
  intro ds
  induction ds with
  | nil =>
      intro val bits hb hv _ d hd
      rw [regroup] at hd
      split at hd
      · exact nomatch hd
      · rw [List.mem_singleton] at hd
        subst hd
        exact Nat.lt_of_lt_of_le hv (Nat.pow_le_pow_right (by decide) hb.le)
  | cons e ds ih =>
      intro val bits hb hv hds d hd
      rcases List.mem_append.mp hd with hd | hd
      · exact low_lt hd
      · exact ih (Nat.mod_lt _ (by omega))
          (rest_lt (held_lt hv (hds e List.mem_cons_self)))
          (fun c hc => hds c (List.mem_cons_of_mem _ hc)) d hd

/-- One digit for each `b` bits, and one more for what remains. -/
theorem length_regroup {a b : Nat} :
    ∀ {ds : List Nat} {val bits : Nat}, bits < b →
      (regroup a b val bits ds).length = (bits + a * ds.length + (b - 1)) / b := by
  intro ds
  induction ds with
  | nil =>
      intro val bits hb
      rw [regroup, List.length_nil, Nat.mul_zero, Nat.add_zero]
      split
      · next h0 => rw [h0, Nat.zero_add, Nat.div_eq_of_lt (by omega)]; rfl
      · next h0 =>
          have hone : (bits + (b - 1)) / b = 1 :=
            Nat.div_eq_of_lt_le (by omega) (by omega)
          rw [List.length_singleton, hone]
  | cons d ds ih =>
      intro val bits hb
      have hsum : bits + a * (ds.length + 1) + (b - 1) =
          (bits + a) % b + a * ds.length + (b - 1) + b * ((bits + a) / b) := by
        have hn := Nat.mod_add_div (bits + a) b
        rw [Nat.mul_succ]
        omega
      rw [regroup, List.length_append, length_low, ih (Nat.mod_lt _ (by omega)),
        List.length_cons, hsum, Nat.add_mul_div_left _ _ (by omega), Nat.add_comm]

/-- Converting to the other radix and back. -/
theorem regroup_regroup {a b k : Nat} {ds : List Nat} (ha : 0 < a) (hb : 0 < b)
    (hds : ∀ d ∈ ds, d < 2 ^ a)
    (hk : (b * ((a * ds.length + (b - 1)) / b) + (a - 1)) / a = ds.length + k) :
    regroup b a 0 0 (regroup a b 0 0 ds) = ds ++ List.replicate k 0 := by
  have hlt : ∀ d ∈ regroup a b 0 0 ds, d < 2 ^ b := regroup_lt hb (by decide) hds
  apply Nat.ofDigits_inj_of_len_eq (Nat.one_lt_two_pow (by omega : a ≠ 0))
  · rw [length_regroup ha, length_regroup hb, Nat.zero_add, Nat.zero_add, hk,
      List.length_append, List.length_replicate]
  · exact regroup_lt ha (by decide) hlt
  · intro d hd
    rcases List.mem_append.mp hd with hd | hd
    · exact hds d hd
    · rw [List.eq_of_mem_replicate hd]
      exact Nat.two_pow_pos a
  · rw [Nat.ofDigits_append_replicate_zero, ofDigits_regroup (by decide) hlt,
      ofDigits_regroup (by decide) hds]
    simp

/-! ## Bits -/

theorem lowBits_add (j k n : Nat) : lowBits (j + k) n = lowBits j n ++ lowBits k (n / 2 ^ j) := by
  rw [lowBits, List.range_add, List.map_append, List.map_map, lowBits, lowBits]
  congr 1
  apply List.map_congr_left
  intro i _
  rw [Function.comp_apply, Nat.testBit_div_two_pow, Nat.add_comm]

theorem lowBits_zero (k : Nat) : lowBits k 0 = List.replicate k false := by
  rw [lowBits, List.map_congr_left (g := fun _ => false) fun i _ => Nat.zero_testBit i, List.map_const',
    List.length_range]

/-- Only the low bits count. -/
theorem lowBits_mod (k n : Nat) : lowBits k (n % 2 ^ k) = lowBits k n := by
  apply List.map_congr_left
  intro i hi
  rw [Nat.testBit_mod_two_pow, decide_eq_true (List.mem_range.mp hi), Bool.true_and]

/-- A digit string, as bits, is the number it spells. -/
theorem flatMap_lowBits {a : Nat} {ds : List Nat} (h : ∀ d ∈ ds, d < 2 ^ a) :
    ds.flatMap (lowBits a) = lowBits (a * ds.length) (ofDigits (2 ^ a) ds) := by
  induction ds with
  | nil => rfl
  | cons d ds ih =>
      rw [List.forall_mem_cons] at h
      have hlow : (d + 2 ^ a * ofDigits (2 ^ a) ds) % 2 ^ a = d := by
        rw [Nat.add_mul_mod_self_left, Nat.mod_eq_of_lt h.1]
      have hhigh : (d + 2 ^ a * ofDigits (2 ^ a) ds) / 2 ^ a = ofDigits (2 ^ a) ds := by
        rw [Nat.add_mul_div_left _ _ (Nat.two_pow_pos a), Nat.div_eq_of_lt h.1, Nat.zero_add]
      have hfirst : lowBits a (d + 2 ^ a * ofDigits (2 ^ a) ds) = lowBits a d := by
        rw [← lowBits_mod, hlow]
      rw [List.flatMap_cons, ih h.2, List.length_cons, Nat.mul_succ, Nat.add_comm (a * ds.length),
        Nat.ofDigits_cons, lowBits_add, hfirst, hhigh]

/-- The converter keeps the bits and fills them up with zeros. -/
theorem flatMap_regroup {a b : Nat} {ds : List Nat} (ha : 0 < a) (hb : 0 < b)
    (hds : ∀ d ∈ ds, d < 2 ^ a) :
    (regroup a b 0 0 ds).flatMap (lowBits b) =
      ds.flatMap (lowBits a) ++
        List.replicate (b * ((a * ds.length + (b - 1)) / b) - a * ds.length) false := by
  have hlen : (regroup a b 0 0 ds).length = (a * ds.length + (b - 1)) / b := by
    rw [length_regroup hb, Nat.zero_add]
  have hle : a * ds.length ≤ b * ((a * ds.length + (b - 1)) / b) := by
    have hmod := Nat.div_add_mod (a * ds.length + (b - 1)) b
    have hlt := Nat.mod_lt (a * ds.length + (b - 1)) hb
    omega
  have hspelled : ofDigits (2 ^ a) ds < 2 ^ (a * ds.length) := by
    rw [Nat.pow_mul]
    exact Nat.ofDigits_lt_base_pow_length (Nat.one_lt_two_pow (by omega : a ≠ 0)) hds
  rw [flatMap_lowBits (regroup_lt hb (by decide) hds), flatMap_lowBits hds, hlen,
    ofDigits_regroup (by decide) hds]
  obtain ⟨m, hm⟩ := Nat.exists_eq_add_of_le hle
  rw [hm, Nat.add_sub_cancel_left, Nat.zero_add, Nat.pow_zero, Nat.one_mul, lowBits_add,
    Nat.div_eq_of_lt hspelled, lowBits_zero]

end Radix
