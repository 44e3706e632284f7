/-
# `Vertices.Lib.RingBuffer` — a circular array with one free cell, and the list it holds

`n` cells, a read index and a write index, both kept below `n` by their type.
The occupied cells run from `rd` up to, and without, `wr`; `rd = wr` is the empty
buffer, so at most `n - 1` cells are ever in use.

`toList` is the abstraction: a bounded FIFO list.  `push_toList` and `pop_toList`
say that advancing an index modulo `n` is appending at the tail, or dropping the
head; `full_iff` that the one state in which the write index may not advance is
the one whose list has `n - 1` elements.
-/
import Mathlib.Data.List.Range
import Mathlib.Tactic.Common

/-- A circular array of `n` cells with its two indices. -/
structure RingBuffer (α : Type*) (n : Nat) where
  rd : Fin n
  wr : Fin n
  cells : Vector α n

namespace RingBuffer

variable {α : Type*} {n : Nat}

/-- The cell after `i`, around the end. -/
def next (i : Fin n) : Fin n :=
  ⟨(i.val + 1) % n, Nat.mod_lt _ (Nat.zero_lt_of_lt i.isLt)⟩

/-- The number of occupied cells. -/
def size (r : RingBuffer α n) : Nat :=
  (r.wr.val + n - r.rd.val) % n

/-- The cell `k` places after the read index. -/
def cell (r : RingBuffer α n) (k : Nat) : α :=
  r.cells[(⟨(r.rd.val + k) % n, Nat.mod_lt _ (Nat.zero_lt_of_lt r.rd.isLt)⟩ : Fin n)]

/-- The occupied cells, oldest first. -/
def toList (r : RingBuffer α n) : List α :=
  (List.range r.size).map r.cell

/-- Write a cell and advance the write index. -/
def push (r : RingBuffer α n) (a : α) : RingBuffer α n :=
  { r with cells := r.cells.set r.wr a, wr := next r.wr }

/-- Advance the read index. -/
def pop (r : RingBuffer α n) : RingBuffer α n :=
  { r with rd := next r.rd }

@[simp] theorem length_toList (r : RingBuffer α n) : r.toList.length = r.size := by
  simp [toList]

/-! ## The size, without the modulus -/

theorem size_of_le {r : RingBuffer α n} (h : r.rd.val ≤ r.wr.val) :
    r.size = r.wr.val - r.rd.val := by
  have hlt := r.wr.isLt
  unfold size
  rw [show r.wr.val + n - r.rd.val = (r.wr.val - r.rd.val) + n by omega, Nat.add_mod_right]
  exact Nat.mod_eq_of_lt (by omega)

theorem size_of_lt {r : RingBuffer α n} (h : r.wr.val < r.rd.val) :
    r.size = r.wr.val + n - r.rd.val :=
  Nat.mod_eq_of_lt (by have := r.rd.isLt; omega)

theorem size_lt (r : RingBuffer α n) : r.size < n :=
  Nat.mod_lt _ (Nat.zero_lt_of_lt r.rd.isLt)

theorem size_eq_zero_iff {r : RingBuffer α n} : r.size = 0 ↔ r.rd = r.wr := by
  have hr := r.rd.isLt
  rcases Nat.lt_or_ge r.wr.val r.rd.val with h | h
  · rw [size_of_lt h, Fin.ext_iff]; omega
  · rw [size_of_le h, Fin.ext_iff]; omega

theorem next_val (i : Fin n) : (next i).val = if i.val + 1 = n then 0 else i.val + 1 := by
  have h := i.isLt
  simp only [next]
  split
  · next he => rw [he, Nat.mod_self]
  · exact Nat.mod_eq_of_lt (by omega)

/-- The write index may not advance exactly when `n - 1` cells are occupied. -/
theorem full_iff {r : RingBuffer α n} : next r.wr = r.rd ↔ r.size = n - 1 := by
  have hr := r.rd.isLt
  have hw := r.wr.isLt
  rw [Fin.ext_iff, next_val]
  rcases Nat.lt_or_ge r.wr.val r.rd.val with h | h
  · rw [size_of_lt h]; split <;> omega
  · rw [size_of_le h]; split <;> omega

/-! ## Pushing and popping are list operations -/

theorem size_push {r : RingBuffer α n} (a : α) (h : next r.wr ≠ r.rd) :
    (r.push a).size = r.size + 1 := by
  have hr := r.rd.isLt
  have hw := r.wr.isLt
  have hv : (r.push a).wr.val = if r.wr.val + 1 = n then 0 else r.wr.val + 1 := next_val r.wr
  have hd : (r.push a).rd.val = r.rd.val := rfl
  rw [Ne, Fin.ext_iff, next_val] at h
  rcases Nat.lt_or_ge r.wr.val r.rd.val with hlt | hge
  · rw [size_of_lt hlt, size_of_lt (by rw [hv, hd]; split at h <;> split <;> omega), hv, hd]
    split at h <;> split <;> omega
  · rw [size_of_le hge]
    by_cases he : r.wr.val + 1 = n
    · rw [if_pos he] at h hv
      rw [size_of_lt (by rw [hv, hd]; omega), hv, hd]; omega
    · rw [if_neg he] at h hv
      rw [size_of_le (by rw [hv, hd]; omega), hv, hd]; omega

/-- The cell about to be written is none of the occupied ones. -/
theorem cell_push_of_lt {r : RingBuffer α n} (a : α) {k : Nat} (hk : k < r.size) :
    (r.push a).cell k = r.cell k := by
  have hr := r.rd.isLt
  have hne : r.wr.val ≠ (r.rd.val + k) % n := by
    intro he
    rcases Nat.lt_or_ge (r.rd.val + k) n with hlt | hge
    · rw [Nat.mod_eq_of_lt hlt] at he
      rw [size_of_le (by omega)] at hk; omega
    · have hm : (r.rd.val + k) % n = r.rd.val + k - n := by
        have hs := r.size_lt
        rw [Nat.mod_eq_sub_mod hge]; exact Nat.mod_eq_of_lt (by omega)
      rw [hm] at he
      have hs := r.size_lt
      rw [size_of_lt (by omega)] at hk; omega
  simp only [cell, push, Fin.getElem_fin, Vector.getElem_set, if_neg hne]

theorem cell_push_last {r : RingBuffer α n} (a : α) : (r.push a).cell r.size = a := by
  have hr := r.rd.isLt
  have hw := r.wr.isLt
  have he : r.wr.val = (r.rd.val + r.size) % n := by
    rcases Nat.lt_or_ge r.wr.val r.rd.val with h | h
    · rw [size_of_lt h, show r.rd.val + (r.wr.val + n - r.rd.val) = r.wr.val + n by omega,
        Nat.add_mod_right, Nat.mod_eq_of_lt hw]
    · rw [size_of_le h, show r.rd.val + (r.wr.val - r.rd.val) = r.wr.val by omega,
        Nat.mod_eq_of_lt hw]
  simp only [cell, push, Fin.getElem_fin, Vector.getElem_set, if_pos he]

theorem push_toList {r : RingBuffer α n} (a : α) (h : next r.wr ≠ r.rd) :
    (r.push a).toList = r.toList ++ [a] := by
  simp only [toList, size_push a h, List.range_succ, List.map_append, List.map_cons,
    List.map_nil, cell_push_last]
  congr 1
  exact List.map_congr_left fun k hk => cell_push_of_lt a (List.mem_range.mp hk)

theorem size_pop {r : RingBuffer α n} (h : r.rd ≠ r.wr) : r.size = r.pop.size + 1 := by
  have hr := r.rd.isLt
  have hw := r.wr.isLt
  have hv : r.pop.rd.val = if r.rd.val + 1 = n then 0 else r.rd.val + 1 := next_val r.rd
  have hd : r.pop.wr.val = r.wr.val := rfl
  rw [Ne, Fin.ext_iff] at h
  rcases Nat.lt_or_ge r.wr.val r.rd.val with hlt | hge
  · rw [size_of_lt hlt]
    by_cases he : r.rd.val + 1 = n
    · rw [if_pos he] at hv
      rw [size_of_le (by rw [hv]; omega), hv, hd]; omega
    · rw [if_neg he] at hv
      rw [size_of_lt (by rw [hv, hd]; omega), hv, hd]; omega
  · rw [if_neg (by omega)] at hv
    rw [size_of_le hge, size_of_le (by rw [hv, hd]; omega), hv, hd]; omega

theorem cell_pop (r : RingBuffer α n) (k : Nat) : r.pop.cell k = r.cell (k + 1) := by
  simp only [cell, pop, next, Fin.getElem_fin, Nat.mod_add_mod]
  congr 2
  omega

theorem cell_zero (r : RingBuffer α n) : r.cell 0 = r.cells[r.rd] := by
  simp only [cell, Nat.add_zero, Nat.mod_eq_of_lt r.rd.isLt, Fin.getElem_fin]

theorem pop_toList {r : RingBuffer α n} (h : r.rd ≠ r.wr) :
    r.toList = r.cells[r.rd] :: r.pop.toList := by
  rw [toList, size_pop h, List.range_succ_eq_map, List.map_cons, cell_zero, List.map_map]
  congr 1
  exact (List.map_congr_left fun k _ => cell_pop r k).symm

theorem toList_eq_nil_iff {r : RingBuffer α n} : r.toList = [] ↔ r.rd = r.wr := by
  rw [← size_eq_zero_iff, ← length_toList, List.length_eq_zero_iff]

end RingBuffer
