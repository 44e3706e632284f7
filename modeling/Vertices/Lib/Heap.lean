/-
# `Vertices.Lib.Heap` — a heap of blocks, and who owns them

A heap is its live blocks, each with its contents.  To read, write or free what is no live
block has no outcome.  `Holds` lists the live blocks in any order: what a function owns in
front, what it does not touch behind.

    Holds.malloc    a new block, in front of those there were
    Holds.load      a block that is held can be read
    Holds.store     its contents change, and no others
    Holds.free      it is gone, and no other
    Holds.realloc   one block for another

Since the order does not matter, what a function leaves allocated can be counted.
-/
import Mathlib.Data.List.Perm.Basic
import Mathlib.Data.List.Nodup
import Mathlib.Tactic.Common

/-- The live blocks, by address.  Addresses are given out in order. -/
structure Heap (β : Type*) where
  blocks : List (Nat × β)
  next : Nat
  nodup : (blocks.map Prod.fst).Nodup
  fresh : ∀ e ∈ blocks, e.1 < next

namespace Heap

variable {β : Type*} {h h' : Heap β} {l l' : List (Nat × β)} {p : Nat} {b : β}

def empty : Heap β where
  blocks := []
  next := 0
  nodup := List.nodup_nil
  fresh := by simp

/-- A new block. -/
def malloc (h : Heap β) (b : β) : Nat × Heap β where
  fst := h.next
  snd := {
    blocks := (h.next, b) :: h.blocks
    next := h.next + 1
    nodup := by
      refine List.nodup_cons.mpr ⟨fun hmem => ?_, h.nodup⟩
      obtain ⟨e, he, heq⟩ := List.mem_map.mp hmem
      exact absurd (h.fresh e he) (by omega)
    fresh := by
      intro e he
      rcases List.mem_cons.mp he with rfl | he
      · exact Nat.lt_succ_self _
      · exact Nat.lt_succ_of_lt (h.fresh e he) }

/-- The contents of a block. -/
def load (h : Heap β) (p : Nat) : Option β := (h.blocks.find? fun e => e.1 = p).map Prod.snd

/-- New contents for a block. -/
def store (h : Heap β) (p : Nat) (b : β) : Option (Heap β) :=
  if (h.load p).isSome then
    some {
      blocks := h.blocks.map fun e => if e.1 = p then (p, b) else e
      next := h.next
      nodup := by
        have hkeys : (h.blocks.map fun e => if e.1 = p then (p, b) else e).map Prod.fst =
            h.blocks.map Prod.fst := by
          rw [List.map_map]
          refine List.map_congr_left fun e _ => ?_
          by_cases he : e.1 = p <;> simp [he]
        rw [hkeys]
        exact h.nodup
      fresh := by
        intro e he
        obtain ⟨e', he', rfl⟩ := List.mem_map.mp he
        have := h.fresh e' he'
        split
        · next hp => rwa [← hp]
        · exact this }
  else none

/-- The block is given back. -/
def free (h : Heap β) (p : Nat) : Option (Heap β) :=
  if (h.load p).isSome then
    some {
      blocks := h.blocks.filter fun e => e.1 ≠ p
      next := h.next
      nodup := h.nodup.sublist (List.filter_sublist.map Prod.fst)
      fresh := fun e he => h.fresh e (List.mem_filter.mp he).1 }
  else none

/-- A block in the place of another, its contents made of the other's. -/
def realloc (h : Heap β) (p : Nat) (f : β → β) : Option (Nat × Heap β) := do
  let b ← h.load p
  let h ← h.free p
  return h.malloc (f b)

/-- The live blocks are those of the list. -/
def Holds (h : Heap β) (l : List (Nat × β)) : Prop := h.blocks.Perm l

theorem Holds.perm (hl : h.Holds l) (hp : l.Perm l') : h.Holds l' := hl.trans hp

theorem holds_blocks (h : Heap β) : h.Holds h.blocks := List.Perm.refl _

theorem Holds.length (hl : h.Holds l) : h.blocks.length = l.length := hl.length_eq

theorem Holds.malloc (hl : h.Holds l) (b : β) :
    (h.malloc b).2.Holds (((h.malloc b).1, b) :: l) := hl.cons _

theorem load_of_mem (hmem : (p, b) ∈ h.blocks) : h.load p = some b := by
  obtain ⟨e, he⟩ : ∃ e, h.blocks.find? (fun e => e.1 = p) = some e :=
    Option.isSome_iff_exists.mp (List.find?_isSome.mpr ⟨(p, b), hmem, by simp⟩)
  have hp : e.1 = p := by simpa using List.find?_some he
  have heq : e = (p, b) :=
    List.inj_on_of_nodup_map h.nodup (List.mem_of_find?_eq_some he) hmem hp
  rw [load, he, heq]
  rfl

theorem Holds.load_mem (hl : h.Holds l) (hmem : (p, b) ∈ l) : h.load p = some b :=
  load_of_mem (hl.mem_iff.mpr hmem)

theorem Holds.load (hl : h.Holds ((p, b) :: l)) : h.load p = some b :=
  hl.load_mem List.mem_cons_self

/-- No other block has the address of the first. -/
theorem Holds.ne_of_mem (hl : h.Holds ((p, b) :: l)) {e : Nat × β} (he : e ∈ l) : e.1 ≠ p := by
  have hnodup : (((p, b) :: l).map Prod.fst).Nodup := (hl.map Prod.fst).nodup_iff.mp h.nodup
  intro heq
  have hmem : e.1 ∈ l.map Prod.fst := List.mem_map_of_mem he
  rw [heq] at hmem
  exact (List.nodup_cons.mp hnodup).1 hmem

theorem Holds.store (hl : h.Holds ((p, b) :: l)) (b' : β) :
    ∃ h', h.store p b' = some h' ∧ h'.Holds ((p, b') :: l) := by
  refine ⟨_, if_pos (by rw [hl.load]; rfl), ?_⟩
  have hmap := List.Perm.map (fun e : Nat × β => if e.1 = p then (p, b') else e) hl
  have hkept : l.map (fun e : Nat × β => if e.1 = p then (p, b') else e) = l :=
    (List.map_congr_left fun e he => if_neg (hl.ne_of_mem he)).trans (List.map_id l)
  rw [List.map_cons, if_pos rfl, hkept] at hmap
  exact hmap

theorem Holds.free (hl : h.Holds ((p, b) :: l)) : ∃ h', h.free p = some h' ∧ h'.Holds l := by
  refine ⟨_, if_pos (by rw [hl.load]; rfl), ?_⟩
  have hfilter := List.Perm.filter (fun e : Nat × β => decide (e.1 ≠ p)) hl
  rw [List.filter_cons_of_neg (by simp),
    List.filter_eq_self.mpr fun e he => decide_eq_true (hl.ne_of_mem he)] at hfilter
  exact hfilter

theorem Holds.realloc (hl : h.Holds ((p, b) :: l)) (f : β → β) :
    ∃ p' h', h.realloc p f = some (p', h') ∧ h'.Holds ((p', f b) :: l) := by
  obtain ⟨h₁, hfree, hl₁⟩ := hl.free
  refine ⟨_, _, ?_, hl₁.malloc (f b)⟩
  rw [Heap.realloc, hl.load]
  show (h.free p >>= _) = _
  rw [hfree]
  rfl

end Heap
