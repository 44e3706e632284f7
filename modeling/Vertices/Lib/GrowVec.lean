/-
# `Vertices.Lib.GrowVec` — vectors that grow by doubling

The vector is a block of cells, how many of them it has, and how many are used.  Pushing
onto a full one first moves the cells to a block of twice the size.  Of what type the cells
are in the heap does not matter: `Cells` says how they are put in a block.

`Lists` and `block` relate a vector to a list: the used cells are its elements, and the rest
are unset.  With them `push_spec` says that a push never leaves the block and adds its
element; `pushAll_spec` says the same of many, and how large the block gets.
-/
import Vertices.Lib.Heap

universe u

structure GrowVec where
  data : Nat
  size : Nat
  capacity : Nat

/-- How cells are put in a block; a cell may be unset. -/
structure Cells (α β : Type u) where
  wrap : List (Option α) → β
  unwrap : β → Option (List (Option α))
  unwrap_wrap : ∀ cells, unwrap (wrap cells) = some cells

namespace GrowVec

variable {α β : Type u} (C : Cells α β) {v : GrowVec} {h : Heap β} {xs : List α}
  {l : List (Nat × β)}

/-! ## The operations -/

/-- An empty vector, with a block of its own. -/
def init (capacity : Nat) (h : Heap β) : GrowVec × Heap β :=
  let (data, h) := h.malloc (C.wrap (List.replicate capacity none))
  (⟨data, 0, capacity⟩, h)

/-- Twice the cells if all are used. -/
def reserve (v : GrowVec) (h : Heap β) : Option (GrowVec × Heap β) :=
  if v.capacity ≤ v.size then do
    let capacity := v.capacity * 2
    let (data, h) ← h.realloc v.data fun b => (C.unwrap b).elim b fun cells =>
      C.wrap (cells ++ List.replicate (capacity - cells.length) none)
    return ({ v with data := data, capacity := capacity }, h)
  else return (v, h)

/-- The next cell is set. -/
def put (v : GrowVec) (x : α) (h : Heap β) : Option (GrowVec × Heap β) := do
  let cells ← (h.load v.data).bind C.unwrap
  if v.size < cells.length then
    let h ← h.store v.data (C.wrap (cells.set v.size (some x)))
    return ({ v with size := v.size + 1 }, h)
  else none

def push (v : GrowVec) (x : α) (h : Heap β) : Option (GrowVec × Heap β) := do
  let (v, h) ← v.reserve C h
  v.put C x h

/-- A cell that has been set. -/
def get (v : GrowVec) (i : Nat) (h : Heap β) : Option α := do
  let cells ← (h.load v.data).bind C.unwrap
  (cells[i]?).join

/-- Pushes one after the other. -/
def pushAll (v : GrowVec) (xs : List α) (h : Heap β) : Option (GrowVec × Heap β) :=
  xs.foldlM (fun (v, h) x => v.push C x h) (v, h)

/-! ## The list -/

/-- The vector is as long as the list, and has room for it. -/
structure Lists (v : GrowVec) (xs : List α) : Prop where
  size : v.size = xs.length
  le : xs.length ≤ v.capacity
  pos : 0 < v.capacity

/-- The vector's block: the list, and unset cells. -/
def block (v : GrowVec) (xs : List α) : Nat × β :=
  (v.data, C.wrap (xs.map some ++ List.replicate (v.capacity - xs.length) none))

theorem init_spec {capacity : Nat} (hpos : 0 < capacity) (hh : h.Holds l) :
    (init C capacity h).1.Lists ([] : List α) ∧ (init C capacity h).1.capacity = capacity ∧
      (init C capacity h).2.Holds ((init C capacity h).1.block C [] :: l) :=
  ⟨⟨rfl, Nat.zero_le _, hpos⟩, rfl, hh.malloc _⟩

/-- The cells of the block are found again. -/
theorem cells_of_mem (hh : h.Holds l) (hmem : v.block C xs ∈ l) :
    (h.load v.data).bind C.unwrap =
      some (xs.map some ++ List.replicate (v.capacity - xs.length) none) := by
  rw [Heap.Holds.load_mem hh hmem]
  exact C.unwrap_wrap _

theorem reserve_spec (hv : v.Lists xs) (hh : h.Holds (v.block C xs :: l)) :
    ∃ v' h', v.reserve C h = some (v', h') ∧ v'.Lists xs ∧ xs.length < v'.capacity ∧
      v'.capacity ≤ max v.capacity (2 * xs.length) ∧ h'.Holds (v'.block C xs :: l) := by
  by_cases hfull : v.capacity ≤ v.size
  · have hlength : v.capacity = xs.length := Nat.le_antisymm (hv.size ▸ hfull) hv.le
    have hpos := hv.pos
    obtain ⟨data, h', hrealloc, hh'⟩ := Heap.Holds.realloc hh fun b => (C.unwrap b).elim b fun cells =>
      C.wrap (cells ++ List.replicate (v.capacity * 2 - cells.length) none)
    refine ⟨{ v with data := data, capacity := v.capacity * 2 }, h', ?_, ⟨hv.size, ?_, ?_⟩, ?_, ?_, ?_⟩
    · rw [reserve, if_pos hfull]
      show (h.realloc v.data _ >>= _) = _
      rw [hrealloc]
      rfl
    · show xs.length ≤ v.capacity * 2
      omega
    · show 0 < v.capacity * 2
      omega
    · show xs.length < v.capacity * 2
      omega
    · show v.capacity * 2 ≤ _
      omega
    · rw [C.unwrap_wrap] at hh'
      have hcells : xs.map some ++ List.replicate (v.capacity - xs.length) (none : Option α) =
          xs.map some := by
        rw [hlength, Nat.sub_self, List.replicate_zero, List.append_nil]
      rw [hcells] at hh'
      simpa [block] using hh'
  · refine ⟨v, h, if_neg hfull, hv, ?_, Nat.le_max_left _ _, hh⟩
    rw [← hv.size]
    exact Nat.lt_of_not_le hfull

theorem put_spec (hv : v.Lists xs) (hlt : xs.length < v.capacity) (x : α)
    (hh : h.Holds (v.block C xs :: l)) :
    ∃ v' h', v.put C x h = some (v', h') ∧ v'.Lists (xs ++ [x]) ∧ v'.capacity = v.capacity ∧
      h'.Holds (v'.block C (xs ++ [x]) :: l) := by
  obtain ⟨h', hstore, hh'⟩ := Heap.Holds.store hh (C.wrap
    ((xs.map some ++ List.replicate (v.capacity - xs.length) none).set v.size (some x)))
  refine ⟨{ v with size := v.size + 1 }, h', ?_, ⟨?_, ?_, hv.pos⟩, rfl, ?_⟩
  · rw [put, cells_of_mem C hh List.mem_cons_self]
    show (if _ then _ else _) = _
    rw [if_pos]
    · show (h.store v.data _ >>= _) = _
      rw [hstore]
      rfl
    · rw [List.length_append, List.length_map, List.length_replicate, hv.size]
      omega
  · rw [List.length_append, List.length_singleton, ← hv.size]
  · rw [List.length_append, List.length_singleton]
    exact hlt
  · have hcells : (xs.map some ++ List.replicate (v.capacity - xs.length) none).set v.size (some x) =
        (xs ++ [x]).map some ++ List.replicate (v.capacity - (xs ++ [x]).length) none := by
      obtain ⟨k, hk⟩ : ∃ k, v.capacity - xs.length = k + 1 := ⟨v.capacity - xs.length - 1, by omega⟩
      have hk' : v.capacity - (xs ++ [x]).length = k := by
        rw [List.length_append, List.length_singleton]
        omega
      rw [hk, hk', List.replicate_succ, hv.size, List.set_append_right _ _ (by simp)]
      simp
    rw [hcells] at hh'
    exact hh'

/-- One push. -/
theorem push_spec (hv : v.Lists xs) (x : α) (hh : h.Holds (v.block C xs :: l)) :
    ∃ v' h', v.push C x h = some (v', h') ∧ v'.Lists (xs ++ [x]) ∧
      v'.capacity ≤ max v.capacity (2 * xs.length) ∧ h'.Holds (v'.block C (xs ++ [x]) :: l) := by
  obtain ⟨v₁, h₁, hreserve, hv₁, hlt, hcapacity, hh₁⟩ := reserve_spec C hv hh
  obtain ⟨v₂, h₂, hput, hv₂, hsame, hh₂⟩ := put_spec C hv₁ hlt x hh₁
  refine ⟨v₂, h₂, ?_, hv₂, hsame ▸ hcapacity, hh₂⟩
  rw [push, hreserve]
  exact hput

/-- Pushes one after the other.  The block has less than twice the cells it needs, if it had
to grow. -/
theorem pushAll_spec (hv : v.Lists xs) (ys : List α) (hh : h.Holds (v.block C xs :: l)) :
    ∃ v' h', v.pushAll C ys h = some (v', h') ∧ v'.Lists (xs ++ ys) ∧
      v'.capacity ≤ max v.capacity (2 * (xs ++ ys).length) ∧
      h'.Holds (v'.block C (xs ++ ys) :: l) := by
  induction ys generalizing v h xs with
  | nil =>
      rw [List.append_nil]
      exact ⟨v, h, rfl, hv, Nat.le_max_left _ _, hh⟩
  | cons y ys ih =>
      obtain ⟨v₁, h₁, hpush, hv₁, hcapacity₁, hh₁⟩ := push_spec C hv y hh
      obtain ⟨v₂, h₂, hrest, hv₂, hcapacity₂, hh₂⟩ := ih hv₁ hh₁
      rw [List.append_assoc, List.singleton_append] at hv₂ hcapacity₂ hh₂
      refine ⟨v₂, h₂, ?_, hv₂, ?_, hh₂⟩
      · rw [pushAll, List.foldlM_cons]
        show (v.push C y h >>= _) = _
        rw [hpush]
        exact hrest
      · rw [List.length_append, List.length_cons] at hcapacity₂ ⊢
        omega

/-- A cell reads as its element; one that is unset, or outside, has none. -/
theorem get_spec (i : Nat) (hh : h.Holds l) (hmem : v.block C xs ∈ l) : v.get C i h = xs[i]? := by
  rw [get, cells_of_mem C hh hmem]
  show ((xs.map some ++ _)[i]?).join = _
  by_cases hi : i < xs.length
  · rw [List.getElem?_append_left (by rw [List.length_map]; exact hi), List.getElem?_map]
    cases xs[i]? <;> rfl
  · have hle : xs.length ≤ i := Nat.le_of_not_lt hi
    rw [List.getElem?_append_right (by rw [List.length_map]; exact hle), List.getElem?_replicate,
      List.getElem?_eq_none hle]
    split <;> rfl

end GrowVec
