/-
# `Vertices.Lib.Layout` — records as byte strings of a fixed size

A `Layout α ε` stores a value of `α` in a fixed number of bytes.  Not all of these bytes
come from the value: padding and addresses are whatever they are, an `ε`, and reading
looks past them.  So one value has many byte strings, and each of them reads as the value.

    bytes, gap, uint32   a field, bytes of no meaning, a number low byte first
    pair, array          one after the other, and so on for `n` of them
    map                  the same bytes for a type that carries the same data
-/
import Mathlib.Algebra.BigOperators.Group.List.Basic
import Vertices.Lib.ByteOrder

/-- How values of `α` are stored, with `ε` for the bytes that are no part of the value. -/
structure Layout (α ε : Type) where
  size : Nat
  encode : α → ε → List UInt8
  decode : List UInt8 → α
  length_encode (a : α) (e : ε) : (encode a e).length = size
  decode_encode (a : α) (e : ε) : decode (encode a e) = a

namespace Layout

/-- A field of `n` bytes. -/
def bytes (n : Nat) : Layout (Vector UInt8 n) Unit where
  size := n
  encode v _ := v.toList
  decode bs := Vector.ofFn fun i => bs.getD i.val 0
  length_encode v _ := v.length_toList
  decode_encode v _ := by
    ext i hi
    simp

/-- `n` bytes of no meaning. -/
def gap (n : Nat) : Layout Unit (Vector UInt8 n) where
  size := n
  encode _ e := e.toList
  decode _ := ()
  length_encode _ e := e.length_toList
  decode_encode _ _ := rfl

/-- Four bytes, low byte first. -/
def uint32 : Layout UInt32 Unit where
  size := 4
  encode n _ := ByteOrder.leBytes 4 n.toNat
  decode bs := UInt32.ofNat (ByteOrder.leNat bs)
  length_encode _ _ := ByteOrder.length_leBytes _ _
  decode_encode n _ := by
    have hn : n.toNat % 256 ^ 4 = n.toNat := Nat.mod_eq_of_lt n.toNat_lt
    rw [ByteOrder.leNat_leBytes, hn, UInt32.ofNat_toNat]

section

variable {α β ε δ : Type}

/-- The same bytes, read as another type. -/
def map (l : Layout α ε) (f : α → β) (g : β → α) (rest : δ → ε) (hfg : ∀ b, f (g b) = b) :
    Layout β δ where
  size := l.size
  encode b d := l.encode (g b) (rest d)
  decode bs := f (l.decode bs)
  length_encode b d := l.length_encode (g b) (rest d)
  decode_encode b d := by rw [l.decode_encode, hfg]

/-- One record, then another. -/
def pair (l : Layout α ε) (m : Layout β δ) : Layout (α × β) (ε × δ) where
  size := l.size + m.size
  encode x e := l.encode x.1 e.1 ++ m.encode x.2 e.2
  decode bs := (l.decode (bs.take l.size), m.decode (bs.drop l.size))
  length_encode x e := by rw [List.length_append, l.length_encode, m.length_encode]
  decode_encode x e := by
    have hlen := l.length_encode x.1 e.1
    rw [List.take_left' hlen, List.drop_left' hlen, l.decode_encode, m.decode_encode]

/-! ## Arrays -/

theorem length_flatten_of_forall {bss : List (List UInt8)} {w : Nat}
    (h : ∀ bs ∈ bss, bs.length = w) : bss.flatten.length = bss.length * w := by
  induction bss with
  | nil => rw [List.flatten_nil, List.length_nil, List.length_nil, Nat.zero_mul]
  | cons bs bss ih =>
      rw [List.forall_mem_cons] at h
      rw [List.flatten_cons, List.length_append, h.1, ih h.2, List.length_cons, Nat.succ_mul,
        Nat.add_comm]

/-- The record at offset `i * w`. -/
theorem take_drop_flatten {bss : List (List UInt8)} {w : Nat} (h : ∀ bs ∈ bss, bs.length = w) :
    ∀ {i : Nat} (hi : i < bss.length), (bss.flatten.drop (i * w)).take w = bss[i] := by
  induction bss with
  | nil =>
      intro i hi
      exact absurd hi (Nat.not_lt_zero i)
  | cons bs bss ih =>
      rw [List.forall_mem_cons] at h
      intro i hi
      cases i with
      | zero => rw [Nat.zero_mul, List.drop_zero, List.flatten_cons, List.take_left' h.1,
          List.getElem_cons_zero]
      | succ i =>
          rw [List.flatten_cons, Nat.succ_mul, Nat.add_comm, ← List.drop_drop,
            List.drop_left' h.1, ih h.2 (Nat.lt_of_succ_lt_succ hi), List.getElem_cons_succ]

/-- `n` records, one after the other. -/
def array (l : Layout α ε) (n : Nat) : Layout (Vector α n) (Vector ε n) where
  size := n * l.size
  encode v e := ((v.zip e).toList.map fun x => l.encode x.1 x.2).flatten
  decode bs := Vector.ofFn fun i => l.decode ((bs.drop (i.val * l.size)).take l.size)
  length_encode v e := by
    rw [length_flatten_of_forall (w := l.size), List.length_map, Vector.length_toList]
    intro bs hbs
    obtain ⟨x, -, rfl⟩ := List.mem_map.mp hbs
    exact l.length_encode x.1 x.2
  decode_encode v e := by
    have hlen : ∀ bs ∈ (v.zip e).toList.map fun x => l.encode x.1 x.2, bs.length = l.size := by
      intro bs hbs
      obtain ⟨x, -, rfl⟩ := List.mem_map.mp hbs
      exact l.length_encode x.1 x.2
    ext i hi
    have hi' : i < ((v.zip e).toList.map fun x => l.encode x.1 x.2).length := by
      rw [List.length_map, Vector.length_toList]
      exact hi
    rw [Vector.getElem_ofFn, take_drop_flatten hlen hi', List.getElem_map, Vector.getElem_toList,
      Vector.getElem_zip, l.decode_encode]

end

end Layout
