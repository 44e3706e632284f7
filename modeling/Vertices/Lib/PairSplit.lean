/-
# `Vertices.Lib.PairSplit` — a list cut at every pair of separators

The separator is two elements `x`, `y`, as CR and LF are.  `cut` gives the pieces between
them, `List.intercalate [x, y]` puts them together again.

    intercalate_cut   nothing is lost
    clean_of_mem_cut  no piece has a separator in it
    cut_append        at a separator a list is cut into what its two sides are cut into

The last needs `x ≠ y`: only then can two separators not overlap.
-/
import Mathlib.Tactic.Common
import Mathlib.Data.List.Infix

namespace PairSplit

variable {α : Type*} [DecidableEq α] {x y : α}

/-- The pieces. -/
def cut (x y : α) : List α → List (List α)
  | [] => [[]]
  | [a] => [[a]]
  | a :: b :: l => if a = x ∧ b = y then [] :: cut x y l else (cut x y (b :: l)).modifyHead (a :: ·)

/-- No separator is in it. -/
def Clean (x y : α) (p : List α) : Prop := ¬ [x, y] <:+: p

theorem cut_pair (l : List α) : cut x y (x :: y :: l) = [] :: cut x y l := by
  rw [cut, if_pos ⟨rfl, rfl⟩]

theorem cut_ne_nil (l : List α) : cut x y l ≠ [] := by
  induction l using cut.induct x y with
  | case1 => simp [cut]
  | case2 a => simp [cut]
  | case3 a b l hab ih => simp [cut, hab]
  | case4 a b l hab ih => simp [cut, hab, ih]

/-- An element that starts no separator goes to the first piece. -/
theorem cut_cons {a : α} {l : List α} (h : ¬ [x, y] <+: a :: l) :
    cut x y (a :: l) = (cut x y l).modifyHead (a :: ·) := by
  cases l with
  | nil => rfl
  | cons b l =>
      rw [cut, if_neg]
      rintro ⟨rfl, rfl⟩
      exact h ⟨l, rfl⟩

theorem exists_cut_eq_cons (l : List α) : ∃ p ps, cut x y l = p :: ps :=
  List.exists_cons_of_ne_nil (cut_ne_nil l)

omit [DecidableEq α] in
theorem intercalate_pair (p q : List α) (ps : List (List α)) :
    [x, y].intercalate (p :: q :: ps) = p ++ x :: y :: [x, y].intercalate (q :: ps) := by
  rw [List.intercalate_cons_cons, List.append_assoc]
  rfl

omit [DecidableEq α] in
theorem intercalate_modifyHead (a : α) (p : List α) (ps : List (List α)) :
    [x, y].intercalate ((p :: ps).modifyHead (a :: ·)) = a :: [x, y].intercalate (p :: ps) := by
  cases ps with
  | nil => simp
  | cons q ps =>
      rw [List.modifyHead_cons, intercalate_pair, intercalate_pair]
      rfl

/-- The pieces, with the separators between them, are the list. -/
theorem intercalate_cut (l : List α) : [x, y].intercalate (cut x y l) = l := by
  induction l using cut.induct x y with
  | case1 => simp [cut]
  | case2 a => simp [cut]
  | case3 a b l hab ih =>
      obtain ⟨rfl, rfl⟩ := hab
      obtain ⟨p, ps, hcut⟩ := exists_cut_eq_cons (x := a) (y := b) l
      rw [hcut] at ih
      rw [cut_pair, hcut, intercalate_pair, ih]
      rfl
  | case4 a b l hab ih =>
      obtain ⟨p, ps, hcut⟩ := exists_cut_eq_cons (x := x) (y := y) (b :: l)
      rw [hcut] at ih
      rw [cut, if_neg hab, hcut, intercalate_modifyHead, ih]

/-- The first piece is where the list starts. -/
theorem prefix_of_cut {l p : List α} {ps : List (List α)} (h : cut x y l = p :: ps) : p <+: l := by
  have hl := intercalate_cut (x := x) (y := y) l
  rw [h] at hl
  cases ps with
  | nil => exact ⟨[], by rw [← hl]; simp⟩
  | cons q ps =>
      rw [intercalate_pair] at hl
      exact ⟨_, hl⟩

theorem clean_of_mem_cut {l p : List α} (h : p ∈ cut x y l) : Clean x y p := by
  induction l using cut.induct x y generalizing p with
  | case1 =>
      rw [cut, List.mem_singleton] at h
      subst h
      simp [Clean]
  | case2 a =>
      rw [cut, List.mem_singleton] at h
      subst h
      intro hin
      exact absurd hin.length_le (by simp)
  | case3 a b l hab ih =>
      rw [cut, if_pos hab, List.mem_cons] at h
      rcases h with rfl | h
      · simp [Clean]
      · exact ih h
  | case4 a b l hab ih =>
      obtain ⟨q, qs, hcut⟩ := exists_cut_eq_cons (x := x) (y := y) (b :: l)
      rw [cut, if_neg hab, hcut, List.modifyHead_cons, List.mem_cons] at h
      rw [hcut] at ih
      rcases h with rfl | h
      · intro hin
        rcases List.infix_cons_iff.mp hin with hpre | hin
        · -- the piece would start with the separator, and so would the list
          rw [List.cons_prefix_cons] at hpre
          obtain ⟨rfl, hpre⟩ := hpre
          have hb := hpre.trans (prefix_of_cut hcut)
          rw [List.cons_prefix_cons] at hb
          exact hab ⟨rfl, hb.1.symm⟩
        · exact ih List.mem_cons_self hin
      · exact ih (List.mem_cons_of_mem _ h)

/-- At a separator the two sides are cut by themselves. -/
theorem cut_append (hne : x ≠ y) (l l' : List α) :
    cut x y (l ++ x :: y :: l') = cut x y l ++ cut x y l' := by
  induction l using cut.induct x y with
  | case1 => exact cut_pair l'
  | case2 a =>
      have hpre : ¬ [x, y] <+: a :: x :: y :: l' := by
        intro hpre
        obtain ⟨-, h⟩ := List.cons_prefix_cons.mp hpre
        exact hne (List.cons_prefix_cons.mp h).1.symm
      rw [List.singleton_append, cut_cons hpre, cut_pair]
      rfl
  | case3 a b l hab ih =>
      obtain ⟨rfl, rfl⟩ := hab
      rw [List.cons_append, List.cons_append, cut_pair, cut_pair, ih]
      rfl
  | case4 a b l hab ih =>
      obtain ⟨p, ps, hcut⟩ := exists_cut_eq_cons (x := x) (y := y) (b :: l)
      rw [List.cons_append] at ih
      rw [List.cons_append, List.cons_append, cut, if_neg hab, ih, cut, if_neg hab, hcut]
      rfl

end PairSplit
