/-
# `Vertices.Lib.RoundRobin` — entries that take turns in a queue

The entry at the head is served; then it goes to the tail, one stage further, or leaves
after its last stage.

    work_turn      each turn is one unit of work, so a queue is empty after so many turns
    turns_induct   what a turn back preserves, every queue has
    upTo_turn      the order in which a stage is served: those in it, then those behind

The queue does not reorder: entries that start in one stage are served in it, and in every
later stage, in the order in which they stand.
-/
import Mathlib.Data.List.Nodup
import Mathlib.Tactic.Common

namespace RoundRobin

variable {κ : Type*} {last : Nat}

/-- One turn: the head is served. -/
def turn (last : Nat) : List (κ × Nat) → List (κ × Nat)
  | [] => []
  | (k, n) :: rest => if n < last then rest ++ [(k, n + 1)] else rest

theorem turn_of_lt {k : κ} {n : Nat} (h : n < last) (rest : List (κ × Nat)) :
    turn last ((k, n) :: rest) = rest ++ [(k, n + 1)] := if_pos h

theorem turn_of_not_lt {k : κ} {n : Nat} (h : ¬ n < last) (rest : List (κ × Nat)) :
    turn last ((k, n) :: rest) = rest := if_neg h

/-- No entry is past the last stage. -/
def Staged (last : Nat) (q : List (κ × Nat)) : Prop := ∀ e ∈ q, e.2 ≤ last

theorem Staged.turn {q : List (κ × Nat)} (h : Staged last q) : Staged last (turn last q) := by
  match q, h with
  | [], h => exact h
  | (k, n) :: rest, h =>
      have hrest : Staged last rest := fun e he => h e (List.mem_cons_of_mem _ he)
      by_cases hn : n < last
      · rw [turn_of_lt hn]
        intro e he
        rcases List.mem_append.mp he with he | he
        · exact hrest e he
        · rw [List.mem_singleton.mp he]
          exact hn
      · rw [turn_of_not_lt hn]
        exact hrest

/-- No key is in the queue twice, and none gets in. -/
theorem nodup_turn {q : List (κ × Nat)} (h : (q.map Prod.fst).Nodup) :
    ((turn last q).map Prod.fst).Nodup := by
  match q, h with
  | [], h => exact h
  | (k, n) :: rest, h =>
      by_cases hn : n < last
      · rw [turn_of_lt hn, List.map_append]
        exact List.nodup_append_comm.mp h
      · rw [turn_of_not_lt hn]
        exact (List.nodup_cons.mp h).2

theorem mem_turn {e : κ × Nat} {k : κ} {n : Nat} {rest : List (κ × Nat)}
    (h : e ∈ turn last ((k, n) :: rest)) : e ∈ rest ∨ (n < last ∧ e = (k, n + 1)) := by
  by_cases hn : n < last
  · rw [turn_of_lt hn] at h
    exact (List.mem_append.mp h).imp id fun he => ⟨hn, List.mem_singleton.mp he⟩
  · rw [turn_of_not_lt hn] at h
    exact .inl h

theorem length_turn_le (last : Nat) (q : List (κ × Nat)) : (turn last q).length ≤ q.length := by
  match q with
  | [] => exact Nat.le_refl 0
  | (k, n) :: rest =>
      by_cases hn : n < last
      · rw [turn_of_lt hn]
        simp
      · rw [turn_of_not_lt hn]
        simp

/-! ## How much there is to do -/

/-- The number of turns until the queue is empty. -/
def work (last : Nat) : List (κ × Nat) → Nat
  | [] => 0
  | (_, n) :: rest => last + 1 - n + work last rest

theorem work_cons (k : κ) (n : Nat) (rest : List (κ × Nat)) :
    work last ((k, n) :: rest) = last + 1 - n + work last rest := rfl

theorem work_append (q q' : List (κ × Nat)) :
    work last (q ++ q') = work last q + work last q' := by
  induction q with
  | nil => exact (Nat.zero_add _).symm
  | cons e q ih =>
      obtain ⟨k, n⟩ := e
      rw [List.cons_append, work_cons, work_cons, ih, Nat.add_assoc]

/-- A turn does one unit of the work. -/
theorem work_turn {k : κ} {n : Nat} (hn : n ≤ last) (rest : List (κ × Nat)) :
    work last (turn last ((k, n) :: rest)) + 1 = work last ((k, n) :: rest) := by
  rw [work_cons]
  by_cases h : n < last
  · rw [turn_of_lt h, work_append, work_cons]
    have : work last ([] : List (κ × Nat)) = 0 := rfl
    omega
  · rw [turn_of_not_lt h]
    omega

/-- What holds of the empty queue, and of a queue if it holds after its turn, holds of
every queue. -/
theorem turns_induct {P : List (κ × Nat) → Prop} (hnil : P [])
    (hturn : ∀ k n rest, n ≤ last → P (turn last ((k, n) :: rest)) → P ((k, n) :: rest))
    {q : List (κ × Nat)} (hq : Staged last q) : P q := by
  induction hw : work last q generalizing q with
  | zero =>
      match q, hq with
      | [], _ => exact hnil
      | (k, n) :: rest, hq =>
          have hn := hq (k, n) List.mem_cons_self
          rw [← work_turn hn] at hw
          exact nomatch hw
  | succ w ih =>
      match q, hq with
      | [], _ => exact hnil
      | (k, n) :: rest, hq =>
          have hn := hq (k, n) List.mem_cons_self
          rw [← work_turn hn] at hw
          exact hturn k n rest hn (ih hq.turn (Nat.succ.inj hw))

/-! ## The order in which a stage is served -/

/-- The keys in stage `n`. -/
def inStage (n : Nat) : List (κ × Nat) → List κ
  | [] => []
  | (k, m) :: rest => if m = n then k :: inStage n rest else inStage n rest

/-- The keys that are still to be served in stage `n`: those in it, then those in the
stages before, the last of these first. -/
def upTo : Nat → List (κ × Nat) → List κ
  | 0, q => inStage 0 q
  | n + 1, q => inStage (n + 1) q ++ upTo n q

theorem inStage_append (n : Nat) (q q' : List (κ × Nat)) :
    inStage n (q ++ q') = inStage n q ++ inStage n q' := by
  induction q with
  | nil => rfl
  | cons e q ih =>
      obtain ⟨k, m⟩ := e
      simp only [List.cons_append, inStage, ih]
      split <;> rfl

theorem inStage_single (n m : Nat) (k : κ) : inStage n [(k, m)] = if m = n then [k] else [] := rfl

/-- An entry past the stage is not served in it any more. -/
theorem upTo_cons_of_lt {n m : Nat} (h : n < m) (k : κ) (rest : List (κ × Nat)) :
    upTo n ((k, m) :: rest) = upTo n rest := by
  induction n with
  | zero => exact if_neg (by omega)
  | succ n ih =>
      rw [upTo, upTo, ih (by omega), inStage, if_neg (by omega)]

theorem upTo_snoc_of_lt {n m : Nat} (h : n < m) (k : κ) (rest : List (κ × Nat)) :
    upTo n (rest ++ [(k, m)]) = upTo n rest := by
  induction n with
  | zero => rw [upTo, upTo, inStage_append, inStage_single, if_neg (by omega), List.append_nil]
  | succ n ih =>
      rw [upTo, upTo, ih (by omega), inStage_append, inStage_single, if_neg (by omega),
        List.append_nil]

/-- An entry at the head of its stage is the first of those that come from there. -/
theorem upTo_rotate {n m : Nat} (h : m < n) (k : κ) (rest : List (κ × Nat)) :
    upTo n (rest ++ [(k, m + 1)]) = upTo n ((k, m) :: rest) := by
  induction n with
  | zero => exact nomatch h
  | succ n ih =>
      rw [upTo, upTo, inStage_append, inStage_single, inStage, if_neg (by omega : m ≠ n + 1)]
      by_cases hm : m = n
      · subst hm
        rw [if_pos rfl, upTo_snoc_of_lt (Nat.lt_succ_self m), List.append_assoc]
        congr 1
        cases m with
        | zero => rw [upTo, upTo, inStage, if_pos rfl, List.singleton_append]
        | succ m =>
            rw [upTo, upTo, inStage, if_pos rfl, upTo_cons_of_lt (Nat.lt_succ_self m)]
            rfl
      · rw [if_neg (by omega), List.append_nil, ih (by omega)]

/-- A turn serves the head in its stage, and leaves the order to be as it was. -/
theorem upTo_turn {n m : Nat} (hn : n ≤ last) (k : κ) (rest : List (κ × Nat)) :
    upTo n ((k, m) :: rest) =
      (if m = n then [k] else []) ++ upTo n (turn last ((k, m) :: rest)) := by
  rcases Nat.lt_trichotomy m n with h | rfl | h
  · rw [if_neg (by omega), List.nil_append, turn_of_lt (by omega), upTo_rotate h]
  · rw [if_pos rfl]
    have hhead : upTo m ((k, m) :: rest) = k :: upTo m rest := by
      cases m with
      | zero => rw [upTo, upTo, inStage, if_pos rfl]
      | succ m =>
          rw [upTo, upTo, inStage, if_pos rfl, upTo_cons_of_lt (Nat.lt_succ_self m)]
          rfl
    rw [hhead]
    by_cases hl : m < last
    · rw [turn_of_lt hl, upTo_snoc_of_lt (Nat.lt_succ_self m)]
      rfl
    · rw [turn_of_not_lt hl]
      rfl
  · rw [if_neg (by omega), List.nil_append, upTo_cons_of_lt h]
    by_cases hl : m < last
    · rw [turn_of_lt hl, upTo_snoc_of_lt (by omega)]
    · rw [turn_of_not_lt hl]

/-- All in stage 0: they are served as they stand. -/
theorem upTo_start (n : Nat) (keys : List κ) : upTo n (keys.map fun k => (k, 0)) = keys := by
  induction n with
  | zero =>
      induction keys with
      | nil => rfl
      | cons k keys ih =>
          rw [List.map_cons, upTo, inStage, if_pos rfl]
          exact congrArg (k :: ·) ih
  | succ n ih =>
      have hnone : inStage (n + 1) (keys.map fun k => (k, 0)) = [] := by
        clear ih
        induction keys with
        | nil => rfl
        | cons k keys ih =>
            rw [List.map_cons, inStage, if_neg (by omega)]
            exact ih
      rw [upTo, hnone, ih, List.nil_append]

theorem keys_start (keys : List κ) : (keys.map fun k => (k, 0)).map Prod.fst = keys := by
  rw [List.map_map]
  exact List.map_id keys

theorem work_start (keys : List κ) :
    work last (keys.map fun k => (k, 0)) = (last + 1) * keys.length := by
  induction keys with
  | nil => rfl
  | cons k keys ih =>
      rw [List.map_cons, work_cons, ih, List.length_cons, Nat.mul_succ]
      omega

end RoundRobin
