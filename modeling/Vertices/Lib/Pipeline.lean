/-
# `Vertices.Lib.Pipeline` — jobs that pass through stages in one shared queue

Each arriving job gets the next ticket and stage 0.  The job at the head of the queue
either moves to the tail, one stage further, or, in the last stage, leaves.  Several
jobs are in the queue at once, in different stages.

    Pipeline.arrive, advance, leave     the three moves; a `Pipeline` carries its invariant
    ticket_of_last                      the job that may leave is the oldest one

So jobs leave in the order in which they have arrived, although they do not wait for
each other.  The invariant (`Job.Before`) is about any two jobs in the queue: of a job
and a younger one behind it, the older is at least as far; of a job and an older one
behind it, the older is further.
-/
import Mathlib.Data.List.Range
import Mathlib.Data.List.Perm.Basic
import Mathlib.Tactic.Common

/-- An entry of the queue. -/
structure Job where
  ticket : Nat
  stage : Nat
  deriving DecidableEq, Repr

/-- The same job, one stage further. -/
def Job.forward (j : Job) : Job := { j with stage := j.stage + 1 }

/-- What holds of a job and one behind it. -/
def Job.Before (a b : Job) : Prop :=
  (a.ticket < b.ticket ∧ b.stage ≤ a.stage) ∨ (b.ticket < a.ticket ∧ a.stage < b.stage)

/-- Behind every job it was in front of, a job one stage further is in order. -/
theorem Job.Before.forward {j a : Job} (h : j.Before a) : a.Before j.forward := by
  rcases h with ⟨ht, hs⟩ | ⟨ht, hs⟩
  · exact .inr ⟨ht, Nat.lt_succ_of_le hs⟩
  · exact .inl ⟨ht, hs⟩

/-- Jobs with the tickets from `first` up to, and without, `next`, in stages up to
`last`. -/
structure Pipeline (last : Nat) where
  first : Nat
  next : Nat
  queue : List Job
  first_le : first ≤ next
  tickets : (queue.map Job.ticket).Perm (List.range' first (next - first))
  stages : ∀ j ∈ queue, j.stage ≤ last
  ordered : queue.Pairwise Job.Before

namespace Pipeline

variable {last : Nat}

/-- Before the first job. -/
def empty (last : Nat) : Pipeline last where
  first := 0
  next := 0
  queue := []
  first_le := Nat.le_refl 0
  tickets := .refl _
  stages _ h := nomatch h
  ordered := .nil

theorem mem_tickets (p : Pipeline last) {t : Nat} :
    t ∈ p.queue.map Job.ticket ↔ p.first ≤ t ∧ t < p.next := by
  have := p.first_le
  rw [p.tickets.mem_iff, List.mem_range'_1]
  omega

theorem ticket_bounds (p : Pipeline last) {j : Job} (hj : j ∈ p.queue) :
    p.first ≤ j.ticket ∧ j.ticket < p.next :=
  p.mem_tickets.mp (List.mem_map_of_mem hj)

theorem length_queue (p : Pipeline last) : p.queue.length = p.next - p.first := by
  have := p.tickets.length_eq
  rwa [List.length_map, List.length_range'] at this

/-- No two entries are of one job. -/
theorem nodup_tickets (p : Pipeline last) : (p.queue.map Job.ticket).Nodup :=
  p.tickets.nodup_iff.mpr List.nodup_range'

/-! ## The three moves -/

/-- A new job goes to the tail. -/
def arrive (p : Pipeline last) : Pipeline last where
  first := p.first
  next := p.next + 1
  queue := p.queue ++ [⟨p.next, 0⟩]
  first_le := Nat.le_succ_of_le p.first_le
  tickets := by
    have := p.first_le
    rw [List.map_append, Nat.sub_add_comm this, List.range'_1_concat,
      Nat.add_sub_cancel' this]
    exact p.tickets.append_right _
  stages j hj := by
    rcases List.mem_append.mp hj with hj | hj
    · exact p.stages j hj
    · rw [List.mem_singleton.mp hj]; exact Nat.zero_le _
  ordered := by
    refine List.pairwise_append.mpr ⟨p.ordered, List.pairwise_singleton _ _, ?_⟩
    intro a ha b hb
    rw [List.mem_singleton.mp hb]
    exact .inl ⟨(p.ticket_bounds ha).2, Nat.zero_le _⟩

/-- The head goes on to its next stage, and to the tail. -/
def advance (p : Pipeline last) {j : Job} {rest : List Job} (h : p.queue = j :: rest)
    (hj : j.stage < last) : Pipeline last where
  first := p.first
  next := p.next
  queue := rest ++ [j.forward]
  first_le := p.first_le
  tickets := by
    refine .trans ?_ p.tickets
    rw [h, List.map_append]
    exact List.perm_append_comm
  stages k hk := by
    rcases List.mem_append.mp hk with hk | hk
    · exact p.stages k (by rw [h]; exact List.mem_cons_of_mem _ hk)
    · rw [List.mem_singleton.mp hk]; exact hj
  ordered := by
    have hord := p.ordered
    rw [h, List.pairwise_cons] at hord
    refine List.pairwise_append.mpr ⟨hord.2, List.pairwise_singleton _ _, ?_⟩
    intro a ha b hb
    rw [List.mem_singleton.mp hb]
    exact (hord.1 a ha).forward

/-- A head in the last stage is the oldest job. -/
theorem ticket_of_last (p : Pipeline last) {j : Job} {rest : List Job} (h : p.queue = j :: rest)
    (hj : j.stage = last) : j.ticket = p.first := by
  have hbounds := p.ticket_bounds (by rw [h]; exact List.mem_cons_self : j ∈ p.queue)
  obtain ⟨k, hk, hfirst⟩ := List.mem_map.mp (p.mem_tickets.mpr ⟨Nat.le_refl _, by omega⟩)
  rw [h] at hk
  rcases List.mem_cons.mp hk with rfl | hk
  · exact hfirst
  · have hord := p.ordered
    rw [h, List.pairwise_cons] at hord
    have hstage := p.stages k (by rw [h]; exact List.mem_cons_of_mem _ hk)
    rcases hord.1 k hk with ⟨hlt, -⟩ | ⟨-, hlt⟩ <;> omega

/-- The head leaves. -/
def leave (p : Pipeline last) {j : Job} {rest : List Job} (h : p.queue = j :: rest)
    (hj : j.stage = last) : Pipeline last where
  first := p.first + 1
  next := p.next
  queue := rest
  first_le := by
    have := p.ticket_bounds (by rw [h]; exact List.mem_cons_self : j ∈ p.queue)
    omega
  tickets := by
    have hbounds := p.ticket_bounds (by rw [h]; exact List.mem_cons_self : j ∈ p.queue)
    have hperm := p.tickets
    rw [h, List.map_cons, p.ticket_of_last h hj,
      show p.next - p.first = (p.next - (p.first + 1)) + 1 by omega, List.range'_succ] at hperm
    exact hperm.cons_inv
  stages k hk := p.stages k (by rw [h]; exact List.mem_cons_of_mem _ hk)
  ordered := by
    have hord := p.ordered
    rw [h, List.pairwise_cons] at hord
    exact hord.2

end Pipeline
