/-
# `Vertices.Lib.Transition` — runs of a labelled transition relation

A system is a relation `step : σ → ι → σ → Prop`: from state `s`, on input `i`,
to state `t`.  Everything a run may depend on besides the state — the caller's
arguments, the environment's answers — is in the input, so a theorem about every
run is a theorem about every interleaving.

    Run.append       runs compose, and come apart where their inputs do
    Run.invariant    what each step preserves, each run preserves
    Run.preserves_at what the steps with `ok` preserve, runs of such steps preserve
    Run.always_iff   what exactly the steps with `ok` preserve holds in every state on
                     the way exactly of the runs whose inputs are all `ok`
    Run.always_iff_at  the same for an `ok` that looks at the state as well
    Run.ok_at        where a step has one outcome, a run of steps with `ok` says where
                     every run of its inputs has to meet `ok`
    Run.simulate     a system that matches each step matches each run
    guard            the same system, its steps restricted by a condition
-/
import Mathlib.Tactic.Common

namespace Transition

variable {σ ι : Type*} {step : σ → ι → σ → Prop}

/-- `Run step s is t`: the inputs `is`, taken one after the other, lead from `s` to `t`. -/
inductive Run (step : σ → ι → σ → Prop) : σ → List ι → σ → Prop
  | nil (s : σ) : Run step s [] s
  | cons {s t u : σ} {i : ι} {is : List ι} :
      step s i t → Run step t is u → Run step s (i :: is) u

/-- The steps of `step` that start where `ok` holds of the state and the input. -/
def guard (ok : σ → ι → Prop) (step : σ → ι → σ → Prop) (s : σ) (i : ι) (t : σ) : Prop :=
  ok s i ∧ step s i t

theorem Run.single {s t : σ} {i : ι} (h : step s i t) : Run step s [i] t :=
  .cons h (.nil t)

theorem Run.append {s t u : σ} {is js : List ι} (h : Run step s is t) (h' : Run step t js u) :
    Run step s (is ++ js) u := by
  induction h with
  | nil s => exact h'
  | cons hst _ ih => exact .cons hst (ih h')

theorem Run.of_append {s u : σ} {is js : List ι} (h : Run step s (is ++ js) u) :
    ∃ t, Run step s is t ∧ Run step t js u := by
  induction is generalizing s with
  | nil => exact ⟨s, .nil s, h⟩
  | cons i is ih =>
      cases h with
      | cons hst h =>
          obtain ⟨t, ht, hu⟩ := ih h
          exact ⟨t, .cons hst ht, hu⟩

theorem Run.invariant {P : σ → Prop} (hP : ∀ {s i t}, P s → step s i t → P t) :
    ∀ {s is t}, Run step s is t → P s → P t := by
  intro s is t h
  induction h with
  | nil s => exact id
  | cons hst _ ih => exact fun hs => ih (hP hs hst)

theorem Run.simulate {τ : Type*} {step' : τ → ι → τ → Prop} (rel : σ → τ → Prop)
    (hsim : ∀ s i s' t, rel s t → step s i s' → ∃ t', step' t i t' ∧ rel s' t') {s s' : σ}
    {is : List ι} (h : Run step s is s') :
    ∀ {t}, rel s t → ∃ t', Run step' t is t' ∧ rel s' t' := by
  induction h with
  | nil s => exact fun hrel => ⟨_, .nil _, hrel⟩
  | cons hstep _ ih =>
      intro t hrel
      obtain ⟨u, hu, hrel⟩ := hsim _ _ _ _ hrel hstep
      obtain ⟨v, hv, hrel⟩ := ih hrel
      exact ⟨v, .cons hu hv, hrel⟩

theorem Run.preserves {P : σ → Prop} {ok : ι → Prop}
    (hP : ∀ s i t, P s → ok i → step s i t → P t) {s t : σ} {is : List ι} (h : Run step s is t) :
    (∀ i ∈ is, ok i) → P s → P t := by
  induction h with
  | nil s => exact fun _ => id
  | cons hst _ ih =>
      intro hok hs
      rw [List.forall_mem_cons] at hok
      exact ih hok.2 (hP _ _ _ hs hok.1 hst)

/-- The same for an `ok` that looks at the state as well. -/
theorem Run.preserves_at {P : σ → Prop} {ok : σ → ι → Prop}
    (hP : ∀ s i t, P s → ok s i → step s i t → P t) {s t : σ} {is : List ι} (h : Run step s is t) :
    (∀ before i after u v, is = before ++ i :: after → Run step s before u → step u i v → ok u i) →
      P s → P t := by
  induction h with
  | nil s => exact fun _ => id
  | @cons s v t i is hstep _ ih =>
      intro hok hs
      refine ih ?_ (hP _ _ _ hs (hok [] i is s v rfl (.nil s) hstep) hstep)
      intro before j after w x his hw hwx
      refine hok (i :: before) j after w x ?_ (.cons hstep hw) hwx
      rw [List.cons_append, his]

theorem Run.ok_at {ok : σ → ι → Prop}
    (hdet : ∀ s i t t', step s i t → step s i t' → t = t') {s t : σ} {is : List ι}
    (h : Run (guard ok step) s is t) :
    ∀ before i after u, is = before ++ i :: after → Run step s before u → ok u i := by
  induction h with
  | nil s => exact fun before i after u his => absurd his.symm (by simp)
  | cons hstep _ ih =>
      intro before j after u his hu
      cases hu with
      | nil _ =>
          obtain ⟨rfl, -⟩ := List.cons.inj his
          exact hstep.1
      | cons hstep' hu =>
          obtain ⟨rfl, hrest⟩ := List.cons.inj his
          obtain rfl := hdet _ _ _ _ hstep.2 hstep'
          exact ih _ j after u hrest hu

theorem Run.always_iff {P : σ → Prop} {ok : ι → Prop}
    (hP : ∀ s i t, P s → step s i t → (P t ↔ ok i)) {s t : σ} {is : List ι}
    (hrun : Run step s is t) (hs : P s) :
    (∀ before after u, is = before ++ after → Run step s before u → P u) ↔ ∀ i ∈ is, ok i := by
  constructor
  · intro h i hi
    obtain ⟨before, after, rfl⟩ := List.append_of_mem hi
    obtain ⟨u, hu, hrest⟩ := hrun.of_append
    cases hrest with
    | @cons _ v _ _ _ hstep _ =>
        have hPu : P u := h before (i :: after) u rfl hu
        have hPv : P v := by
          refine h (before ++ [i]) after v ?_ (hu.append (.single hstep))
          rw [List.append_assoc, List.singleton_append]
        exact (hP u i v hPu hstep).mp hPv
  · rintro hok before after u rfl hu
    refine Run.preserves (fun s i t hs hi hst => (hP s i t hs hst).mpr hi) hu ?_ hs
    exact fun i hi => hok i (List.mem_append_left _ hi)

theorem Run.always_iff_at {P : σ → Prop} {ok : σ → ι → Prop} (is : List ι)
    (hP : ∀ s i t, P s → step s i t → (P t ↔ ok s i)) {s : σ} (hs : P s) :
    (∀ before after u, is = before ++ after → Run step s before u → P u) ↔
      ∀ before i after u v, is = before ++ i :: after → Run step s before u → step u i v →
        ok u i := by
  constructor
  · intro h before i after u v his hu hstep
    have hPu : P u := h before (i :: after) u his hu
    have hPv : P v := by
      refine h (before ++ [i]) after v ?_ (hu.append (.single hstep))
      rw [List.append_assoc, List.singleton_append]
      exact his
    exact (hP u i v hPu hstep).mp hPv
  · intro h before after u his hu
    refine hu.preserves_at (fun s i t hs hi hst => (hP s i t hs hst).mpr hi) ?_ hs
    intro before' j after' w x hsplit hw hwx
    refine h before' j (after' ++ after) w x ?_ hw hwx
    rw [his, hsplit, List.append_assoc, List.cons_append]

end Transition
