/-
# `Vertices.Lib.Outbox` — letters in slots, stamped and sent

A slot is empty or holds a letter: a body, which stays what it is while the letter is in
the slot, and a mark, which may be replaced.  A letter can be sent any number of times.

    Step                the four acts, and when each is possible
    Run.slot_eq         what a slot holds is told by the acts alone
    contents_eq_some    a letter was put into its slot once, and bears the mark it got last
    sent_eq             what is sent is what the slot holds
    sent_again          a letter that is neither stamped nor dropped is sent the same again
-/
import Vertices.Lib.Transition
import Mathlib.Logic.Function.Basic
import Mathlib.Data.List.Induction

namespace Outbox

open Transition

/-- What a slot holds. -/
structure Letter (β σ : Type*) where
  body : β
  mark : σ

/-- What can be done to the slots `κ`. -/
inductive Act (κ β σ : Type*) where
  | put (k : κ) (body : β)
  | stamp (k : κ) (mark : σ)
  | send (k : κ) (letter : Letter β σ)
  | drop (k : κ)

/-- The slots, each with its letter if it holds one. -/
abbrev Slots (κ β σ : Type*) := κ → Option (Letter β σ)

variable {κ β σ : Type*} [DecidableEq κ] {blank : σ} {k : κ}

/-- A letter is put into an empty slot, with a blank mark.  The other acts are on a letter
that is there; sending leaves it there. -/
inductive Step (blank : σ) : Slots κ β σ → Act κ β σ → Slots κ β σ → Prop
  | put {o : Slots κ β σ} {k : κ} (body : β) (h : o k = none) :
      Step blank o (.put k body) (Function.update o k (some ⟨body, blank⟩))
  | stamp {o : Slots κ β σ} {k : κ} {l : Letter β σ} (mark : σ) (h : o k = some l) :
      Step blank o (.stamp k mark) (Function.update o k (some ⟨l.body, mark⟩))
  | send {o : Slots κ β σ} {k : κ} {l : Letter β σ} (h : o k = some l) :
      Step blank o (.send k l) o
  | drop {o : Slots κ β σ} {k : κ} {l : Letter β σ} (h : o k = some l) :
      Step blank o (.drop k) (Function.update o k none)

/-! ## The acts tell what a slot holds -/

/-- What an act makes of the letter in slot `k`. -/
def Act.after (blank : σ) (k : κ) (l : Option (Letter β σ)) : Act κ β σ → Option (Letter β σ)
  | .put k' body => if k' = k then some ⟨body, blank⟩ else l
  | .stamp k' mark => if k' = k then l.map fun l => ⟨l.body, mark⟩ else l
  | .send _ _ => l
  | .drop k' => if k' = k then none else l

/-- What slot `k` holds after the acts, being empty before them. -/
def contents (blank : σ) (k : κ) (acts : List (Act κ β σ)) : Option (Letter β σ) :=
  acts.foldl (Act.after blank k) none

theorem contents_snoc (acts : List (Act κ β σ)) (a : Act κ β σ) :
    contents blank k (acts ++ [a]) = a.after blank k (contents blank k acts) := by
  rw [contents, List.foldl_append]
  rfl

theorem Step.slot_eq {o o' : Slots κ β σ} {a : Act κ β σ} (h : Step blank o a o') (k : κ) :
    o' k = a.after blank k (o k) := by
  cases h with
  | put body h | drop h =>
      rw [Act.after, Function.update_apply]
      exact if_congr eq_comm rfl rfl
  | @stamp k' l mark h =>
      rw [Act.after]
      split
      · next hk => rw [← hk, Function.update_self, h, Option.map_some]
      · next hk => exact Function.update_of_ne (Ne.symm hk) _ _
  | send h => rfl

theorem Run.slot_eq {o o' : Slots κ β σ} {acts : List (Act κ β σ)}
    (h : Run (Step blank) o acts o') (k : κ) : o' k = acts.foldl (Act.after blank k) (o k) := by
  induction h with
  | nil o => rfl
  | cons hstep _ ih => rw [ih, hstep.slot_eq k, List.foldl_cons]

/-- What is sent is what the slot holds. -/
theorem sent_eq {o o' : Slots κ β σ} {before after : List (Act κ β σ)} {l : Letter β σ}
    (h : Run (Step blank) o (before ++ .send k l :: after) o') :
    before.foldl (Act.after blank k) (o k) = some l := by
  obtain ⟨o₁, hbefore, hafter⟩ := h.of_append
  cases hafter with
  | cons hstep _ =>
      cases hstep with
      | send hl => rw [← hl, Run.slot_eq hbefore k]

/-! ## Where a letter comes from -/

/-- The mark that the acts leave on the letter in slot `k`. -/
def lastStamp (k : κ) (mark : σ) : List (Act κ β σ) → σ
  | [] => mark
  | .stamp k' mark' :: acts => lastStamp k (if k' = k then mark' else mark) acts
  | _ :: acts => lastStamp k mark acts

/-- The act neither fills nor empties slot `k`. -/
def Act.Keeps (k : κ) : Act κ β σ → Prop
  | .put k' _ | .drop k' => k' ≠ k
  | .stamp _ _ | .send _ _ => True

theorem foldl_of_keeps (blank : σ) {acts : List (Act κ β σ)} (h : ∀ a ∈ acts, a.Keeps k) (l : Letter β σ) :
    acts.foldl (Act.after blank k) (some l) = some ⟨l.body, lastStamp k l.mark acts⟩ := by
  induction acts generalizing l with
  | nil => rfl
  | cons a acts ih =>
      rw [List.forall_mem_cons] at h
      obtain ⟨ha, h⟩ := h
      rw [List.foldl_cons]
      cases a with
      | put k' body | drop k' =>
          rw [Act.after, if_neg ha]
          exact ih h l
      | send k' l' => exact ih h l
      | stamp k' mark =>
          rw [Act.after, lastStamp]
          split
          · exact ih h ⟨l.body, mark⟩
          · exact ih h l

/-- A letter was put into its slot, which has been kept since, and bears the mark it got
last. -/
theorem contents_eq_some {acts : List (Act κ β σ)} {l : Letter β σ}
    (h : contents blank k acts = some l) :
    ∃ before after, acts = before ++ .put k l.body :: after ∧ (∀ a ∈ after, a.Keeps k) ∧
      l.mark = lastStamp k blank after := by
  induction acts using List.reverseRecOn generalizing l with
  | nil => exact nomatch h
  | append_singleton acts a ih =>
      have hkept : ∀ l', contents blank k acts = some l' → a.Keeps k →
          ∃ before after, acts ++ [a] = before ++ .put k l'.body :: (after ++ [a]) ∧
            (∀ a' ∈ after ++ [a], a'.Keeps k) ∧
              lastStamp k l'.mark [a] = lastStamp k blank (after ++ [a]) := by
        intro l' hl' ha
        obtain ⟨before, after, rfl, hafter, hmark⟩ := ih hl'
        have hall : ∀ a' ∈ after ++ [a], a'.Keeps k := by
          intro a' ha'
          rcases List.mem_append.mp ha' with ha' | ha'
          · exact hafter a' ha'
          · rw [List.mem_singleton.mp ha']
            exact ha
        refine ⟨before, after, by simp, hall, ?_⟩
        -- both are what the acts behind the `put` leave
        have h₁ := foldl_of_keeps blank hall ⟨l'.body, blank⟩
        have h₂ := foldl_of_keeps blank hafter ⟨l'.body, blank⟩
        have hlast : ∀ a' ∈ [a], a'.Keeps k := by
          intro a' ha'
          rw [List.mem_singleton.mp ha']
          exact ha
        have h₃ := foldl_of_keeps blank hlast l'
        rw [List.foldl_append, h₂, ← hmark] at h₁
        exact congrArg Letter.mark (Option.some.inj (h₃.symm.trans h₁))
      rw [contents_snoc] at h
      cases a with
      | put k' body =>
          rw [Act.after] at h
          split at h
          · next hk =>
              subst hk
              cases h
              refine ⟨acts, [], rfl, ?_, rfl⟩
              intro a ha
              exact nomatch ha
          · next hk =>
              obtain ⟨before, after, hacts, hafter, hmark⟩ := hkept l h hk
              exact ⟨before, _, hacts, hafter, hmark⟩
      | stamp k' mark =>
          rw [Act.after] at h
          split at h
          · next hk =>
              obtain ⟨l', hl', rfl⟩ := Option.map_eq_some_iff.mp h
              obtain ⟨before, after, hacts, hafter, hmark⟩ := hkept l' hl' trivial
              rw [lastStamp, if_pos hk] at hmark
              exact ⟨before, _, hacts, hafter, hmark⟩
          · next hk =>
              obtain ⟨before, after, hacts, hafter, hmark⟩ := hkept l h trivial
              rw [lastStamp, if_neg hk] at hmark
              exact ⟨before, _, hacts, hafter, hmark⟩
      | send k' l' =>
          obtain ⟨before, after, hacts, hafter, hmark⟩ := hkept l h trivial
          exact ⟨before, _, hacts, hafter, hmark⟩
      | drop k' =>
          rw [Act.after] at h
          split at h
          · exact nomatch h
          · next hk =>
              obtain ⟨before, after, hacts, hafter, hmark⟩ := hkept l h hk
              exact ⟨before, _, hacts, hafter, hmark⟩

/-! ## Sending again -/

/-- Of slot `k`, the act is at most another sending. -/
def Act.Leaves (k : κ) : Act κ β σ → Prop
  | .put _ _ | .send _ _ => True
  | .stamp k' _ | .drop k' => k' ≠ k

/-- What is neither stamped nor dropped is sent the same again. -/
theorem sent_again {o o' : Slots κ β σ} {before between after : List (Act κ β σ)} {l l' : Letter β σ}
    (h : Run (Step blank) o (before ++ .send k l :: (between ++ .send k l' :: after)) o')
    (hleaves : ∀ a ∈ between, a.Leaves k) : l' = l := by
  obtain ⟨o₁, -, hrun⟩ := h.of_append
  cases hrun with
  | cons hsend hrun =>
      cases hsend with
      | send hl =>
          obtain ⟨o₂, hbetween, hrun⟩ := hrun.of_append
          have hkept : o₂ k = some l := by
            refine hbetween.preserves (P := fun o => o k = some l) ?_ hleaves hl
            intro o a o' ho ha hstep
            cases hstep with
            | @put k' body hnone =>
                -- the slot is not empty
                have hne : k ≠ k' := fun he => by
                  rw [he, hnone] at ho
                  exact nomatch ho
                exact (Function.update_of_ne hne _ _).trans ho
            | stamp mark _ => exact (Function.update_of_ne (Ne.symm ha) _ _).trans ho
            | send _ => exact ho
            | drop _ => exact (Function.update_of_ne (Ne.symm ha) _ _).trans ho
          cases hrun with
          | cons hsend _ =>
              cases hsend with
              | send hl' => exact Option.some.inj (hl'.symm.trans hkept)

end Outbox
