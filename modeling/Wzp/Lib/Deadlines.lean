import Mathlib.Data.List.TakeWhile
import Wzp.Lib.Runs

/-!
# Deadlines

A machine puts out values as it runs, at most one at each step. A good one is due within
a number of others if it comes after at most so many, whatever the events are.
-/
namespace Deadlines
open Runs

variable {σ ε α : Type*} (step : σ → ε → σ × Option α) (good : α → Bool)

def outputs : σ → List ε → List α
  | _, [] => []
  | s, e :: es => (step s e).2.toList ++ outputs (step s e).1 es

def reached (s : σ) (es : List ε) : σ := run (fun s e => (step s e).1) s es

def Within (n : ℕ) (s : σ) : Prop :=
  ∀ es, n < (outputs step s es).length → ∃ a ∈ (outputs step s es).take (n + 1), good a = true

variable {step good} {n m : ℕ} {s : σ} {e : ε} {a : α}

theorem outputs_of_none (h : (step s e).2 = none) (es : List ε) :
    outputs step s (e :: es) = outputs step (step s e).1 es := by
  rw [outputs, h]
  rfl

theorem outputs_of_some (h : (step s e).2 = some a) (es : List ε) :
    outputs step s (e :: es) = a :: outputs step (step s e).1 es := by
  rw [outputs, h]
  rfl

theorem reached_append_singleton (s : σ) (es : List ε) (e : ε) :
    reached step s (es ++ [e]) = (step (reached step s es) e).1 := by
  rw [reached, run, List.foldl_append]
  rfl

theorem Within.mono (h : Within step good n s) (hle : n ≤ m) : Within step good m s := by
  intro es hlong
  obtain ⟨a, hmem, hgood⟩ := h es (Nat.lt_of_le_of_lt hle hlong)
  exact ⟨a, (List.take_subset_take_left _ (Nat.succ_le_succ hle)) hmem, hgood⟩

theorem Within.of_none (h : Within step good n s) (hnone : (step s e).2 = none) :
    Within step good n (step s e).1 := by
  intro es
  have hes := h (e :: es)
  rw [outputs_of_none hnone] at hes
  exact hes

/-- A value that is not good uses one of the others up. -/
theorem Within.of_some (h : Within step good n s) (hsome : (step s e).2 = some a) :
    good a = true ∨ ∃ k, n = k + 1 ∧ Within step good k (step s e).1 := by
  by_cases hgood : good a = true
  · exact .inl hgood
  refine .inr ?_
  cases n with
  | zero =>
      obtain ⟨b, hmem, hb⟩ := h [e] (by rw [outputs_of_some hsome]; exact Nat.zero_lt_succ _)
      rw [outputs_of_some hsome] at hmem
      exact absurd (List.mem_singleton.mp hmem ▸ hb) hgood
  | succ k =>
      refine ⟨k, rfl, fun es hlong => ?_⟩
      obtain ⟨b, hmem, hb⟩ := h (e :: es) (by
        rw [outputs_of_some hsome, List.length_cons]
        exact Nat.succ_lt_succ hlong)
      rw [outputs_of_some hsome, List.take_succ_cons] at hmem
      rcases List.mem_cons.mp hmem with rfl | hmem
      · exact absurd hb hgood
      · exact ⟨b, hmem, hb⟩

/-- A rank that no quiet step raises and every value lowers that is not good. -/
theorem within_of_rank (due : ℕ → σ → Prop)
    (hnone : ∀ m s e, due m s → (step s e).2 = none → due m (step s e).1)
    (hsome : ∀ m s e a, due m s → (step s e).2 = some a →
      good a = true ∨ ∃ k, m = k + 1 ∧ due k (step s e).1)
    (h : due n s) : Within step good n s := by
  intro es hlong
  induction es generalizing s n with
  | nil => exact absurd hlong (Nat.not_lt_zero n)
  | cons e es ih =>
      cases hout : (step s e).2 with
      | none =>
          rw [outputs_of_none hout] at hlong ⊢
          exact ih (hnone _ _ _ h hout) hlong
      | some a =>
          rw [outputs_of_some hout] at hlong ⊢
          rw [List.take_succ_cons]
          rcases hsome _ _ _ _ h hout with hgood | ⟨k, rfl, hdue⟩
          · exact ⟨a, List.mem_cons_self, hgood⟩
          · obtain ⟨b, hmem, hb⟩ := ih hdue (Nat.lt_of_succ_lt_succ hlong)
            exact ⟨b, List.mem_cons_of_mem a hmem, hb⟩

/-- So many values come before the first good one. -/
theorem Within.length_takeWhile_le (h : Within step good n s) (es : List ε) :
    ((outputs step s es).takeWhile fun a => !good a).length ≤ n := by
  by_contra hlong
  have hsplit := @List.takeWhile_append_dropWhile _ (fun a => !good a) (outputs step s es)
  obtain ⟨a, hmem, hgood⟩ := h es (Nat.lt_of_lt_of_le (Nat.not_le.mp hlong)
    (List.takeWhile_prefix _).length_le)
  rw [← hsplit, List.take_append_of_le_length (Nat.not_le.mp hlong)] at hmem
  have hbad := List.mem_takeWhile_imp (List.mem_of_mem_take hmem)
  rw [hgood] at hbad
  exact Bool.false_ne_true hbad

end Deadlines
