import Mathlib.Data.List.Nodup
import Wzp.Lib.Runs

/-!
# A mailbox for one letter

A letter that is put in replaces the one that waits. Letters are numbered as they are put in.
-/
namespace Mailbox
open Runs

/-- How many letters have been put in, whether the last one waits, and those taken out. -/
structure State where
  put : ℕ
  waits : Bool
  taken : List ℕ

inductive Event where
  | put
  | take
  | other
  deriving DecidableEq

def step (s : State) : Event → State
  | .put => { s with put := s.put + 1, waits := true }
  | .take => if s.waits then { s with waits := false, taken := s.taken ++ [s.put - 1] } else s
  | .other => s

structure Inv (s : State) : Prop where
  lt : ∀ n ∈ s.taken, n < s.put
  nodup : s.taken.Nodup
  fresh : s.waits = true → 0 < s.put ∧ s.put - 1 ∉ s.taken

variable {s : State} {e : Event} {mid later : List Event} {n : ℕ}

theorem inv_step (h : Inv s) (e : Event) : Inv (step s e) := by
  cases e with
  | put =>
      refine ⟨fun n hn => Nat.lt_succ_of_lt (h.lt n hn), h.nodup, fun _ => ?_⟩
      exact ⟨Nat.succ_pos _, fun hmem => Nat.lt_irrefl _ (h.lt _ hmem)⟩
  | take =>
      rw [step]
      split
      · next hwaits =>
          obtain ⟨hpos, hnew⟩ := h.fresh hwaits
          refine ⟨fun n hn => ?_, ?_, fun hnot => absurd hnot Bool.false_ne_true⟩
          · rcases List.mem_append.mp hn with hold | hlast
            · exact h.lt n hold
            · rw [List.mem_singleton.mp hlast]
              exact Nat.sub_lt hpos Nat.one_pos
          · rw [← List.concat_eq_append]
            exact h.nodup.concat hnew
      · exact h
  | other => exact h

/-- A letter is taken, or it waits and is the last one. -/
def Kept (n : ℕ) (s : State) : Prop := n ∈ s.taken ∨ s.waits = true ∧ s.put = n + 1

theorem taken_step (h : n ∈ s.taken) (e : Event) : n ∈ (step s e).taken := by
  cases e with
  | put => exact h
  | take =>
      rw [step]
      split
      · exact List.mem_append_left _ h
      · exact h
  | other => exact h

theorem taken_run (h : n ∈ s.taken) (es : List Event) : n ∈ (run step s es).taken := by
  induction es generalizing s with
  | nil => exact h
  | cons e es ih => exact ih (taken_step h e)

theorem taken_of_take (h : Kept n s) : n ∈ (step s .take).taken := by
  rcases h with htaken | ⟨hwaits, hput⟩
  · exact taken_step htaken .take
  · rw [step, if_pos hwaits, hput]
    exact List.mem_append_right _ (List.mem_singleton_self n)

theorem kept_run (h : Kept n s) (hmid : .put ∉ mid) : Kept n (run step s mid) := by
  induction mid generalizing s with
  | nil => exact h
  | cons e es ih =>
      obtain ⟨hput, hrest⟩ := not_or.mp (mt List.mem_cons.mpr hmid)
      refine ih ?_ hrest
      cases e with
      | put => exact absurd rfl hput
      | take => exact Or.inl (taken_of_take h)
      | other => exact h

/-- A letter is taken out in the end, if someone takes a letter before the next is put in. -/
theorem taken_of_put_take (s : State) (hmid : .put ∉ mid) :
    s.put ∈ (run step s (.put :: (mid ++ .take :: later))).taken := by
  have hkept : Kept s.put (run step (step s .put) mid) := kept_run (Or.inr ⟨rfl, rfl⟩) hmid
  rw [run_cons, run, List.foldl_append, List.foldl_cons]
  exact taken_run (taken_of_take hkept) later

end Mailbox
