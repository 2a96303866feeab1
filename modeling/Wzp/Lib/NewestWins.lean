import Mathlib.Data.List.Induction
import Mathlib.Order.MinMax

/-!
# The newest wins

Items arrive in any order, some of them more than once. An item is kept if its
key is above a floor and above the keys of all items before it.
-/
namespace NewestWins

variable {α κ : Type*} [LinearOrder κ] (key : α → κ)

/-- The items that are newer than the floor and all items before them. -/
def records : κ → List α → List α
  | _, [] => []
  | floor, x :: xs => if floor < key x then x :: records (key x) xs else records floor xs

/-- The highest key so far. -/
def highest (floor : κ) (xs : List α) : κ := xs.foldl (fun h x => max h (key x)) floor

variable {key} {floor : κ} {x : α} {xs : List α}

@[simp] theorem highest_cons : highest key floor (x :: xs) = highest key (max floor (key x)) xs :=
  rfl

@[simp] theorem highest_append_singleton :
    highest key floor (xs ++ [x]) = max (highest key floor xs) (key x) :=
  List.foldl_append

theorem floor_le_highest : floor ≤ highest key floor xs := by
  induction xs generalizing floor with
  | nil => exact le_rfl
  | cons x xs ih => exact (le_max_left _ _).trans ih

theorem key_le_highest (hx : x ∈ xs) : key x ≤ highest key floor xs := by
  induction xs generalizing floor with
  | nil => cases hx
  | cons y ys ih =>
      cases hx with
      | head => exact (le_max_right _ _).trans floor_le_highest
      | tail _ hx => exact ih hx

theorem highest_eq_floor_or : highest key floor xs = floor ∨
    ∃ x ∈ xs, key x = highest key floor xs := by
  induction xs generalizing floor with
  | nil => exact Or.inl rfl
  | cons y ys ih =>
      rw [highest_cons]
      cases ih with
      | inl hfloor =>
          rw [hfloor]
          cases max_choice floor (key y) with
          | inl hmax => exact Or.inl hmax
          | inr hmax => exact Or.inr ⟨y, List.mem_cons_self, hmax.symm⟩
      | inr hkey =>
          obtain ⟨x, hx, heq⟩ := hkey
          exact Or.inr ⟨x, List.mem_cons_of_mem y hx, heq⟩

/-- An item is kept exactly if its key is above the highest so far. -/
theorem records_append_singleton : records key floor (xs ++ [x]) =
    records key floor xs ++ if highest key floor xs < key x then [x] else [] := by
  induction xs generalizing floor with
  | nil => rfl
  | cons y ys ih =>
      rw [List.cons_append, records, records, highest_cons]
      by_cases hlt : floor < key y
      · rw [if_pos hlt, if_pos hlt, ih, max_eq_right hlt.le, List.cons_append]
      · rw [if_neg hlt, if_neg hlt, ih, max_eq_left (not_lt.mp hlt)]

theorem floor_lt_of_mem_records (hx : x ∈ records key floor xs) : floor < key x := by
  induction xs generalizing floor with
  | nil => cases hx
  | cons y ys ih =>
      rw [records] at hx
      split at hx
      · rename_i hlt
        cases List.mem_cons.mp hx with
        | inl heq => exact heq ▸ hlt
        | inr hx => exact hlt.trans (ih hx)
      · exact ih hx

/-- What is kept is newer from one item to the next. -/
theorem records_ascending : (records key floor xs).Pairwise fun x y => key x < key y := by
  induction xs generalizing floor with
  | nil => exact List.Pairwise.nil
  | cons y ys ih =>
      rw [records]
      split
      · exact List.pairwise_cons.mpr ⟨fun x hx => floor_lt_of_mem_records hx, ih⟩
      · exact ih

/-- The last item kept carries the highest key. -/
theorem highest_eq_last :
    highest key floor xs = ((records key floor xs).getLast?.map key).getD floor := by
  induction xs using List.reverseRecOn with
  | nil => rfl
  | append_singleton ys y ih =>
      rw [highest_append_singleton, records_append_singleton]
      split
      · rename_i hlt
        rw [List.getLast?_append, max_eq_right hlt.le]
        rfl
      · rename_i hle
        rw [max_eq_left (not_lt.mp hle), List.append_nil]
        exact ih

end NewestWins
