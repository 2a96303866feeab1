import Mathlib.Data.List.Basic

/-!
# Sliding windows

A filter over a stream looks at overlapping windows. A stream that comes in blocks has the
windows of the whole when each block is preceded by the end of what came before it.
-/
namespace Windows

variable {α : Type*} {size stride n : ℕ} {s : List α}

/-- The first `n` windows, each `stride` further on than the last. -/
def windows (size stride n : ℕ) (s : List α) : List (List α) :=
  (List.range n).map fun i => (s.drop (i * stride)).take size

@[simp] theorem windows_length : (windows size stride n s).length = n := by
  simp [windows]

/-- The stream reaches the end of the last of `n` windows. -/
def Reaches (size stride n : ℕ) (s : List α) : Prop := size + n * stride ≤ s.length + 1

theorem Reaches.window_le (h : Reaches size stride n s) (hstride : 0 < stride) {i : ℕ} (hi : i < n) :
    i * stride + size ≤ s.length := by
  have hle : (i + 1) * stride ≤ n * stride := Nat.mul_le_mul_right stride hi
  have hreach : size + n * stride ≤ s.length + 1 := h
  rw [Nat.succ_mul] at hle
  omega

theorem windows_append (h : Reaches size stride n s) (hsize : 0 < size) (hstride : 0 < stride)
    (m : ℕ) (t : List α) :
    windows size stride (n + m) (s ++ t) =
      windows size stride n s ++ windows size stride m (s.drop (n * stride) ++ t) := by
  have hreach : size + n * stride ≤ s.length + 1 := h
  unfold windows
  rw [List.range_add, List.map_append, List.map_map]
  congr 1
  · apply List.map_congr_left
    intro i hi
    have hwindow := h.window_le hstride (List.mem_range.mp hi)
    rw [List.drop_append_of_le_length (by omega), List.take_append_of_le_length]
    rw [List.length_drop]
    omega
  · apply List.map_congr_left
    intro i _
    rw [Function.comp_apply, Nat.add_mul, ← List.drop_drop,
      List.drop_append_of_le_length (show n * stride ≤ s.length by omega)]

/-! ## Blocks

Windows that do not overlap cut a stream, up to an end that is shorter than a block. -/

def blocks (size : ℕ) (s : List α) : List (List α) := windows size size (s.length / size) s

def rest (size : ℕ) (s : List α) : List α := s.drop (s.length / size * size)

theorem rest_length (size : ℕ) (s : List α) : (rest size s).length = s.length % size := by
  rw [rest, List.length_drop, Nat.mod_eq_sub_div_mul]

theorem blocks_of_lt (h : s.length < size) : blocks size s = [] ∧ rest size s = s := by
  have hzero : s.length / size = 0 := Nat.div_eq_of_lt h
  constructor
  · simp [blocks, windows, hzero]
  · simp [rest, hzero]

/-- The first block, and the rest of the stream on its own. -/
theorem blocks_of_le (hsize : 0 < size) (h : size ≤ s.length) :
    blocks size s = s.take size :: blocks size (s.drop size) ∧
      rest size s = rest size (s.drop size) := by
  have hdiv : s.length / size = (s.drop size).length / size + 1 := by
    rw [List.length_drop, ← Nat.add_div_right _ hsize, Nat.sub_add_cancel h]
  constructor
  · simp only [blocks, windows, hdiv, List.range_succ_eq_map, List.map_cons, List.map_map,
      Nat.zero_mul, List.drop_zero]
    congr 1
    apply List.map_congr_left
    intro i _
    rw [Function.comp_apply, Nat.succ_mul, Nat.add_comm, ← List.drop_drop]
  · rw [rest, rest, hdiv, Nat.succ_mul, Nat.add_comm, ← List.drop_drop]

/-- A stream that comes in two parts has the blocks of the whole. -/
theorem blocks_append (hsize : 0 < size) (s t : List α) :
    blocks size (s ++ t) = blocks size s ++ blocks size (rest size s ++ t) ∧
      rest size (s ++ t) = rest size (rest size s ++ t) := by
  induction hn : s.length using Nat.strongRecOn generalizing s with
  | ind n ih =>
      subst hn
      by_cases h : s.length < size
      · obtain ⟨hblocks, hrest⟩ := blocks_of_lt h
        rw [hblocks, hrest]
        exact ⟨rfl, rfl⟩
      · have hle := Nat.le_of_not_lt h
        have hlonger : size ≤ (s ++ t).length := by
          rw [List.length_append]
          exact Nat.le_trans hle (Nat.le_add_right _ _)
        have hshorter : (s.drop size).length < s.length := by
          rw [List.length_drop]
          exact Nat.sub_lt (Nat.lt_of_lt_of_le hsize hle) hsize
        obtain ⟨hblocks, hrest⟩ := blocks_of_le hsize hle
        obtain ⟨hblocks', hrest'⟩ := blocks_of_le hsize hlonger
        obtain ⟨hmore, hend⟩ := ih _ hshorter (s.drop size) rfl
        rw [List.drop_append_of_le_length hle] at hblocks' hrest'
        rw [hblocks', hrest', hblocks, hrest, List.take_append_of_le_length hle, hmore, hend]
        exact ⟨rfl, rfl⟩

end Windows
