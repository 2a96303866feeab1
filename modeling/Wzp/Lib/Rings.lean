import Mathlib.Data.List.Basic
import Mathlib.Data.Nat.ModEq

/-!
# Circular buffers

A stream is written into the cells of a buffer in turn. The buffer holds the end
of the stream, and a cell never written holds what it was made with.
-/
namespace Rings

variable {α : Type*} {blank x : α} {buf s : List α}

/-- The cell of sample `j` is `j % buf.length`. -/
structure Holds (blank : α) (buf s : List α) : Prop where
  recent : ∀ j < s.length, s.length ≤ j + buf.length → buf[j % buf.length]? = s[j]?
  unwritten : ∀ c, s.length ≤ c → c < buf.length → buf[c]? = some blank

theorem holds_nil (n : ℕ) (blank : α) : Holds blank (List.replicate n blank) [] where
  recent j hj := absurd hj (Nat.not_lt_zero j)
  unwritten c _ hc := by
    rw [List.length_replicate] at hc
    rw [List.getElem?_replicate, if_pos hc]

/-- Two samples fewer than a whole buffer apart are in two cells. -/
theorem mod_ne_of_lt {n i j : ℕ} (hij : i < j) (hj : j < i + n) : i % n ≠ j % n := by
  intro heq
  have hdvd : n ∣ j - i := (Nat.modEq_iff_dvd' hij.le).mp heq
  have hle : n ≤ j - i := Nat.le_of_dvd (Nat.sub_pos_of_lt hij) hdvd
  omega

theorem Holds.push (h : Holds blank buf s) (x : α) :
    Holds blank (buf.set (s.length % buf.length) x) (s ++ [x]) where
  recent j hj hrecent := by
    rw [List.length_append, List.length_singleton] at hj hrecent
    rw [List.length_set] at hrecent ⊢
    rcases Nat.lt_succ_iff_lt_or_eq.mp hj with hold | rfl
    · have hne : s.length % buf.length ≠ j % buf.length :=
        (mod_ne_of_lt hold (by omega)).symm
      rw [List.getElem?_set_ne hne, List.getElem?_append_left hold]
      exact h.recent j hold (by omega)
    · have hcell : s.length % buf.length < buf.length := Nat.mod_lt _ (by omega)
      rw [List.getElem?_set_self hcell, List.getElem?_concat_length]
  unwritten c hc hlt := by
    rw [List.length_append, List.length_singleton] at hc
    rw [List.length_set] at hlt
    have hne : s.length % buf.length ≠ c := by
      rw [Nat.mod_eq_of_lt (by omega)]
      omega
    rw [List.getElem?_set_ne hne]
    exact h.unwritten c (by omega) hlt

/-- A whole block is written sample by sample. -/
def write (buf : List α) : ℕ → List α → List α
  | _, [] => buf
  | w, x :: xs => write (buf.set (w % buf.length) x) (w + 1) xs

@[simp] theorem write_length (w : ℕ) (xs : List α) : (write buf w xs).length = buf.length := by
  induction xs generalizing buf w with
  | nil => rfl
  | cons x xs ih => rw [write, ih, List.length_set]

theorem Holds.write (h : Holds blank buf s) (xs : List α) :
    Holds blank (write buf s.length xs) (s ++ xs) := by
  induction xs generalizing buf s with
  | nil =>
      rw [List.append_nil]
      exact h
  | cons x xs ih =>
      have hnext := ih (h.push x)
      rw [List.length_append, List.length_singleton, List.append_assoc] at hnext
      exact hnext

/-- Only the cell counts, not how often the buffer has been passed. -/
theorem write_mod (buf : List α) (w : ℕ) (xs : List α) : write buf (w % buf.length) xs = write buf w xs := by
  induction xs generalizing buf w with
  | nil => rfl
  | cons x xs ih =>
      have hnext (v : ℕ) : write (buf.set (w % buf.length) x) (v % buf.length) xs =
          write (buf.set (w % buf.length) x) v xs := by
        rw [← ih _ v, List.length_set]
      rw [Rings.write, Rings.write, Nat.mod_mod, ← hnext, Nat.mod_add_mod, hnext]

/-- A write through a pointer, which must stay in the buffer. -/
def store (buf : List α) (i : ℕ) (x : α) : Option (List α) :=
  if i < buf.length then some (buf.set i x) else none

/-! ## Reading -/

/-- The samples in `n` cells from `r` on. -/
def read (buf : List α) : ℕ → ℕ → Option (List α)
  | _, 0 => some []
  | r, n + 1 => buf[r % buf.length]?.bind fun x => (read buf (r + 1) n).map (x :: ·)

theorem read_mod (buf : List α) (r n : ℕ) : read buf (r % buf.length) n = read buf r n := by
  induction n generalizing r with
  | zero => rfl
  | succ n ih =>
      have hnext := ih (r % buf.length + 1)
      rw [Nat.mod_add_mod, ih] at hnext
      rw [Rings.read, Rings.read, Nat.mod_mod, hnext]

/-- What is not overwritten is read as it was written. -/
theorem Holds.read (h : Holds blank buf s) {r n : ℕ} (hr : s.length ≤ r + buf.length)
    (hn : r + n ≤ s.length) : read buf r n = some ((s.drop r).take n) := by
  induction n generalizing r with
  | zero => rw [List.take_zero]; rfl
  | succ n ih =>
      have hlt : r < s.length := by omega
      rw [Rings.read, h.recent r hlt hr, ih (by omega) (by omega), List.getElem?_eq_getElem hlt,
        List.drop_eq_getElem_cons hlt, List.take_succ_cons]
      rfl

/-- The cells from one cursor to another less than a buffer ahead of it. -/
theorem mod_cases {n r w : ℕ} (hle : r ≤ w) (hlt : w < r + n) :
    w % n = r % n + (w - r) ∨ w % n + n = r % n + (w - r) := by
  have hcell : r % n < n := Nat.mod_lt r (by omega)
  have hsum : (r % n + (w - r)) % n = w % n := by
    rw [Nat.mod_add_mod, Nat.add_sub_cancel' hle]
  rcases Nat.lt_or_ge (r % n + (w - r)) n with hsmall | hbig
  · left
    rw [← hsum, Nat.mod_eq_of_lt hsmall]
  · right
    rw [← hsum, Nat.mod_eq_sub_mod hbig, Nat.mod_eq_of_lt (by omega)]
    omega

/-! ## The end of the stream -/

/-- Read backwards from just before `pos`, the buffer is the stream backwards, as far as both go. -/
def EndsAt (buf : List α) (pos : ℕ) (s : List α) : Prop :=
  ∀ d < buf.length, d < s.length →
    buf[(pos + buf.length - 1 - d) % buf.length]? = s[s.length - 1 - d]?

theorem Holds.endsAt (h : Holds blank buf s) : EndsAt buf (s.length % buf.length) s := by
  intro d hbuf hs
  have hcell : (s.length % buf.length + buf.length - 1 - d) % buf.length =
      (s.length - 1 - d) % buf.length := by
    have hsplit := Nat.div_add_mod s.length buf.length
    have hshift : s.length % buf.length + buf.length - 1 - d + buf.length * (s.length / buf.length) =
        s.length - 1 - d + buf.length := by omega
    have hmod := congrArg (· % buf.length) hshift
    simpa only [Nat.add_mul_mod_self_left, Nat.add_mod_right] using hmod
  rw [hcell]
  exact h.recent _ (by omega) (by omega)

end Rings
