import Mathlib.Data.List.Basic
import Mathlib.Data.List.Count

/-!
# Round robin

Several lists are merged by turns: the first element of each list, then the second of each,
and so on. A list that has ended misses its turn.
-/
namespace RoundRobin
variable {α : Type*}

/-- What the lists have at a slot. -/
def turn (lists : List (List α)) (slot : ℕ) : List α := lists.filterMap fun l => l[slot]?

def turns (n : ℕ) (lists : List (List α)) : List α := (List.range n).flatMap (turn lists)

variable {p : α → Bool} {k d n slot : ℕ} {l own : List α} {x : α}
  {lists before after : List (List α)}

@[simp] theorem turn_nil : turn ([] : List (List α)) slot = [] := rfl

theorem turn_tails : turn (lists.map List.tail) slot = turn lists (slot + 1) := by
  rw [turn, turn, List.filterMap_map]
  apply List.filterMap_congr
  intro l _
  simp

/-- The first turn, and then the turns of what is left of the lists. -/
theorem turns_succ : turns (n + 1) lists = turn lists 0 ++ turns n (lists.map List.tail) := by
  rw [turns, turns, List.range_succ_eq_map, List.flatMap_cons, List.flatMap_map]
  congr 1
  apply List.flatMap_congr
  intro slot _
  exact turn_tails.symm

theorem mem_turn (h : x ∈ turn lists slot) : ∃ l ∈ lists, x ∈ l := by
  obtain ⟨l, hl, hx⟩ := List.mem_filterMap.mp h
  exact ⟨l, hl, List.mem_of_getElem? hx⟩

theorem turn_length_le : (turn lists slot).length ≤ lists.length := List.length_filterMap_le _ _

/-- Nobody misses a turn that each of the lists has an element for. -/
theorem turn_length_eq_iff :
    (turn lists slot).length = lists.length ↔ ∀ l ∈ lists, slot < l.length := by
  induction lists with
  | nil => simp
  | cons l lists ih =>
      have hle : (turn lists slot).length ≤ lists.length := turn_length_le
      by_cases hl : slot < l.length
      · have hcons : turn (l :: lists) slot = l[slot] :: turn lists slot := by simp [turn, hl]
        simp [hcons, hl, ih]
      · have hcons : turn (l :: lists) slot = turn lists slot := by
          simp [turn, List.getElem?_eq_none (Nat.not_lt.mp hl)]
        rw [hcons, List.length_cons]
        constructor
        · intro heq
          omega
        · intro hall
          exact absurd (hall l List.mem_cons_self) hl

/-! ## One of the lists -/

/-- The marked elements are those of one list. -/
structure Marks (p : α → Bool) (before : List (List α)) (own : List α)
    (after : List (List α)) : Prop where
  own : ∀ x ∈ own, p x = true
  before : ∀ l ∈ before, ∀ x ∈ l, p x = false
  after : ∀ l ∈ after, ∀ x ∈ l, p x = false

theorem Marks.tails (h : Marks p before own after) :
    Marks p (before.map List.tail) own.tail (after.map List.tail) := by
  constructor
  · intro x hx
    exact h.own x (List.mem_of_mem_tail hx)
  · intro l hl x hx
    obtain ⟨m, hm, rfl⟩ := List.mem_map.mp hl
    exact h.before m hm x (List.mem_of_mem_tail hx)
  · intro l hl x hx
    obtain ⟨m, hm, rfl⟩ := List.mem_map.mp hl
    exact h.after m hm x (List.mem_of_mem_tail hx)

theorem Marks.unmarked_before (h : Marks p before own after) :
    ∀ x ∈ turn before slot, p x = false := by
  intro x hx
  obtain ⟨l, hl, hmem⟩ := mem_turn hx
  exact h.before l hl x hmem

theorem Marks.unmarked_after (h : Marks p before own after) :
    ∀ x ∈ turn after slot, p x = false := by
  intro x hx
  obtain ⟨l, hl, hmem⟩ := mem_turn hx
  exact h.after l hl x hmem

/-- The turns of a marked list with one more element. -/
theorem turns_cons : turns (n + 1) (before ++ (x :: own) :: after) =
    turn before 0 ++ x :: (turn after 0 ++
      turns n (before.map List.tail ++ own :: after.map List.tail)) := by
  simp [turns_succ, turn]

theorem turns_cons_nil : turns (n + 1) (before ++ [] :: after) =
    turn before 0 ++ (turn after 0 ++ turns n (before.map List.tail ++ [] :: after.map List.tail)) := by
  simp [turns_succ, turn]

/-- No list loses an element or changes its order. -/
theorem filter_turns (h : Marks p before own after) (hn : own.length ≤ n) :
    (turns n (before ++ own :: after)).filter p = own := by
  induction n generalizing before own after with
  | zero =>
      obtain rfl := List.eq_nil_of_length_eq_zero (Nat.le_zero.mp hn)
      simp [turns]
  | succ n ih =>
      have hbefore : (turn before 0).filter p = [] := by simpa using h.unmarked_before
      have hafter : (turn after 0).filter p = [] := by simpa using h.unmarked_after
      cases own with
      | nil =>
          have hrest := ih h.tails (Nat.zero_le n)
          simp only [List.tail_nil] at hrest
          simp [turns_cons_nil, hbefore, hafter, hrest]
      | cons x own =>
          have hrest := ih h.tails (Nat.le_of_succ_le_succ hn)
          simp only [List.tail_cons] at hrest
          simp [turns_cons, h.own x List.mem_cons_self, hbefore, hafter, hrest]

/-! ## How far apart -/

/-- Marked elements stand at least `k` places apart, and the first `d` are not marked. -/
def Spaced (p : α → Bool) (k : ℕ) : ℕ → List α → Prop
  | _, [] => True
  | d, x :: l => if p x then d = 0 ∧ Spaced p k (k - 1) l else Spaced p k (d - 1) l

theorem spaced_cons (hx : p x = true) :
    Spaced p k d (x :: l) ↔ d = 0 ∧ Spaced p k (k - 1) l := by
  simp [Spaced, hx]

theorem spaced_unmarked_append {pre : List α} (h : ∀ x ∈ pre, p x = false) :
    Spaced p k d (pre ++ l) ↔ Spaced p k (d - pre.length) l := by
  induction pre generalizing d with
  | nil => simp
  | cons x pre ih =>
      have hx := h x List.mem_cons_self
      have hpre := ih (d := d - 1) fun y hy => h y (List.mem_cons_of_mem x hy)
      simpa [Spaced, hx, Nat.sub_sub, Nat.add_comm] using hpre

theorem spaced_of_unmarked (h : ∀ x ∈ l, p x = false) : Spaced p k d l := by
  induction l generalizing d with
  | nil => trivial
  | cons x l ih =>
      have hx := h x List.mem_cons_self
      simpa [Spaced, hx] using ih fun y hy => h y (List.mem_cons_of_mem x hy)

theorem Spaced.mono (h : Spaced p k d l) {d' : ℕ} (hd : d' ≤ d) : Spaced p k d' l := by
  induction l generalizing d d' with
  | nil => trivial
  | cons x l ih =>
      by_cases hx : p x = true
      · obtain ⟨hzero, hrest⟩ := (spaced_cons hx).mp h
        exact (spaced_cons hx).mpr ⟨by omega, hrest⟩
      · rw [Spaced, if_neg hx] at h ⊢
        exact ih h (by omega)

theorem Spaced.drop (h : Spaced p k 0 l) (a : ℕ) : Spaced p k 0 (l.drop a) := by
  induction a generalizing l with
  | zero => exact h
  | succ a ih =>
      cases l with
      | nil => trivial
      | cons x l =>
          apply ih
          by_cases hx : p x = true
          · exact ((spaced_cons hx).mp h).2.mono (Nat.zero_le _)
          · rwa [Spaced, if_neg hx] at h

theorem Spaced.countP_take_le (hk : 0 < k) (h : Spaced p k d l) :
    (l.take n).countP p ≤ (n - d + (k - 1)) / k := by
  induction l generalizing d n with
  | nil => simp
  | cons x l ih =>
      cases n with
      | zero => simp
      | succ n =>
          by_cases hx : p x = true
          · obtain ⟨rfl, hrest⟩ := (spaced_cons hx).mp h
            have hle := ih (n := n) hrest
            rw [List.take_succ_cons, List.countP_cons_of_pos hx]
            calc
              _ ≤ (n - (k - 1) + (k - 1)) / k + 1 := Nat.succ_le_succ hle
              _ = (n - (k - 1) + (k - 1) + k) / k := (Nat.add_div_right _ hk).symm
              _ ≤ (n + 1 - 0 + (k - 1)) / k := ?_
            by_cases hn : k - 1 ≤ n
            · apply Nat.div_le_div_right
              omega
            · rw [show n - (k - 1) + (k - 1) + k = k - 1 + k by omega, Nat.add_div_right _ hk,
                Nat.div_eq_of_lt (show k - 1 < k by omega), Nat.le_div_iff_mul_le hk]
              omega
          · rw [Spaced, if_neg hx] at h
            rw [List.take_succ_cons, List.countP_cons_of_neg hx]
            refine Nat.le_trans (ih h) (Nat.div_le_div_right ?_)
            omega

/-- A list in which no window of `k` places has two marks. -/
theorem spaced_of_windows (hd : (l.take d).countP p = 0)
    (h : ∀ a, ((l.drop a).take k).countP p ≤ 1) (hk : 0 < k) : Spaced p k d l := by
  induction l generalizing d with
  | nil => trivial
  | cons x l ih =>
      have htail : ∀ a, ((l.drop a).take k).countP p ≤ 1 := fun a => by simpa using h (a + 1)
      by_cases hx : p x = true
      · refine (spaced_cons hx).mpr ⟨?_, ih ?_ htail⟩
        · cases d with
          | zero => rfl
          | succ d => simp [hx] at hd
        · have hfirst := h 0
          obtain ⟨k, rfl⟩ := Nat.exists_eq_add_one.mpr hk
          simpa [hx] using hfirst
      · rw [Spaced, if_neg hx]
        apply ih _ htail
        cases d with
        | zero => simp
        | succ d => simpa [hx] using hd

/-- Marks are `k` places apart exactly when every window has its share of them at most. -/
theorem spaced_iff_windows (hk : 0 < k) :
    Spaced p k 0 l ↔ ∀ a n, ((l.drop a).take n).countP p ≤ (n + (k - 1)) / k := by
  constructor
  · intro h a n
    exact (h.drop a).countP_take_le hk
  · intro h
    refine spaced_of_windows (by simp) (fun a => ?_) hk
    have hwindow := h a k
    rwa [Nat.add_comm k, Nat.add_div_right _ hk, Nat.div_eq_of_lt (show k - 1 < k by omega)]
      at hwindow

/-! ## The spacing of a list in the turns -/

theorem spaced_turns_iff (h : Marks p before own after) (hn : own.length ≤ n)
    (hk : k = before.length + after.length + 1) :
    Spaced p k d (turns n (before ++ own :: after)) ↔ own = [] ∨ (d ≤ (turn before 0).length ∧
      ∀ slot, slot + 1 < own.length → (turn before (slot + 1)).length = before.length ∧
        (turn after slot).length = after.length) := by
  induction own generalizing before after n d with
  | nil =>
      have hfilter := filter_turns h hn
      simp only [List.filter_eq_nil_iff, Bool.not_eq_true] at hfilter
      simpa using spaced_of_unmarked hfilter
  | cons x own ih =>
      obtain ⟨n, rfl⟩ : ∃ m, n = m + 1 := Nat.exists_eq_add_one.mpr (Nat.lt_of_lt_of_le (by simp) hn)
      have hrest := ih (d := k - 1 - (turn after 0).length) h.tails (Nat.le_of_succ_le_succ hn)
        (by simpa using hk)
      have hbefore : (turn before 1).length ≤ before.length := turn_length_le
      have hafter : (turn after 0).length ≤ after.length := turn_length_le
      simp only [turn_tails, List.length_map] at hrest
      rw [turns_cons, spaced_unmarked_append h.unmarked_before,
        spaced_cons (h.own x List.mem_cons_self), spaced_unmarked_append h.unmarked_after, hrest]
      cases own with
      | nil =>
          simp [Nat.sub_eq_zero_iff_le]
      | cons y own =>
          -- The gap after the first element says that its neighbours are all there.
          have hgap : k - 1 - (turn after 0).length ≤ (turn before 1).length ↔
              (turn before 1).length = before.length ∧ (turn after 0).length = after.length := by
            omega
          simp only [reduceCtorEq, false_or, hgap, Nat.sub_eq_zero_iff_le, Nat.zero_add]
          refine and_congr_right fun _ => ?_
          constructor
          · rintro ⟨hfirst, hnext⟩ slot hslot
            cases slot with
            | zero => exact hfirst
            | succ slot => exact hnext slot (by simpa using hslot)
          · intro hall
            exact ⟨hall 0 (by simp), fun slot hslot => hall (slot + 1) (by simpa using hslot)⟩

/-- The elements of one list come through every burst in their share exactly when no list
before it is shorter and no list after it is shorter by two. -/
theorem burst_iff (h : Marks p before own after) (hn : own.length ≤ n)
    (hk : k = before.length + after.length + 1) :
    (∀ a m, (((turns n (before ++ own :: after)).drop a).take m).countP p ≤ (m + (k - 1)) / k) ↔
      own.length ≤ 1 ∨ ((∀ l ∈ before, own.length ≤ l.length) ∧
        ∀ l ∈ after, own.length ≤ l.length + 1) := by
  rw [← spaced_iff_windows (by omega), spaced_turns_iff h hn hk]
  simp only [turn_length_eq_iff, Nat.zero_le, true_and]
  constructor
  · rintro (rfl | hall)
    · exact Or.inl (Nat.zero_le 1)
    · refine or_iff_not_imp_left.mpr fun hlen => ?_
      have hlast := hall (own.length - 2) (by omega)
      constructor
      · intro l hl
        have hlt := hlast.1 l hl
        omega
      · intro l hl
        have hlt := hlast.2 l hl
        omega
  · rintro (hshort | ⟨hbefore, hafter⟩)
    · refine Or.inr fun slot hslot => ?_
      omega
    · refine Or.inr fun slot hslot => ⟨?_, ?_⟩
      · intro l hl
        have hle := hbefore l hl
        omega
      · intro l hl
        have hle := hafter l hl
        omega

end RoundRobin
