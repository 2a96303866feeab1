import Mathlib.Data.List.Nodup

/-!
# Updating the first match

The first element of a list that satisfies a condition is changed in place.
-/
namespace FirstMatch

variable {α β : Type*} {p : α → Bool} {f : α → α} {R : α → α → Prop} {l : List α} {x y : α}

def update (p : α → Bool) (f : α → α) : List α → List α
  | [] => []
  | x :: xs => if p x then f x :: xs else x :: update p f xs

@[simp] theorem length_update : (update p f l).length = l.length := by
  induction l with
  | nil => rfl
  | cons x xs ih =>
      rw [update]
      split
      · rfl
      · rw [List.length_cons, ih, List.length_cons]

/-- What the change leaves alone, it leaves alone in the whole list. -/
theorem map_update {g : α → β} (hg : ∀ x, g (f x) = g x) : (update p f l).map g = l.map g := by
  induction l with
  | nil => rfl
  | cons x xs ih =>
      rw [update]
      split
      · rw [List.map_cons, hg, List.map_cons]
      · rw [List.map_cons, ih, List.map_cons]

theorem update_eq_self (h : l.find? p = none) : update p f l = l := by
  induction l with
  | nil => rfl
  | cons x xs ih =>
      rw [List.find?_eq_none] at h
      have hx : p x ≠ true := h x List.mem_cons_self
      have hxs : xs.find? p = none :=
        List.find?_eq_none.mpr fun y hy => h y (List.mem_cons_of_mem x hy)
      rw [update, if_neg hx, ih hxs]

theorem mem_update (h : y ∈ update p f l) : y ∈ l ∨ ∃ x, l.find? p = some x ∧ y = f x := by
  induction l with
  | nil => cases h
  | cons x xs ih =>
      rw [update] at h
      by_cases hx : p x = true
      · rw [if_pos hx] at h
        rcases List.mem_cons.mp h with rfl | hmem
        · exact Or.inr ⟨x, List.find?_cons_of_pos hx, rfl⟩
        · exact Or.inl (List.mem_cons_of_mem x hmem)
      · rw [if_neg hx] at h
        rcases List.mem_cons.mp h with rfl | hmem
        · exact Or.inl List.mem_cons_self
        · rcases ih hmem with hold | ⟨z, hz, rfl⟩
          · exact Or.inl (List.mem_cons_of_mem x hold)
          · exact Or.inr ⟨z, (List.find?_cons_of_neg hx).trans hz, rfl⟩

theorem mem_update_of_find? (h : l.find? p = some x) : f x ∈ update p f l := by
  induction l with
  | nil => cases h
  | cons a xs ih =>
      rw [update]
      by_cases ha : p a = true
      · rw [List.find?_cons_of_pos ha] at h
        rw [if_pos ha, Option.some.inj h]
        exact List.mem_cons_self
      · rw [List.find?_cons_of_neg ha] at h
        rw [if_neg ha]
        exact List.mem_cons_of_mem a (ih h)

/-- A change that puts an element before all others keeps the order exactly if
those that stand before it go before it still. -/
theorem pairwise_update_iff (hl : l.Pairwise R) (hf : ∀ x ∈ l, ∀ y ∈ l, R (f x) y) :
    (update p f l).Pairwise R ↔
      ∀ x, l.find? p = some x → ∀ y ∈ l.takeWhile (fun z => !p z), R y (f x) := by
  induction l with
  | nil => exact ⟨fun _ x hx => absurd hx.symm (Option.some_ne_none x), fun _ => List.Pairwise.nil⟩
  | cons a xs ih =>
      obtain ⟨ha, hxs⟩ := List.pairwise_cons.mp hl
      rw [update]
      by_cases hp : p a = true
      · rw [if_pos hp, List.takeWhile_cons_of_neg (by rw [hp]; exact Bool.false_ne_true)]
        refine ⟨fun _ x _ y hy => absurd hy List.not_mem_nil, fun _ => ?_⟩
        exact List.pairwise_cons.mpr
          ⟨fun y hy => hf a List.mem_cons_self y (List.mem_cons_of_mem a hy), hxs⟩
      · have hbefore : (a :: xs).takeWhile (fun z => !p z) = a :: xs.takeWhile (fun z => !p z) := by
          rw [List.takeWhile_cons, Bool.eq_false_iff.mpr hp]
          rfl
        have hrest := ih hxs fun x hx y hy =>
          hf x (List.mem_cons_of_mem a hx) y (List.mem_cons_of_mem a hy)
        rw [if_neg hp, List.pairwise_cons, hrest, hbefore,
          List.find?_cons_of_neg hp]
        constructor
        · rintro ⟨hhead, htail⟩ x hx y hy
          rcases List.mem_cons.mp hy with rfl | hmem
          · exact hhead (f x) (mem_update_of_find? hx)
          · exact htail x hx y hmem
        · intro h
          refine ⟨fun y hy => ?_, fun x hx y hy => h x hx y (List.mem_cons_of_mem a hy)⟩
          rcases mem_update hy with hold | ⟨x, hx, rfl⟩
          · exact ha y hold
          · exact h x hx a List.mem_cons_self

end FirstMatch
