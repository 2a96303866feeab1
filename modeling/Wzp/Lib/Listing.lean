import Mathlib.Data.List.Nodup
import Mathlib.Logic.Function.Basic

/-!
# Listing

A list of entries with a key each holds a partial function from the keys, in some order.
-/
namespace Listing

variable {κ ε : Type*} {key : ε → κ}

/-- The list holds the function: no key twice, and for each key the entry under it. -/
structure Lists (key : ε → κ) (es : List ε) (m : κ → Option ε) : Prop where
  nodup : (es.map key).Nodup
  mem_iff : ∀ e a, e ∈ es ∧ key e = a ↔ m a = some e

variable {es es' : List ε} {m : κ → Option ε} {a : κ} {f : ε → ε} {e : ε}

theorem lists_nil : Lists key [] fun _ => none := by
  constructor
  · exact List.nodup_nil
  · intro e a
    simp

theorem Lists.key_eq (h : Lists key es m) (he : m a = some e) : key e = a :=
  ((h.mem_iff e a).mpr he).2

theorem Lists.mem (h : Lists key es m) (he : m a = some e) : e ∈ es :=
  ((h.mem_iff e a).mpr he).1

theorem Lists.of_mem (h : Lists key es m) (he : e ∈ es) : m (key e) = some e :=
  (h.mem_iff e (key e)).mp ⟨he, rfl⟩

theorem Lists.find? [DecidableEq κ] (h : Lists key es m) (a : κ) : es.find? (fun e => key e = a) = m a := by
  cases hfound : es.find? fun e => key e = a with
  | none =>
      cases hm : m a with
      | none => rfl
      | some e =>
          simp only [List.find?_eq_none, decide_eq_true_eq] at hfound
          exact absurd (h.key_eq hm) (hfound e (h.mem hm))
  | some e =>
      have hkey : key e = a := by simpa using List.find?_some hfound
      subst hkey
      exact (h.of_mem (List.mem_of_find?_eq_some hfound)).symm

/-- The order does not matter. -/
theorem Lists.perm (h : Lists key es m) (hperm : es'.Perm es) : Lists key es' m := by
  constructor
  · exact ((hperm.map key).nodup_iff).mpr h.nodup
  · intro e a
    rw [hperm.mem_iff]
    exact h.mem_iff e a

/-- A new entry under a key that has none. -/
theorem Lists.concat [DecidableEq κ] (h : Lists key es m) (hnew : m (key e) = none) :
    Lists key (es ++ [e]) (Function.update m (key e) (some e)) := by
  have hfree : ∀ x ∈ es, key x ≠ key e := by
    intro x hx heq
    have hmem := h.of_mem hx
    rw [heq, hnew] at hmem
    cases hmem
  constructor
  · simp only [List.map_append, List.map_cons, List.map_nil]
    refine h.nodup.append (List.nodup_singleton _) ?_
    intro b hb hbe
    obtain ⟨x, hx, rfl⟩ := List.mem_map.mp hb
    exact hfree x hx (List.mem_singleton.mp hbe)
  · intro x a
    by_cases ha : a = key e
    · subst ha
      simp only [List.mem_append, List.mem_singleton, Function.update_self, Option.some.injEq]
      constructor
      · rintro ⟨hx | rfl, hkey⟩
        · exact absurd hkey (hfree x hx)
        · rfl
      · rintro rfl
        exact ⟨Or.inr rfl, rfl⟩
    · simp only [List.mem_append, List.mem_singleton, Function.update_of_ne ha]
      constructor
      · rintro ⟨hx | rfl, hkey⟩
        · exact (h.mem_iff x a).mp ⟨hx, hkey⟩
        · exact absurd hkey.symm ha
      · intro hx
        exact ⟨Or.inl (h.mem hx), h.key_eq hx⟩

/-! ## A change -/
variable [DecidableEq κ]

/-- The first entry under a key is changed. -/
def updateAt (key : ε → κ) (a : κ) (f : ε → ε) : List ε → List ε
  | [] => []
  | e :: es => if key e = a then f e :: es else e :: updateAt key a f es

theorem map_updateAt (hf : ∀ e, key (f e) = key e) (es : List ε) :
    (updateAt key a f es).map key = es.map key := by
  induction es with
  | nil => rfl
  | cons e es ih =>
      rw [updateAt]
      split
      · simp [hf]
      · simp [ih]

/-- With no key twice, every entry but the one under the key stays. -/
theorem mem_updateAt (hnodup : (es.map key).Nodup) {x : ε} :
    x ∈ updateAt key a f es ↔ (x ∈ es ∧ key x ≠ a) ∨ ∃ e ∈ es, key e = a ∧ x = f e := by
  induction es with
  | nil => simp [updateAt]
  | cons e es ih =>
      obtain ⟨hfresh, hrest⟩ := List.nodup_cons.mp hnodup
      rw [updateAt]
      split
      next hkey =>
        have hothers : ∀ y ∈ es, key y ≠ a := by
          intro y hy heq
          exact hfresh (List.mem_map.mpr ⟨y, hy, heq.trans hkey.symm⟩)
        constructor
        · intro hx
          rcases List.mem_cons.mp hx with rfl | hx
          · exact Or.inr ⟨e, List.mem_cons_self, hkey, rfl⟩
          · exact Or.inl ⟨List.mem_cons_of_mem e hx, hothers x hx⟩
        · rintro (⟨hx, hne⟩ | ⟨y, hy, hya, rfl⟩)
          · rcases List.mem_cons.mp hx with rfl | hx
            · exact absurd hkey hne
            · exact List.mem_cons_of_mem _ hx
          · rcases List.mem_cons.mp hy with rfl | hy
            · exact List.mem_cons_self
            · exact absurd hya (hothers y hy)
      next hkey =>
        simp only [List.mem_cons, ih hrest]
        constructor
        · rintro (rfl | ⟨hx, hne⟩ | ⟨y, hy, hya, rfl⟩)
          · exact Or.inl ⟨Or.inl rfl, hkey⟩
          · exact Or.inl ⟨Or.inr hx, hne⟩
          · exact Or.inr ⟨y, Or.inr hy, hya, rfl⟩
        · rintro (⟨rfl | hx, hne⟩ | ⟨y, rfl | hy, hya, rfl⟩)
          · exact Or.inl rfl
          · exact Or.inr (Or.inl ⟨hx, hne⟩)
          · exact absurd hya hkey
          · exact Or.inr (Or.inr ⟨y, hy, hya, rfl⟩)

/-- Changing the first entry under a key changes the function there. -/
theorem Lists.updateAt (h : Lists key es m) (hf : ∀ e, key (f e) = key e) (a : κ) :
    Lists key (updateAt key a f es) (Function.update m a ((m a).map f)) := by
  constructor
  · rw [map_updateAt hf]
    exact h.nodup
  · intro x b
    rw [mem_updateAt h.nodup]
    by_cases hb : b = a
    · subst hb
      simp only [Function.update_self, Option.map_eq_some_iff]
      constructor
      · rintro ⟨⟨_, hne⟩ | ⟨e, he, hea, rfl⟩, hkey⟩
        · exact absurd hkey hne
        · exact ⟨e, (h.mem_iff e b).mp ⟨he, hea⟩, rfl⟩
      · rintro ⟨e, he, rfl⟩
        exact ⟨Or.inr ⟨e, h.mem he, h.key_eq he, rfl⟩, (hf e).trans (h.key_eq he)⟩
    · rw [Function.update_of_ne hb]
      constructor
      · rintro ⟨⟨hx, _⟩ | ⟨e, he, hea, rfl⟩, hkey⟩
        · exact (h.mem_iff x b).mp ⟨hx, hkey⟩
        · exact absurd (hkey.symm.trans ((hf e).trans hea)) hb
      · intro hx
        have hkey := h.key_eq hx
        exact ⟨Or.inl ⟨h.mem hx, hkey.trans_ne hb⟩, hkey⟩

/-- A change that keeps the keys and the order by rank keeps a sorted list sorted. -/
theorem pairwise_updateAt {rank : ε → ℕ} (hf : ∀ e, rank (f e) = rank e)
    (hsorted : es.Pairwise fun x y => rank x ≤ rank y) :
    (updateAt key a f es).Pairwise fun x y => rank x ≤ rank y := by
  have hranks : (updateAt key a f es).map rank = es.map rank := by
    induction es with
    | nil => rfl
    | cons e es ih =>
        rw [updateAt]
        split
        · simp [hf]
        · simp [ih hsorted.of_cons]
  have hmap : (es.map rank).Pairwise (· ≤ ·) := List.pairwise_map.mpr hsorted
  rw [← hranks] at hmap
  exact List.pairwise_map.mp hmap

end Listing
