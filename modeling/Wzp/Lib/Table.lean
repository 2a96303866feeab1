import Mathlib.Data.List.AList

/-!
# Finite tables

Association lists without repeated keys, as a map of the program keeps them:
an entry is inserted in place of an old one, erased, or dropped with all others
that fail a condition. What every entry satisfies survives all of these.
-/

abbrev Table (κ α : Type*) := AList fun _ : κ => α

namespace Table
variable {κ α : Type*} [DecidableEq κ] {P Q : κ → α → Prop} {keep : κ → α → Bool}
  {t : Table κ α} {k j : κ} {a : α}

def insert (t : Table κ α) (k : κ) (a : α) : Table κ α := AList.insert k a t

def erase (t : Table κ α) (k : κ) : Table κ α := AList.erase k t

/-- An entry is made only if there is none. -/
def orInsert (t : Table κ α) (k : κ) (a : α) : Table κ α := if k ∈ t then t else t.insert k a

def retain (t : Table κ α) (keep : κ → α → Bool) : Table κ α :=
  ⟨t.entries.filter fun e => keep e.1 e.2, List.NodupKeys.sublist List.filter_sublist t.nodupKeys⟩

def values (t : Table κ α) : List α := t.entries.map Sigma.snd

def All (P : κ → α → Prop) (t : Table κ α) : Prop := ∀ k a, t.lookup k = some a → P k a

theorem lookup_insert (t : Table κ α) (k j : κ) (a : α) :
    (t.insert k a).lookup j = if j = k then some a else t.lookup j := by
  by_cases h : j = k
  · subst h
    rw [if_pos rfl]
    exact AList.lookup_insert t
  · rw [if_neg h]
    exact AList.lookup_insert_ne h

@[simp] theorem lookup_insert_self (t : Table κ α) (k : κ) (a : α) :
    (t.insert k a).lookup k = some a := AList.lookup_insert t

theorem lookup_insert_ne (h : j ≠ k) : (t.insert k a).lookup j = t.lookup j :=
  AList.lookup_insert_ne h

theorem lookup_orInsert (t : Table κ α) (k j : κ) (a : α) :
    (t.orInsert k a).lookup j = if j = k then some ((t.lookup k).getD a) else t.lookup j := by
  unfold orInsert
  split
  · rename_i hmem
    obtain ⟨b, hb⟩ := Option.isSome_iff_exists.mp (AList.lookup_isSome.mpr hmem)
    rw [hb, Option.getD_some, ← hb]
    split
    · rename_i heq
      rw [heq]
    · rfl
  · rename_i hmem
    rw [lookup_insert, AList.lookup_eq_none.mpr hmem, Option.getD_none]

theorem lookup_erase (t : Table κ α) (k j : κ) :
    (t.erase k).lookup j = if j = k then none else t.lookup j := by
  by_cases h : j = k
  · subst h
    rw [if_pos rfl]
    exact AList.lookup_erase j t
  · rw [if_neg h]
    exact AList.lookup_erase_ne h

@[simp] theorem lookup_erase_self (t : Table κ α) (k : κ) : (t.erase k).lookup k = none :=
  AList.lookup_erase k t

theorem lookup_erase_ne (h : j ≠ k) : (t.erase k).lookup j = t.lookup j := AList.lookup_erase_ne h

theorem lookup_retain_eq_some :
    (t.retain keep).lookup k = some a ↔ t.lookup k = some a ∧ keep k a = true := by
  constructor
  · intro h
    obtain ⟨hmem, hkeep⟩ := List.mem_filter.mp (AList.mem_lookup_iff.mp h)
    exact ⟨AList.mem_lookup_iff.mpr hmem, hkeep⟩
  · rintro ⟨hlookup, hkeep⟩
    exact AList.mem_lookup_iff.mpr (List.mem_filter.mpr ⟨AList.mem_lookup_iff.mp hlookup, hkeep⟩)

/-- A condition on the keys alone. -/
theorem lookup_retain_keys (t : Table κ α) (keep : κ → Bool) (k : κ) :
    (t.retain fun k _ => keep k).lookup k = if keep k then t.lookup k else none := by
  ext a
  rw [lookup_retain_eq_some]
  cases keep k with
  | true => exact and_iff_left rfl
  | false => exact iff_of_false (fun h => Bool.false_ne_true h.2) (fun h => nomatch h)

theorem mem_values : a ∈ t.values ↔ ∃ k, t.lookup k = some a := by
  constructor
  · intro h
    obtain ⟨⟨k, b⟩, hmem, rfl⟩ := List.mem_map.mp h
    exact ⟨k, AList.mem_lookup_iff.mpr hmem⟩
  · rintro ⟨k, hlookup⟩
    exact List.mem_map.mpr ⟨_, AList.mem_lookup_iff.mp hlookup, rfl⟩

theorem mem_insert : j ∈ t.insert k a ↔ j = k ∨ j ∈ t := AList.mem_insert t

theorem mem_erase : j ∈ t.erase k ↔ j ≠ k ∧ j ∈ t := AList.mem_erase

theorem mem_foldl_erase (ks : List κ) : j ∈ ks.foldl erase t ↔ j ∈ t ∧ j ∉ ks := by
  induction ks generalizing t with
  | nil => exact ⟨fun h => ⟨h, List.not_mem_nil⟩, And.left⟩
  | cons k ks ih =>
      rw [List.foldl_cons, ih, mem_erase, List.mem_cons, not_or]
      exact ⟨fun h => ⟨h.1.2, h.1.1, h.2⟩, fun h => ⟨⟨h.2.1, h.1⟩, h.2.2⟩⟩

theorem lookup_of_foldl_erase {ks : List κ} (h : (ks.foldl erase t).lookup k = some a) :
    t.lookup k = some a := by
  induction ks generalizing t with
  | nil => exact h
  | cons j ks ih =>
      have hrest := ih h
      rw [lookup_erase] at hrest
      split at hrest
      · exact nomatch hrest
      · exact hrest

theorem lookup_foldl_orInsert (ks : List κ) :
    (ks.foldl (fun t k => t.orInsert k a) t).lookup j =
      if j ∈ ks then some ((t.lookup j).getD a) else t.lookup j := by
  induction ks generalizing t with
  | nil => exact (if_neg List.not_mem_nil).symm
  | cons k ks ih =>
      rw [List.foldl_cons, ih, lookup_orInsert]
      by_cases hk : j = k
      · subst hk
        rw [if_pos rfl, if_pos List.mem_cons_self, Option.getD_some]
        exact ite_self _
      · simp only [if_neg hk, List.mem_cons, or_iff_right hk]

theorem lookup_foldl_insert (ks : List κ) :
    (ks.foldl (fun t k => t.insert k a) t).lookup j = if j ∈ ks then some a else t.lookup j := by
  induction ks generalizing t with
  | nil => exact (if_neg List.not_mem_nil).symm
  | cons k ks ih =>
      rw [List.foldl_cons, ih, lookup_insert]
      by_cases hk : j = k
      · subst hk
        rw [if_pos rfl, if_pos List.mem_cons_self]
        exact ite_self _
      · simp only [if_neg hk, List.mem_cons, or_iff_right hk]

/-! ## What holds of every entry -/

theorem all_empty : All P (∅ : Table κ α) := by
  intro k a h
  rw [AList.lookup_empty] at h
  exact nomatch h

theorem All.mono (h : All P t) (hPQ : ∀ k a, P k a → Q k a) : All Q t :=
  fun k a hlookup => hPQ k a (h k a hlookup)

theorem All.insert (h : All P t) (ha : P k a) : All P (t.insert k a) := by
  intro j b hlookup
  rw [lookup_insert] at hlookup
  split at hlookup
  · rename_i hj
    obtain rfl := Option.some.inj hlookup
    exact hj ▸ ha
  · exact h j b hlookup

theorem All.erase (h : All P t) (k : κ) : All P (t.erase k) := by
  intro j b hlookup
  rw [lookup_erase] at hlookup
  split at hlookup
  · exact nomatch hlookup
  · exact h j b hlookup

theorem All.retain (h : All P t) (hPQ : ∀ k a, P k a → keep k a = true → Q k a) :
    All Q (t.retain keep) := by
  intro k a hlookup
  obtain ⟨hold, hkeep⟩ := lookup_retain_eq_some.mp hlookup
  exact hPQ k a (h k a hold) hkeep

end Table
