import Mathlib.Combinatorics.Enumerative.DoubleCounting
import Mathlib.Data.Set.Card
import Wzp.Lib.Table

/-!
# Leases

What is handed out is held by one holder at a time, until the holder gives it back. Then as
much is handed out as there are holders.
-/
namespace Leases

variable {κ ι α : Type*}

/-- What is handed out is what somebody holds, and nobody holds the same as another. -/
structure Leased (held : κ → Option ι) (out : Finset ι) : Prop where
  mem : ∀ i, i ∈ out ↔ ∃ c, held c = some i
  one : ∀ c d i, held c = some i → held d = some i → c = d

variable {held : κ → Option ι} {out : Finset ι} {c : κ} {i : ι}

theorem leased_empty : Leased (fun _ : κ => (none : Option ι)) ∅ := by
  constructor
  · intro i
    simp
  · intro c d i hc
    cases hc

section
variable [DecidableEq κ]

/-- What is not handed out may be given to somebody who holds nothing. -/
theorem Leased.acquire [DecidableEq ι] (h : Leased held out) (hc : held c = none) (hi : i ∉ out) :
    Leased (Function.update held c (some i)) (insert i out) := by
  have hfree : ∀ d, held d ≠ some i := fun d hd => hi ((h.mem i).mpr ⟨d, hd⟩)
  constructor
  · intro j
    rw [Finset.mem_insert, h.mem]
    constructor
    · rintro (rfl | ⟨d, hd⟩)
      · exact ⟨c, Function.update_self c (some j) held⟩
      · refine ⟨d, ?_⟩
        have hne : d ≠ c := by
          rintro rfl
          rw [hc] at hd
          cases hd
        rw [Function.update_of_ne hne, hd]
    · rintro ⟨d, hd⟩
      by_cases hdc : d = c
      · subst hdc
        rw [Function.update_self] at hd
        exact Or.inl (Option.some.inj hd).symm
      · rw [Function.update_of_ne hdc] at hd
        exact Or.inr ⟨d, hd⟩
  · intro d e j hd he
    by_cases hdc : d = c
    · by_cases hec : e = c
      · exact hdc.trans hec.symm
      · rw [hdc, Function.update_self] at hd
        rw [Function.update_of_ne hec, ← hd] at he
        exact absurd he (hfree e)
    · rw [Function.update_of_ne hdc] at hd
      by_cases hec : e = c
      · rw [hec, Function.update_self] at he
        rw [← he] at hd
        exact absurd hd (hfree d)
      · rw [Function.update_of_ne hec] at he
        exact h.one d e j hd he

theorem Leased.release [DecidableEq ι] (h : Leased held out) (hc : held c = some i) :
    Leased (Function.update held c none) (out.erase i) := by
  have hkept : ∀ d j, Function.update held c none d = some j → d ≠ c ∧ held d = some j := by
    intro d j hd
    by_cases hdc : d = c
    · rw [hdc, Function.update_self] at hd
      cases hd
    · rw [Function.update_of_ne hdc] at hd
      exact ⟨hdc, hd⟩
  constructor
  · intro j
    rw [Finset.mem_erase, h.mem]
    constructor
    · rintro ⟨hne, d, hd⟩
      refine ⟨d, ?_⟩
      have hdc : d ≠ c := by
        rintro rfl
        rw [hc] at hd
        exact hne (Option.some.inj hd).symm
      rw [Function.update_of_ne hdc, hd]
    · rintro ⟨d, hd⟩
      obtain ⟨hdc, hold⟩ := hkept d j hd
      refine ⟨?_, d, hold⟩
      rintro rfl
      exact hdc (h.one d c j hold hc)
  · intro d e j hd he
    exact h.one d e j (hkept d j hd).2 (hkept e j he).2

/-- A holder goes on with what it holds. -/
theorem Leased.keep (h : Leased held out) {o : Option ι} (hc : held c = o) :
    Leased (Function.update held c o) out := by
  rwa [← hc, Function.update_eq_self]

end

/-! ## Counting -/

/-- Whatever belongs to one holder each is at most as much as is handed out. -/
theorem Leased.card_le (h : Leased held out) {s : Finset α} {R : α → κ → Prop}
    (hs : ∀ a ∈ s, ∃ c, (held c).isSome ∧ R a c)
    (hone : ∀ a b c, R a c → R b c → a = b) : s.card ≤ out.card := by
  refine Finset.card_le_card_of_forall_subsingleton
    (fun a i => ∃ c, held c = some i ∧ R a c) ?_ ?_
  · intro a ha
    obtain ⟨c, hc, hR⟩ := hs a ha
    obtain ⟨i, hi⟩ := Option.isSome_iff_exists.mp hc
    exact ⟨i, (h.mem i).mpr ⟨c, hi⟩, c, hi, hR⟩
  · rintro i - a ⟨-, c, hc, ha⟩ b ⟨-, d, hd, hb⟩
    obtain rfl := h.one c d i hc hd
    exact hone a b c ha hb

theorem Leased.holders_finite (h : Leased held out) : {c | (held c).isSome}.Finite := by
  classical
  refine Set.Finite.of_finite_image (f := held) ((out.image some).finite_toSet.subset ?_) ?_
  · rintro o ⟨c, hc, rfl⟩
    obtain ⟨i, hi⟩ := Option.isSome_iff_exists.mp hc
    rw [hi]
    exact Finset.mem_coe.mpr (Finset.mem_image_of_mem some ((h.mem i).mpr ⟨c, hi⟩))
  · intro c hc d _ heq
    obtain ⟨i, hi⟩ := Option.isSome_iff_exists.mp hc
    exact h.one c d i hi (heq ▸ hi)

theorem Leased.holders_ncard (h : Leased held out) : {c | (held c).isSome}.ncard = out.card := by
  rw [← Set.ncard_coe_finset]
  refine Set.ncard_congr (fun c hc => (held c).get hc) ?_ ?_ ?_
  · intro c hc
    exact Finset.mem_coe.mpr ((h.mem _).mpr ⟨c, (Option.some_get hc).symm⟩)
  · intro c d hc hd heq
    refine h.one c d ((held c).get hc) (Option.some_get hc).symm ?_
    rw [heq, Option.some_get]
  · intro i hi
    obtain ⟨c, hc⟩ := (h.mem i).mp (Finset.mem_coe.mp hi)
    exact ⟨c, Option.isSome_of_eq_some hc, Option.get_of_eq_some _ hc⟩

/-! ## What is handed out, with what is known of it -/

variable [DecidableEq ι]

/-- The keys of a table, as what it has handed out. -/
def issued (t : Table ι α) : Finset ι := t.keys.toFinset

variable {t : Table ι α}

@[simp] theorem mem_issued : i ∈ issued t ↔ i ∈ t := by
  rw [issued, List.mem_toFinset, AList.mem_keys]

theorem issued_insert (t : Table ι α) (i : ι) (a : α) :
    issued (t.insert i a) = insert i (issued t) := by
  ext j
  simp [Table.mem_insert]

theorem issued_erase (t : Table ι α) (i : ι) : issued (t.erase i) = (issued t).erase i := by
  ext j
  simp [Table.mem_erase]

theorem card_issued (t : Table ι α) : (issued t).card = t.entries.length := by
  rw [issued, List.toFinset_card_of_nodup t.keys_nodup, AList.keys, List.keys, List.length_map]

end Leases
