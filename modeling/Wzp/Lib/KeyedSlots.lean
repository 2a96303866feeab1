import Mathlib.Data.List.AList
import Mathlib.Logic.Function.Basic
import Wzp.Lib.Runs

/-!
# Slots shared by the holders of a key

Each connection has a key and an entry. Opening it puts its entry into the slot
of its key, closing it may empty that slot, whoever's entry is in it by then.
The lifetimes of connections with one key may overlap.
-/
namespace KeyedSlots
open Runs

structure State (κ α χ : Type*) where
  slot : κ → Option α
  live : List χ

inductive Event (χ : Type*) where
  | opened (c : χ)
  | closed (c : χ) (empties : Bool)
  | other

variable {κ α χ : Type*} [DecidableEq κ] [DecidableEq χ] (key : χ → κ) (entry : χ → α)

/-- Only a connection that is not live is opened, only a live one closed. -/
def step (s : State κ α χ) : Event χ → State κ α χ
  | .opened c =>
      if c ∈ s.live then s else ⟨Function.update s.slot (key c) (some (entry c)), c :: s.live⟩
  | .closed c empties =>
      if c ∈ s.live then
        ⟨if empties then Function.update s.slot (key c) none else s.slot, s.live.filter (· ≠ c)⟩
      else s
  | .other => s

/-- Exactly the keys of live connections have a full slot. -/
def Covers (s : State κ α χ) : Prop := ∀ k, (s.slot k).isSome ↔ ∃ c ∈ s.live, key c = k

/-- A full slot holds the entry of a live connection with its key. -/
def Current (s : State κ α χ) : Prop :=
  ∀ k a, s.slot k = some a → ∃ c ∈ s.live, key c = k ∧ entry c = a

/-- `c` is the only live connection with its key. -/
def Alone (s : State κ α χ) (c : χ) : Prop := ∀ d ∈ s.live, d ≠ c → key d ≠ key c

instance (s : State κ α χ) (c : χ) : Decidable (Alone key s c) :=
  inferInstanceAs (Decidable (∀ d ∈ s.live, d ≠ c → key d ≠ key c))

/-- A connection empties its slot exactly if it is the last one with its key. -/
def LastEmpties (s : State κ α χ) : Event χ → Prop
  | .closed c empties => c ∈ s.live → (empties = true ↔ Alone key s c)
  | _ => True

variable {key} {entry} {s : State κ α χ} {c : χ}

theorem covers_opened (h : Covers key s) (c : χ) : Covers key (step key entry s (.opened c)) := by
  rw [step]
  split
  · exact h
  · intro k
    by_cases hk : k = key c
    · subst hk
      simp only [Function.update_self, Option.isSome_some, true_iff]
      exact ⟨c, List.mem_cons_self, rfl⟩
    · simp only [Function.update_of_ne hk, h k, List.mem_cons, exists_eq_or_imp]
      constructor
      · intro hlive
        exact Or.inr hlive
      · rintro (heq | hlive)
        · exact absurd heq.symm hk
        · exact hlive

theorem current_opened (h : Current key entry s) (c : χ) :
    Current key entry (step key entry s (.opened c)) := by
  rw [step]
  split
  · exact h
  · intro k a hslot
    dsimp only at hslot
    by_cases hk : k = key c
    · subst hk
      rw [Function.update_self] at hslot
      exact ⟨c, List.mem_cons_self, rfl, Option.some.inj hslot⟩
    · rw [Function.update_of_ne hk] at hslot
      obtain ⟨d, hlive, hd⟩ := h k a hslot
      exact ⟨d, List.mem_cons_of_mem _ hlive, hd⟩

omit [DecidableEq κ] in
/-- Live connections with another key than `c` stay. -/
theorem exists_live_closed {k : κ} (hk : k ≠ key c) :
    (∃ d ∈ s.live.filter (· ≠ c), key d = k) ↔ ∃ d ∈ s.live, key d = k := by
  constructor
  · rintro ⟨d, hd, hkey⟩
    exact ⟨d, List.mem_of_mem_filter hd, hkey⟩
  · rintro ⟨d, hd, hkey⟩
    refine ⟨d, List.mem_filter.mpr ⟨hd, decide_eq_true ?_⟩, hkey⟩
    rintro rfl
    exact hk hkey.symm

omit [DecidableEq κ] in
theorem alone_iff_closed :
    Alone key s c ↔ ¬ ∃ d ∈ s.live.filter (· ≠ c), key d = key c := by
  constructor
  · rintro halone ⟨d, hd, hkey⟩
    obtain ⟨hlive, hne⟩ := List.mem_filter.mp hd
    exact halone d hlive (of_decide_eq_true hne) hkey
  · intro h d hlive hne hkey
    exact h ⟨d, List.mem_filter.mpr ⟨hlive, decide_eq_true hne⟩, hkey⟩

/-- Closing keeps the slots right exactly if the last one empties. -/
theorem covers_closed (h : Covers key s) (hc : c ∈ s.live) (empties : Bool) :
    Covers key (step key entry s (.closed c empties)) ↔ (empties = true ↔ Alone key s c) := by
  have hfull : (s.slot (key c)).isSome = true := (h (key c)).mpr ⟨c, hc, rfl⟩
  simp only [step, if_pos hc, alone_iff_closed]
  cases empties with
  | true =>
      simp only [if_true, true_iff]
      constructor
      · intro hcov hlive
        have := (hcov (key c)).mpr hlive
        simp only [Function.update_self, Option.isSome_none, Bool.false_eq_true] at this
      · intro hnone k
        by_cases hk : k = key c
        · subst hk
          simp only [Function.update_self, Option.isSome_none, Bool.false_eq_true, false_iff]
          exact hnone
        · simp only [Function.update_of_ne hk, exists_live_closed hk]
          exact h k
  | false =>
      simp only [Bool.false_eq_true, if_false, false_iff, not_not]
      constructor
      · intro hcov
        exact (hcov (key c)).mp hfull
      · intro hlive k
        by_cases hk : k = key c
        · subst hk
          exact ⟨fun _ => hlive, fun _ => hfull⟩
        · dsimp only
          rw [exists_live_closed hk]
          exact h k

theorem current_closed (h : Current key entry s) :
    Current key entry (step key entry s (.closed c true)) := by
  rw [step]
  split
  · intro k a hslot
    simp only [if_true] at hslot
    by_cases hk : k = key c
    · rw [hk, Function.update_self] at hslot
      exact absurd hslot.symm (Option.some_ne_none a)
    · rw [Function.update_of_ne hk] at hslot
      obtain ⟨d, hlive, hkey, hentry⟩ := h k a hslot
      refine ⟨d, List.mem_filter.mpr ⟨hlive, decide_eq_true ?_⟩, hkey, hentry⟩
      rintro rfl
      exact hk hkey.symm
  · exact h

/-! ## Slots kept in a table -/

omit [DecidableEq χ] in
theorem lookup_insert (table : AList fun _ : κ => α) (k : κ) (a : α) :
    (fun j => (table.insert k a).lookup j) = Function.update (fun j => table.lookup j) k (some a) := by
  funext j
  by_cases hj : j = k
  · subst hj
    rw [Function.update_self]
    exact AList.lookup_insert _
  · rw [Function.update_of_ne hj]
    exact AList.lookup_insert_ne hj

omit [DecidableEq χ] in
theorem lookup_erase (table : AList fun _ : κ => α) (k : κ) :
    (fun j => (table.erase k).lookup j) = Function.update (fun j => table.lookup j) k none := by
  funext j
  by_cases hj : j = k
  · subst hj
    rw [Function.update_self]
    exact AList.lookup_erase _ _
  · rw [Function.update_of_ne hj]
    exact AList.lookup_erase_ne hj

/-! ## Exactness -/

theorem covers_step (h : Covers key s) (e : Event χ) :
    Covers key (step key entry s e) ↔ LastEmpties key s e := by
  cases e with
  | opened c => exact ⟨fun _ => trivial, fun _ => covers_opened h c⟩
  | closed c empties =>
      by_cases hc : c ∈ s.live
      · rw [covers_closed h hc]
        exact ⟨fun hiff _ => hiff, fun hiff => hiff hc⟩
      · simp only [step, if_neg hc, LastEmpties]
        exact ⟨fun _ hlive => absurd hlive hc, fun _ => h⟩
  | other => exact ⟨fun _ => trivial, fun _ => h⟩

/-- Where closing always empties the slot, the slots stay right and current
exactly if no connection closes while another with its key is live. -/
theorem current_step {e : Event χ} (hempties : ∀ c b, e = .closed c b → b = true)
    (h : Covers key s ∧ Current key entry s) :
    Covers key (step key entry s e) ∧ Current key entry (step key entry s e) ↔ LastEmpties key s e := by
  rw [covers_step h.1]
  constructor
  · exact And.left
  · intro hlast
    refine ⟨hlast, ?_⟩
    cases e with
    | opened c => exact current_opened h.2 c
    | closed c empties =>
        obtain rfl := hempties c empties rfl
        exact current_closed h.2
    | other => exact h.2

end KeyedSlots
