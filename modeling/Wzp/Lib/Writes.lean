import Mathlib.Data.List.Nodup
import Mathlib.Data.List.TakeWhile

/-!
# Settings written one after another

A call writes several settings in turn and stops at the first that is refused; what it
has written by then stays. It has changed nothing exactly if what it got to write was in
force already.
-/
namespace Writes

variable {σ ω κ ε : Type*}

/-- The writes up to the first that is refused, and why that one is. -/
def attempt (apply : σ → ω → σ) (refuses : ω → Option ε) : List ω → σ → σ × Except ε Unit
  | [], s => (s, .ok ())
  | w :: ws, s =>
      match refuses w with
      | some e => (s, .error e)
      | none => attempt apply refuses ws (apply s w)

/-- The next call, unless the one before has failed. -/
def andThen (r : σ × Except ε Unit) (next : σ → σ × Except ε Unit) : σ × Except ε Unit :=
  match r.2 with
  | .ok _ => next r.1
  | .error e => (r.1, .error e)

/-- A call that fails leaves the state as it is. -/
def Atomic (call : σ → σ × Except ε Unit) (s : σ) : Prop :=
  ∀ e, (call s).2 = .error e → (call s).1 = s

/-- The writes before the first that is refused. -/
def taken (refuses : ω → Option ε) (ws : List ω) : List ω :=
  ws.takeWhile fun w => (refuses w).isNone

/-- The value is the one the setting has. -/
def InForce (apply : σ → ω → σ) (s : σ) (w : ω) : Prop := apply s w = s

/-- A value that is written is in force until the same setting is written again. -/
structure Lawful (apply : σ → ω → σ) (setting : ω → κ) : Prop where
  written : ∀ s w, InForce apply (apply s w) w
  kept : ∀ s w w', setting w ≠ setting w' → InForce apply s w → InForce apply (apply s w') w

variable {apply : σ → ω → σ} {setting : ω → κ} {refuses : ω → Option ε} {s : σ} {w : ω}
  {ws ws' : List ω}

theorem andThen_ok {r : σ × Except ε Unit} (h : r.2 = .ok ()) (next : σ → σ × Except ε Unit) :
    andThen r next = next r.1 := by
  rw [andThen, h]

theorem andThen_ok_iff {r : σ × Except ε Unit} {next : σ → σ × Except ε Unit} :
    (andThen r next).2 = .ok () ↔ r.2 = .ok () ∧ (next r.1).2 = .ok () := by
  unfold andThen
  cases r.2 with
  | ok u => simp
  | error e => simp

theorem attempt_append :
    attempt apply refuses (ws ++ ws') s =
      andThen (attempt apply refuses ws s) (attempt apply refuses ws') := by
  induction ws generalizing s with
  | nil => rfl
  | cons w ws ih =>
      rw [List.cons_append, attempt, attempt]
      cases refuses w with
      | some e => rfl
      | none => exact ih

theorem attempt_fst : (attempt apply refuses ws s).1 = (taken refuses ws).foldl apply s := by
  induction ws generalizing s with
  | nil => rfl
  | cons w ws ih =>
      rw [attempt]
      cases h : refuses w with
      | some e =>
          have hnone : taken refuses (w :: ws) = [] := by
            simp [taken, h]
          rw [hnone]
          rfl
      | none =>
          have hcons : taken refuses (w :: ws) = w :: taken refuses ws := by
            simp [taken, h]
          rw [hcons]
          exact ih

theorem attempt_ok_iff :
    (attempt apply refuses ws s).2 = .ok () ↔ ∀ w ∈ ws, refuses w = none := by
  induction ws generalizing s with
  | nil => simp [attempt]
  | cons w ws ih =>
      rw [attempt, List.forall_mem_cons]
      cases h : refuses w with
      | some e => simp
      | none => simpa using ih

theorem taken_eq_self (h : ∀ w ∈ ws, refuses w = none) : taken refuses ws = ws := by
  apply List.takeWhile_eq_self_iff.mpr
  intro w hw
  rw [h w hw]
  rfl

/-- A setting keeps its value through writes of others. -/
theorem inForce_foldl_kept (laws : Lawful apply setting) (h : InForce apply s w)
    (hother : ∀ w' ∈ ws, setting w ≠ setting w') : InForce apply (ws.foldl apply s) w := by
  induction ws generalizing s with
  | nil => exact h
  | cons w' ws ih =>
      rw [List.forall_mem_cons] at hother
      apply ih
      · exact laws.kept s w w' hother.1 h
      · exact hother.2

theorem inForce_foldl (laws : Lawful apply setting) (hnodup : (ws.map setting).Nodup)
    (hw : w ∈ ws) : InForce apply (ws.foldl apply s) w := by
  induction ws generalizing s with
  | nil => cases hw
  | cons w' ws ih =>
      rw [List.map_cons, List.nodup_cons] at hnodup
      rcases List.mem_cons.mp hw with rfl | hmem
      · apply inForce_foldl_kept laws (laws.written s w)
        intro w' hw' heq
        exact hnodup.1 (heq ▸ List.mem_map_of_mem hw')
      · exact ih hnodup.2 hmem

/-- Writes of different settings change nothing exactly if all their values are in force. -/
theorem foldl_eq_self_iff (laws : Lawful apply setting) (hnodup : (ws.map setting).Nodup) :
    ws.foldl apply s = s ↔ ∀ w ∈ ws, InForce apply s w := by
  constructor
  · intro h w hw
    have hforce := inForce_foldl laws hnodup hw (s := s)
    rwa [h] at hforce
  · intro h
    induction ws with
    | nil => rfl
    | cons w ws ih =>
        rw [List.forall_mem_cons] at h
        rw [List.map_cons, List.nodup_cons] at hnodup
        rw [List.foldl_cons, h.1]
        exact ih hnodup.2 h.2

theorem attempt_fst_eq_self_iff (laws : Lawful apply setting) (hnodup : (ws.map setting).Nodup) :
    (attempt apply refuses ws s).1 = s ↔ ∀ w ∈ taken refuses ws, InForce apply s w := by
  rw [attempt_fst]
  apply foldl_eq_self_iff laws
  exact hnodup.sublist ((List.takeWhile_sublist _).map setting)

/-- A call fails and changes something, or succeeds, or fails and changes nothing. -/
theorem atomic_iff {call : σ → σ × Except ε Unit} :
    Atomic call s ↔ (call s).2 = .ok () ∨ (call s).1 = s := by
  unfold Atomic
  cases (call s).2 with
  | ok u =>
      constructor
      · exact fun _ => Or.inl rfl
      · intro _ e he
        cases he
  | error e =>
      constructor
      · exact fun h => Or.inr (h e rfl)
      · intro h _ _
        apply h.resolve_left
        intro hok
        cases hok

end Writes
