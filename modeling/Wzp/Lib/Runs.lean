import Mathlib.Data.List.Basic

/-!
# Runs of a machine

A machine takes events one by one. What holds in every state a run passes
through is compared with what each of its steps does.
-/
namespace Runs

variable {σ ε : Type*} (step : σ → ε → σ)

def run (s : σ) (es : List ε) : σ := es.foldl step s

/-- `P` holds in every state of the run, the first and the last included. -/
def Throughout (P : σ → Prop) : σ → List ε → Prop
  | s, [] => P s
  | s, e :: es => P s ∧ Throughout P (step s e) es

/-- Every event of the run is `ok` in the state it finds. -/
def EachStep (ok : σ → ε → Prop) : σ → List ε → Prop
  | _, [] => True
  | s, e :: es => ok s e ∧ EachStep ok (step s e) es

variable {step} {P Q : σ → Prop} {ok : σ → ε → Prop} {s : σ} {e : ε} {es : List ε}

@[simp] theorem run_nil : run step s [] = s := rfl

@[simp] theorem run_cons : run step s (e :: es) = run step (step s e) es := rfl

theorem run_append (es es' : List ε) : run step s (es ++ es') = run step (run step s es) es' :=
  List.foldl_append

instance Throughout.decidable [DecidablePred P] :
    (s : σ) → (es : List ε) → Decidable (Throughout step P s es)
  | s, [] => inferInstanceAs (Decidable (P s))
  | s, e :: es =>
      have := Throughout.decidable (step s e) es
      inferInstanceAs (Decidable (P s ∧ Throughout step P (step s e) es))

instance EachStep.decidable [∀ s e, Decidable (ok s e)] :
    (s : σ) → (es : List ε) → Decidable (EachStep step ok s es)
  | _, [] => isTrue trivial
  | s, e :: es =>
      have := EachStep.decidable (step s e) es
      inferInstanceAs (Decidable (ok s e ∧ EachStep step ok (step s e) es))

theorem Throughout.head (h : Throughout step P s es) : P s := by
  cases es with
  | nil => exact h
  | cons e es => exact h.1

theorem Throughout.last (h : Throughout step P s es) : P (run step s es) := by
  induction es generalizing s with
  | nil => exact h
  | cons e es ih => exact ih h.2

theorem Throughout.mono (hPQ : ∀ s, P s → Q s) (h : Throughout step P s es) :
    Throughout step Q s es := by
  induction es generalizing s with
  | nil => exact hPQ s h
  | cons e es ih => exact ⟨hPQ s h.1, ih h.2⟩

theorem eachStep_congr {ok' : σ → ε → Prop} (h : ∀ s e, ok s e ↔ ok' s e) :
    EachStep step ok s es ↔ EachStep step ok' s es := by
  induction es generalizing s with
  | nil => exact Iff.rfl
  | cons e es ih => exact and_congr (h s e) ih

theorem eachStep_and {ok' : σ → ε → Prop} :
    EachStep step (fun s e => ok s e ∧ ok' s e) s es ↔
      EachStep step ok s es ∧ EachStep step ok' s es := by
  induction es generalizing s with
  | nil => exact ⟨fun _ => ⟨trivial, trivial⟩, fun _ => trivial⟩
  | cons e es ih =>
      rw [EachStep, EachStep, EachStep, ih]
      exact and_and_and_comm

theorem eachStep_append {es' : List ε} :
    EachStep step ok s (es ++ es') ↔ EachStep step ok s es ∧ EachStep step ok (run step s es) es' := by
  induction es generalizing s with
  | nil => exact (and_iff_right trivial).symm
  | cons e es ih => exact (and_congr_right fun _ => ih).trans and_assoc.symm

/-- A condition on the events alone. -/
theorem eachStep_of_forall (h : ∀ e ∈ es, ∀ s, ok s e) : EachStep step ok s es := by
  induction es generalizing s with
  | nil => trivial
  | cons e es ih =>
      exact ⟨h e List.mem_cons_self s, ih fun e' he' => h e' (List.mem_cons_of_mem e he')⟩

/-! ## Rules -/

/-- A property that every `ok` step keeps holds throughout the runs of such steps. -/
theorem throughout_of_eachStep (hstep : ∀ s e, P s → ok s e → P (step s e)) (hs : P s)
    (hok : EachStep step ok s es) : Throughout step P s es := by
  induction es generalizing s with
  | nil => exact hs
  | cons e es ih => exact ⟨hs, ih (hstep s e hs hok.1) hok.2⟩

/-- `ok` steps keep `P`, and with it they are `ok'`. -/
theorem EachStep.imp {ok' : σ → ε → Prop} (hstep : ∀ s e, P s → ok s e → P (step s e))
    (hok : ∀ s e, P s → ok s e → ok' s e) (hs : P s) (h : EachStep step ok s es) :
    EachStep step ok' s es := by
  induction es generalizing s with
  | nil => trivial
  | cons e es ih => exact ⟨hok s e hs h.1, ih (hstep s e hs h.1) h.2⟩

/-- What follows from an invariant of the states is met by each step. -/
theorem eachStep_of_invariant (hstep : ∀ s e, P s → P (step s e)) (hok : ∀ s e, P s → ok s e)
    (hs : P s) : EachStep step ok s es := by
  induction es generalizing s with
  | nil => trivial
  | cons e es ih => exact ⟨hok s e hs, ih (hstep s e hs)⟩

/-- Where an invariant holds, two conditions on the steps may be one. -/
theorem eachStep_congr_of_invariant {ok' : σ → ε → Prop} (hstep : ∀ s e, P s → P (step s e))
    (hok : ∀ s e, P s → (ok s e ↔ ok' s e)) (hs : P s) :
    EachStep step ok s es ↔ EachStep step ok' s es := by
  induction es generalizing s with
  | nil => exact Iff.rfl
  | cons e es ih => exact and_congr (hok s e hs) (ih (hstep s e hs))

/-- What is kept as long as `P` holds, holds with it. -/
theorem Throughout.and_of_step (hstep : ∀ s e, P s → Q s → P (step s e) → Q (step s e)) (hs : Q s)
    (h : Throughout step P s es) : Throughout step (fun s => P s ∧ Q s) s es := by
  induction es generalizing s with
  | nil => exact ⟨h, hs⟩
  | cons e es ih => exact ⟨⟨h.1, hs⟩, ih (hstep s e h.1 hs h.2.head) h.2⟩

/-- If a step keeps `P` exactly when it is `ok`, then `P` holds throughout
exactly the runs of such steps. `I` is what else is known of the states. -/
theorem throughout_iff_eachStep {I : σ → Prop}
    (hinv : ∀ s e, I s → P s → P (step s e) → I (step s e))
    (hstep : ∀ s e, I s → P s → (P (step s e) ↔ ok s e)) (hI : I s) (hP : P s) :
    Throughout step P s es ↔ EachStep step ok s es := by
  induction es generalizing s with
  | nil => exact ⟨fun _ => trivial, fun _ => hP⟩
  | cons e es ih =>
      constructor
      · intro h
        have hnext := h.2.head
        exact ⟨(hstep s e hI hP).mp hnext, (ih (hinv s e hI hP hnext) hnext).mp h.2⟩
      · intro h
        have hnext := (hstep s e hI hP).mpr h.1
        exact ⟨hP, (ih (hinv s e hI hP hnext) hnext).mpr h.2⟩

/-- The same for a run on which `I` is given. -/
theorem throughout_iff_eachStep_of_throughout {I : σ → Prop}
    (hstep : ∀ s e, I s → I (step s e) → P s → (P (step s e) ↔ ok s e))
    (hI : Throughout step I s es) (hP : P s) :
    Throughout step P s es ↔ EachStep step ok s es := by
  induction es generalizing s with
  | nil => exact ⟨fun _ => trivial, fun _ => hP⟩
  | cons e es ih =>
      have hiff := hstep s e hI.1 hI.2.head hP
      constructor
      · intro h
        exact ⟨hiff.mp h.2.head, (ih hI.2 h.2.head).mp h.2⟩
      · intro h
        have hnext := hiff.mpr h.1
        exact ⟨hP, (ih hI.2 hnext).mpr h.2⟩

/-- The same for a run of possible steps. -/
theorem throughout_iff_eachStep_of_eachStep {I : σ → Prop} {possible : σ → ε → Prop}
    (hinv : ∀ s e, I s → I (step s e))
    (hstep : ∀ s e, I s → possible s e → P s → (P (step s e) ↔ ok s e))
    (hI : I s) (hpossible : EachStep step possible s es) (hP : P s) :
    Throughout step P s es ↔ EachStep step ok s es := by
  induction es generalizing s with
  | nil => exact ⟨fun _ => trivial, fun _ => hP⟩
  | cons e es ih =>
      have hiff := hstep s e hI hpossible.1 hP
      constructor
      · intro h
        have hnext := hiff.mp h.2.head
        exact ⟨hnext, (ih (hinv s e hI) hpossible.2 h.2.head).mp h.2⟩
      · intro h
        have hnext := hiff.mpr h.1
        exact ⟨hP, (ih (hinv s e hI) hpossible.2 hnext).mpr h.2⟩

/-- What each step keeps and what each state satisfies, for a run of possible steps. -/
theorem throughout_and_eachStep_iff {I : σ → Prop} {possible keeps : σ → ε → Prop}
    (hinv : ∀ s e, I s → possible s e → I (step s e))
    (hstep : ∀ s e, I s → possible s e → P s → (P (step s e) ∧ keeps s e ↔ ok s e))
    (hI : I s) (hpossible : EachStep step possible s es) (hP : P s) :
    Throughout step P s es ∧ EachStep step keeps s es ↔ EachStep step ok s es := by
  induction es generalizing s with
  | nil => exact ⟨fun _ => trivial, fun _ => ⟨hP, trivial⟩⟩
  | cons e es ih =>
      have hiff := hstep s e hI hpossible.1 hP
      have hnextI := hinv s e hI hpossible.1
      constructor
      · rintro ⟨hall, hkeeps⟩
        have hnext := hall.2.head
        exact ⟨hiff.mp ⟨hnext, hkeeps.1⟩, (ih hnextI hpossible.2 hnext).mp ⟨hall.2, hkeeps.2⟩⟩
      · intro h
        obtain ⟨hnext, hkeep⟩ := hiff.mpr h.1
        obtain ⟨hall, hkeeps⟩ := (ih hnextI hpossible.2 hnext).mpr h.2
        exact ⟨⟨hP, hall⟩, hkeep, hkeeps⟩

/-! ## Two runs -/

/-- The steps of a machine are seen in a part of its state that takes steps of its own. -/
theorem eachStep_project {τ : Type*} {step' : τ → ε → τ} {ok' : τ → ε → Prop} (f : σ → τ)
    (hf : ∀ s e, f (step s e) = step' (f s) e) :
    EachStep step (fun s e => ok' (f s) e) s es ↔ EachStep step' ok' (f s) es := by
  induction es generalizing s with
  | nil => exact Iff.rfl
  | cons e es ih =>
      rw [EachStep, EachStep, ih, hf]

/-- A run and the run of those events that are kept stay related, if an event that
is kept takes related states to related states, and one that is not does not
disturb the relation. -/
theorem related_of_filter {τ : Type*} {step' : τ → ε → τ} {R : σ → τ → Prop} (keep : ε → Bool)
    (hkept : ∀ s t e, R s t → ok s e → keep e = true → R (step s e) (step' t e))
    (hdropped : ∀ s t e, R s t → ok s e → keep e = false → R (step s e) t) {t : τ} (h : R s t)
    (hok : EachStep step ok s es) : R (run step s es) (run step' t (es.filter keep)) := by
  induction es generalizing s t with
  | nil => exact h
  | cons e es ih =>
      cases hkeep : keep e with
      | false =>
          rw [List.filter_cons_of_neg (by rw [hkeep]; exact Bool.false_ne_true)]
          exact ih (hdropped s t e h hok.1 hkeep) hok.2
      | true =>
          rw [List.filter_cons_of_pos hkeep]
          exact ih (hkept s t e h hok.1 hkeep) hok.2

end Runs

/-! ## Loops

A loop without a condition runs its body until the body breaks. How often it
may is bounded, and a loop that does not break within the bound has no result. -/
namespace Loops

variable {σ ρ : Type*} {body : σ → σ ⊕ ρ} {s : σ} {r : ρ} {n : ℕ}

def loop (body : σ → σ ⊕ ρ) : ℕ → σ → Option ρ
  | 0, _ => none
  | n + 1, s =>
      match body s with
      | .inl s => loop body n s
      | .inr r => some r

theorem loop_break (h : body s = .inr r) (n : ℕ) : loop body (n + 1) s = some r := by
  rw [loop, h]

theorem loop_continue {s' : σ} (h : body s = .inl s') (n : ℕ) :
    loop body (n + 1) s = loop body n s' := by
  rw [loop, h]

/-- A body that never breaks where `I` holds, and keeps it, loops for ever. -/
theorem loop_forever {I : σ → Prop} (hbody : ∀ s, I s → ∃ s', body s = .inl s' ∧ I s') (hs : I s)
    (n : ℕ) : loop body n s = none := by
  induction n generalizing s with
  | zero => rfl
  | succ n ih =>
      obtain ⟨s', hcontinue, hs'⟩ := hbody s hs
      rw [loop_continue hcontinue]
      exact ih hs'

/-- The loop breaks with this result, within some bound. -/
def Ends (body : σ → σ ⊕ ρ) (s : σ) (r : ρ) : Prop := ∃ n, loop body n s = some r

theorem ends_of_break {r' : ρ} (h : body s = .inr r') : Ends body s r ↔ r = r' := by
  constructor
  · rintro ⟨n, hn⟩
    cases n with
    | zero => exact absurd hn.symm (Option.some_ne_none r)
    | succ n => exact (Option.some.inj ((loop_break h n).symm.trans hn)).symm
  · rintro rfl
    exact ⟨1, loop_break h 0⟩

theorem ends_of_continue {s' : σ} (h : body s = .inl s') : Ends body s r ↔ Ends body s' r := by
  constructor
  · rintro ⟨n, hn⟩
    cases n with
    | zero => exact absurd hn.symm (Option.some_ne_none r)
    | succ n => exact ⟨n, (loop_continue h n).symm.trans hn⟩
  · rintro ⟨n, hn⟩
    exact ⟨n + 1, (loop_continue h n).trans hn⟩

end Loops
