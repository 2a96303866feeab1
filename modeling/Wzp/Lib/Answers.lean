import Wzp.Lib.Runs

/-!
# Machines that answer

A machine answers each call it takes, or fails at it. The answers of a run are compared
with those of a simpler machine that never fails.
-/
namespace Answers
open Runs

variable {σ τ ε ρ : Type*} (call : σ → ε → Option (σ × ρ)) (spec : τ → ε → τ × ρ)

/-- The last state and the answers, if no call fails. -/
def answers : σ → List ε → Option (σ × List ρ)
  | s, [] => some (s, [])
  | s, e :: es =>
      (call s e).bind fun r => (answers r.1 es).map fun rest => (rest.1, r.2 :: rest.2)

def specAnswers : τ → List ε → τ × List ρ
  | t, [] => (t, [])
  | t, e :: es =>
      let rest := specAnswers (spec t e).1 es
      (rest.1, (spec t e).2 :: rest.2)

variable {call spec} {R : σ → τ → Prop} {ok : τ → ε → Prop} {s : σ} {t : τ}

/-- A machine that answers each call as the simpler one does answers each run so. -/
theorem answers_refine
    (hstep : ∀ s t e, R s t → ok t e →
      ∃ s', call s e = some (s', (spec t e).2) ∧ R s' (spec t e).1)
    (hR : R s t) {es : List ε} (hok : EachStep (fun t e => (spec t e).1) ok t es) :
    ∃ s', answers call s es = some (s', (specAnswers spec t es).2) ∧
      R s' (specAnswers spec t es).1 := by
  induction es generalizing s t with
  | nil => exact ⟨s, rfl, hR⟩
  | cons e es ih =>
      obtain ⟨s₁, hcall, hnext⟩ := hstep s t e hR hok.1
      obtain ⟨s₂, hrest, hlast⟩ := ih hnext hok.2
      refine ⟨s₂, ?_, hlast⟩
      rw [answers, hcall, Option.bind_some, hrest]
      rfl

theorem answers_refine_all
    (hstep : ∀ s t e, R s t → ∃ s', call s e = some (s', (spec t e).2) ∧ R s' (spec t e).1)
    (hR : R s t) (es : List ε) :
    ∃ s', answers call s es = some (s', (specAnswers spec t es).2) ∧
      R s' (specAnswers spec t es).1 :=
  answers_refine (fun s t e h (_ : True) => hstep s t e h) hR
    (eachStep_of_forall fun _ _ _ => trivial)

/-- A machine over blocks that may be cut anywhere answers the blocks as it does the whole. -/
theorem answers_flatten {α β : Type*} {call : σ → List α → Option (σ × List β)}
    {ok : List α → Prop} (hnil : ∀ s, call s [] = some (s, []))
    (hsplit : ∀ s x y, ok x → ∃ s' out, call s x = some (s', out) ∧
      call s (x ++ y) = (call s' y).map fun r => (r.1, out ++ r.2))
    (s : σ) {blocks : List (List α)} (hok : ∀ block ∈ blocks, ok block) :
    ∃ s' outs, answers call s blocks = some (s', outs) ∧
      call s blocks.flatten = some (s', outs.flatten) := by
  induction blocks generalizing s with
  | nil => exact ⟨s, [], rfl, hnil s⟩
  | cons x rest ih =>
      obtain ⟨s₁, out, hcall, happend⟩ := hsplit s x rest.flatten (hok x List.mem_cons_self)
      obtain ⟨s₂, outs, hrest, hwhole⟩ :=
        ih s₁ fun block hblock => hok block (List.mem_cons_of_mem x hblock)
      refine ⟨s₂, out :: outs, ?_, ?_⟩
      · rw [answers, hcall, Option.bind_some, hrest]
        rfl
      · rw [List.flatten_cons, happend, hwhole]
        rfl

end Answers
