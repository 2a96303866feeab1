import Mathlib.Tactic.Common

/-!
# The race of the two paths

The direct path to the peer and the dial of the relay run at the same time. The
first to end is waited for, the other is given a grace of one second. Times are
in milliseconds.
-/

/-! ## Futures with times

A future is known by when it completes, on a clock that starts with it, and by
what it completes with. -/
namespace Timed

variable {α : Type*}

/-- None is a future that never completes. -/
abbrev Future (α : Type*) := Option (ℕ × α)

/-- The future behind a pause. -/
def Future.after (pause : ℕ) (f : Future α) : Future α := f.map fun r => (pause + r.1, r.2)

/-- When the future or the limit ends, and what the future gave until then. One
that completes just at the limit is in time. -/
def timeout (limit : ℕ) (f : Future α) : ℕ × Option α :=
  match f with
  | some (t, a) => if t ≤ limit then (t, some a) else (limit, none)
  | none => (limit, none)

/-- The result of a task, if it is there within a grace from `start` on. -/
def withinGrace (start grace : ℕ) (task : ℕ × α) : Option α :=
  if task.1 ≤ start + grace then some task.2 else none

variable {limit t pause : ℕ} {f : Future α} {a : α}

theorem timeout_eq_some : (timeout limit f).2 = some a ↔ ∃ t, f = some (t, a) ∧ t ≤ limit := by
  cases f with
  | none => exact ⟨fun h => absurd h.symm (Option.some_ne_none a), fun ⟨_, h, _⟩ => by cases h⟩
  | some r =>
      obtain ⟨s, b⟩ := r
      by_cases hle : s ≤ limit
      · rw [timeout, if_pos hle]
        constructor
        · intro h
          exact ⟨s, by rw [Option.some.inj h], hle⟩
        · rintro ⟨t, h, -⟩
          obtain ⟨rfl, rfl⟩ := Prod.mk.inj (Option.some.inj h)
          rfl
      · rw [timeout, if_neg hle]
        constructor
        · intro h
          exact absurd h.symm (Option.some_ne_none a)
        · rintro ⟨t, h, ht⟩
          obtain ⟨rfl, rfl⟩ := Prod.mk.inj (Option.some.inj h)
          exact absurd ht hle

theorem timeout_of_le (h : t ≤ limit) : timeout limit (some (t, a)) = (t, some a) := if_pos h

theorem after_eq_some : Future.after pause f = some (t, a) ↔
    ∃ s, f = some (s, a) ∧ t = pause + s := by
  cases f with
  | none => exact ⟨fun h => absurd h.symm (Option.some_ne_none _), fun ⟨_, h, _⟩ => by cases h⟩
  | some r =>
      obtain ⟨s, b⟩ := r
      constructor
      · intro h
        obtain ⟨rfl, rfl⟩ := Prod.mk.inj (Option.some.inj h)
        exact ⟨s, rfl, rfl⟩
      · rintro ⟨u, h, rfl⟩
        obtain ⟨rfl, rfl⟩ := Prod.mk.inj (Option.some.inj h)
        rfl

end Timed

namespace Wzp.Client
open Timed

/-- How an attempt ends by itself. -/
inductive Ended where
  | ok
  | err (message : String)
  | panicked (message : String)
  deriving DecidableEq, Repr

inductive WinningPath where
  | direct
  | relay
  deriving DecidableEq, Repr

/-- The transports that are there after the race. -/
structure RaceResult where
  directTransport : Bool
  relayTransport : Bool
  localWinner : WinningPath
  deriving DecidableEq, Repr

namespace DualPath

def directLimit : ℕ := 4000
def directHeadStart : ℕ := 500
def relayLimit : ℕ := 5000
def grace : ℕ := 1000

/-- When the direct task ends, and how; none for its timeout. -/
def directTask (direct : Future Ended) : ℕ × Option Ended := timeout directLimit direct

/-- The relay is dialed behind the head start of the direct path. -/
def relayFut (relay : Future Ended) : Future Ended := relay.after directHeadStart

/-- The task waits for the head start as well, and then for the future. -/
def relayTask (relay : Future Ended) : ℕ × Option Ended :=
  ((500 + (timeout relayLimit (relayFut relay)).1), (timeout relayLimit (relayFut relay)).2)

/-- The direct task has ended first. -/
def directFirst : Option Ended → Except String Unit × WinningPath
  | some .ok => (.ok (), .direct)
  | some (.err message) => (.error message, .relay)
  | none => (.error "direct timeout", .relay)
  | some (.panicked _) => (.error "direct task panic", .relay)

/-- The relay task has ended first. -/
def relayFirst : Option Ended → Except String Unit × WinningPath
  | some .ok => (.ok (), .relay)
  | some (.err message) => (.error message, .direct)
  | none => (.error "relay timeout", .direct)
  | some (.panicked message) => (.error ("relay task panic: " ++ message), .direct)

/-- What the loser has to show for after the grace. -/
def loser (noResult : String) : Option (Option Ended) → Except String Unit
  | some (some .ok) => .ok ()
  | some (some (.err message)) => .error message
  | _ => .error noResult

def finish (direct relay : Except String Unit) (localWinner : WinningPath) :
    Except String RaceResult :=
  if !direct.isOk && !relay.isOk then .error "both paths failed: no media transport available"
  else .ok ⟨direct.isOk, relay.isOk, localWinner⟩

/-- The direct task is asked first, so it comes first if both end at one time. -/
def race (direct relay : Future Ended) : Except String RaceResult :=
  let d := directTask direct
  let r := relayTask relay
  if d.1 ≤ r.1 then
    finish (directFirst d.2).1
      (loser "relay: no result in grace period" (withinGrace d.1 grace r)) (directFirst d.2).2
  else
    finish (loser "direct: no result in grace period" (withinGrace r.1 grace d))
      (relayFirst r.2).1 (relayFirst r.2).2

/-! ## The promise -/

/-- The direct path comes up within its own limit. -/
def DirectWorks (direct : Future Ended) : Prop := (directTask direct).2 = some .ok

/-- The relay path comes up within its own limit. -/
def RelayWorks (relay : Future Ended) : Prop := (relayTask relay).2 = some .ok

/-- A relay that comes up is enough for a transport, and without a transport both
paths have failed or run into their own limits. -/
structure Delivers (direct relay : Future Ended) : Prop where
  relayEnough : RelayWorks relay → (race direct relay).isOk = true
  bothFailed : (race direct relay).isOk = false → ¬ DirectWorks direct ∧ ¬ RelayWorks relay

/-- A path that comes up does so before the grace behind the failure of the other
is over. -/
structure InGrace (direct relay : Future Ended) : Prop where
  behindFailure : ∀ td tr how, direct = some (td, how) → how ≠ .ok → td ≤ 4000 →
    relay = some (tr, .ok) → tr ≤ 4500 → tr ≤ td
  behindTimeout : ∀ tr, (∀ td how, direct = some (td, how) → 4000 < td) →
    relay = some (tr, .ok) → tr ≤ 4500 → tr ≤ 4000
  behindRelay : ∀ td tr how, direct = some (td, .ok) → td ≤ 4000 →
    relay = some (tr, how) → how ≠ .ok → td ≤ tr + 2000

/-! ## Who is in time -/

variable {direct relay : Future Ended} {td tr : ℕ} {how : Ended}

theorem directTask_inTime (h : td ≤ 4000) : directTask (some (td, how)) = (td, some how) :=
  timeout_of_le h

theorem directTask_late (h : ∀ td how, direct = some (td, how) → 4000 < td) :
    directTask direct = (4000, none) := by
  cases direct with
  | none => rfl
  | some r =>
      obtain ⟨td, how⟩ := r
      exact if_neg (Nat.not_le.mpr (h td how rfl))

theorem relayTask_inTime (h : tr ≤ 4500) :
    relayTask (some (tr, how)) = (1000 + tr, some how) := by
  have hfut : relayFut (some (tr, how)) = some (500 + tr, how) := rfl
  have hlimit : 500 + tr ≤ relayLimit := by
    rw [relayLimit]
    omega
  rw [relayTask, hfut, timeout_of_le hlimit, Prod.mk.injEq]
  exact ⟨by omega, rfl⟩

theorem relayTask_late (h : ∀ tr how, relay = some (tr, how) → 4500 < tr) :
    relayTask relay = (5500, none) := by
  cases relay with
  | none => rfl
  | some r =>
      obtain ⟨tr, how⟩ := r
      have hlt := h tr how rfl
      have hfut : relayFut (some (tr, how)) = some (500 + tr, how) := rfl
      have hlimit : ¬ 500 + tr ≤ relayLimit := by
        rw [relayLimit]
        omega
      rw [relayTask, hfut, timeout, if_neg hlimit]
      rfl

/-- Of the ways a task ends only one is a success. -/
theorem isOk_iff_ok {f : Option Ended → Except String Unit} (hok : (f (some .ok)).isOk = true)
    (hnone : (f none).isOk = false) (herr : ∀ message, (f (some (.err message))).isOk = false)
    (hpanicked : ∀ message, (f (some (.panicked message))).isOk = false) (e : Option Ended) :
    (f e).isOk = true ↔ e = some .ok := by
  constructor
  · intro h
    cases e with
    | none => exact absurd (hnone.symm.trans h) Bool.false_ne_true
    | some how =>
        cases how with
        | ok => rfl
        | err message => exact absurd ((herr message).symm.trans h) Bool.false_ne_true
        | panicked message => exact absurd ((hpanicked message).symm.trans h) Bool.false_ne_true
  · rintro rfl
    exact hok

theorem directFirst_isOk (e : Option Ended) : (directFirst e).1.isOk = true ↔ e = some .ok :=
  isOk_iff_ok (f := fun e => (directFirst e).1) rfl rfl (fun _ => rfl) (fun _ => rfl) e

theorem relayFirst_isOk (e : Option Ended) : (relayFirst e).1.isOk = true ↔ e = some .ok :=
  isOk_iff_ok (f := fun e => (relayFirst e).1) rfl rfl (fun _ => rfl) (fun _ => rfl) e

theorem loser_isOk (noResult : String) (start : ℕ) (task : ℕ × Option Ended) :
    (loser noResult (withinGrace start grace task)).isOk = true ↔
      task.1 ≤ start + 1000 ∧ task.2 = some .ok := by
  unfold withinGrace
  split
  · rename_i hle
    have hle' : task.1 ≤ start + 1000 := hle
    rw [and_iff_right hle']
    exact isOk_iff_ok (f := fun e => loser noResult (some e)) rfl rfl (fun _ => rfl) (fun _ => rfl) _
  · rename_i hlate
    exact ⟨fun h => absurd h Bool.false_ne_true, fun h => absurd h.1 hlate⟩

theorem finish_isOk (a b : Except String Unit) (winner : WinningPath) :
    (finish a b winner).isOk = true ↔ a.isOk = true ∨ b.isOk = true := by
  unfold finish
  cases a.isOk with
  | true => exact ⟨fun _ => Or.inl rfl, fun _ => rfl⟩
  | false =>
      cases b.isOk with
      | true => exact ⟨fun _ => Or.inr rfl, fun _ => rfl⟩
      | false =>
          refine ⟨fun h => absurd h Bool.false_ne_true, fun h => ?_⟩
          exact absurd (h.elim id id) Bool.false_ne_true

/-- A path counts if it ends first, or within the grace behind the other. -/
theorem race_isOk (direct relay : Future Ended) : (race direct relay).isOk = true ↔
    DirectWorks direct ∧ (directTask direct).1 ≤ (relayTask relay).1 + 1000 ∨
      RelayWorks relay ∧ (relayTask relay).1 ≤ (directTask direct).1 + 1000 := by
  unfold race DirectWorks RelayWorks
  dsimp only
  split
  · rename_i hfirst
    rw [finish_isOk, directFirst_isOk, loser_isOk]
    constructor
    · rintro (hdirect | hrelay)
      · exact Or.inl ⟨hdirect, by omega⟩
      · exact Or.inr ⟨hrelay.2, hrelay.1⟩
    · rintro (hdirect | hrelay)
      · exact Or.inl hdirect.1
      · exact Or.inr ⟨hrelay.2, hrelay.1⟩
  · rename_i hfirst
    rw [finish_isOk, loser_isOk, relayFirst_isOk]
    constructor
    · rintro (hdirect | hrelay)
      · exact Or.inl ⟨hdirect.2, hdirect.1⟩
      · exact Or.inr ⟨hrelay, by omega⟩
    · rintro (hdirect | hrelay)
      · exact Or.inl ⟨hdirect.2, hdirect.1⟩
      · exact Or.inr hrelay.1

/-! ## The promise is kept within the grace -/

theorem directWorks_iff : DirectWorks direct ↔ ∃ td, direct = some (td, .ok) ∧ td ≤ 4000 :=
  timeout_eq_some

theorem relayWorks_iff : RelayWorks relay ↔ ∃ tr, relay = some (tr, .ok) ∧ tr ≤ 4500 := by
  unfold RelayWorks relayTask
  dsimp only
  rw [timeout_eq_some]
  constructor
  · rintro ⟨t, ht, hle⟩
    obtain ⟨tr, hrelay, rfl⟩ := after_eq_some.mp ht
    rw [directHeadStart, relayLimit] at hle
    exact ⟨tr, hrelay, by omega⟩
  · rintro ⟨tr, hrelay, hle⟩
    refine ⟨500 + tr, after_eq_some.mpr ⟨tr, hrelay, rfl⟩, ?_⟩
    rw [relayLimit]
    omega

/-- Either path is enough exactly if it is not cut off by the grace. -/
theorem delivers_iff_not_cut : Delivers direct relay ↔
    (DirectWorks direct ∨ RelayWorks relay → (race direct relay).isOk = true) := by
  constructor
  · rintro h hworks
    cases hok : (race direct relay).isOk with
    | true => rfl
    | false =>
        obtain ⟨hdirect, hrelay⟩ := h.bothFailed hok
        exact absurd hworks (not_or.mpr ⟨hdirect, hrelay⟩)
  · intro h
    refine ⟨fun hrelay => h (Or.inr hrelay), fun hfailed => ?_⟩
    refine not_or.mp fun hworks => ?_
    exact absurd (hfailed.symm.trans (h hworks)) Bool.false_ne_true

theorem not_directWorks (h : how ≠ .ok) : ¬ DirectWorks (some (td, how)) := by
  intro hworks
  obtain ⟨_, heq, -⟩ := directWorks_iff.mp hworks
  exact h (Prod.mk.inj (Option.some.inj heq)).2

theorem not_relayWorks (h : how ≠ .ok) : ¬ RelayWorks (some (tr, how)) := by
  intro hworks
  obtain ⟨_, heq, -⟩ := relayWorks_iff.mp hworks
  exact h (Prod.mk.inj (Option.some.inj heq)).2

theorem inGrace_of_race (h : DirectWorks direct ∨ RelayWorks relay →
    DirectWorks direct ∧ (directTask direct).1 ≤ (relayTask relay).1 + 1000 ∨
      RelayWorks relay ∧ (relayTask relay).1 ≤ (directTask direct).1 + 1000) :
    InGrace direct relay := by
  refine ⟨?_, ?_, ?_⟩
  · rintro td tr how rfl hhow hle rfl htr
    have hnot : ¬ DirectWorks (some (td, how)) := not_directWorks hhow
    rw [directTask_inTime hle, relayTask_inTime htr] at h
    cases h (Or.inr (relayWorks_iff.mpr ⟨tr, rfl, htr⟩)) with
    | inl hdirect => exact absurd hdirect.1 hnot
    | inr hrelay =>
        have hreach : 1000 + tr ≤ td + 1000 := hrelay.2
        omega
  · rintro tr hlate rfl htr
    have hnot : ¬ DirectWorks direct := by
      intro hworks
      obtain ⟨td, heq, hle⟩ := directWorks_iff.mp hworks
      exact absurd (hlate td .ok heq) (Nat.not_lt.mpr hle)
    rw [directTask_late hlate, relayTask_inTime htr] at h
    cases h (Or.inr (relayWorks_iff.mpr ⟨tr, rfl, htr⟩)) with
    | inl hdirect => exact absurd hdirect.1 hnot
    | inr hrelay =>
        have hreach : 1000 + tr ≤ 4000 + 1000 := hrelay.2
        omega
  · rintro td tr how rfl hle rfl hhow
    by_cases htr : tr ≤ 4500
    · have hnot : ¬ RelayWorks (some (tr, how)) := not_relayWorks hhow
      rw [directTask_inTime hle, relayTask_inTime htr] at h
      cases h (Or.inl (directWorks_iff.mpr ⟨td, rfl, hle⟩)) with
      | inl hdirect =>
          have hreach : td ≤ 1000 + tr + 1000 := hdirect.2
          omega
      | inr hrelay => exact absurd hrelay.1 hnot
    · omega

theorem relay_counts (h : InGrace direct relay) (hrelay : RelayWorks relay) :
    DirectWorks direct ∧ (directTask direct).1 ≤ (relayTask relay).1 + 1000 ∨
      RelayWorks relay ∧ (relayTask relay).1 ≤ (directTask direct).1 + 1000 := by
  obtain ⟨tr, rfl, htr⟩ := relayWorks_iff.mp hrelay
  rw [relayTask_inTime htr]
  by_cases hends : ∃ td how, direct = some (td, how) ∧ td ≤ 4000
  · obtain ⟨td, how, rfl, hle⟩ := hends
    rw [directTask_inTime hle]
    by_cases hhow : how = .ok
    · subst hhow
      have hdirect : DirectWorks (some (td, .ok)) := directWorks_iff.mpr ⟨td, rfl, hle⟩
      by_cases hreach : td ≤ 1000 + tr + 1000
      · exact Or.inl ⟨hdirect, hreach⟩
      · refine Or.inr ⟨hrelay, ?_⟩
        change 1000 + tr ≤ td + 1000
        omega
    · have hreach := h.behindFailure td tr how rfl hhow hle rfl htr
      refine Or.inr ⟨hrelay, ?_⟩
      change 1000 + tr ≤ td + 1000
      omega
  · have hlate : ∀ td how, direct = some (td, how) → 4000 < td := by
      intro td how heq
      exact Nat.lt_of_not_le fun hle => hends ⟨td, how, heq, hle⟩
    have hreach := h.behindTimeout tr hlate rfl htr
    rw [directTask_late hlate]
    refine Or.inr ⟨hrelay, ?_⟩
    change 1000 + tr ≤ 4000 + 1000
    omega

theorem direct_counts (h : InGrace direct relay) (hdirect : DirectWorks direct) :
    DirectWorks direct ∧ (directTask direct).1 ≤ (relayTask relay).1 + 1000 ∨
      RelayWorks relay ∧ (relayTask relay).1 ≤ (directTask direct).1 + 1000 := by
  by_cases hrelay : RelayWorks relay
  · exact relay_counts h hrelay
  · obtain ⟨td, rfl, hle⟩ := directWorks_iff.mp hdirect
    refine Or.inl ⟨hdirect, ?_⟩
    rw [directTask_inTime hle]
    by_cases hends : ∃ tr how, relay = some (tr, how) ∧ tr ≤ 4500
    · obtain ⟨tr, how, rfl, htr⟩ := hends
      have hhow : how ≠ .ok := by
        rintro rfl
        exact hrelay (relayWorks_iff.mpr ⟨tr, rfl, htr⟩)
      have hreach := h.behindRelay td tr how rfl hle rfl hhow
      rw [relayTask_inTime htr]
      change td ≤ 1000 + tr + 1000
      omega
    · have hlate : ∀ tr how, relay = some (tr, how) → 4500 < tr := by
        intro tr how heq
        exact Nat.lt_of_not_le fun hle => hends ⟨tr, how, heq, hle⟩
      rw [relayTask_late hlate]
      change td ≤ 5500 + 1000
      omega

/-- The race delivers exactly if neither path is cut off in the grace behind the
failure of the other. -/
theorem race_delivers_iff (direct relay : Future Ended) :
    Delivers direct relay ↔ InGrace direct relay := by
  rw [delivers_iff_not_cut, race_isOk]
  constructor
  · exact inGrace_of_race
  · rintro h (hdirect | hrelay)
    · exact direct_counts h hdirect
    · exact relay_counts h hrelay

/-- The direct path is refused after 100 ms, and the handshake of the relay, which
would take 200 ms, is given up. -/
theorem refused_direct_cuts_relay :
    ¬ Delivers (some (100, .err "connection refused")) (some (200, .ok)) := by
  intro h
  have hrelay : RelayWorks (some (200, .ok)) := by
    rw [RelayWorks]
    decide
  exact absurd (h.relayEnough hrelay) (by decide)

end DualPath
end Wzp.Client
