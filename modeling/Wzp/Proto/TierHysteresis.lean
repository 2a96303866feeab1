import Wzp.Lib.Runs
import Wzp.Proto.QualityMoves

/-!
# Changes of the tier

The tier follows the reports, but only after several of them in a row, or after a
probe. It is said of the reports that were heard how many that takes.
-/
namespace Wzp.Proto
open Runs

/-- A report as it was heard, with the tier at the time. -/
structure HeardReport where
  forced : Bool
  observed : Tier
  current : Tier

/-- The last `n` of what was heard, the latest first, are all such. -/
def Streak {α : Type*} (P : α → Prop) (n : ℕ) (heard : List α) : Prop :=
  n ≤ heard.length ∧ ∀ h ∈ heard.take n, P h

/-- A controller, the reports it has heard, and those since the last one that found no
probe. -/
structure WatchedController where
  controller : AdaptiveQualityController
  heard : List HeardReport
  since : ℕ × List Tier

namespace HeardReport

def Worse (h : HeardReport) : Prop := h.forced = false ∧ h.observed < h.current

def BetterThan (tier : Tier) (h : HeardReport) : Prop :=
  h.forced = false ∧ h.current = tier ∧ tier < h.observed

end HeardReport

namespace WatchedController

def start : WatchedController := ⟨.new, [], (0, [])⟩

def step (s : WatchedController) (op : QualityOp) : WatchedController :=
  let controller := (s.controller.apply op).1
  match op with
  | .observe now report =>
      let observed := s.controller.classify report
      { controller
        heard := ⟨s.controller.forced, observed, s.controller.currentTier⟩ :: s.heard
        since := if s.controller.probe.isNone then (now, []) else (s.since.1, observed :: s.since.2) }
  | _ => { s with controller }

/-- The one tier lost when WiFi is left for cellular. -/
def Preempts (s : WatchedController) (op : QualityOp) : Prop :=
  ∃ now newContext, op = .signalNetworkChange now newContext ∧
    s.controller.networkContext = .wiFi ∧ newContext.isCellular = true ∧
      s.controller.tier.downgrade = some (s.step op).controller.tier

def downReports (context : NetworkContext) : ℕ := if context.isCellular then 2 else 3

def upReports (tier : Tier) : ℕ := if tier < .good then 5 else 10

/-- The report concludes a probe of 5 s, on which at most one was below the target. -/
def ConcludesProbe (s : WatchedController) (op : QualityOp) : Prop :=
  ∃ now report, op = .observe now report ∧ s.controller.probe.isSome = true ∧
    5000000000 ≤ now - s.since.1 ∧
      ((s.controller.classify report :: s.since.2).filter
        (· < (s.step op).controller.tier)).length ≤ 1

/-- The tier falls and rises as is due, and not while it is forced. -/
structure Steady (s : WatchedController) (op : QualityOp) : Prop where
  falls : (s.step op).controller.tier < s.controller.tier → s.Preempts op ∨
    (∃ now report, op = .observe now report) ∧
      Streak HeardReport.Worse (downReports s.controller.networkContext) (s.step op).heard
  rises : s.controller.tier < (s.step op).controller.tier →
    s.controller.upgradeOneStep = some (s.step op).controller.tier ∧ (s.ConcludesProbe op ∨
      (∃ now report, op = .observe now report) ∧
        Streak (HeardReport.BetterThan s.controller.tier) (upReports s.controller.tier)
          (s.step op).heard)
  forced : s.controller.forced = true → (s.step op).controller.tier = s.controller.tier ∨
    s.Preempts op ∧ (s.step op).controller.forced = false

end WatchedController

/-! ## Streaks -/

section
variable {α : Type*} {P Q : α → Prop} {m n : ℕ} {heard : List α} {h : α}

theorem streak_zero : Streak P 0 heard := ⟨Nat.zero_le _, fun _ hmem => absurd hmem List.not_mem_nil⟩

theorem Streak.cons (hs : Streak P n heard) (hh : P h) : Streak P (n + 1) (h :: heard) := by
  refine ⟨Nat.succ_le_succ hs.1, fun a ha => ?_⟩
  rw [List.take_succ_cons, List.mem_cons] at ha
  obtain rfl | ha := ha
  · exact hh
  · exact hs.2 a ha

theorem Streak.mono (hs : Streak P n heard) (hmn : m ≤ n) : Streak P m heard :=
  ⟨hmn.trans hs.1, fun a ha => hs.2 a (List.take_subset_take_left heard hmn ha)⟩

end

namespace WatchedController
open AdaptiveQualityController
variable {s : WatchedController} {c : AdaptiveQualityController} {op : QualityOp}

/-! ## The counters count -/

/-- The counters count reports in a row, and a probe its bad ones. -/
structure Counts (s : WatchedController) : Prop where
  fit : s.controller.Fit
  forced : s.controller.forced = true →
    s.controller.consecutiveUp = 0 ∧ s.controller.consecutiveDown = 0
  down : Streak HeardReport.Worse s.controller.consecutiveDown.toNat s.heard
  up : Streak (HeardReport.BetterThan s.controller.tier) s.controller.consecutiveUp.toNat s.heard
  downSmall : s.controller.consecutiveDown.toNat < 3
  upSmall : s.controller.consecutiveUp.toNat < 10
  probe : s.controller.forced = false → ∀ probe ∈ s.controller.probe, probe.started = s.since.1 ∧
    probe.badReports.toNat = (s.since.2.filter (· < probe.targetTier)).length

theorem toNat_add_one {n : UInt32} {bound : ℕ} (h : n.toNat < bound) (hbound : bound ≤ 10) :
    (n + 1).toNat = n.toNat + 1 := by
  rw [UInt32.toNat_add, UInt32.toNat_one]
  omega

theorem downThreshold_eq (c : AdaptiveQualityController) :
    c.downgradeThreshold.toNat = downReports c.networkContext := by
  rw [downgradeThreshold, downReports]
  cases c.networkContext.isCellular <;> rfl

theorem upThreshold_eq (c : AdaptiveQualityController) :
    c.upThreshold.toNat = upReports c.currentTier := by
  unfold upThreshold upReports
  cases c.currentTier <;> rfl

theorem downReports_le (context : NetworkContext) : downReports context ≤ 3 := by
  cases context <;> decide

theorem upReports_le (tier : Tier) : upReports tier ≤ 10 := by
  cases tier <;> decide

/-- What the report adds to the reports in a row. -/
theorem streaks_counted {report : QualityReport} {up down : UInt32} (h : s.Counts)
    (hcounted : Counted (s.controller.remember report) (s.controller.classify report) up down) :
    let heard := ⟨false, s.controller.classify report, s.controller.currentTier⟩ :: s.heard
    (Streak HeardReport.Worse down.toNat heard ∧ down.toNat < 3) ∧
      Streak (HeardReport.BetterThan s.controller.tier) up.toNat heard ∧ up.toNat < 10 := by
  cases hcounted with
  | same hsame => exact ⟨⟨streak_zero, by decide⟩, streak_zero, by decide⟩
  | worse hworse hbelow =>
      have hbelow := UInt32.lt_iff_toNat_lt.mp hbelow
      rw [downThreshold_eq] at hbelow
      refine ⟨⟨?_, hbelow.trans_le (downReports_le _)⟩, streak_zero, by decide⟩
      change Streak _ (s.controller.consecutiveDown + 1).toNat _
      rw [toNat_add_one h.downSmall (by decide)]
      exact h.down.cons ⟨rfl, hworse⟩
  | better hbetter hbelow =>
      have hbelow := UInt32.lt_iff_toNat_lt.mp hbelow
      rw [upThreshold_eq] at hbelow
      refine ⟨⟨streak_zero, by decide⟩, ?_, hbelow.trans_le (upReports_le _)⟩
      change Streak _ (s.controller.consecutiveUp + 1).toNat _
      rw [toNat_add_one h.upSmall (by decide)]
      exact h.up.cons ⟨rfl, rfl, hbetter⟩
  | blocked hbetter => exact ⟨⟨streak_zero, by decide⟩, streak_zero, by decide⟩

/-- The reports below the target of a probe, with one more. -/
theorem badAfter_eq {probe : ProbeState} {since : List Tier} (observed : Tier)
    (hgood : probe.badReports ≤ probeMaxBad)
    (h : probe.badReports.toNat = (since.filter (· < probe.targetTier)).length) :
    (probe.badAfter observed).toNat =
      ((observed :: since).filter (· < probe.targetTier)).length := by
  have hgood : probe.badReports.toNat < 2 := Nat.lt_succ_of_le (UInt32.le_iff_toNat_le.mp hgood)
  unfold ProbeState.badAfter
  by_cases hbelow : observed < probe.targetTier
  · have hcons : (observed :: since).filter (· < probe.targetTier) =
        observed :: since.filter (· < probe.targetTier) :=
      List.filter_cons_of_pos (decide_eq_true hbelow)
    rw [if_pos hbelow, hcons, toNat_add_one hgood (by decide), h, List.length_cons]
  · have hcons : (observed :: since).filter (· < probe.targetTier) =
        since.filter (· < probe.targetTier) :=
      List.filter_cons_of_neg fun heq => hbelow (of_decide_eq_true heq)
    rw [if_neg hbelow, hcons, h]

theorem counts_probes {now : ℕ} {report : QualityReport} {up down : UInt32}
    {result : AdaptiveQualityController × Option QualityProfile} (h : s.Counts)
    (hfree : s.controller.forced = false) (hfit : result.1.Fit)
    (hcounted : Counted (s.controller.remember report) (s.controller.classify report) up down)
    (hprobes : Probes
      { s.controller.remember report with consecutiveUp := up, consecutiveDown := down } now
      (s.controller.classify report) result) :
    Counts ⟨result.1,
      ⟨s.controller.forced, s.controller.classify report, s.controller.currentTier⟩ :: s.heard,
      if s.controller.probe.isNone then (now, [])
        else (s.since.1, s.controller.classify report :: s.since.2)⟩ := by
  obtain ⟨⟨hdown, hdownSmall⟩, hup, hupSmall⟩ := streaks_counted h hcounted
  have hforced : ∀ {p : Prop}, s.controller.forced = true → p := by
    intro p htrue
    rw [hfree] at htrue
    exact absurd htrue Bool.false_ne_true
  rw [hfree]
  cases hprobes with
  | idle stableSince hidle =>
      refine ⟨hfit, hforced, hdown, hup, hdownSmall, hupSmall, fun _ probe hprobe => ?_⟩
      obtain hnone | hidle := hidle
      · have hsome : s.controller.probe = some probe := hprobe
        exact absurd (hsome.symm.trans hnone) (Option.some_ne_none probe)
      · exact absurd hidle (h.fit probe hprobe).not_idle
  | starts stableSince hidle hwired hnext hnotWorse =>
      refine ⟨hfit, hforced, hdown, hup, hdownSmall, hupSmall, fun _ probe hprobe => ?_⟩
      obtain rfl := Option.some.inj hprobe
      rw [show s.controller.probe = none from hidle]
      exact ⟨rfl, rfl⟩
  | fails hactive hbad =>
      exact ⟨hfit, hforced, hdown, hup, hdownSmall, hupSmall, fun _ probe hprobe => (nomatch hprobe)⟩
  | succeeds hactive hgood hlong =>
      exact ⟨hfit, hforced, hdown, streak_zero, hdownSmall, (by decide : 0 < 10),
        fun _ probe hprobe => (nomatch hprobe)⟩
  | @goesOn old hactive hgood =>
      refine ⟨hfit, hforced, hdown, hup, hdownSmall, hupSmall, fun _ probe hprobe => ?_⟩
      obtain rfl := Option.some.inj hprobe
      obtain ⟨hstarted, hbad⟩ := h.probe hfree old hactive
      rw [show s.controller.probe = some old from hactive]
      exact ⟨hstarted, badAfter_eq _ (h.fit old hactive).good hbad⟩

theorem counts_observe (h : s.Counts) (now : ℕ) (report : QualityReport) :
    (s.step (.observe now report)).Counts := by
  have hfit := fit_apply h.fit (.observe now report)
  have hobserves := s.controller.observe_observes now report
  change Counts ⟨(s.controller.observe now report).1,
    ⟨s.controller.forced, s.controller.classify report, s.controller.currentTier⟩ :: s.heard, _⟩
  change (s.controller.observe now report).1.Fit at hfit
  generalize s.controller.observe now report = result at hobserves hfit
  cases hobserves with
  | forced hforced =>
      obtain ⟨hup, hdown⟩ := h.forced hforced
      refine ⟨hfit, h.forced, ?_, ?_, h.downSmall, h.upSmall, fun hfree => ?_⟩
      · change Streak _ s.controller.consecutiveDown.toNat _
        rw [hdown]
        exact streak_zero
      · change Streak _ s.controller.consecutiveUp.toNat _
        rw [hup]
        exact streak_zero
      · exact absurd (hforced.symm.trans hfree) Bool.noConfusion
  | moves hfree hmoves =>
      exact ⟨hfit, fun _ => ⟨rfl, rfl⟩, streak_zero, streak_zero, (by decide : 0 < 3),
        (by decide : 0 < 10), fun _ probe hprobe => (nomatch hprobe)⟩
  | probes hfree hcounted hprobes => exact counts_probes h hfree hfit hcounted hprobes

theorem counts_step (h : s.Counts) (op : QualityOp) : (s.step op).Counts := by
  have hfit := fit_apply h.fit op
  cases op with
  | observe now report => exact counts_observe h now report
  | signalNetworkChange now newContext =>
      change (s.controller.signalNetworkChange now newContext).Fit at hfit
      change Counts ⟨s.controller.signalNetworkChange now newContext, s.heard, s.since⟩
      obtain ⟨d, ⟨rfl, -⟩ | ⟨rfl, -⟩, heq⟩ := s.controller.signalNetworkChange_cases now newContext
      · obtain ⟨-, -, hforced, hup, hdown⟩ := handOff_spec s.controller
        rw [heq] at hfit ⊢
        refine ⟨hfit, fun _ => ⟨hup, hdown⟩, ?_, ?_, ?_, ?_, fun _ probe hprobe => (nomatch hprobe)⟩
        all_goals dsimp only
        all_goals first | rw [hdown] | rw [hup]
        · exact streak_zero
        · exact streak_zero
        · decide
        · decide
      · rw [heq] at hfit ⊢
        exact ⟨hfit, h.forced, h.down, h.up, h.downSmall, h.upSmall,
          fun _ probe hprobe => (nomatch hprobe)⟩
  | resetCounters =>
      exact ⟨hfit, fun _ => ⟨rfl, rfl⟩, streak_zero, streak_zero, (by decide : 0 < 3),
        (by decide : 0 < 10), fun _ probe hprobe => (nomatch hprobe)⟩
  | forceProfile profile =>
      exact ⟨hfit, fun _ => ⟨rfl, rfl⟩, streak_zero, streak_zero, (by decide : 0 < 3),
        (by decide : 0 < 10), fun hfree => (nomatch hfree)⟩
  | bandwidth targetSendBps =>
      exact ⟨hfit, h.forced, h.down, h.up, h.downSmall, h.upSmall, h.probe⟩

theorem counts_start : start.Counts := by
  refine ⟨fit_of_none rfl, fun hforced => (nomatch hforced), streak_zero, streak_zero, by decide,
    by decide, fun _ probe hprobe => (nomatch hprobe)⟩

/-! ## Every change of the tier is due -/

theorem steady_of_same (hstep : (s.step op).controller = c) (htier : c.tier = s.controller.tier) :
    s.Steady op := by
  have hsame : (s.step op).controller.tier = s.controller.tier := by rw [hstep, htier]
  exact ⟨fun hlt => absurd hsame (ne_of_lt hlt), fun hlt => absurd hsame.symm (ne_of_lt hlt),
    fun _ => Or.inl hsame⟩

theorem steady_observe (h : s.Counts) (now : ℕ) (report : QualityReport) :
    s.Steady (.observe now report) := by
  have hobserves := s.controller.observe_observes now report
  have hstep : (s.step (.observe now report)).controller = (s.controller.observe now report).1 := rfl
  generalize s.controller.observe now report = result at hobserves hstep
  cases hobserves with
  | forced hforced => exact steady_of_same hstep rfl
  | @moves next hfree hmoves =>
      have htier : (s.step (.observe now report)).controller.tier = next := congrArg tier hstep
      have hnot : ¬ s.controller.forced = true := ne_true_of_eq_false hfree
      cases hmoves with
      | down hworse hthreshold =>
          have hle := UInt32.le_iff_toNat_le.mp hthreshold
          rw [downThreshold_eq] at hle
          change _ ≤ (s.controller.consecutiveDown + 1).toNat at hle
          rw [toNat_add_one h.downSmall (by decide)] at hle
          refine ⟨fun _ => Or.inr ⟨⟨now, report, rfl⟩, (h.down.cons ⟨hfree, hworse⟩).mono hle⟩,
            fun hlt => ?_, fun hforced => absurd hforced hnot⟩
          rw [htier] at hlt
          exact absurd hlt (not_lt.mpr hworse.le)
      | up hbetter hthreshold hnext =>
          have hle := UInt32.le_iff_toNat_le.mp hthreshold
          rw [upThreshold_eq] at hle
          change _ ≤ (s.controller.consecutiveUp + 1).toNat at hle
          rw [toNat_add_one h.upSmall (by decide)] at hle
          have hheard : HeardReport.BetterThan s.controller.tier
              ⟨s.controller.forced, s.controller.classify report, s.controller.currentTier⟩ :=
            ⟨hfree, rfl, hbetter⟩
          refine ⟨fun hlt => ?_, fun _ => ⟨?_, Or.inr ⟨⟨now, report, rfl⟩,
            (h.up.cons hheard).mono hle⟩⟩, fun hforced => absurd hforced hnot⟩
          · rw [htier] at hlt
            have hrank := rank_upgradeOneStep hnext
            rw [Tier.lt_iff_rank_lt, hrank] at hlt
            exact absurd hlt (Nat.not_lt.mpr (Nat.le_succ _))
          · rw [htier]
            exact hnext
  | probes hfree hcounted hprobes =>
      cases hprobes with
      | idle stableSince hidle => exact steady_of_same hstep rfl
      | starts stableSince hidle hwired hnext hnotWorse => exact steady_of_same hstep rfl
      | fails hactive hbad => exact steady_of_same hstep rfl
      | goesOn hactive hgood => exact steady_of_same hstep rfl
      | @succeeds probe hactive hgood hlong =>
          have htier : (s.step (.observe now report)).controller.tier = probe.targetTier :=
            congrArg tier hstep
          have hfit := h.fit probe hactive
          obtain ⟨hstarted, hbad⟩ := h.probe hfree probe hactive
          refine ⟨fun hlt => ?_, fun _ => ⟨?_, Or.inl ⟨now, report, rfl, ?_, ?_, ?_⟩⟩, fun hforced =>
            absurd (hforced.symm.trans hfree) Bool.noConfusion⟩
          · rw [htier] at hlt
            exact absurd hlt (not_lt.mpr hfit.target_above.le)
          · rw [htier]
            exact hfit.target
          · exact Option.isSome_iff_exists.mpr ⟨probe, hactive⟩
          · rw [← hstarted]
            exact hlong
          · rw [htier, ← badAfter_eq _ hfit.good hbad]
            exact UInt32.le_iff_toNat_le.mp hgood

theorem steady_networkChange (s : WatchedController) (now : ℕ) (newContext : NetworkContext) :
    s.Steady (.signalNetworkChange now newContext) := by
  have hstep : (s.step (.signalNetworkChange now newContext)).controller =
      s.controller.signalNetworkChange now newContext := rfl
  obtain ⟨d, ⟨rfl, hhands⟩ | ⟨rfl, -⟩, heq⟩ :=
    s.controller.signalNetworkChange_cases now newContext
  · obtain ⟨htier, -, hforced, -, -⟩ := handOff_spec s.controller
    rw [heq] at hstep
    have hnext : (s.step (.signalNetworkChange now newContext)).controller.tier =
        s.controller.currentTier.downgrade.getD s.controller.currentTier :=
      (congrArg tier hstep).trans htier
    cases hlower : s.controller.currentTier.downgrade with
    | none =>
        rw [hlower] at hnext
        exact steady_of_same rfl hnext
    | some lower =>
        rw [hlower] at hnext
        have hpreempts : s.Preempts (.signalNetworkChange now newContext) := by
          obtain ⟨hold, hnew⟩ := Bool.and_eq_true_iff.mp hhands
          exact ⟨now, newContext, rfl, of_decide_eq_true hold, hnew, hlower.trans (by rw [hnext]; rfl)⟩
        refine ⟨fun _ => Or.inl hpreempts, fun hlt => ?_, fun _ => Or.inr ⟨hpreempts, ?_⟩⟩
        · rw [hnext, Tier.lt_iff_rank_lt] at hlt
          have hrank := Tier.rank_downgrade hlower
          change s.controller.currentTier.rank < lower.rank at hlt
          omega
        · exact (congrArg AdaptiveQualityController.forced hstep).trans hforced
  · rw [heq] at hstep
    exact steady_of_same hstep rfl

/-- The tier falls and rises only as is due, in whatever order things happen. -/
theorem tier_steady (ops : List QualityOp) : EachStep step Steady start ops := by
  have hkept : ∀ s op, Counts s → Counts (step s op) := fun _ op h => counts_step h op
  refine eachStep_of_invariant hkept (fun s op h => ?_) counts_start
  cases op with
  | observe now report => exact steady_observe h now report
  | signalNetworkChange now newContext => exact steady_networkChange s now newContext
  | resetCounters => exact steady_of_same rfl rfl
  | forceProfile profile => exact steady_of_same rfl rfl
  | bandwidth targetSendBps => exact steady_of_same rfl rfl

/-- As long as the tier is forced, it does not change. -/
def Held (s : WatchedController) (op : QualityOp) : Prop :=
  s.controller.forced = true → (s.step op).controller.tier = s.controller.tier

/-- A handoff takes a forced controller one tier down. -/
theorem handOff_not_held : ¬ EachStep step Held start [.signalNetworkChange 0 .wiFi,
    .forceProfile .studio64k, .signalNetworkChange 1 .cellularLte] := by
  intro h
  exact absurd (h.2.2.1 rfl) (by decide)

end WatchedController
end Wzp.Proto
