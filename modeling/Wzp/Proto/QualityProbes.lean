import Wzp.Lib.Runs
import Wzp.Proto.QualityMoves

/-!
# Probes of the next tier

The tier rises by hysteresis or by a probe that succeeds, and only the first of the
two asks the bandwidth estimator. A probe that fails puts the next one off by a time
in the future, which a worse report takes back.
-/
namespace Wzp.Proto
open Runs

namespace AdaptiveQualityController
variable {c : AdaptiveQualityController} {observed : Tier} {now : ℕ} {report : QualityReport}
  {probe : ProbeState} {op : QualityOp}

/-! ## The guard of the estimator -/

def after (c : AdaptiveQualityController) (op : QualityOp) : AdaptiveQualityController :=
  (c.apply op).1

/-- The tier rises only to one that the estimator allows. -/
def Guarded (c : AdaptiveQualityController) (op : QualityOp) : Prop :=
  c.tier < (c.after op).tier → (c.after op).Allows (c.after op).tier

/-- The report is heard, leaves the probe in place, and is the last it needs. -/
structure Concludes (c : AdaptiveQualityController) (now : ℕ) (report : QualityReport)
    (probe : ProbeState) : Prop where
  free : c.forced = false
  active : c.probe = some probe
  stays : ¬ c.Falls (c.classify report)
  good : probe.badAfter (c.classify report) ≤ probeMaxBad
  long : probeDuration ≤ now - probe.started

/-- No probe is concluded of a tier that the estimator does not allow. -/
def ProbesAllowed (c : AdaptiveQualityController) (op : QualityOp) : Prop :=
  ∀ now report probe, op = .observe now report → c.Concludes now report probe →
    c.Allows probe.targetTier

theorem guarded_of_not_rises (h : ¬ c.tier < (c.after op).tier) : c.Guarded op :=
  fun hlt => absurd hlt h

theorem guarded_of_same (h : (c.after op).tier = c.tier) : c.Guarded op :=
  guarded_of_not_rises fun hlt => ne_of_lt hlt h.symm

theorem probesAllowed_of_not_observe (h : ∀ now report, op ≠ .observe now report) :
    c.ProbesAllowed op := fun now report _ heq => absurd heq (h now report)

theorem checkProbe_of_fits (hfree : c.forced = false) (hprobe : c.probe = some probe)
    (hfits : c.ProbeFits probe) (now : ℕ) (observed : Tier) :
    c.checkProbe now observed = c.evaluateProbe probe now observed := by
  have hidle := not_or.mp hfits.not_idle
  have hstop : ¬ (c.forced = true ∨ c.currentTier = .studio64k) := by
    rintro (hforced | htop)
    · exact absurd hforced (ne_true_of_eq_false hfree)
    · exact hidle.1 htop
  rw [checkProbe, if_neg hstop, if_neg hidle.2, hprobe]

/-- A probe that succeeds takes the tier to its target. -/
theorem evaluateProbe_succeeds (hgood : probe.badAfter observed ≤ probeMaxBad)
    (hlong : probeDuration ≤ now - probe.started) :
    (c.evaluateProbe probe now observed).1.currentTier = probe.targetTier := by
  change (if probe.badAfter observed > probeMaxBad then _ else
    if now - probe.started ≥ probeDuration then _ else _ :
      AdaptiveQualityController × Option QualityProfile).1.currentTier = _
  rw [if_neg (UInt32.not_lt.mpr hgood), if_pos hlong]

theorem observe_bwe (c : AdaptiveQualityController) (now : ℕ) (report : QualityReport) :
    (c.observe now report).1.bwe = c.bwe := by
  have hobserves := c.observe_observes now report
  generalize c.observe now report = result at hobserves
  cases hobserves with
  | forced hforced => rfl
  | moves hfree hmoves => rfl
  | probes hfree hcounted hprobes => cases hprobes <;> rfl

theorem after_concludes (hfit : c.Fit) (h : c.Concludes now report probe) :
    (c.after (.observe now report)).tier = probe.targetTier := by
  have htarget := (hfit probe h.active).target
  change (c.observe now report).1.currentTier = probe.targetTier
  obtain ⟨up, down, -, -, heq⟩ | ⟨tier, hmoves, -, heq⟩ := observe_cases h.free now report
  · rw [heq]
    have hfits := hfit.of_same (d := { c.remember report with
      consecutiveUp := up, consecutiveDown := down }) rfl rfl rfl probe h.active
    rw [checkProbe_of_fits (by exact h.free) (by exact h.active) hfits]
    exact evaluateProbe_succeeds h.good h.long
  · rw [heq]
    cases hmoves with
    | down hworse hthreshold => exact absurd ⟨hworse, hthreshold⟩ h.stays
    | up hbetter hthreshold hnext => exact Option.some.inj (hnext.symm.trans htarget)

theorem guarded_observe_iff (hfit : c.Fit) :
    c.Guarded (.observe now report) ↔ c.ProbesAllowed (.observe now report) := by
  have hbwe := c.observe_bwe now report
  constructor
  · rintro h now report probe ⟨⟩ hconcludes
    have htier := after_concludes hfit hconcludes
    have habove : c.tier < (c.after (.observe now report)).tier := by
      rw [htier]
      exact (hfit probe hconcludes.active).target_above
    have hallows := h habove
    rw [htier] at hallows
    intro targetSendBps hmem
    exact hallows targetSendBps (hbwe.trans hmem)
  · intro h habove targetSendBps hmem
    have hmem' : targetSendBps ∈ c.bwe := hbwe.symm.trans hmem
    cases hforced : c.forced with
    | true =>
        have hsame : (c.after (.observe now report)).tier = c.tier :=
          congrArg (fun result => result.1.currentTier) (observe_forced hforced now report)
        exact absurd hsame.symm (ne_of_lt habove)
    | false =>
        obtain ⟨up, down, hcounted, -, heq⟩ | ⟨tier, hmoves, hallows, heq⟩ :=
          observe_cases hforced now report
        · have hprobes := checkProbe_probes
            (c := { c.remember report with consecutiveUp := up, consecutiveDown := down }) hforced
            now (c.classify report)
          have hafter : c.after (.observe now report) = _ := congrArg Prod.fst heq
          rw [hafter] at habove ⊢
          generalize checkProbe _ now (c.classify report) = result at hprobes habove ⊢
          cases hprobes with
          | idle stableSince hidle => exact absurd rfl (ne_of_lt habove)
          | starts stableSince hidle hwired hnext hnotWorse => exact absurd rfl (ne_of_lt habove)
          | fails hactive hbad => exact absurd rfl (ne_of_lt habove)
          | goesOn hactive hgood => exact absurd rfl (ne_of_lt habove)
          | @succeeds probe hactive hgood hlong =>
              exact h now report probe rfl ⟨hforced, hactive, hcounted.not_falls, hgood, hlong⟩
                targetSendBps hmem'
        · have hafter : (c.after (.observe now report)).tier = tier :=
            congrArg (fun result => result.1.currentTier) heq
          rw [hafter] at habove ⊢
          exact hallows habove targetSendBps hmem'

theorem signalNetworkChange_not_rises (c : AdaptiveQualityController) (now : ℕ)
    (newContext : NetworkContext) : ¬ c.tier < (c.signalNetworkChange now newContext).tier := by
  obtain ⟨d, ⟨rfl, -⟩ | ⟨rfl, -⟩, heq⟩ := c.signalNetworkChange_cases now newContext
  · rw [heq]
    obtain ⟨htier, -⟩ := c.handOff_spec
    change ¬ c.currentTier < c.handOff.currentTier
    rw [htier]
    cases hlower : c.currentTier.downgrade with
    | none => exact lt_irrefl _
    | some lower =>
        have hrank := Tier.rank_downgrade hlower
        change ¬ c.currentTier.rank < lower.rank
        omega
  · rw [heq]
    exact lt_irrefl _

theorem guarded_iff (hfit : c.Fit) (op : QualityOp) : c.Guarded op ↔ c.ProbesAllowed op := by
  cases op with
  | observe now report => exact guarded_observe_iff hfit
  | signalNetworkChange now newContext =>
      exact iff_of_true (guarded_of_not_rises (c.signalNetworkChange_not_rises now newContext))
        (probesAllowed_of_not_observe fun _ _ h => by cases h)
  | resetCounters =>
      exact iff_of_true (guarded_of_same rfl) (probesAllowed_of_not_observe fun _ _ h => by cases h)
  | forceProfile profile =>
      exact iff_of_true (guarded_of_same rfl) (probesAllowed_of_not_observe fun _ _ h => by cases h)
  | bandwidth targetSendBps =>
      exact iff_of_true (guarded_of_same rfl) (probesAllowed_of_not_observe fun _ _ h => by cases h)

/-- The tier rises only to what the estimator allows, exactly in the runs that conclude
no probe of a tier beyond that. -/
theorem guarded_iff_probesAllowed (ops : List QualityOp) :
    EachStep after Guarded new ops ↔ EachStep after ProbesAllowed new ops := by
  have hnew : new.Fit := fit_of_none rfl
  constructor
  · exact EachStep.imp (P := Fit) (fun _ op hfit _ => fit_apply hfit op)
      (fun _ op hfit => (guarded_iff hfit op).mp) hnew
  · exact EachStep.imp (P := Fit) (fun _ op hfit _ => fit_apply hfit op)
      (fun _ op hfit => (guarded_iff hfit op).mpr) hnew

/-- A probe takes the tier up, though the estimator allows nothing. -/
theorem probe_not_guarded : ¬ EachStep after Guarded new [.bandwidth (some 0),
    .observe 0 ⟨0, 0, 0, 0⟩, .observe 30000000000 ⟨0, 0, 0, 0⟩,
    .observe 35000000000 ⟨0, 0, 0, 0⟩] := by
  intro h
  have hbps := h.2.2.2.1 (by decide +kernel) 0 (by decide +kernel)
  exact absurd hbps (by decide +kernel)

/-! ## Where a probe starts -/

/-- The stability that counts for the next probe begins with such a report. -/
structure Settles (c : AdaptiveQualityController) (observed : Tier) : Prop where
  free : c.forced = false
  below : c.currentTier ≠ .studio64k
  wired : c.networkContext.isCellular = false
  unprobed : c.probe = none
  unsettled : c.stableSince = none
  notWorse : c.currentTier ≤ observed

/-- What a report leads to without a probe. -/
inductive Waits (c : AdaptiveQualityController) (now : ℕ) (observed : Tier) :
    AdaptiveQualityController → Prop where
  | waits {d : AdaptiveQualityController} (unprobed : d.probe = none)
      (stable : d.stableSince = c.stableSince ∨ d.stableSince = none) : Waits c now observed d
  | settles {d : AdaptiveQualityController} (settles : c.Settles observed)
      (unprobed : d.probe = none) (stable : d.stableSince = some now) : Waits c now observed d
  | starts {d : AdaptiveQualityController} {since : ℕ} (settled : c.stableSince = some since)
      (long : probeStable ≤ now - since) : Waits c now observed d

theorem Waits.of_kept {d : AdaptiveQualityController} (hnone : c.probe = none)
    (hprobe : d.probe = c.probe) (hstable : d.stableSince = c.stableSince) :
    Waits c now observed d := .waits (hprobe.trans hnone) (Or.inl hstable)

/-- The counters and the history have no part in it. -/
theorem Waits.of_counted {up down : UInt32} {d : AdaptiveQualityController}
    (h : Waits { c.remember report with consecutiveUp := up, consecutiveDown := down } now observed
      d) : Waits c now observed d := by
  cases h with
  | waits hunprobed hstable => exact .waits hunprobed hstable
  | settles hsettles hunprobed hstable =>
      exact .settles ⟨hsettles.free, hsettles.below, hsettles.wired, hsettles.unprobed,
        hsettles.unsettled, hsettles.notWorse⟩ hunprobed hstable
  | starts hsettled hlong => exact .starts hsettled hlong

theorem startProbe_waits (hfree : c.forced = false) (hbelow : c.currentTier ≠ .studio64k)
    (hwired : c.networkContext.isCellular = false) (hprobe : c.probe = none) (now : ℕ) :
    Waits c now observed (c.startProbe now observed).1 := by
  unfold startProbe
  by_cases hnotWorse : observed ≥ c.currentTier
  · rw [if_pos hnotWorse]
    cases hsince : c.stableSince with
    | none =>
        have hshort : ¬ now - now ≥ probeStable := by
          rw [Nat.sub_self]
          decide
        dsimp only [Option.getD_none]
        rw [if_neg hshort]
        exact .settles ⟨hfree, hbelow, hwired, hprobe, hsince, hnotWorse⟩ hprobe rfl
    | some since =>
        dsimp only [Option.getD_some]
        split
        · next hlong => exact .starts hsince hlong
        · exact .of_kept hprobe rfl hsince.symm
  · rw [if_neg hnotWorse]
    exact .waits hprobe (Or.inr rfl)

theorem checkProbe_waits (hfree : c.forced = false) (hprobe : c.probe = none) (now : ℕ)
    (observed : Tier) : Waits c now observed (c.checkProbe now observed).1 := by
  unfold checkProbe
  by_cases htop : c.currentTier = .studio64k
  · rw [if_pos (Or.inr htop)]
    exact .of_kept hprobe rfl rfl
  rw [if_neg (not_or.mpr ⟨ne_true_of_eq_false hfree, htop⟩)]
  cases hwired : c.networkContext.isCellular with
  | true => exact .of_kept hprobe rfl rfl
  | false =>
      rw [if_neg Bool.false_ne_true, hprobe]
      exact startProbe_waits hfree htop hwired hprobe now

theorem observe_waits (hprobe : c.probe = none) (now : ℕ) (report : QualityReport) :
    Waits c now (c.classify report) (c.observe now report).1 := by
  cases hforced : c.forced with
  | true =>
      rw [observe_forced hforced]
      exact .of_kept hprobe rfl rfl
  | false =>
      obtain ⟨up, down, -, -, heq⟩ | ⟨tier, -, -, heq⟩ := observe_cases hforced now report
      · rw [heq]
        have hwaits := checkProbe_waits
          (c := { c.remember report with consecutiveUp := up, consecutiveDown := down }) hforced
          hprobe now (c.classify report)
        exact hwaits.of_counted
      · rw [heq]
        exact .waits rfl (Or.inr rfl)

/-- A report that takes the tier up leaves nothing of the stability. -/
theorem observe_rises (hfree : c.forced = false) (hrises : c.Rises (c.classify report)) (now : ℕ) :
    (c.observe now report).1.probe = none ∧ (c.observe now report).1.stableSince = none := by
  obtain ⟨up, down, -, hnot, -⟩ | ⟨tier, -, -, heq⟩ := observe_cases hfree now report
  · exact absurd hrises hnot
  · rw [heq]
    exact ⟨rfl, rfl⟩

theorem Moves.ne {tier : Tier} (h : Moves c observed tier) : tier ≠ c.currentTier := by
  cases h with
  | down hworse _ => exact ne_of_lt hworse
  | up _ _ hnext =>
      rintro rfl
      exact absurd (rank_upgradeOneStep hnext) (Nat.ne_of_lt (Nat.lt_succ_self _))

/-- The report ends the probe at the tier as it is. -/
def failsAt (c : AdaptiveQualityController) (now : ℕ) (report : QualityReport) : Bool :=
  c.probe.isSome && (c.observe now report).1.probe.isNone &&
    (c.observe now report).1.tier = c.tier

theorem observe_fails (hfit : c.Fit) (h : c.failsAt now report = true) :
    (c.observe now report).1.probe = none ∧
      (c.observe now report).1.stableSince = some (now + probeCooldown) := by
  unfold failsAt at h
  obtain ⟨⟨hsome, hnone⟩, htier⟩ : (c.probe.isSome = true ∧ _) ∧ _ := by
    rw [Bool.and_eq_true, Bool.and_eq_true, decide_eq_true_eq] at h
    exact h
  obtain ⟨old, hold⟩ := Option.isSome_iff_exists.mp hsome
  have hactive : c.probe.isNone = true → False := by
    rw [hold]
    exact Bool.noConfusion
  have hobserves := c.observe_observes now report
  generalize c.observe now report = result at hobserves hnone htier ⊢
  cases hobserves with
  | forced hforced => exact absurd hnone hactive
  | moves hfree hmoves =>
      exact absurd htier hmoves.ne
  | probes hfree hcounted hprobes =>
      cases hprobes with
      | idle stableSince hidle => exact absurd hnone hactive
      | starts stableSince hidle hwired hnext hnotWorse => exact Bool.noConfusion hnone
      | fails _ hbad => exact ⟨rfl, rfl⟩
      | succeeds hprobe hgood hlong =>
          exact absurd htier (ne_of_gt (hfit _ hprobe).target_above)
      | goesOn hprobe hgood => exact Bool.noConfusion hnone

end AdaptiveQualityController

/-! ## The cooldown -/

/-- A controller, when a probe last failed, and what time it is. -/
structure ProbingController where
  controller : AdaptiveQualityController
  failedAt : Option ℕ
  clock : ℕ

def QualityOp.time : QualityOp → Option ℕ
  | .observe now _ => some now
  | .signalNetworkChange now _ => some now
  | _ => none

namespace ProbingController
open AdaptiveQualityController
variable {s : ProbingController} {op : QualityOp} {now : ℕ} {report : QualityReport}

def start : ProbingController := ⟨.new, none, 0⟩

/-- A change of the network and a reset of the counters let a failure be forgotten. -/
def step (s : ProbingController) (op : QualityOp) : ProbingController :=
  let controller := s.controller.after op
  match op with
  | .observe now report =>
      { controller
        failedAt := if s.controller.failsAt now report then some now else s.failedAt
        clock := now }
  | .signalNetworkChange now _ => { controller, failedAt := none, clock := now }
  | .resetCounters => { s with controller, failedAt := none }
  | .forceProfile _ => { s with controller }
  | .bandwidth _ => { s with controller }

/-- Time does not go back. -/
def InTime (s : ProbingController) (op : QualityOp) : Prop := ∀ now ∈ op.time, s.clock ≤ now

/-- A probe starts only after the cooldown of the last one that failed. -/
def CoolsDown (s : ProbingController) (op : QualityOp) : Prop :=
  s.controller.probe = none → (s.step op).controller.probe ≠ none →
    ∀ failed ∈ s.failedAt, failed + probeCooldown ≤ (s.step op).clock

/-- The stability that counts for the next probe does not begin so soon after a failure
that it is long enough before the cooldown is over. -/
def SettlesLate (s : ProbingController) (op : QualityOp) : Prop :=
  ∀ now report, op = .observe now report → s.controller.Settles (s.controller.classify report) →
    ¬ s.controller.Rises (s.controller.classify report) →
      ∀ failed ∈ s.failedAt, failed + (probeCooldown - probeStable) ≤ now

/-- The cooldown is over, or what counts for the next probe begins late enough. -/
def Waiting (c : AdaptiveQualityController) (failed clock : ℕ) : Prop :=
  failed + probeCooldown ≤ clock ∨ c.probe = none ∧
    ∀ since ∈ c.stableSince, failed + (probeCooldown - probeStable) ≤ since

structure Cooling (s : ProbingController) : Prop where
  fit : s.controller.Fit
  waiting : ∀ failed ∈ s.failedAt, Waiting s.controller failed s.clock

/-- A report without a probe keeps what is waited for. -/
theorem waiting_observe {failed : ℕ} (hmem : failed ∈ s.failedAt)
    (hprobe : s.controller.probe = none)
    (hwaiting : ∀ since ∈ s.controller.stableSince,
      failed + (probeCooldown - probeStable) ≤ since)
    (hlate : s.SettlesLate (.observe now report)) :
    Waiting (s.controller.observe now report).1 failed now := by
  have hdrop : ∀ {d : AdaptiveQualityController}, d.probe = none → d.stableSince = none →
      Waiting d failed now := by
    intro d hprobe hstable
    refine Or.inr ⟨hprobe, fun since hsince => ?_⟩
    exact absurd (hstable.symm.trans hsince) (Option.some_ne_none since).symm
  have hwaits := observe_waits hprobe now report
  by_cases hrises : s.controller.forced = false ∧ s.controller.Rises (s.controller.classify report)
  · obtain ⟨hnone, hstable⟩ := observe_rises hrises.1 hrises.2 now
    exact hdrop hnone hstable
  generalize s.controller.observe now report = result at hwaits ⊢
  cases hwaits with
  | waits hunprobed hstable =>
      obtain hkept | hnone := hstable
      · refine Or.inr ⟨hunprobed, fun since hsince => hwaiting since ?_⟩
        exact hkept.symm.trans hsince
      · exact hdrop hunprobed hnone
  | settles hsettles hunprobed hstable =>
      refine Or.inr ⟨hunprobed, fun since hsince => ?_⟩
      obtain rfl := Option.some.inj (hstable.symm.trans hsince)
      exact hlate now report rfl hsettles (fun h => hrises ⟨hsettles.free, h⟩) failed hmem
  | @starts since hsettled hlong =>
      have hsince := hwaiting since hsettled
      have hle : probeStable ≤ probeCooldown := by decide
      have hpos : 0 < probeStable := by decide
      exact Or.inl (by omega)

theorem cooling_observe (h : s.Cooling) (htime : s.InTime (.observe now report))
    (hlate : s.SettlesLate (.observe now report)) :
    ∀ failed ∈ s.failedAt, Waiting (s.controller.observe now report).1 failed now := by
  intro failed hmem
  obtain hover | ⟨hprobe, hwaiting⟩ := h.waiting failed hmem
  · exact Or.inl (hover.trans (htime now rfl))
  · exact waiting_observe hmem hprobe hwaiting hlate

theorem cooling_step (h : s.Cooling) (htime : s.InTime op) (hlate : s.SettlesLate op) :
    (s.step op).Cooling := by
  have hfit : (s.step op).controller.Fit := by
    cases op <;> exact fit_apply h.fit _
  refine ⟨hfit, ?_⟩
  cases op with
  | observe now report =>
      intro failed hmem
      change failed ∈ (if s.controller.failsAt now report then some now else s.failedAt) at hmem
      change Waiting (s.controller.observe now report).1 failed now
      split at hmem
      · next hfails =>
          obtain rfl := Option.some.inj hmem
          obtain ⟨hprobe, hstable⟩ := observe_fails h.fit hfails
          refine Or.inr ⟨hprobe, fun since hsince => ?_⟩
          obtain rfl := Option.some.inj (hstable.symm.trans hsince)
          exact Nat.add_le_add_left (Nat.sub_le _ _) _
      · exact cooling_observe h htime hlate failed hmem
  | signalNetworkChange now newContext => exact fun failed hmem => by cases hmem
  | resetCounters => exact fun failed hmem => by cases hmem
  | forceProfile profile => exact h.waiting
  | bandwidth targetSendBps => exact h.waiting

theorem coolsDown_step (h : s.Cooling) (htime : s.InTime op) (hlate : s.SettlesLate op) :
    s.CoolsDown op := by
  intro hprobe hstarts failed hmem
  cases op with
  | observe now report =>
      obtain hover | ⟨hnone, -⟩ := cooling_observe h htime hlate failed hmem
      · exact hover
      · exact absurd hnone hstarts
  | signalNetworkChange now newContext => exact absurd rfl hstarts
  | resetCounters => exact absurd rfl hstarts
  | forceProfile profile => exact absurd hprobe hstarts
  | bandwidth targetSendBps => exact absurd hprobe hstarts

/-- No probe starts within the cooldown of one that failed, as long as no stability
begins too soon after it. -/
theorem coolsDown_of_settlesLate {ops : List QualityOp} (htime : EachStep step InTime start ops)
    (hlate : EachStep step SettlesLate start ops) : EachStep step CoolsDown start ops := by
  have hstart : start.Cooling := ⟨fit_of_none rfl, fun failed hmem => by cases hmem⟩
  have hboth : EachStep step (fun s op => s.InTime op ∧ s.SettlesLate op) start ops :=
    eachStep_and.mpr ⟨htime, hlate⟩
  exact hboth.imp (P := Cooling) (fun _ _ h hok => cooling_step h hok.1 hok.2)
    (fun _ _ h hok => coolsDown_step h hok.1 hok.2) hstart

instance : Decidable (s.InTime op) := inferInstanceAs (Decidable (∀ now ∈ op.time, s.clock ≤ now))

/-- A report with a round trip of so many times 4 ms and nothing lost. -/
def paced (seconds : ℕ) (rtt4ms : UInt8) : QualityOp :=
  .observe (seconds * 1000000000) ⟨0, rtt4ms, 0, 0⟩

theorem settlesLate_of_settled (h : s.controller.stableSince ≠ none) : s.SettlesLate op :=
  fun _ _ _ hsettles => absurd hsettles.unsettled h

theorem settlesLate_of_not_failed (h : s.failedAt = none) : s.SettlesLate op := by
  intro now report _ _ _ failed hmem
  exact absurd (h.symm.trans hmem) (Option.some_ne_none failed).symm

/-- A probe fails at 32 s, and the next starts at 122 s. -/
theorem coolsDown_probedTwice : EachStep step CoolsDown start
    [paced 0 0, paced 30 0, paced 31 21, paced 32 21, paced 122 21] := by
  refine coolsDown_of_settlesLate (by decide +kernel) ⟨?_, ?_, ?_, ?_, ?_, trivial⟩
  · exact settlesLate_of_not_failed rfl
  · exact settlesLate_of_not_failed (by decide +kernel)
  · exact settlesLate_of_not_failed (by decide +kernel)
  · exact settlesLate_of_not_failed (by decide +kernel)
  · exact settlesLate_of_settled (by decide +kernel)

/-- A worse report at 33 s takes the cooldown back, and the next probe starts 32 s after
the failure. -/
theorem cooldown_taken_back :
    EachStep step InTime start [paced 0 0, paced 30 0, paced 31 21, paced 32 21, paced 33 25,
        paced 34 21, paced 64 21] ∧
      ¬ EachStep step CoolsDown start [paced 0 0, paced 30 0, paced 31 21, paced 32 21,
        paced 33 25, paced 34 21, paced 64 21] := by
  refine ⟨by decide +kernel, fun h => ?_⟩
  have hover := h.2.2.2.2.2.2.1 (by decide +kernel) (by decide +kernel) 32000000000
    (by decide +kernel)
  exact absurd hover (by decide +kernel)

end ProbingController
end Wzp.Proto
