import Mathlib.Tactic.SplitIfs
import Wzp.Proto.Quality

/-!
# What the quality controller does

Every operation of the controller, and what a report can lead to: a change of the
tier, or a move of the probe.
-/
namespace Wzp.Proto

/-- `bandwidth` is a change of what the attached estimator allows. -/
inductive QualityOp where
  | observe (now : ℕ) (report : QualityReport)
  | signalNetworkChange (now : ℕ) (newContext : NetworkContext)
  | resetCounters
  | forceProfile (profile : QualityProfile)
  | bandwidth (targetSendBps : Option UInt64)

namespace Tier
variable {s t : Tier}

theorem lt_iff_rank_lt : s < t ↔ s.rank < t.rank := Iff.rfl

theorem profile_injective : Function.Injective profile := by
  intro s t h
  have hcodec := congrArg QualityProfile.codec h
  cases s <;> cases t <;> first | rfl | exact absurd hcodec (by decide)

theorem rank_downgrade (h : s.downgrade = some t) : t.rank + 1 = s.rank := by
  cases s <;> cases h <;> rfl

end Tier

/-- The reports below its target, with one more. -/
def ProbeState.badAfter (probe : ProbeState) (observed : Tier) : UInt32 :=
  if observed < probe.targetTier then probe.badReports + 1 else probe.badReports

namespace AdaptiveQualityController
variable {c : AdaptiveQualityController} {observed : Tier} {now : ℕ}

theorem rank_upgradeOneStep {next : Tier} (h : c.upgradeOneStep = some next) :
    next.rank = c.currentTier.rank + 1 := by
  unfold upgradeOneStep at h
  split at h
  all_goals cases h
  all_goals
    rename_i htier
    rw [htier]
    rfl

/-- Only the highest tier has none above it. -/
theorem upgradeOneStep_isSome (h : c.currentTier < observed) :
    ∃ next, c.upgradeOneStep = some next := by
  unfold upgradeOneStep
  cases htier : c.currentTier with
  | studio64k =>
      rw [htier] at h
      cases observed <;> exact absurd h (by decide)
  | _ => exact ⟨_, rfl⟩

def upThreshold (c : AdaptiveQualityController) : UInt32 :=
  if c.currentTier ≥ .good then studioUpgradeThreshold else upgradeThreshold

/-- The estimator, if one is attached, allows 130% of the ceiling of the tier. -/
def Allows (c : AdaptiveQualityController) (tier : Tier) : Prop :=
  ∀ targetSendBps ∈ c.bwe, 130 * (tierCeilingBps tier).toNat ≤ 100 * targetSendBps.toNat

/-- The report takes the tier down by hysteresis. -/
def Falls (c : AdaptiveQualityController) (observed : Tier) : Prop :=
  observed < c.currentTier ∧ c.downgradeThreshold ≤ c.consecutiveDown + 1

/-- The report takes the tier up by hysteresis. -/
def Rises (c : AdaptiveQualityController) (observed : Tier) : Prop :=
  c.currentTier < observed ∧ c.upThreshold ≤ c.consecutiveUp + 1 ∧
    ∀ next ∈ c.upgradeOneStep, c.Allows next

/-- The ceilings are whole hundreds, and so the division in the guard is exact. -/
theorem required_exact (tier : Tier) :
    100 * (tierCeilingBps tier * 130 / 100).toNat = 130 * (tierCeilingBps tier).toNat := by
  cases tier <;> decide +kernel

theorem bweBlocks_eq_false {tier : Tier} : c.bweBlocks tier = false ↔ c.Allows tier := by
  unfold bweBlocks Allows
  cases c.bwe with
  | none => exact ⟨fun _ _ h => absurd h.symm (Option.some_ne_none _), fun _ => rfl⟩
  | some targetSendBps =>
      have hexact := required_exact tier
      constructor
      · intro h b hb
        obtain rfl := Option.some.inj hb
        have hle := UInt64.not_lt.mp (of_decide_eq_false h)
        rw [UInt64.le_iff_toNat_le] at hle
        omega
      · intro h
        have hle := h targetSendBps rfl
        refine decide_eq_false (UInt64.not_lt.mpr ?_)
        rw [UInt64.le_iff_toNat_le]
        omega

/-- The tier a report leads to by hysteresis. -/
inductive Moves (c : AdaptiveQualityController) (observed : Tier) : Tier → Prop where
  | down (worse : observed < c.currentTier)
      (threshold : c.downgradeThreshold ≤ c.consecutiveDown + 1) : Moves c observed observed
  | up {tier : Tier} (better : c.currentTier < observed)
      (threshold : c.upThreshold ≤ c.consecutiveUp + 1) (next : c.upgradeOneStep = some tier) :
      Moves c observed tier

/-- What a report leaves of the counters if the tier stays. -/
inductive Counted (c : AdaptiveQualityController) (observed : Tier) : UInt32 → UInt32 → Prop where
  | same (same : observed = c.currentTier) : Counted c observed 0 0
  | worse (worse : observed < c.currentTier)
      (below : c.consecutiveDown + 1 < c.downgradeThreshold) :
      Counted c observed 0 (c.consecutiveDown + 1)
  | better (better : c.currentTier < observed) (below : c.consecutiveUp + 1 < c.upThreshold) :
      Counted c observed (c.consecutiveUp + 1) 0
  /-- The estimator does not allow the next tier. -/
  | blocked (better : c.currentTier < observed) : Counted c observed 0 0

/-- A report is counted, or it moves the tier. -/
theorem tryTransition_cases (c : AdaptiveQualityController) (observed : Tier) :
    (∃ up down, Counted c observed up down ∧ ¬ c.Rises observed ∧ c.tryTransition observed =
        ({ c with consecutiveUp := up, consecutiveDown := down }, none)) ∨
      ∃ tier, Moves c observed tier ∧ (c.currentTier < tier → c.Allows tier) ∧
        c.tryTransition observed =
          ({ c with
              currentTier := tier
              currentProfile := tier.profile
              consecutiveUp := 0
              consecutiveDown := 0 }, some tier.profile) := by
  unfold tryTransition
  by_cases hsame : observed = c.currentTier
  · rw [if_pos hsame]
    have hnot : ¬ c.Rises observed := fun h => absurd hsame.symm (ne_of_lt h.1)
    exact Or.inl ⟨0, 0, .same hsame, hnot, rfl⟩
  rw [if_neg hsame]
  by_cases hworse : observed < c.currentTier
  · rw [if_pos hworse]
    by_cases hdown : c.downgradeThreshold ≤ c.consecutiveDown + 1
    · have hnot : ¬ c.currentTier < observed := not_lt.mpr hworse.le
      exact Or.inr ⟨observed, .down hworse hdown, fun hlt => absurd hlt hnot, if_pos hdown⟩
    · have hnot : ¬ c.Rises observed := fun h => absurd h.1 (not_lt.mpr hworse.le)
      exact Or.inl ⟨0, c.consecutiveDown + 1, .worse hworse (UInt32.not_le.mp hdown), hnot,
        if_neg hdown⟩
  · rw [if_neg hworse]
    have hbetter : c.currentTier < observed := lt_of_le_of_ne (not_lt.mp hworse) (Ne.symm hsame)
    by_cases hup : c.upThreshold ≤ c.consecutiveUp + 1
    · obtain ⟨next, hnext⟩ := upgradeOneStep_isSome hbetter
      have hnext' : AdaptiveQualityController.upgradeOneStep
          { c with consecutiveDown := 0, consecutiveUp := c.consecutiveUp + 1 } = some next := hnext
      dsimp only
      rw [hnext']
      dsimp only
      cases hblocked : c.bweBlocks next with
      | true =>
          have hnot : ¬ c.Rises observed := by
            intro h
            have hfree := bweBlocks_eq_false.mpr (h.2.2 next hnext)
            exact absurd (hblocked.symm.trans hfree) Bool.noConfusion
          exact Or.inl ⟨0, 0, .blocked hbetter, hnot, (if_pos hup).trans (if_pos hblocked)⟩
      | false =>
          exact Or.inr ⟨next, .up hbetter hup hnext, fun _ => bweBlocks_eq_false.mp hblocked,
            (if_pos hup).trans (if_neg (ne_true_of_eq_false hblocked))⟩
    · exact Or.inl ⟨c.consecutiveUp + 1, 0, .better hbetter (UInt32.not_le.mp hup),
        fun h => hup h.2.1, if_neg hup⟩

theorem Counted.not_falls {up down : UInt32} (h : Counted c observed up down) :
    ¬ c.Falls observed := by
  rintro ⟨hworse, hdown⟩
  cases h with
  | same hsame => exact absurd hsame (ne_of_lt hworse)
  | worse _ hbelow => exact absurd hdown (UInt32.not_le.mpr hbelow)
  | better hbetter _ => exact absurd hworse (not_lt.mpr hbetter.le)
  | blocked hbetter => exact absurd hworse (not_lt.mpr hbetter.le)

/-- What becomes of a probe and the time since which the tier is stable. -/
inductive Probes (c : AdaptiveQualityController) (now : ℕ) (observed : Tier) :
    AdaptiveQualityController × Option QualityProfile → Prop where
  | idle (stableSince : Option ℕ)
      (idle : c.probe = none ∨ c.currentTier = .studio64k ∨ c.networkContext.isCellular = true) :
      Probes c now observed ({ c with stableSince }, none)
  | starts {target : Tier} (stableSince : Option ℕ) (idle : c.probe = none)
      (wired : c.networkContext.isCellular = false) (next : c.upgradeOneStep = some target)
      (notWorse : c.currentTier ≤ observed) :
      Probes c now observed
        ({ c with stableSince, probe := some ⟨target, target.profile, now, 0, 0⟩ },
          some target.profile)
  | fails {probe : ProbeState} (active : c.probe = some probe)
      (bad : probeMaxBad < probe.badAfter observed) :
      Probes c now observed
        ({ c with probe := none, stableSince := some (now + probeCooldown) }, none)
  | succeeds {probe : ProbeState} (active : c.probe = some probe)
      (good : probe.badAfter observed ≤ probeMaxBad) (long : probeDuration ≤ now - probe.started) :
      Probes c now observed
        ({ c with
            probe := none
            currentTier := probe.targetTier
            currentProfile := probe.targetProfile
            consecutiveUp := 0
            stableSince := some now }, some probe.targetProfile)
  | goesOn {probe : ProbeState} (active : c.probe = some probe)
      (good : probe.badAfter observed ≤ probeMaxBad) :
      Probes c now observed
        ({ c with probe := some { probe with
            probeReports := probe.probeReports + 1
            badReports := probe.badAfter observed } }, none)

theorem evaluateProbe_probes {probe : ProbeState} (h : c.probe = some probe) (now : ℕ)
    (observed : Tier) : Probes c now observed (c.evaluateProbe probe now observed) := by
  change Probes c now observed (if probe.badAfter observed > probeMaxBad then _ else
    if now - probe.started ≥ probeDuration then _ else _)
  by_cases hbad : probe.badAfter observed > probeMaxBad
  · rw [if_pos hbad]
    exact .fails h hbad
  · have hgood : probe.badAfter observed ≤ probeMaxBad := UInt32.not_lt.mp hbad
    rw [if_neg hbad]
    split
    · next hlong =>
        have hsucceeds := Probes.succeeds h hgood hlong
        exact hsucceeds
    · exact .goesOn h hgood

theorem startProbe_probes (h : c.probe = none) (hwired : c.networkContext.isCellular = false)
    (now : ℕ) (observed : Tier) : Probes c now observed (c.startProbe now observed) := by
  unfold startProbe
  by_cases hnotWorse : observed ≥ c.currentTier
  · rw [if_pos hnotWorse]
    have hstay : Probes c now observed
        ({ c with stableSince := some (c.stableSince.getD now) }, none) := .idle _ (Or.inl h)
    dsimp only
    split
    · cases hnext : c.upgradeOneStep with
      | none =>
          have hnext' : AdaptiveQualityController.upgradeOneStep
              { c with stableSince := some (c.stableSince.getD now) } = none := hnext
          rw [hnext']
          exact hstay
      | some target =>
          have hnext' : AdaptiveQualityController.upgradeOneStep
              { c with stableSince := some (c.stableSince.getD now) } = some target := hnext
          rw [hnext']
          exact .starts _ h hwired hnext hnotWorse
    · exact hstay
  · rw [if_neg hnotWorse]
    exact .idle none (Or.inl h)

theorem checkProbe_probes (hfree : c.forced = false) (now : ℕ) (observed : Tier) :
    Probes c now observed (c.checkProbe now observed) := by
  unfold checkProbe
  split
  · next htop =>
      rw [hfree] at htop
      exact .idle c.stableSince (Or.inr (Or.inl (htop.resolve_left Bool.false_ne_true)))
  · split
    · next hcellular => exact .idle c.stableSince (Or.inr (Or.inr hcellular))
    · next hwired =>
        cases hprobe : c.probe with
        | none => exact startProbe_probes hprobe ((Bool.not_eq_true _).mp hwired) now observed
        | some probe => exact evaluateProbe_probes hprobe now observed

/-! ## A report -/

def remember (c : AdaptiveQualityController) (report : QualityReport) :
    AdaptiveQualityController :=
  { c with history :=
      (if c.history.length ≥ historySize then c.history.tail else c.history) ++ [report] }

/-- The tier a report is of. -/
def classify (c : AdaptiveQualityController) (report : QualityReport) : Tier :=
  Tier.classifyWithContext report c.networkContext

inductive Observes (c : AdaptiveQualityController) (now : ℕ) (report : QualityReport) :
    AdaptiveQualityController × Option QualityProfile → Prop where
  | forced (forced : c.forced = true) : Observes c now report (c.remember report, none)
  | moves {tier : Tier} (free : c.forced = false)
      (moves : Moves (c.remember report) (c.classify report) tier) :
      Observes c now report
        ({ c.remember report with
            currentTier := tier
            currentProfile := tier.profile
            consecutiveUp := 0
            consecutiveDown := 0
            probe := none
            stableSince := none }, some tier.profile)
  | probes {up down : UInt32} {result : AdaptiveQualityController × Option QualityProfile}
      (free : c.forced = false)
      (counted : Counted (c.remember report) (c.classify report) up down)
      (probes : Probes { c.remember report with consecutiveUp := up, consecutiveDown := down } now
        (c.classify report) result) : Observes c now report result

theorem observe_forced (hforced : c.forced = true) (now : ℕ) (report : QualityReport) :
    c.observe now report = (c.remember report, none) := if_pos hforced

/-- A report that does not move the tier goes to the probe. -/
theorem observe_cases (hfree : c.forced = false) (now : ℕ) (report : QualityReport) :
    (∃ up down, Counted (c.remember report) (c.classify report) up down ∧
        ¬ c.Rises (c.classify report) ∧ c.observe now report = checkProbe
          { c.remember report with consecutiveUp := up, consecutiveDown := down } now
          (c.classify report)) ∨
      ∃ tier, Moves (c.remember report) (c.classify report) tier ∧
        (c.currentTier < tier → c.Allows tier) ∧ c.observe now report =
          ({ c.remember report with
              currentTier := tier
              currentProfile := tier.profile
              consecutiveUp := 0
              consecutiveDown := 0
              probe := none
              stableSince := none }, some tier.profile) := by
  have hcontinue : ¬ c.forced = true := ne_true_of_eq_false hfree
  obtain ⟨up, down, hcounted, hrises, htry⟩ | ⟨tier, hmoves, hallows, htry⟩ :=
    tryTransition_cases (c.remember report) (c.classify report)
  · refine Or.inl ⟨up, down, hcounted, hrises, ?_⟩
    unfold remember classify at htry
    rw [observe]
    dsimp only
    rw [if_neg hcontinue, htry]
    rfl
  · refine Or.inr ⟨tier, hmoves, hallows, ?_⟩
    unfold remember classify at htry
    rw [observe]
    dsimp only
    rw [if_neg hcontinue, htry]
    rfl

theorem observe_observes (c : AdaptiveQualityController) (now : ℕ) (report : QualityReport) :
    Observes c now report (c.observe now report) := by
  cases hforced : c.forced with
  | true =>
      rw [observe_forced hforced]
      exact .forced hforced
  | false =>
      obtain ⟨up, down, hcounted, -, heq⟩ | ⟨tier, hmoves, -, heq⟩ :=
        observe_cases hforced now report
      · rw [heq]
        have hprobes := checkProbe_probes
          (c := { c.remember report with consecutiveUp := up, consecutiveDown := down }) hforced now
          (c.classify report)
        exact .probes hforced hcounted hprobes
      · rw [heq]
        exact .moves hforced hmoves

/-! ## Every operation -/

/-- The controller after an operation, and the profile that it announces. -/
def apply (c : AdaptiveQualityController) :
    QualityOp → AdaptiveQualityController × Option QualityProfile
  | .observe now report => c.observe now report
  | .signalNetworkChange now newContext => (c.signalNetworkChange now newContext, none)
  | .resetCounters => (c.resetCounters, none)
  | .forceProfile profile => (c.forceProfile profile, none)
  | .bandwidth targetSendBps => ({ c with bwe := targetSendBps }, none)

theorem handOff_spec (c : AdaptiveQualityController) :
    c.handOff.currentTier = c.currentTier.downgrade.getD c.currentTier ∧
      c.handOff.currentProfile = (c.currentTier.downgrade.map Tier.profile).getD c.currentProfile ∧
      c.handOff.forced = false ∧ c.handOff.consecutiveUp = 0 ∧ c.handOff.consecutiveDown = 0 := by
  unfold handOff
  cases c.currentTier.downgrade <;> exact ⟨rfl, rfl, rfl, rfl, rfl⟩

theorem handOff_context (c : AdaptiveQualityController) (newContext : NetworkContext) :
    handOff { c with networkContext := newContext } =
      { c.handOff with networkContext := newContext } := by
  unfold handOff
  dsimp only
  cases c.currentTier.downgrade <;> rfl

/-- A change of the network is a handoff, or leaves the tier as it is. -/
theorem signalNetworkChange_cases (c : AdaptiveQualityController) (now : ℕ)
    (newContext : NetworkContext) :
    ∃ d, (d = c.handOff ∧ c.networkContext.handsOff newContext = true ∨
        d = c ∧ c.networkContext.handsOff newContext = false) ∧
      c.signalNetworkChange now newContext = { d with
        networkContext := newContext
        probe := none
        stableSince := none
        fecBoostUntil := some (now + fecBoostDuration) } := by
  unfold signalNetworkChange
  dsimp only
  cases hhands : c.networkContext.handsOff newContext with
  | true =>
      rw [if_pos rfl, handOff_context c newContext]
      exact ⟨c.handOff, Or.inl ⟨rfl, rfl⟩, rfl⟩
  | false =>
      rw [if_neg Bool.false_ne_true]
      exact ⟨c, Or.inr ⟨rfl, rfl⟩, rfl⟩

/-- A probe is of the next tier, and is only made without cellular. -/
structure ProbeFits (c : AdaptiveQualityController) (probe : ProbeState) : Prop where
  target : c.upgradeOneStep = some probe.targetTier
  profile : probe.targetProfile = probe.targetTier.profile
  wired : c.networkContext.isCellular = false
  good : probe.badReports ≤ probeMaxBad

theorem ProbeFits.target_above {probe : ProbeState} (h : c.ProbeFits probe) :
    c.currentTier < probe.targetTier := by
  rw [Tier.lt_iff_rank_lt, rank_upgradeOneStep h.target]
  exact Nat.lt_succ_self _

theorem ProbeFits.not_idle {probe : ProbeState} (h : c.ProbeFits probe) :
    ¬ (c.currentTier = .studio64k ∨ c.networkContext.isCellular = true) := by
  rintro (htop | hcellular)
  · have htarget := h.target
    rw [upgradeOneStep, htop] at htarget
    exact nomatch htarget
  · rw [h.wired] at hcellular
    exact nomatch hcellular

/-- The probe, if there is one, fits. -/
def Fit (c : AdaptiveQualityController) : Prop := ∀ probe ∈ c.probe, c.ProbeFits probe

theorem Fit.of_same {d : AdaptiveQualityController} (h : c.Fit) (hprobe : d.probe = c.probe)
    (htier : d.currentTier = c.currentTier) (hcontext : d.networkContext = c.networkContext) :
    d.Fit := by
  intro probe hmem
  rw [hprobe] at hmem
  obtain ⟨htarget, hprofile, hwired, hgood⟩ := h probe hmem
  refine ⟨?_, hprofile, by rw [hcontext]; exact hwired, hgood⟩
  rw [← htarget, upgradeOneStep, upgradeOneStep, htier]

theorem fit_of_none (h : c.probe = none) : c.Fit := by
  intro probe hprobe
  rw [h] at hprobe
  exact nomatch hprobe

theorem fit_probes {result : AdaptiveQualityController × Option QualityProfile} (hfit : c.Fit)
    (h : Probes c now observed result) : result.1.Fit := by
  cases h with
  | idle stableSince hidle => exact hfit.of_same rfl rfl rfl
  | starts stableSince hidle hwired hnext hnotWorse =>
      intro probe hprobe
      obtain rfl := Option.some.inj hprobe
      exact ⟨hnext, rfl, hwired, (by decide : (0 : UInt32) ≤ probeMaxBad)⟩
  | fails hactive hbad => exact fit_of_none rfl
  | succeeds hactive hgood hlong => exact fit_of_none rfl
  | goesOn hactive hgood =>
      have hold := hfit _ hactive
      intro probe hprobe
      obtain rfl := Option.some.inj hprobe
      exact ⟨hold.target, hold.profile, hold.wired, hgood⟩

theorem fit_apply (hfit : c.Fit) (op : QualityOp) : (c.apply op).1.Fit := by
  cases op with
  | observe now report =>
      change (c.observe now report).1.Fit
      have hobserves := c.observe_observes now report
      generalize c.observe now report = result at hobserves
      cases hobserves with
      | forced hforced => exact hfit.of_same rfl rfl rfl
      | moves hfree hmoves => exact fit_of_none rfl
      | probes hfree hcounted hprobes =>
          refine fit_probes ?_ hprobes
          exact hfit.of_same rfl rfl rfl
  | signalNetworkChange now newContext => exact fit_of_none rfl
  | resetCounters => exact fit_of_none rfl
  | forceProfile profile => exact hfit.of_same rfl rfl rfl
  | bandwidth targetSendBps => exact hfit.of_same rfl rfl rfl

end AdaptiveQualityController
end Wzp.Proto
