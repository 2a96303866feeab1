import Mathlib.Order.Basic
import Mathlib.Order.Lattice
import Mathlib.Order.Defs.LinearOrder
import Wzp.Proto.Profile

/-!
# Quality tiers

A report of the network is classified into a tier. The controller follows the
reports with hysteresis: it goes down after a few worse reports, up one tier
after more of the better ones, and may probe the next tier when it is stable.
Instants are in nanoseconds.
-/
namespace Wzp.Proto

namespace QualityReport

def lossPercent (q : QualityReport) : Float32 := q.lossPct.toFloat32 / 255.0 * 100.0

def rttMs (q : QualityReport) : UInt16 := q.rtt4ms.toUInt16 * 4

end QualityReport

inductive Tier where
  | catastrophic
  | degraded
  | good
  | studio32k
  | studio48k
  | studio64k
  deriving DecidableEq, Repr

inductive NetworkContext where
  | wiFi
  | cellularLte
  | cellular5g
  | cellular3g
  | unknown
  deriving DecidableEq, Repr

def NetworkContext.isCellular : NetworkContext → Bool
  | .cellularLte | .cellular5g | .cellular3g => true
  | .wiFi | .unknown => false

/-- From WiFi to cellular. -/
def NetworkContext.handsOff (old new : NetworkContext) : Bool := old = .wiFi && new.isCellular

namespace Tier

/-- The discriminant, by which tiers are ordered. -/
def rank : Tier → ℕ
  | .catastrophic => 0
  | .degraded => 1
  | .good => 2
  | .studio32k => 3
  | .studio48k => 4
  | .studio64k => 5

theorem rank_injective : Function.Injective rank := by
  intro s t h
  cases s <;> cases t <;> first | rfl | exact absurd h (by decide)

instance : LinearOrder Tier := LinearOrder.lift' rank rank_injective

def profile : Tier → QualityProfile
  | .studio64k => .studio64k
  | .studio48k => .studio48k
  | .studio32k => .studio32k
  | .good => .good
  | .degraded => .degraded
  | .catastrophic => .catastrophic

def downgrade : Tier → Option Tier
  | .studio64k => some .studio48k
  | .studio48k => some .studio32k
  | .studio32k => some .good
  | .good => some .degraded
  | .degraded => some .catastrophic
  | .catastrophic => none

/-- The name as it is printed. -/
def debug : Tier → String
  | .catastrophic => "Catastrophic"
  | .degraded => "Degraded"
  | .good => "Good"
  | .studio32k => "Studio32k"
  | .studio48k => "Studio48k"
  | .studio64k => "Studio64k"

def classifyWithContext (report : QualityReport) (context : NetworkContext) : Tier :=
  let loss := report.lossPercent
  let rtt := report.rttMs
  if context.isCellular then
    -- no studio tiers on cellular
    if loss > 25.0 ∨ rtt > 500 then .catastrophic
    else if loss > 8.0 ∨ rtt > 300 then .degraded
    else .good
  else if loss ≥ 15.0 ∨ rtt ≥ 200 then .catastrophic
  else if loss ≥ 5.0 ∨ rtt ≥ 100 then .degraded
  else if loss ≥ 2.0 ∨ rtt ≥ 80 then .good
  else if loss ≥ 1.0 ∨ rtt ≥ 50 then .studio32k
  else if rtt ≥ 30 then .studio48k
  else .studio64k

end Tier

structure ProbeState where
  targetTier : Tier
  targetProfile : QualityProfile
  started : ℕ
  probeReports : UInt32
  badReports : UInt32

/-- `bwe` is what the attached estimator, if any, allows to be sent now in bits
per second. -/
structure AdaptiveQualityController where
  currentTier : Tier
  currentProfile : QualityProfile
  consecutiveUp : UInt32
  consecutiveDown : UInt32
  history : List QualityReport
  forced : Bool
  networkContext : NetworkContext
  fecBoostUntil : Option ℕ
  fecBoostAmount : Float32
  probe : Option ProbeState
  stableSince : Option ℕ
  bwe : Option UInt64

namespace AdaptiveQualityController

def downgradeThresholdDefault : UInt32 := 3
def cellularDowngradeThreshold : UInt32 := 2
def upgradeThreshold : UInt32 := 5
def studioUpgradeThreshold : UInt32 := 10
def historySize : ℕ := 20
def defaultFecBoost : Float32 := 0.2
def fecBoostDuration : ℕ := 10000000000
def probeStable : ℕ := 30000000000
def probeDuration : ℕ := 5000000000
def probeMaxBad : UInt32 := 1
def probeCooldown : ℕ := 60000000000

def new : AdaptiveQualityController where
  currentTier := .good
  currentProfile := .good
  consecutiveUp := 0
  consecutiveDown := 0
  history := []
  forced := false
  networkContext := .unknown
  fecBoostUntil := none
  fecBoostAmount := defaultFecBoost
  probe := none
  stableSince := none
  bwe := none

def tier (c : AdaptiveQualityController) : Tier := c.currentTier

def tierCeilingBps (tier : Tier) : UInt64 := (tier.profile.totalBitrateKbps * 1000.0).toUInt64

def downgradeThreshold (c : AdaptiveQualityController) : UInt32 :=
  if c.networkContext.isCellular then cellularDowngradeThreshold else downgradeThresholdDefault

def upgradeOneStep (c : AdaptiveQualityController) : Option Tier :=
  match c.currentTier with
  | .catastrophic => some .degraded
  | .degraded => some .good
  | .good => some .studio32k
  | .studio32k => some .studio48k
  | .studio48k => some .studio64k
  | .studio64k => none

/-- An attached estimator must allow 130% of the bitrate of the next tier. -/
def bweBlocks (c : AdaptiveQualityController) (nextTier : Tier) : Bool :=
  match c.bwe with
  | some targetSendBps => targetSendBps < tierCeilingBps nextTier * 130 / 100
  | none => false

def tryTransition (c : AdaptiveQualityController) (observedTier : Tier) :
    AdaptiveQualityController × Option QualityProfile :=
  if observedTier = c.currentTier then ({ c with consecutiveUp := 0, consecutiveDown := 0 }, none)
  else if observedTier < c.currentTier then
    let c := { c with consecutiveUp := 0, consecutiveDown := c.consecutiveDown + 1 }
    if c.consecutiveDown ≥ c.downgradeThreshold then
      -- straight down to the observed tier
      ({ c with
          currentTier := observedTier
          currentProfile := observedTier.profile
          consecutiveDown := 0 }, some observedTier.profile)
    else (c, none)
  else
    let c := { c with consecutiveDown := 0, consecutiveUp := c.consecutiveUp + 1 }
    let threshold := if c.currentTier ≥ .good then studioUpgradeThreshold else upgradeThreshold
    if c.consecutiveUp ≥ threshold then
      match c.upgradeOneStep with
      | some nextTier =>
          if c.bweBlocks nextTier then ({ c with consecutiveUp := 0 }, none)
          else
            ({ c with
                currentTier := nextTier
                currentProfile := nextTier.profile
                consecutiveUp := 0 }, some nextTier.profile)
      | none => (c, none)
    else (c, none)

/-- An active probe after one more report. -/
def evaluateProbe (c : AdaptiveQualityController) (probe : ProbeState) (now : ℕ)
    (observedTier : Tier) : AdaptiveQualityController × Option QualityProfile :=
  let probe := { probe with
    probeReports := probe.probeReports + 1
    badReports :=
      if observedTier < probe.targetTier then probe.badReports + 1 else probe.badReports }
  if probe.badReports > probeMaxBad then
    ({ c with probe := none, stableSince := some (now + probeCooldown) }, none)
  else if now - probe.started ≥ probeDuration then
    ({ c with
        probe := none
        currentTier := probe.targetTier
        currentProfile := probe.targetProfile
        consecutiveUp := 0
        stableSince := some now }, some probe.targetProfile)
  else ({ c with probe := some probe }, none)

/-- Without a probe one may start, after long enough a time without a report
below the current tier. -/
def startProbe (c : AdaptiveQualityController) (now : ℕ) (observedTier : Tier) :
    AdaptiveQualityController × Option QualityProfile :=
  if observedTier ≥ c.currentTier then
    let stableSince := c.stableSince.getD now
    let c := { c with stableSince := some stableSince }
    if now - stableSince ≥ probeStable then
      match c.upgradeOneStep with
      | some next => ({ c with probe := some ⟨next, next.profile, now, 0, 0⟩ }, some next.profile)
      | none => (c, none)
    else (c, none)
  else ({ c with stableSince := none }, none)

def checkProbe (c : AdaptiveQualityController) (now : ℕ) (observedTier : Tier) :
    AdaptiveQualityController × Option QualityProfile :=
  if c.forced ∨ c.currentTier = .studio64k then (c, none)
  else if c.networkContext.isCellular then (c, none)
  else
    match c.probe with
    | some probe => c.evaluateProbe probe now observedTier
    | none => c.startProbe now observedTier

/-- The profile to use from now on, if it changes. -/
def observe (c : AdaptiveQualityController) (now : ℕ) (report : QualityReport) :
    AdaptiveQualityController × Option QualityProfile :=
  let history := if c.history.length ≥ historySize then c.history.tail else c.history
  let c := { c with history := history ++ [report] }
  if c.forced then (c, none)
  else
    let observed := Tier.classifyWithContext report c.networkContext
    match c.tryTransition observed with
    | (c, some profile) => ({ c with probe := none, stableSince := none }, some profile)
    | (c, none) => c.checkProbe now observed

def forceProfile (c : AdaptiveQualityController) (profile : QualityProfile) :
    AdaptiveQualityController :=
  { c with currentProfile := profile, forced := true, consecutiveUp := 0, consecutiveDown := 0 }

/-- One tier down ahead of any report, if WiFi is left for cellular. -/
def handOff (c : AdaptiveQualityController) : AdaptiveQualityController :=
  let c := match c.currentTier.downgrade with
    | some lowerTier => { c with currentTier := lowerTier, currentProfile := lowerTier.profile }
    | none => c
  { c with consecutiveUp := 0, consecutiveDown := 0, forced := false }

def signalNetworkChange (c : AdaptiveQualityController) (now : ℕ) (newContext : NetworkContext) :
    AdaptiveQualityController :=
  let old := c.networkContext
  let c := { c with networkContext := newContext }
  let c := if old.handsOff newContext then c.handOff else c
  { c with probe := none, stableSince := none, fecBoostUntil := some (now + fecBoostDuration) }

def resetCounters (c : AdaptiveQualityController) : AdaptiveQualityController :=
  { c with consecutiveUp := 0, consecutiveDown := 0, probe := none, stableSince := none }

end AdaptiveQualityController
end Wzp.Proto
