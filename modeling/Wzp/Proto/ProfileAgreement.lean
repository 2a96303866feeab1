import Wzp.Lib.Runs
import Wzp.Proto.QualityMoves

/-!
# The profile of the encoder

An encoder adopts the profiles that the controller announces and those that it is
forced to.
-/
namespace Wzp.Proto
open Runs

structure TunedEncoder where
  controller : AdaptiveQualityController
  encoder : QualityProfile

namespace TunedEncoder

def start : TunedEncoder := ⟨.new, AdaptiveQualityController.new.currentProfile⟩

def step (s : TunedEncoder) (op : QualityOp) : TunedEncoder :=
  let (controller, announced) := s.controller.apply op
  match op with
  | .forceProfile profile => ⟨controller, profile⟩
  | _ => ⟨controller, announced.getD s.encoder⟩

/-- Unless a probe is under way, the encoder is on the profile of the controller, which
is that of its tier unless it is forced. -/
structure Agrees (s : TunedEncoder) : Prop where
  encoder : s.controller.probe = none → s.encoder = s.controller.currentProfile
  tier : s.controller.forced = false → s.controller.currentProfile = s.controller.tier.profile

/-- No probe ends without the encoder being told, and the tier is not changed without. -/
def Announced (s : TunedEncoder) : QualityOp → Prop
  | .observe _ report => s.controller.forced = false → ∀ probe ∈ s.controller.probe,
      probe.badAfter (s.controller.classify report) ≤ AdaptiveQualityController.probeMaxBad
  | .signalNetworkChange _ newContext =>
      (s.controller.forced = false → s.controller.probe = none) ∧
        (s.controller.networkContext.handsOff newContext = true →
          s.controller.currentProfile =
            (s.controller.tier.downgrade.getD s.controller.tier).profile)
  | .resetCounters => s.controller.forced = false → s.controller.probe = none
  | .forceProfile _ => True
  | .bandwidth _ => True

/-- What the encoder is on in any case. While a probe is under way, each worse report
in a row is a bad one. -/
structure Tracks (s : TunedEncoder) : Prop where
  fit : s.controller.Fit
  forced : s.controller.forced = true → s.encoder = s.controller.currentProfile
  probing : s.controller.forced = false → ∀ probe ∈ s.controller.probe,
    s.encoder = probe.targetProfile
  down : ∀ probe ∈ s.controller.probe, s.controller.consecutiveDown ≤ probe.badReports

end TunedEncoder

namespace AdaptiveQualityController
variable {c : AdaptiveQualityController} {probe : ProbeState} {observed : Tier} {now : ℕ}

/-- The profile of a probe is not that of the tier. -/
theorem ProbeFits.profile_ne (h : c.ProbeFits probe) :
    probe.targetProfile ≠ c.currentTier.profile := by
  intro heq
  rw [h.profile] at heq
  exact absurd (Tier.profile_injective heq) (ne_of_gt h.target_above)

/-- Reports that are not worse than the target are not counted. -/
theorem badAfter_of_above (h : c.ProbeFits probe) (hbetter : c.currentTier < observed) :
    probe.badAfter observed = probe.badReports := by
  refine if_neg (not_lt.mpr ?_)
  have hrank := rank_upgradeOneStep h.target
  rw [Tier.lt_iff_rank_lt] at hbetter
  exact (Nat.le_of_eq hrank).trans hbetter

theorem badAfter_of_below (h : c.ProbeFits probe) (hworse : observed < c.currentTier) :
    probe.badAfter observed = probe.badReports + 1 := if_pos (hworse.trans h.target_above)

theorem add_one_le_add_one {a b : UInt32} (hab : a ≤ b) (hb : b ≤ probeMaxBad) : a + 1 ≤ b + 1 := by
  have hab := UInt32.le_iff_toNat_le.mp hab
  have hb := UInt32.le_iff_toNat_le.mp hb
  have hmax : probeMaxBad.toNat = 1 := rfl
  rw [UInt32.le_iff_toNat_le, UInt32.toNat_add, UInt32.toNat_add, UInt32.toNat_one]
  omega

/-- During a probe the tier does not change on a report that is one too many. -/
theorem good_of_moves {tier : Tier} (hfit : c.ProbeFits probe)
    (hdown : c.consecutiveDown ≤ probe.badReports) (h : Moves c observed tier) :
    probe.badAfter observed ≤ probeMaxBad := by
  cases h with
  | up hbetter hup hnext =>
      rw [badAfter_of_above hfit hbetter]
      exact hfit.good
  | down hworse hthreshold =>
      -- three in a row are two too many for the probe
      have hthree : c.downgradeThreshold = 3 := by
        rw [downgradeThreshold, hfit.wired]
        rfl
      rw [hthree] at hthreshold
      have hle := UInt32.le_iff_toNat_le.mp (add_one_le_add_one hdown hfit.good)
      have hgood := UInt32.le_iff_toNat_le.mp hfit.good
      have hthreshold := UInt32.le_iff_toNat_le.mp hthreshold
      have hmax : probeMaxBad.toNat = 1 := rfl
      have hthree' : (3 : UInt32).toNat = 3 := rfl
      rw [UInt32.toNat_add, UInt32.toNat_add, UInt32.toNat_one] at hle
      rw [UInt32.toNat_add, UInt32.toNat_one] at hthreshold
      omega

end AdaptiveQualityController
namespace TunedEncoder
open AdaptiveQualityController
variable {s : TunedEncoder} {c : AdaptiveQualityController} {op : QualityOp}

/-! ## What is kept -/

theorem down_le_probes {observed : Tier} {now : ℕ} {up down : UInt32}
    {result : AdaptiveQualityController × Option QualityProfile} (hfit : c.Fit)
    (hdown : ∀ probe ∈ c.probe, c.consecutiveDown ≤ probe.badReports)
    (hcounted : Counted c observed up down)
    (h : Probes { c with consecutiveUp := up, consecutiveDown := down } now observed result) :
    ∀ probe ∈ result.1.probe, result.1.consecutiveDown ≤ probe.badReports := by
  cases h with
  | idle stableSince hidle =>
      intro probe hprobe
      obtain hnone | hidle := hidle
      · rw [hnone] at hprobe
        exact nomatch hprobe
      · exact absurd hidle (hfit probe hprobe).not_idle
  | starts stableSince hidle hwired hnext hnotWorse =>
      intro probe hprobe
      obtain rfl := Option.some.inj hprobe
      cases hcounted with
      | worse hworse => exact absurd hnotWorse (not_le.mpr hworse)
      | _ => exact UInt32.le_refl 0
  | fails hactive hbad => exact fun probe hprobe => nomatch hprobe
  | succeeds hactive hgood hlong => exact fun probe hprobe => nomatch hprobe
  | @goesOn old hactive hgood =>
      intro probe hprobe
      obtain rfl := Option.some.inj hprobe
      have hold := hfit old hactive
      change down ≤ old.badAfter observed
      cases hcounted with
      | worse hworse =>
          rw [badAfter_of_below hold hworse]
          exact add_one_le_add_one (hdown old hactive) hold.good
      | _ => exact UInt32.le_iff_toNat_le.mpr (Nat.zero_le _)

theorem tracks_observe (h : s.Tracks) (now : ℕ) (report : QualityReport) :
    (s.step (.observe now report)).Tracks := by
  have hfit := fit_apply h.fit (.observe now report)
  have hobserves := s.controller.observe_observes now report
  change Tracks ⟨(s.controller.observe now report).1,
    (s.controller.observe now report).2.getD s.encoder⟩
  change (s.controller.observe now report).1.Fit at hfit
  generalize s.controller.observe now report = result at hobserves hfit
  cases hobserves with
  | forced hforced => exact ⟨hfit, h.forced, h.probing, h.down⟩
  | moves hfree hmoves =>
      have hfree' : ¬ s.controller.forced = true := ne_true_of_eq_false hfree
      exact ⟨hfit, fun hforced => absurd hforced hfree', fun _ probe hprobe => (nomatch hprobe),
        fun probe hprobe => (nomatch hprobe)⟩
  | probes hfree hcounted hprobes =>
      have hfit' : (s.controller.remember report).Fit := h.fit.of_same rfl rfl rfl
      have hdown := down_le_probes hfit' h.down hcounted hprobes
      have hfree' : ¬ s.controller.forced = true := ne_true_of_eq_false hfree
      cases hprobes with
      | idle stableSince hidle => exact ⟨hfit, h.forced, h.probing, hdown⟩
      | starts stableSince hidle hwired hnext hnotWorse =>
          refine ⟨hfit, fun hforced => absurd hforced hfree', fun _ probe hprobe => ?_, hdown⟩
          obtain rfl := Option.some.inj hprobe
          rfl
      | fails hactive hbad =>
          exact ⟨hfit, h.forced, fun _ probe hprobe => (nomatch hprobe), hdown⟩
      | succeeds hactive hgood hlong =>
          exact ⟨hfit, fun hforced => absurd hforced hfree', fun _ probe hprobe => (nomatch hprobe),
            hdown⟩
      | @goesOn old hactive hgood =>
          refine ⟨hfit, h.forced, fun hfree probe hprobe => ?_, hdown⟩
          obtain rfl := Option.some.inj hprobe
          exact h.probing hfree old hactive

/-- As long as the profiles agree. -/
theorem tracks_step (h : s.Tracks) (hnext : (s.step op).Agrees) :
    (s.step op).Tracks := by
  have hfit := fit_apply h.fit op
  cases op with
  | observe now report => exact tracks_observe h now report
  | signalNetworkChange now newContext =>
      exact ⟨hfit, fun _ => hnext.encoder rfl, fun _ probe hprobe => (nomatch hprobe),
        fun probe hprobe => (nomatch hprobe)⟩
  | resetCounters =>
      exact ⟨hfit, h.forced, fun _ probe hprobe => (nomatch hprobe),
        fun probe hprobe => (nomatch hprobe)⟩
  | forceProfile profile =>
      exact ⟨hfit, fun _ => rfl, fun hfree => (nomatch hfree), fun probe _ =>
        UInt32.le_iff_toNat_le.mpr (Nat.zero_le _)⟩
  | bandwidth targetSendBps => exact ⟨hfit, h.forced, h.probing, h.down⟩

/-! ## When the profiles agree after a step -/

/-- The encoder of an unforced controller with a probe is not on the profile of the tier. -/
theorem Tracks.encoder_ne (h : s.Tracks) (hfree : s.controller.forced = false) {probe : ProbeState}
    (hprobe : s.controller.probe = some probe) : s.encoder ≠ s.controller.tier.profile := by
  rw [h.probing hfree probe hprobe]
  exact (h.fit probe hprobe).profile_ne

theorem agrees_observe_iff (h : s.Tracks) (hagrees : s.Agrees) (now : ℕ) (report : QualityReport) :
    (s.step (.observe now report)).Agrees ↔ s.Announced (.observe now report) := by
  have hobserves := s.controller.observe_observes now report
  change Agrees ⟨(s.controller.observe now report).1,
    (s.controller.observe now report).2.getD s.encoder⟩ ↔ _
  generalize s.controller.observe now report = result at hobserves
  cases hobserves with
  | forced hforced =>
      refine iff_of_true ⟨hagrees.encoder, hagrees.tier⟩ fun hfree => ?_
      rw [hforced] at hfree
      exact nomatch hfree
  | moves hfree hmoves =>
      refine iff_of_true ⟨fun _ => rfl, fun _ => rfl⟩ fun _ probe hprobe => ?_
      have hfit : (s.controller.remember report).Fit := h.fit.of_same rfl rfl rfl
      exact good_of_moves (hfit probe hprobe) (h.down probe hprobe) hmoves
  | probes hfree hcounted hprobes =>
      cases hprobes with
      | idle stableSince hidle =>
          refine iff_of_true ⟨hagrees.encoder, hagrees.tier⟩ fun _ probe hprobe => ?_
          obtain hnone | hidle := hidle
          · rw [show s.controller.probe = none from hnone] at hprobe
            exact nomatch hprobe
          · exact absurd hidle (h.fit probe hprobe).not_idle
      | starts stableSince hidle hwired hnext hnotWorse =>
          refine iff_of_true ⟨fun hnone => (nomatch hnone), hagrees.tier⟩ fun _ probe hprobe => ?_
          rw [show s.controller.probe = none from hidle] at hprobe
          exact nomatch hprobe
      | @fails old hactive hbad =>
          refine iff_of_false (fun hnext => ?_) fun hannounced => ?_
          · exact h.encoder_ne hfree hactive ((hnext.encoder rfl).trans (hagrees.tier hfree))
          · exact UInt32.not_le.mpr hbad (hannounced hfree old hactive)
      | @succeeds old hactive hgood hlong =>
          refine iff_of_true ⟨fun _ => rfl, fun _ => (h.fit old hactive).profile⟩
            fun _ probe hprobe => ?_
          obtain rfl := Option.some.inj (hactive.symm.trans hprobe)
          exact hgood
      | @goesOn old hactive hgood =>
          refine iff_of_true ⟨fun hnone => (nomatch hnone), hagrees.tier⟩ fun _ probe hprobe => ?_
          obtain rfl := Option.some.inj (hactive.symm.trans hprobe)
          exact hgood

/-- Where a probe is dropped, the encoder agrees if there was none, or if it is forced. -/
theorem agrees_dropped_iff (h : s.Tracks) (hagrees : s.Agrees) :
    s.encoder = s.controller.currentProfile ↔
      (s.controller.forced = false → s.controller.probe = none) := by
  constructor
  · intro hencoder hfree
    by_contra hsome
    obtain ⟨probe, hprobe⟩ := Option.ne_none_iff_exists'.mp hsome
    exact h.encoder_ne hfree hprobe (hencoder.trans (hagrees.tier hfree))
  · intro hnone
    cases hforced : s.controller.forced with
    | true => exact h.forced hforced
    | false => exact hagrees.encoder (hnone hforced)

/-- After a handoff the controller is on the profile of the lower tier, or where there is
none on the one that it was on. -/
theorem agrees_handOff_iff (h : s.Tracks) (hagrees : s.Agrees) :
    (s.encoder = s.controller.handOff.currentProfile ∧
        s.controller.handOff.currentProfile = s.controller.handOff.tier.profile) ↔
      (s.controller.forced = false → s.controller.probe = none) ∧ s.controller.currentProfile =
        (s.controller.tier.downgrade.getD s.controller.tier).profile := by
  obtain ⟨htier, hprofile, -⟩ := handOff_spec s.controller
  rw [tier, htier, hprofile]
  change _ ↔ _ ∧ _ = (s.controller.currentTier.downgrade.getD s.controller.currentTier).profile
  rw [← agrees_dropped_iff h hagrees]
  cases hlower : s.controller.currentTier.downgrade with
  | none => exact Iff.rfl
  | some lower =>
      change s.encoder = lower.profile ∧ lower.profile = lower.profile ↔
        s.encoder = s.controller.currentProfile ∧ s.controller.currentProfile = lower.profile
      constructor
      · rintro ⟨hencoder, -⟩
        -- an encoder on a probe is on a higher profile
        have hnone : s.controller.forced = false → s.controller.probe = none := by
          intro hfree
          by_contra hsome
          obtain ⟨probe, hprobe⟩ := Option.ne_none_iff_exists'.mp hsome
          have hfit := h.fit probe hprobe
          have hprofile := (h.probing hfree probe hprobe).symm.trans hencoder
          rw [hfit.profile] at hprofile
          have hrank := rank_upgradeOneStep hfit.target
          rw [Tier.profile_injective hprofile, ← Tier.rank_downgrade hlower] at hrank
          omega
        have hcurrent := (agrees_dropped_iff h hagrees).mpr hnone
        exact ⟨hcurrent, hcurrent.symm.trans hencoder⟩
      · rintro ⟨hencoder, hcurrent⟩
        exact ⟨hencoder.trans hcurrent, rfl⟩

theorem agrees_networkChange_iff (h : s.Tracks) (hagrees : s.Agrees) (now : ℕ)
    (newContext : NetworkContext) :
    (s.step (.signalNetworkChange now newContext)).Agrees ↔
      s.Announced (.signalNetworkChange now newContext) := by
  change Agrees ⟨s.controller.signalNetworkChange now newContext, s.encoder⟩ ↔
    (s.controller.forced = false → s.controller.probe = none) ∧ (_ → _)
  obtain ⟨d, ⟨rfl, hhands⟩ | ⟨rfl, hhands⟩, heq⟩ :=
    s.controller.signalNetworkChange_cases now newContext
  · have hoff := agrees_handOff_iff h hagrees
    have hfree := (handOff_spec s.controller).2.2.1
    rw [heq, hhands]
    constructor
    · intro hnext
      obtain ⟨hnone, hprofile⟩ := hoff.mp ⟨hnext.encoder rfl, hnext.tier hfree⟩
      exact ⟨hnone, fun _ => hprofile⟩
    · rintro ⟨hnone, hprofile⟩
      obtain ⟨hencoder, htier⟩ := hoff.mpr ⟨hnone, hprofile rfl⟩
      exact ⟨fun _ => hencoder, fun _ => htier⟩
  · rw [heq, hhands, ← agrees_dropped_iff h hagrees]
    exact ⟨fun hnext => ⟨hnext.encoder rfl, fun hoff => (nomatch hoff)⟩, fun hboth =>
      ⟨fun _ => hboth.1, hagrees.tier⟩⟩

theorem agrees_step_iff (h : s.Tracks) (hagrees : s.Agrees) (op : QualityOp) :
    (s.step op).Agrees ↔ s.Announced op := by
  cases op with
  | observe now report => exact agrees_observe_iff h hagrees now report
  | signalNetworkChange now newContext => exact agrees_networkChange_iff h hagrees now newContext
  | resetCounters =>
      change _ ↔ (s.controller.forced = false → s.controller.probe = none)
      rw [← agrees_dropped_iff h hagrees]
      exact ⟨fun hnext => hnext.encoder rfl, fun hencoder => ⟨fun _ => hencoder, hagrees.tier⟩⟩
  | forceProfile profile =>
      exact iff_of_true ⟨fun _ => rfl, fun hfree => (nomatch hfree)⟩ trivial
  | bandwidth targetSendBps => exact iff_of_true ⟨hagrees.encoder, hagrees.tier⟩ trivial

theorem tracks_start : start.Tracks := by
  refine ⟨fit_of_none rfl, fun hforced => (nomatch hforced), ?_, ?_⟩
  · exact fun _ probe hprobe => (nomatch hprobe)
  · exact fun probe hprobe => (nomatch hprobe)

/-- The profiles agree throughout exactly the runs in which every end of a probe and
every change of the tier is announced. -/
theorem profiles_agree_iff (ops : List QualityOp) :
    Throughout step Agrees start ops ↔ EachStep step Announced start ops :=
  throughout_iff_eachStep (fun _ _ h _ hnext => tracks_step h hnext)
    (fun _ op h hagrees => agrees_step_iff h hagrees op) tracks_start ⟨fun _ => rfl, fun _ => rfl⟩

/-- Reports of the tier `good`, the first two 30 seconds apart. -/
def failedProbe : List QualityOp :=
  [0, 30000000000, 31000000000, 32000000000].map fun now => .observe now ⟨0, 21, 10, 200⟩

/-- A probe that fails leaves the encoder on the profile of the tier that it was to try. -/
theorem failedProbe_not_agree : ¬ Throughout step Agrees start failedProbe := by
  intro h
  have hnone : (run step start failedProbe).controller.probe = none :=
    Option.isNone_iff_eq_none.mp (by decide +kernel)
  have hcodec := congrArg QualityProfile.codec (h.last.encoder hnone)
  revert hcodec
  decide +kernel

end TunedEncoder
end Wzp.Proto
