import Wzp.Video.QualityController

/-!
# Targets that the budget sustains

The step of the table is found with the budget, the bitrate that goes with it is held back
by the target of the tick before.
-/
namespace Wzp.Video
open Proto Runs

inductive ControllerEvent where
  | setBandwidth (bwe : BandwidthEstimator)
  | setMode (mode : PriorityMode)
  | setCodec (codec : CodecId)
  | tick (nowMs : UInt32)
  | tickSimulcast (nowMs : UInt32)

namespace VideoQualityController
variable (powf : Float → Float → Float) (c : VideoQualityController)

def step : ControllerEvent → VideoQualityController
  | .setBandwidth bwe => { c with bwe }
  | .setMode mode => c.setMode mode
  | .setCodec codec => c.setCodec codec
  | .tick nowMs => (c.tick powf nowMs).1
  | .tickSimulcast nowMs => (c.tickSimulcast powf nowMs).1

/-- The step with the size and the frame rate of a target asks for no more than its bitrate. -/
def Sustains (target : VideoTarget) : Prop :=
  target = .disabled ∨ ∃ s ∈ c.table, s.width = target.width ∧ s.height = target.height ∧
    s.fps = target.fps ∧ s.minBudgetKbps ≤ target.bitrateKbps

def elapsed (nowMs : UInt32) : UInt32 := saturatingSub nowMs c.lastTickMs

/-- A bitrate differs from the last one by at most the factor for a time. -/
def InRange (last dtMs bitrate : UInt32) : Prop :=
  minBr powf last dtMs ≤ bitrate ∧ bitrate ≤ maxBr powf last dtMs

/-- The next target is in the range of the time between the two ticks. -/
def GradualAt (nowMs : UInt32) (next : VideoTarget) : Prop :=
  c.lastTarget ≠ .disabled → next ≠ .disabled →
    InRange powf c.lastTarget.bitrateKbps (c.elapsed nowMs) next.bitrateKbps

/-- What is asked of an event. A simulcast tick has a target too, but does not return it. -/
def KeepsAt : ControllerEvent → Prop
  | .tick nowMs => c.Sustains (c.tick powf nowMs).2 ∧ c.GradualAt powf nowMs (c.tick powf nowMs).2
  | .tickSimulcast nowMs => c.GradualAt powf nowMs (c.tickSimulcast powf nowMs).1.lastTarget
  | _ => True

/-- The bitrate may rise to what the step of the budget asks for. -/
def ReachesAt (nowMs : UInt32) : Prop :=
  c.lastTarget ≠ .disabled → ∀ s ∈ c.stepFor c.allocate.2,
    s.minBudgetKbps ≤ maxBr powf c.lastTarget.bitrateKbps (c.dtMs nowMs)

/-- A tick after one at time 0 that finds no more to change in a second than in the time
that has gone by. -/
def TimedAt (raw : VideoTarget) (nowMs : UInt32) : Prop :=
  c.lastTickMs = 0 → c.lastTarget ≠ .disabled → raw ≠ .disabled →
    let last := c.lastTarget.bitrateKbps
    (minBr powf last nowMs ≤ minBr powf last 1000 ∨ minBr powf last nowMs ≤ raw.bitrateKbps) ∧
      (maxBr powf last 1000 ≤ maxBr powf last nowMs ∨ raw.bitrateKbps ≤ maxBr powf last nowMs)

def MeetsAt : ControllerEvent → Prop
  | .tick nowMs =>
      c.ReachesAt powf nowMs ∧ c.TimedAt powf (c.deriveTarget c.allocate.2) nowMs
  | .tickSimulcast nowMs => c.TimedAt powf c.simulcastTarget nowMs
  | _ => True

instance (target : VideoTarget) : Decidable (c.Sustains target) :=
  inferInstanceAs (Decidable (_ ∨ ∃ s ∈ c.table, _))

instance (last dtMs bitrate : UInt32) : Decidable (InRange powf last dtMs bitrate) :=
  inferInstanceAs (Decidable (_ ∧ _))

instance (nowMs : UInt32) (next : VideoTarget) : Decidable (c.GradualAt powf nowMs next) :=
  inferInstanceAs (Decidable (_ → _ → InRange ..))

instance (nowMs : UInt32) : Decidable (c.ReachesAt powf nowMs) :=
  inferInstanceAs (Decidable (_ → ∀ s ∈ c.stepFor c.allocate.2, _))

instance (raw : VideoTarget) (nowMs : UInt32) : Decidable (c.TimedAt powf raw nowMs) :=
  inferInstanceAs (Decidable (_ → _ → _ → (_ ∨ _) ∧ (_ ∨ _)))

instance : (e : ControllerEvent) → Decidable (c.KeepsAt powf e)
  | .setBandwidth _ | .setMode _ | .setCodec _ => isTrue trivial
  | .tick _ => inferInstanceAs (Decidable (_ ∧ _))
  | .tickSimulcast nowMs => inferInstanceAs (Decidable (c.GradualAt powf nowMs _))

instance : (e : ControllerEvent) → Decidable (c.MeetsAt powf e)
  | .setBandwidth _ | .setMode _ | .setCodec _ => isTrue trivial
  | .tick _ => inferInstanceAs (Decidable (_ ∧ _))
  | .tickSimulcast nowMs => inferInstanceAs (Decidable (c.TimedAt powf c.simulcastTarget nowMs))

/-! ## Step tables -/

theorem table_mem : c.table ∈ [stepTableH264, stepTableH265, stepTableAv1] := by
  unfold table stepTableForCodec
  split <;> simp

theorem minBudget_pos {s : Step} (h : s ∈ c.table) : 0 < s.minBudgetKbps := by
  have hall : ∀ t ∈ [stepTableH264, stepTableH265, stepTableAv1], ∀ s ∈ t, 0 < s.minBudgetKbps := by
    decide
  exact hall c.table c.table_mem s h

/-- No two steps of a table have the same size and frame rate. -/
theorem step_unique {s s' : Step} (h : s ∈ c.table) (h' : s' ∈ c.table) (hwidth : s.width = s'.width)
    (hheight : s.height = s'.height) (hfps : s.fps = s'.fps) : s = s' := by
  have hall : ∀ t ∈ [stepTableH264, stepTableH265, stepTableAv1], ∀ s ∈ t, ∀ s' ∈ t,
      s.width = s'.width → s.height = s'.height → s.fps = s'.fps → s = s' := by
    decide
  exact hall c.table c.table_mem s h s' h' hwidth hheight hfps

/-! ## Targets from a budget -/

variable {c} {powf}

theorem deriveTarget_of_some {budget : UInt32} {s : Step} (h : c.stepFor budget = some s) :
    c.deriveTarget budget = ⟨budget, s.fps, s.width, s.height⟩ := by
  unfold deriveTarget
  rw [h]

theorem deriveTarget_of_none {budget : UInt32} (h : c.stepFor budget = none) :
    c.deriveTarget budget = .disabled := by
  unfold deriveTarget
  rw [h]

theorem stepFor_spec {budget : UInt32} {s : Step} (h : c.stepFor budget = some s) :
    s ∈ c.table ∧ s.minBudgetKbps ≤ budget ∧ 0 < s.minBudgetKbps := by
  have hmem := List.mem_of_find?_eq_some h
  have hle := List.find?_some h
  exact ⟨hmem, of_decide_eq_true hle, c.minBudget_pos hmem⟩

/-- A target is disabled if it has no bitrate. -/
def Sound (target : VideoTarget) : Prop := target.bitrateKbps = 0 → target = .disabled

theorem sound_disabled : Sound .disabled := fun _ => rfl

theorem Sound.bitrate_eq_zero_iff {target : VideoTarget} (h : Sound target) :
    target.bitrateKbps = 0 ↔ target = .disabled :=
  ⟨h, fun heq => congrArg VideoTarget.bitrateKbps heq⟩

theorem deriveTarget_sound (budget : UInt32) : Sound (c.deriveTarget budget) := by
  intro hzero
  cases h : c.stepFor budget with
  | none => exact deriveTarget_of_none h
  | some s =>
      obtain ⟨_, hle, hpos⟩ := stepFor_spec h
      rw [deriveTarget_of_some h] at hzero
      have hbudget : budget = 0 := hzero
      rw [hbudget] at hle
      exact absurd hpos (UInt32.not_lt.mpr hle)

theorem simulcastTarget_sound : Sound c.simulcastTarget := by
  unfold simulcastTarget
  split
  · exact deriveTarget_sound _
  · exact sound_disabled

/-- The step of the budget is the only one a target can be measured by. -/
theorem sustains_step {s : Step} {target : VideoTarget} (hmem : s ∈ c.table)
    (hne : target ≠ .disabled) (hwidth : s.width = target.width)
    (hheight : s.height = target.height) (hfps : s.fps = target.fps) :
    c.Sustains target ↔ s.minBudgetKbps ≤ target.bitrateKbps := by
  constructor
  · rintro (heq | ⟨s', hmem', hwidth', hheight', hfps', hle⟩)
    · exact absurd heq hne
    · have hsame := c.step_unique hmem hmem' (hwidth.trans hwidth'.symm)
        (hheight.trans hheight'.symm) (hfps.trans hfps'.symm)
      rwa [hsame]
  · exact fun hle => Or.inr ⟨s, hmem, hwidth, hheight, hfps, hle⟩

/-! ## Clamping -/

theorem le_clamp_iff {x lo hi b : UInt32} (h : lo ≤ hi) :
    b ≤ clamp x lo hi ↔ b ≤ hi ∧ (b ≤ lo ∨ b ≤ x) := by
  unfold clamp
  grind

theorem clamp_le_iff {x lo hi b : UInt32} (h : lo ≤ hi) :
    clamp x lo hi ≤ b ↔ lo ≤ b ∧ (hi ≤ b ∨ x ≤ b) := by
  unfold clamp
  grind

theorem one_le_maxRatio (hpowf : ∀ t, 0 ≤ t → 1 ≤ powf maxChangeRatioPerSec t) (dtMs : UInt32) :
    1 ≤ maxRatio powf dtMs := by
  apply hpowf
  have hthousand : (1000 : Float).toModel.unpack =
      .finite .positive 8796093022208000 (-43) (by decide) := rfl
  exact Doubles.zero_le_toFloat_div dtMs hthousand

/-- The last bitrate is in its own range, so the range is not empty. -/
theorem inRange_self (hpowf : ∀ t, 0 ≤ t → 1 ≤ powf maxChangeRatioPerSec t) {last : UInt32}
    (h : last ≠ 0) (dtMs : UInt32) : InRange powf last dtMs last := by
  have hpos : 0 < last.toNat := by
    apply Nat.pos_of_ne_zero
    exact fun hzero => h (UInt32.toNat_inj.mp hzero)
  have hratio := one_le_maxRatio hpowf dtMs
  exact ⟨Doubles.toUInt32_div_le hpos hratio, Doubles.le_toUInt32_mul hpos hratio⟩

/-! ## One tick -/

variable {raw : VideoTarget} {nowMs : UInt32}

theorem smooth_disabled (hraw : Sound raw) (hlast : Sound c.lastTarget)
    (h : raw = .disabled ∨ c.lastTarget = .disabled) :
    (c.settle powf raw nowMs).lastTarget = raw := by
  rw [← hraw.bitrate_eq_zero_iff, ← hlast.bitrate_eq_zero_iff] at h
  change c.smooth powf raw (c.dtMs nowMs) = raw
  unfold smooth
  rcases h with hzero | hzero <;> simp [hzero]

theorem smooth_clamps (hraw : Sound raw) (hlast : Sound c.lastTarget) (hne : raw ≠ .disabled)
    (hne' : c.lastTarget ≠ .disabled) :
    (c.settle powf raw nowMs).lastTarget =
      ⟨clamp raw.bitrateKbps (minBr powf c.lastTarget.bitrateKbps (c.dtMs nowMs))
        (maxBr powf c.lastTarget.bitrateKbps (c.dtMs nowMs)), raw.fps, raw.width, raw.height⟩ := by
  rw [← hraw.bitrate_eq_zero_iff.ne] at hne
  rw [← hlast.bitrate_eq_zero_iff.ne] at hne'
  change c.smooth powf raw (c.dtMs nowMs) = _
  unfold smooth
  simp [hne, hne']

section
variable (hpowf : ∀ t, 0 ≤ t → 1 ≤ powf maxChangeRatioPerSec t) (hlast : Sound c.lastTarget)
include hpowf hlast

theorem bounds (hne : c.lastTarget ≠ .disabled) (dtMs : UInt32) :
    0 < c.lastTarget.bitrateKbps ∧
      minBr powf c.lastTarget.bitrateKbps dtMs ≤ c.lastTarget.bitrateKbps ∧
      c.lastTarget.bitrateKbps ≤ maxBr powf c.lastTarget.bitrateKbps dtMs := by
  have hzero := hlast.bitrate_eq_zero_iff.ne.mpr hne
  exact ⟨UInt32.pos_iff_ne_zero.mpr hzero, inRange_self hpowf hzero dtMs⟩

theorem settle_bitrate_pos (hraw : Sound raw) (hne : raw ≠ .disabled)
    (hne' : c.lastTarget ≠ .disabled) : 0 < (c.settle powf raw nowMs).lastTarget.bitrateKbps := by
  obtain ⟨hpos, hlo, hhi⟩ := bounds hpowf hlast hne' (c.dtMs nowMs)
  have hbitrate := UInt32.pos_iff_ne_zero.mpr (hraw.bitrate_eq_zero_iff.ne.mpr hne)
  rw [smooth_clamps hraw hlast hne hne']
  apply UInt32.not_le.mp
  intro hle
  rw [clamp_le_iff (UInt32.le_trans hlo hhi)] at hle
  grind

theorem settle_ne_disabled (hraw : Sound raw) (hne : raw ≠ .disabled)
    (hne' : c.lastTarget ≠ .disabled) : (c.settle powf raw nowMs).lastTarget ≠ .disabled := by
  have hpos : 0 < (c.settle powf raw nowMs).lastTarget.bitrateKbps :=
    settle_bitrate_pos hpowf hlast hraw hne hne'
  intro heq
  rw [heq] at hpos
  cases hpos

theorem settle_sound (hraw : Sound raw) : Sound (c.settle powf raw nowMs).lastTarget := by
  by_cases hne : raw = .disabled
  · rw [smooth_disabled hraw hlast (Or.inl hne)]
    exact hraw
  by_cases hne' : c.lastTarget = .disabled
  · rw [smooth_disabled hraw hlast (Or.inr hne')]
    exact hraw
  have hpos : 0 < (c.settle powf raw nowMs).lastTarget.bitrateKbps :=
    settle_bitrate_pos hpowf hlast hraw hne hne'
  exact fun hzero => absurd hzero (UInt32.pos_iff_ne_zero.mp hpos)

/-- With a target before it a tick keeps to the range of the time it takes to have gone by. -/
theorem gradualAt_iff (hraw : Sound raw) :
    c.GradualAt powf nowMs (c.settle powf raw nowMs).lastTarget ↔ c.TimedAt powf raw nowMs := by
  by_cases hne' : c.lastTarget = .disabled
  · exact ⟨fun _ _ h => absurd hne' h, fun _ h => absurd hne' h⟩
  by_cases hne : raw = .disabled
  · have hsame : (c.settle powf raw nowMs).lastTarget = raw :=
      smooth_disabled hraw hlast (Or.inl hne)
    exact ⟨fun _ _ _ h => absurd hne h, fun _ _ h => absurd (hsame.trans hne) h⟩
  have hsettled : (c.settle powf raw nowMs).lastTarget ≠ .disabled :=
    settle_ne_disabled hpowf hlast hraw hne hne'
  obtain ⟨_, hlo, hhi⟩ := bounds hpowf hlast hne' (c.dtMs nowMs)
  have hrange := UInt32.le_trans hlo hhi
  have hgradual : c.GradualAt powf nowMs (c.settle powf raw nowMs).lastTarget ↔
      InRange powf c.lastTarget.bitrateKbps (c.elapsed nowMs)
        (c.settle powf raw nowMs).lastTarget.bitrateKbps :=
    ⟨fun h => h hne' hsettled, fun h _ _ => h⟩
  rw [hgradual, smooth_clamps hraw hlast hne hne', InRange, le_clamp_iff hrange,
    clamp_le_iff hrange]
  by_cases hfirst : c.lastTickMs = 0
  · -- the tick takes a second to have gone by
    have hdt : c.dtMs nowMs = 1000 := if_pos hfirst
    have helapsed : c.elapsed nowMs = nowMs := by
      rw [elapsed, hfirst, saturatingSub, if_pos UInt32.zero_le, UInt32.sub_zero]
    obtain ⟨_, hlo', hhi'⟩ := bounds hpowf hlast hne' nowMs
    rw [hdt] at hlo hhi ⊢
    rw [helapsed]
    constructor
    · rintro ⟨⟨_, hlow⟩, _, hhigh⟩ _ _ _
      exact ⟨hlow, hhigh⟩
    · intro h
      obtain ⟨hlow, hhigh⟩ := h hfirst hne' hne
      exact ⟨⟨UInt32.le_trans hlo' hhi, hlow⟩, UInt32.le_trans hlo hhi', hhigh⟩
  · have hdt : c.dtMs nowMs = c.elapsed nowMs := if_neg hfirst
    rw [hdt] at hrange ⊢
    have hkeeps (a : UInt32) : a ≤ a := UInt32.le_refl a
    exact ⟨fun _ h => absurd h hfirst, fun _ =>
      ⟨⟨hrange, Or.inl (hkeeps _)⟩, hrange, Or.inl (hkeeps _)⟩⟩

theorem sustains_iff : c.Sustains (c.tick powf nowMs).2 ↔ c.ReachesAt powf nowMs := by
  have hsound : Sound (c.deriveTarget c.allocate.2) := deriveTarget_sound _
  change c.Sustains (c.settle powf (c.deriveTarget c.allocate.2) nowMs).lastTarget ↔ _
  cases h : c.stepFor c.allocate.2 with
  | none =>
      rw [smooth_disabled hsound hlast (Or.inl (deriveTarget_of_none h))]
      refine ⟨fun _ _ s hs => ?_, fun _ => Or.inl (deriveTarget_of_none h)⟩
      rw [h] at hs
      cases hs
  | some s =>
      obtain ⟨hmem, hle, hpos⟩ := stepFor_spec h
      have hraw := deriveTarget_of_some h
      have hne : c.deriveTarget c.allocate.2 ≠ .disabled := by
        rw [← hsound.bitrate_eq_zero_iff.ne, hraw]
        exact UInt32.pos_iff_ne_zero.mp (UInt32.lt_of_lt_of_le hpos hle)
      by_cases hne' : c.lastTarget = .disabled
      · rw [smooth_disabled hsound hlast (Or.inr hne'), hraw]
        exact ⟨fun _ h => absurd hne' h, fun _ => Or.inr ⟨s, hmem, rfl, rfl, rfl, hle⟩⟩
      obtain ⟨_, hlo, hhi⟩ := bounds hpowf hlast hne' (c.dtMs nowMs)
      have hsettled : (c.settle powf (c.deriveTarget c.allocate.2) nowMs).lastTarget ≠ .disabled :=
        settle_ne_disabled hpowf hlast hsound hne hne'
      rw [smooth_clamps hsound hlast hne hne', hraw] at hsettled ⊢
      rw [sustains_step hmem hsettled rfl rfl rfl, le_clamp_iff (UInt32.le_trans hlo hhi)]
      constructor
      · rintro ⟨hreach, _⟩ _ s' hs'
        rw [h] at hs'
        cases hs'
        exact hreach
      · exact fun hreach => ⟨hreach hne' s h, Or.inr hle⟩

theorem step_sound (e : ControllerEvent) : Sound (c.step powf e).lastTarget := by
  cases e with
  | setBandwidth bwe => exact hlast
  | setMode mode => exact hlast
  | setCodec codec => exact hlast
  | tick nowMs => exact settle_sound hpowf hlast (deriveTarget_sound _)
  | tickSimulcast nowMs => exact settle_sound hpowf hlast simulcastTarget_sound

theorem keepsAt_iff (e : ControllerEvent) : c.KeepsAt powf e ↔ c.MeetsAt powf e := by
  cases e with
  | setBandwidth bwe => exact Iff.rfl
  | setMode mode => exact Iff.rfl
  | setCodec codec => exact Iff.rfl
  | tick nowMs =>
      exact and_congr (sustains_iff hpowf hlast) (gradualAt_iff hpowf hlast (deriveTarget_sound _))
  | tickSimulcast nowMs => exact gradualAt_iff hpowf hlast simulcastTarget_sound

end

/-! ## Every run -/

/-- Every target is sustained by its bitrate, and no target is further from the one before
than the factor for the time between them, exactly if no step is taken up that asks for
more than the bitrate may rise to, and no tick follows one at time 0 with more to change in a
second than in the time between them. -/
theorem targets_sustainable_iff (powf : Float → Float → Float)
    (hpowf : ∀ t, 0 ≤ t → 1 ≤ powf maxChangeRatioPerSec t) (bwe : BandwidthEstimator)
    (codec : CodecId) (events : List ControllerEvent) :
    EachStep (step powf) (KeepsAt powf) (withCodec bwe codec) events ↔
      EachStep (step powf) (MeetsAt powf) (withCodec bwe codec) events := by
  apply eachStep_congr_of_invariant (P := fun c => Sound c.lastTarget)
  · exact fun _ e hlast => step_sound hpowf hlast e
  · exact fun _ e hlast => keepsAt_iff hpowf hlast e
  · exact sound_disabled

/-- A power that is right for whole seconds up to the first. -/
def firstSecond (base t : Float) : Float := if t == 1 then base else 1

theorem firstSecond_range (t : Float) :
    1 ≤ firstSecond maxChangeRatioPerSec t ∧ firstSecond maxChangeRatioPerSec t ≤ 2 := by
  unfold firstSecond
  split <;> decide

/-- A peer that sets no limit. -/
def estimates (cwndBps : UInt64) : BandwidthEstimator := ⟨cwndBps, 18446744073709551615⟩

theorem steady_targets :
    EachStep (step firstSecond) (KeepsAt firstSecond) (withCodec (estimates 110000) .h264Baseline)
      [.tick 1000, .setBandwidth (estimates 135556), .tick 2000, .setMode .balanced, .tick 3000,
        .setCodec .h265Main, .tickSimulcast 4000, .tick 5000] :=
  (targets_sustainable_iff firstSecond (fun t _ => (firstSecond_range t).1) (estimates 110000)
    .h264Baseline _).mpr (by decide +kernel)

/-- The bandwidth goes up from 99 kbit/s to 9 Mbit/s within a second: 720p at 150 kbit/s. Or
two ticks at time 0, and the bitrate goes up at once. -/
theorem targets_outrun_the_bitrate :
    (∀ t, 1 ≤ firstSecond maxChangeRatioPerSec t ∧ firstSecond maxChangeRatioPerSec t ≤ 2) ∧
      ((run (step firstSecond) (withCodec (estimates 110000) .h264Baseline)
        [.tick 1000, .setBandwidth (estimates 10000000)]).tick firstSecond 2000).2 =
          ⟨150, 30, 1280, 720⟩ ∧
      ¬ EachStep (step firstSecond) (KeepsAt firstSecond)
        (withCodec (estimates 110000) .h264Baseline)
        [.tick 1000, .setBandwidth (estimates 10000000), .tick 2000] ∧
      ¬ EachStep (step firstSecond) (KeepsAt firstSecond)
        (withCodec (estimates 110000) .h264Baseline)
        [.tick 0, .setBandwidth (estimates 135556), .tick 0] :=
  ⟨firstSecond_range, by decide +kernel, by decide +kernel, by decide +kernel⟩

end VideoQualityController

end Wzp.Video
