import Mathlib.Data.Nat.Notation
import Wzp.Lib.Runs

/-!
# Loss over a window

The send task reads the counters of the path every 25 frames for the DRED tuner and
every 50 frames for a quality report. Both readings move one window.
-/
namespace Wzp.Desktop
open Runs

/-- What the path has sent and lost since the connection began. -/
structure PathCounters where
  sentPackets : ℕ
  lostPackets : ℕ
  deriving DecidableEq, Repr

/-- The loss since the connection began, in percent. -/
def PathCounters.lossPct (c : PathCounters) : Float32 :=
  if c.sentPackets > 0 then Float32.ofNat c.lostPackets / Float32.ofNat c.sentPackets * 100 else 0

structure LossWindow where
  prevSent : ℕ
  prevLost : ℕ

namespace LossWindow

def observe (w : LossWindow) (sentPackets lostPackets : ℕ) (cumulativePct : Float32) :
    Float32 × LossWindow :=
  let dSent := sentPackets - w.prevSent
  let dLost := lostPackets - w.prevLost
  (if dSent ≥ 20 then Float32.ofNat dLost / Float32.ofNat dSent * 100 else cumulativePct,
    ⟨sentPackets, lostPackets⟩)

end LossWindow

/-- The packets between two readings of the counters. -/
structure Span where
  since : PathCounters
  upTo : PathCounters
  deriving DecidableEq, Repr

def Span.pct (s : Span) : Float32 :=
  let dSent := s.upTo.sentPackets - s.since.sentPackets
  let dLost := s.upTo.lostPackets - s.since.lostPackets
  if dSent > 0 then Float32.ofNat dLost / Float32.ofNat dSent * 100 else 0

def PathCounters.zero : PathCounters := ⟨0, 0⟩

namespace LossWindow

def prev (w : LossWindow) : PathCounters := ⟨w.prevSent, w.prevLost⟩

/-- The packets that a reading measures. -/
def span (w : LossWindow) (c : PathCounters) : Span :=
  if c.sentPackets - w.prevSent ≥ 20 then ⟨w.prev, c⟩ else ⟨.zero, c⟩

theorem observe_eq_pct (w : LossWindow) (c : PathCounters) :
    (w.observe c.sentPackets c.lostPackets c.lossPct).1 = (w.span c).pct := by
  rw [observe, span]
  dsimp only
  split
  · next henough =>
      have hpos : c.sentPackets - w.prevSent > 0 := Nat.lt_of_lt_of_le (by decide) henough
      rw [Span.pct]
      exact (if_pos hpos).symm
  · rfl

end LossWindow

def dredPollInterval : ℕ := 25

def qualityReportInterval : ℕ := 50

/-- The readings in one iteration: that of the poll, if it is due, and that of the report. -/
structure Readings where
  poll : PathCounters
  report : PathCounters

/-- A loss that was handed on, and the packets it was measured over. -/
structure Measured where
  loss : Float32
  span : Span

/-- The window and the frame counters of the send task, with the readings of the last
poll and the last report. -/
structure LossReports where
  lossWindow : LossWindow
  framesSinceDredPoll : ℕ
  framesSinceQualityReport : ℕ
  lastPoll : Option PathCounters
  lastReport : Option PathCounters

namespace LossReports

def start : LossReports := ⟨⟨0, 0⟩, 0, 0, none, none⟩

def measure (s : LossReports) (c : PathCounters) : Measured × LossWindow :=
  let observed := s.lossWindow.observe c.sentPackets c.lostPackets c.lossPct
  (⟨observed.1, s.lossWindow.span c⟩, observed.2)

/-- The loss goes to the tuner. -/
def dredPoll (s : LossReports) (c : PathCounters) : Option Measured × LossReports :=
  let frames := s.framesSinceDredPoll + 1
  if frames ≥ dredPollInterval then
    (some (s.measure c).1, { s with
      lossWindow := (s.measure c).2
      framesSinceDredPoll := 0
      lastPoll := some c })
  else (none, { s with framesSinceDredPoll := frames })

/-- The loss goes into the next quality report. -/
def qualityReport (s : LossReports) (c : PathCounters) : Option Measured × LossReports :=
  let frames := s.framesSinceQualityReport + 1
  if frames ≥ qualityReportInterval then
    (some (s.measure c).1, { s with
      lossWindow := (s.measure c).2
      framesSinceQualityReport := 0
      lastReport := some c })
  else (none, { s with framesSinceQualityReport := frames })

/-- After each frame. -/
def step (s : LossReports) (r : Readings) : LossReports :=
  ((s.dredPoll r.poll).2.qualityReport r.report).2

/-! ## Windowed loss -/

/-- If 20 packets were sent since the reading `prev`, then the loss is that of exactly
the packets since. -/
def CoversSince (m : Measured) (now : PathCounters) : Option PathCounters → Prop
  | none => True
  | some prev => 20 ≤ now.sentPackets - prev.sentPackets →
      m.loss = (Span.mk prev now).pct ∧ m.span = ⟨prev, now⟩

/-- What goes to the tuner covers the packets since the last poll, what goes into a
report those since the last report. -/
structure Windowed (s : LossReports) (r : Readings) : Prop where
  poll : ∀ m, (s.dredPoll r.poll).1 = some m → CoversSince m r.poll s.lastPoll
  report : ∀ m, ((s.dredPoll r.poll).2.qualityReport r.report).1 = some m →
    CoversSince m r.report s.lastReport

/-- At a poll that follows a report, the counters at the report were those at the poll before
it. At a report, those at the poll just before are those at the last report. Else the
window is too short to count, and the reading it should begin at was zero. -/
structure Quiet (s : LossReports) (r : Readings) : Prop where
  poll : s.framesSinceDredPoll + 1 ≥ dredPollInterval → s.framesSinceQualityReport < 25 →
    ∀ prev, s.lastPoll = some prev → 20 ≤ r.poll.sentPackets - prev.sentPackets →
      ∀ last, s.lastReport = some last →
        last = prev ∨ prev = .zero ∧ r.poll.sentPackets - last.sentPackets < 20
  report : s.framesSinceQualityReport + 1 ≥ qualityReportInterval →
    ∀ prev, s.lastReport = some prev → 20 ≤ r.report.sentPackets - prev.sentPackets →
      r.poll = prev ∨ prev = .zero ∧ r.report.sentPackets - r.poll.sentPackets < 20

variable {s : LossReports} {w : LossWindow} {prev now : PathCounters}

theorem measure_loss (s : LossReports) (c : PathCounters) :
    (s.measure c).1.loss = (s.measure c).1.span.pct := s.lossWindow.observe_eq_pct c

theorem measure_prev (s : LossReports) (c : PathCounters) : (s.measure c).2.prev = c := rfl

/-- Which packets a measure covers is decided by the reading the window was at. -/
theorem measure_coversSince_iff (s : LossReports) (now : PathCounters) :
    CoversSince (s.measure now).1 now (some prev) ↔
      (20 ≤ now.sentPackets - prev.sentPackets → s.lossWindow.prev = prev ∨
        prev = .zero ∧ now.sentPackets - s.lossWindow.prev.sentPackets < 20) := by
  have hspan : (s.measure now).1.span = s.lossWindow.span now := rfl
  constructor
  · intro h henough
    have hcovers := (h henough).2
    rw [hspan, LossWindow.span] at hcovers
    split at hcovers
    · exact Or.inl (congrArg Span.since hcovers)
    · next hfew => exact Or.inr ⟨(congrArg Span.since hcovers).symm, Nat.lt_of_not_le hfew⟩
  · intro h henough
    have hcovers : (s.measure now).1.span = ⟨prev, now⟩ := by
      rw [hspan, LossWindow.span]
      rcases h henough with heq | ⟨rfl, hfew⟩
      · have hsent : s.lossWindow.prevSent = prev.sentPackets := congrArg PathCounters.sentPackets heq
        rw [hsent, if_pos henough, heq]
      · exact if_neg (Nat.not_le.mpr hfew)
    exact ⟨by rw [measure_loss, hcovers], hcovers⟩

/-- The two frame counters run together, and the last reading was a report in the first
half of the period and a poll in the second. -/
structure Inv (s : LossReports) : Prop where
  dred_lt : s.framesSinceDredPoll < 25
  report_lt : s.framesSinceQualityReport < 50
  together : s.framesSinceQualityReport = s.framesSinceDredPoll ∨
    s.framesSinceQualityReport = s.framesSinceDredPoll + 25
  early : s.framesSinceQualityReport < 25 → s.lastReport = some s.lossWindow.prev ∨
    s.lastPoll = none ∧ s.lastReport = none
  late : 25 ≤ s.framesSinceQualityReport → s.lastPoll = some s.lossWindow.prev

theorem inv_start : Inv start :=
  ⟨by decide, by decide, Or.inl rfl, fun _ => Or.inr ⟨rfl, rfl⟩, fun h => absurd h (by decide)⟩

/-- What an iteration does: nothing but count, poll, or poll and report. -/
theorem step_cases (h : Inv s) (r : Readings) :
    (s.framesSinceDredPoll + 1 < 25 ∧ s.framesSinceQualityReport + 1 < 50 ∧
      s.step r = { s with
        framesSinceDredPoll := s.framesSinceDredPoll + 1
        framesSinceQualityReport := s.framesSinceQualityReport + 1 }) ∨
    (s.framesSinceDredPoll = 24 ∧ s.framesSinceQualityReport = 24 ∧
      s.step r = ⟨(s.measure r.poll).2, 0, 25, some r.poll, s.lastReport⟩) ∨
    (s.framesSinceDredPoll = 24 ∧ s.framesSinceQualityReport = 49 ∧
      s.step r = ⟨⟨r.report.sentPackets, r.report.lostPackets⟩, 0, 0, some r.poll,
        some r.report⟩) := by
  have hdred := h.dred_lt
  have hreport := h.report_lt
  have htogether := h.together
  by_cases hdue : s.framesSinceDredPoll = 24
  · rcases htogether with hfirst | hsecond
    · refine Or.inr (Or.inl ⟨hdue, by omega, ?_⟩)
      have hpoll : s.framesSinceDredPoll + 1 ≥ dredPollInterval := by
        rw [hdue]
        decide
      have hcount : s.framesSinceQualityReport = 24 := by omega
      have hnot : ¬ 24 + 1 ≥ qualityReportInterval := by decide
      rw [step, dredPoll, if_pos hpoll, qualityReport, hcount]
      exact congrArg Prod.snd (if_neg hnot)
    · refine Or.inr (Or.inr ⟨hdue, by omega, ?_⟩)
      have hpoll : s.framesSinceDredPoll + 1 ≥ dredPollInterval := by
        rw [hdue]
        decide
      have hcount : s.framesSinceQualityReport = 49 := by omega
      have hreports : 49 + 1 ≥ qualityReportInterval := by decide
      rw [step, dredPoll, if_pos hpoll, qualityReport, hcount]
      exact congrArg Prod.snd (if_pos hreports)
  · have hpoll : ¬ s.framesSinceDredPoll + 1 ≥ dredPollInterval := by
      change ¬ 25 ≤ s.framesSinceDredPoll + 1
      omega
    have hcount : ¬ s.framesSinceQualityReport + 1 ≥ qualityReportInterval := by
      change ¬ 50 ≤ s.framesSinceQualityReport + 1
      omega
    refine Or.inl ⟨by omega, by omega, ?_⟩
    rw [step, dredPoll, if_neg hpoll, qualityReport, if_neg hcount]

theorem inv_step (h : Inv s) (r : Readings) : Inv (s.step r) := by
  have htogether := h.together
  rcases step_cases h r with ⟨hdred, hreport, heq⟩ | ⟨-, -, heq⟩ | ⟨-, -, heq⟩
  · rw [heq]
    refine ⟨hdred, hreport, ?_, fun hlt => ?_, fun hle => ?_⟩
    · change s.framesSinceQualityReport + 1 = s.framesSinceDredPoll + 1 ∨
        s.framesSinceQualityReport + 1 = s.framesSinceDredPoll + 1 + 25
      omega
    · exact h.early (Nat.lt_of_succ_lt hlt)
    · change 25 ≤ s.framesSinceQualityReport + 1 at hle
      exact h.late (by omega)
  · rw [heq]
    exact ⟨(by decide : 0 < 25), (by decide : 25 < 50), Or.inr rfl,
      fun hlt => absurd hlt (by decide : ¬ 25 < 25), fun _ => rfl⟩
  · rw [heq]
    exact ⟨(by decide : 0 < 25), (by decide : 0 < 50), Or.inl rfl, fun _ => Or.inl rfl,
      fun hle => absurd hle (by decide : ¬ 25 ≤ 0)⟩

/-! ## Each reading -/

theorem poll_windowed_iff (h : Inv s) (r : Readings) :
    (∀ m, (s.dredPoll r.poll).1 = some m → CoversSince m r.poll s.lastPoll) ↔
      (s.framesSinceDredPoll + 1 ≥ dredPollInterval → s.framesSinceQualityReport < 25 →
        ∀ prev, s.lastPoll = some prev → 20 ≤ r.poll.sentPackets - prev.sentPackets →
          ∀ last, s.lastReport = some last →
            last = prev ∨ prev = .zero ∧ r.poll.sentPackets - last.sentPackets < 20) := by
  by_cases hdue : s.framesSinceDredPoll + 1 ≥ dredPollInterval
  swap
  · rw [dredPoll, if_neg hdue]
    exact ⟨fun _ hnow => absurd hnow hdue, fun _ m hm => absurd hm.symm (Option.some_ne_none m)⟩
  have hmeasured : (s.dredPoll r.poll).1 = some (s.measure r.poll).1 := by rw [dredPoll, if_pos hdue]
  rw [hmeasured]
  constructor
  · intro hwindowed _ hearly prev hprev henough last hlast
    have hcovers := hwindowed _ rfl
    rw [hprev] at hcovers
    rcases h.early hearly with hreport | ⟨hnone, -⟩
    · obtain rfl := Option.some.inj (hreport.symm.trans hlast)
      exact (measure_coversSince_iff s r.poll).mp hcovers henough
    · exact absurd (hprev.symm.trans hnone) (Option.some_ne_none prev)
  · intro hquiet m hm
    obtain rfl := Option.some.inj hm
    cases hprev : s.lastPoll with
    | none => trivial
    | some prev =>
        refine (measure_coversSince_iff s r.poll).mpr fun henough => ?_
        by_cases hearly : s.framesSinceQualityReport < 25
        · rcases h.early hearly with hreport | ⟨hnone, -⟩
          · exact hquiet hdue hearly prev hprev henough _ hreport
          · exact absurd (hprev.symm.trans hnone) (Option.some_ne_none prev)
        · have hlast := h.late (Nat.le_of_not_lt hearly)
          exact Or.inl (Option.some.inj (hlast.symm.trans hprev))

/-- When a report falls due, the poll of the same iteration has just moved the window. -/
theorem report_windowed_iff (h : Inv s) (r : Readings) :
    (∀ m, ((s.dredPoll r.poll).2.qualityReport r.report).1 = some m →
        CoversSince m r.report s.lastReport) ↔
      (s.framesSinceQualityReport + 1 ≥ qualityReportInterval →
        ∀ prev, s.lastReport = some prev → 20 ≤ r.report.sentPackets - prev.sentPackets →
          r.poll = prev ∨ prev = .zero ∧ r.report.sentPackets - r.poll.sentPackets < 20) := by
  have hframes : (s.dredPoll r.poll).2.framesSinceQualityReport = s.framesSinceQualityReport := by
    rw [dredPoll]
    split
    · rfl
    · rfl
  by_cases hdue : s.framesSinceQualityReport + 1 ≥ qualityReportInterval
  swap
  · rw [qualityReport, hframes, if_neg hdue]
    exact ⟨fun _ hnow => absurd hnow hdue, fun _ m hm => absurd hm.symm (Option.some_ne_none m)⟩
  have hpolls : s.framesSinceDredPoll + 1 ≥ dredPollInterval := by
    have htogether := h.together
    have hlt := h.dred_lt
    change 50 ≤ s.framesSinceQualityReport + 1 at hdue
    change 25 ≤ s.framesSinceDredPoll + 1
    omega
  have hmeasured : ((s.dredPoll r.poll).2.qualityReport r.report).1 =
      some ((s.dredPoll r.poll).2.measure r.report).1 := by
    rw [qualityReport, hframes, if_pos hdue]
  have hprev : (s.dredPoll r.poll).2.lossWindow.prev = r.poll := by
    rw [dredPoll, if_pos hpolls]
    exact measure_prev s r.poll
  rw [hmeasured]
  constructor
  · intro hwindowed _ prev hlast henough
    have hcovers := hwindowed _ rfl
    rw [hlast, measure_coversSince_iff, hprev] at hcovers
    exact hcovers henough
  · intro hquiet m hm
    obtain rfl := Option.some.inj hm
    cases hlast : s.lastReport with
    | none => trivial
    | some prev =>
        rw [measure_coversSince_iff, hprev]
        exact hquiet hdue prev hlast

theorem windowed_iff (h : Inv s) (r : Readings) : Windowed s r ↔ Quiet s r :=
  ⟨fun hw => ⟨(poll_windowed_iff h r).mp hw.poll, (report_windowed_iff h r).mp hw.report⟩,
    fun hq => ⟨(poll_windowed_iff h r).mpr hq.poll, (report_windowed_iff h r).mpr hq.report⟩⟩

/-- Loss is windowed in exactly the runs in which one reading does not move the window
away from under the other. -/
theorem windowed_run_iff (readings : List Readings) :
    EachStep step Windowed start readings ↔ EachStep step Quiet start readings :=
  eachStep_congr_of_invariant (fun _ r h => inv_step h r) (fun _ r h => windowed_iff h r) inv_start

instance (m : Measured) (now : PathCounters) :
    (prev : Option PathCounters) → Decidable (CoversSince m now prev)
  | none => isTrue trivial
  | some prev => inferInstanceAs (Decidable (20 ≤ now.sentPackets - prev.sentPackets →
      m.loss = (Span.mk prev now).pct ∧ m.span = ⟨prev, now⟩))

instance (s : LossReports) (r : Readings) : Decidable (Windowed s r) :=
  decidable_of_iff
    ((∀ m ∈ (s.dredPoll r.poll).1, CoversSince m r.poll s.lastPoll) ∧
      ∀ m ∈ ((s.dredPoll r.poll).2.qualityReport r.report).1,
        CoversSince m r.report s.lastReport)
    ⟨fun h => ⟨h.1, h.2⟩, fun h => ⟨h.poll, h.report⟩⟩

/-- Ten packets a frame, none lost up to the first report and two in ten after it. -/
def lossyAfterReport : List Readings :=
  (List.range 100).map fun k =>
    ⟨⟨10 * (k + 1), 2 * (k + 1 - 50)⟩, ⟨10 * (k + 1), 2 * (k + 1 - 50)⟩⟩

/-- The report of the last frame, after the readings before. -/
def lastReportOf (readings : List Readings) (r : Readings) : Option Measured :=
  (((run step start readings).dredPoll r.poll).2.qualityReport r.report).1

/-- The second report says 10 percent, the loss of the whole connection. Since the first
report 20 percent were lost. -/
theorem second_report_cumulative :
    ¬ EachStep step Windowed start lossyAfterReport ∧
      (lastReportOf (lossyAfterReport.take 99) ⟨⟨1000, 100⟩, ⟨1000, 100⟩⟩).map Measured.loss =
        some 10 ∧
      (Span.mk ⟨500, 0⟩ ⟨1000, 100⟩).pct = 20 := by
  refine ⟨?_, ?_, ?_⟩
  · decide +kernel
  · decide +kernel
  · decide +kernel

end LossReports
end Wzp.Desktop
