import Wzp.Relay.RoomRefinement
import Wzp.Relay.TrunkedForwarding

/-!
# The layer a receiver gets

What one report changes, when the selected layer changes over a sequence of reports,
and which layers the reports of a participant lead to when they come over the wire.
-/
namespace Wzp.Relay.Sfu
open Bytes Proto Runs

/-! ## One update -/

/-- Long enough for a switch, in whole milliseconds. -/
def HysteresisElapsed (since now : ℕ) : Prop := layerSwitchHysteresisMs ≤ (now - since) / 1000000

instance (since now : ℕ) : Decidable (HysteresisElapsed since now) :=
  inferInstanceAs (Decidable (_ ≤ _))

namespace ReceiverState
variable (s : ReceiverState) (bweKbps : UInt32) (lossPct : UInt8) (now : ℕ)

/-- A suggestion is taken up: at once while no bandwidth is known, else as a candidate
that has lasted. -/
def TakesUp : Prop :=
  s.bweKbps = 0 ∨
    suggestLayer bweKbps lossPct = s.candidateLayer ∧ HysteresisElapsed s.candidateSince now

instance : Decidable (s.TakesUp bweKbps lossPct now) := inferInstanceAs (Decidable (_ ∨ _))

@[simp] theorem update_candidateLayer :
    (s.update bweKbps lossPct now).candidateLayer = suggestLayer bweKbps lossPct := by
  unfold update
  dsimp only
  split
  · rfl
  split
  · rfl
  split
  · rfl
  · next hcandidate => split <;> exact (not_not.mp hcandidate).symm

theorem update_selectedLayer :
    (s.update bweKbps lossPct now).selectedLayer =
      if s.TakesUp bweKbps lossPct now then suggestLayer bweKbps lossPct else s.selectedLayer := by
  unfold update
  dsimp only
  split
  · next hsame => rw [← hsame, ite_self]
  split
  · next hfirst =>
      have htakes : s.TakesUp bweKbps lossPct now := Or.inl hfirst
      rw [if_pos htakes]
  · next hknown =>
      have htakes : s.TakesUp bweKbps lossPct now ↔
          suggestLayer bweKbps lossPct = s.candidateLayer ∧
            HysteresisElapsed s.candidateSince now := or_iff_right hknown
      split
      · next hother => rw [if_neg fun h => hother (htakes.mp h).1]
      · next hcandidate =>
          split
          · next helapsed => rw [if_pos (htakes.mpr ⟨not_not.mp hcandidate, helapsed⟩)]
          · next hshort => rw [if_neg fun h => hshort (htakes.mp h).2]

/-- The candidate of an earlier report is kept, with its time. -/
theorem update_candidateSince (hcandidate : suggestLayer bweKbps lossPct = s.candidateLayer)
    (hknown : s.bweKbps ≠ 0) (hother : suggestLayer bweKbps lossPct ≠ s.selectedLayer) :
    (s.update bweKbps lossPct now).candidateSince = s.candidateSince := by
  unfold update
  dsimp only
  rw [if_neg hother, if_neg hknown, if_neg (not_not.mpr hcandidate)]
  split <;> rfl

/-- A new candidate has its time from the report that suggests it. -/
theorem update_newCandidate (hcandidate : suggestLayer bweKbps lossPct ≠ s.candidateLayer) :
    (s.update bweKbps lossPct now).candidateSince = now := by
  unfold update
  dsimp only
  rw [if_pos hcandidate]
  repeat' split
  all_goals rfl

end ReceiverState

/-! ## Sequences of reports -/

/-- What an update is called with. -/
structure LayerReport where
  bweKbps : UInt32
  lossPct : UInt8
  now : ℕ

def LayerReport.suggested (r : LayerReport) : UInt8 :=
  ReceiverState.suggestLayer r.bweKbps r.lossPct

/-- The time from which on every report has suggested the layer. The latest report
comes first. -/
def suggestedSince (layer : UInt8) : List LayerReport → Option ℕ
  | [] => none
  | r :: log => if r.suggested = layer then some ((suggestedSince layer log).getD r.now) else none

/-- A receiver's state and its reports so far, the latest first. -/
structure SelectionRun where
  receiver : ReceiverState
  log : List LayerReport

namespace SelectionRun

def start (now : ℕ) : SelectionRun := ⟨.new now, []⟩

def step (s : SelectionRun) (r : LayerReport) : SelectionRun :=
  ⟨s.receiver.update r.bweKbps r.lossPct r.now, r :: s.log⟩

/-- After the first report, the layer changes only to one that every report has suggested
for long enough. -/
def Steady (s : SelectionRun) (r : LayerReport) : Prop :=
  s.log ≠ [] → (s.step r).receiver.selectedLayer ≠ s.receiver.selectedLayer →
    (s.step r).receiver.selectedLayer = r.suggested ∧
      ∃ since ∈ suggestedSince r.suggested (s.step r).log, HysteresisElapsed since r.now

/-- After a report of no bandwidth at all, the next one suggests the layer that is
selected, or the candidate once it has lasted. -/
def NotRearmed (s : SelectionRun) (r : LayerReport) : Prop :=
  s.log ≠ [] → s.receiver.bweKbps = 0 → r.suggested = s.receiver.selectedLayer ∨
    r.suggested = s.receiver.candidateLayer ∧ HysteresisElapsed s.receiver.candidateSince r.now

/-- The candidate is what the latest report suggested, for as long as reports have. -/
structure Tracks (s : SelectionRun) : Prop where
  unknown : s.log = [] → s.receiver.bweKbps = 0
  candidate : ∀ r ∈ s.log.head?, s.receiver.candidateLayer = r.suggested
  since : s.log ≠ [] → s.receiver.selectedLayer ≠ s.receiver.candidateLayer →
    suggestedSince s.receiver.candidateLayer s.log = some s.receiver.candidateSince

variable {s : SelectionRun} {r : LayerReport}

theorem tracks_start (now : ℕ) : (start now).Tracks where
  unknown _ := rfl
  candidate _ h := nomatch h
  since h := absurd rfl h

theorem step_selectedLayer : (s.step r).receiver.selectedLayer =
    if s.receiver.TakesUp r.bweKbps r.lossPct r.now then r.suggested
    else s.receiver.selectedLayer :=
  s.receiver.update_selectedLayer r.bweKbps r.lossPct r.now

/-- What earlier reports have suggested goes on with the next one, or begins with it. -/
theorem suggestedSince_step (h : s.Tracks) (hlog : s.log ≠ [])
    (hother : r.suggested ≠ s.receiver.selectedLayer) :
    suggestedSince r.suggested (s.step r).log =
      some (if r.suggested = s.receiver.candidateLayer then s.receiver.candidateSince
        else r.now) := by
  rw [step, suggestedSince, if_pos rfl, Option.some_inj]
  split
  · next hsame =>
      rw [hsame, h.since hlog fun hselected => hother (hsame.trans hselected.symm)]
      rfl
  · next hnew =>
      obtain ⟨last, log, hlast⟩ := List.exists_cons_of_ne_nil hlog
      have hcandidate := h.candidate last (by rw [hlast]; rfl)
      rw [hlast, suggestedSince, if_neg fun hagain => hnew (hcandidate ▸ hagain.symm)]
      rfl

theorem tracks_step (h : s.Tracks) (r : LayerReport) : (s.step r).Tracks where
  unknown hnil := absurd hnil (List.cons_ne_nil r s.log)
  candidate last hlast := by
    obtain rfl := Option.some.inj hlast
    exact ReceiverState.update_candidateLayer _ _ _ _
  since _ hwaits := by
    have hcandidate : (s.step r).receiver.candidateLayer = r.suggested :=
      ReceiverState.update_candidateLayer _ _ _ _
    rw [hcandidate, step_selectedLayer] at hwaits
    rw [hcandidate]
    split at hwaits
    · exact absurd rfl hwaits
    · next hstays =>
        have hknown : s.receiver.bweKbps ≠ 0 := fun hzero => hstays (Or.inl hzero)
        rw [suggestedSince_step h (mt h.unknown hknown) hwaits.symm, Option.some_inj]
        split
        · next hsame =>
            exact (ReceiverState.update_candidateSince _ _ _ _ hsame hknown hwaits.symm).symm
        · next hnew => exact (ReceiverState.update_newCandidate _ _ _ _ hnew).symm

/-- A report suggests the layer long enough exactly when it is the candidate that has lasted. -/
theorem exists_suggestedSince (h : s.Tracks) (hlog : s.log ≠ [])
    (hother : r.suggested ≠ s.receiver.selectedLayer) :
    (∃ since ∈ suggestedSince r.suggested (s.step r).log, HysteresisElapsed since r.now) ↔
      r.suggested = s.receiver.candidateLayer ∧
        HysteresisElapsed s.receiver.candidateSince r.now := by
  rw [suggestedSince_step h hlog hother]
  simp only [Option.mem_def, Option.some_inj, exists_eq_left']
  split
  · next hsame => exact (and_iff_right hsame).symm
  · next hnew =>
      refine iff_of_false (fun helapsed => ?_) fun hlasted => hnew hlasted.1
      rw [HysteresisElapsed, Nat.sub_self] at helapsed
      exact absurd helapsed (by decide)

theorem steady_iff_notRearmed (h : s.Tracks) : s.Steady r ↔ s.NotRearmed r := by
  by_cases hlog : s.log = []
  · exact iff_of_true (fun hne => absurd hlog hne) fun hne => absurd hlog hne
  by_cases hsame : r.suggested = s.receiver.selectedLayer
  · refine iff_of_true (fun _ hchanges => absurd ?_ hchanges) fun _ _ => Or.inl hsame
    rw [step_selectedLayer, hsame, ite_self]
  have hlasted := exists_suggestedSince h hlog hsame
  rw [Steady, NotRearmed, hlasted, step_selectedLayer, imp_iff_right hlog, imp_iff_right hlog,
    or_iff_right hsame]
  by_cases htakes : s.receiver.TakesUp r.bweKbps r.lossPct r.now
  · rw [if_pos htakes, imp_iff_right hsame, and_iff_right rfl]
    -- without a report of 0 the layer is taken up because it has lasted
    exact ⟨fun hboth _ => hboth, fun hlasts => htakes.elim hlasts id⟩
  · rw [if_neg htakes]
    refine iff_of_true (fun hne => absurd rfl hne) fun hzero => absurd (Or.inl hzero) htakes

end SelectionRun

/-- The layer of a receiver changes only to one that every report has suggested for three
seconds, as long as after a report of no bandwidth the next one suggests no other layer. -/
theorem layer_switches_steady (now : ℕ) (reports : List LayerReport) :
    EachStep SelectionRun.step SelectionRun.Steady (.start now) reports ↔
      EachStep SelectionRun.step SelectionRun.NotRearmed (.start now) reports := by
  have hstart := SelectionRun.tracks_start now
  exact eachStep_congr_of_invariant (fun s r h => SelectionRun.tracks_step h r)
    (fun s r h => SelectionRun.steady_iff_notRearmed h) hstart

/-- A report of no bandwidth for a moment lets the next one switch at once. -/
theorem layer_switches_after_zero :
    ¬ EachStep SelectionRun.step SelectionRun.Steady (.start 0)
      [⟨1000, 0, 0⟩, ⟨0, 0, 1000000⟩, ⟨4000, 0, 2000000⟩] := by
  rintro ⟨-, -, hthird, -⟩
  obtain ⟨-, since, hsince, helapsed⟩ := hthird (List.cons_ne_nil _ _) (by decide)
  obtain rfl := Option.some.inj hsince
  exact absurd helapsed (by decide)

/-! ## Reports over the wire -/
section
variable {Addr : Type} (cfg : LoopSetup Addr)

/-- What the participant sends carries this report or none, and its state is updated by
its own packets alone. -/
def ReportsOnly (report : QualityReport) : LoopEvent → Prop
  | .datagram data _ _ => ∀ pkt, MediaPacket.fromBytes data = some pkt →
      pkt.qualityReport = none ∨ pkt.qualityReport = some report
  | .tick => True
  | .rooms op => ∀ bweKbps lossPct now,
      op ≠ .updateReceiverState cfg.room cfg.id bweKbps lossPct now

/-- The time of a report. -/
def reportTime : LoopEvent → Option ℕ
  | .datagram data now _ =>
      (MediaPacket.fromBytes data).bind fun pkt => pkt.qualityReport.map fun _ => now
  | _ => none

def reportTimes (es : List LoopEvent) : List ℕ := es.filterMap reportTime

/-- Reports come in over more than three seconds. -/
def SpansHysteresis (times : List ℕ) : Prop :=
  times.Pairwise (· ≤ ·) ∧
    ∃ first ∈ times, ∃ last ∈ times, first + layerSwitchHysteresisMs * 1000000 < last

/-- A participant that is in a room without a recorded state, and stays there, is put on
the layer of its bandwidth and loss by reports of these two over more than three seconds.
`encode` is how it fills in a report. -/
def TracksDownlink (encode : UInt32 → UInt8 → QualityReport) (bweKbps : UInt32)
    (lossPct : UInt8) : Prop :=
  ∀ (start : ParticipantId) (m₀ : RoomManager) (ops : List RoomOp) (es : List LoopEvent),
    m₀ = .new start ∨ m₀ = .withAcl start →
    (run RoomManager.step m₀ ops).receiverStates.lookup (cfg.room, cfg.id) = none →
    Throughout (LoopState.next cfg)
      (fun s => s.manager.containsParticipant cfg.room cfg.id = true)
      ⟨run RoomManager.step m₀ ops, true⟩ es →
    (∀ e ∈ es, ReportsOnly cfg (encode bweKbps lossPct) e) → SpansHysteresis (reportTimes es) →
    (run (LoopState.next cfg) ⟨run RoomManager.step m₀ ops, true⟩ es).manager.selectedLayer
      cfg.room cfg.id = ReceiverState.suggestLayer bweKbps lossPct

/-! ### The layer stays the lowest -/

theorem suggestLayer_eq_zero {bweKbps : UInt32} (lossPct : UInt8) :
    ReceiverState.suggestLayer bweKbps lossPct = 0 ↔ bweKbps ≤ 750 := by
  rw [ReceiverState.suggestLayer]
  constructor
  · intro hzero
    split at hzero
    · exact absurd hzero (by decide)
    split at hzero
    · exact absurd hzero (by decide)
    · next hmid => exact UInt32.not_lt.mp hmid
  · intro hle
    rw [if_neg fun h => UInt32.not_lt.mpr (UInt32.le_trans hle (by decide)) h.1,
      if_neg (show ¬ bweKbps > simulcastMidThresholdKbps from UInt32.not_lt.mpr hle)]

/-- A bandwidth that fits a byte suggests the lowest layer. -/
theorem suggestLayer_of_byte (bweKbps lossPct : UInt8) :
    ReceiverState.suggestLayer bweKbps.toUInt32 lossPct = 0 := by
  rw [suggestLayer_eq_zero, UInt32.le_iff_toNat_le, UInt8.toNat_toUInt32]
  exact (Nat.le_of_lt_succ bweKbps.toNat_lt).trans (by decide)

namespace RoomManager
variable {m : RoomManager} {room : RoomName} {id : ParticipantId}

/-- A report of a byte leaves a receiver on the lowest layer. -/
theorem selectedLayer_update_byte (h : m.selectedLayer room id = 0) (bweKbps lossPct : UInt8)
    (now : ℕ) :
    (m.updateReceiverState room id bweKbps.toUInt32 lossPct now).selectedLayer room id = 0 := by
  rw [updateReceiverState, selectedLayer, Table.lookup_insert_self, Option.map_some,
    Option.getD_some, ReceiverState.update_selectedLayer, suggestLayer_of_byte]
  split
  · rfl
  · rw [selectedLayer] at h
    cases hstate : m.receiverStates.lookup (room, id) with
    | none => rfl
    | some state =>
        rw [hstate] at h
        exact h

/-- Nothing but a report of its own takes a receiver off the lowest layer. -/
theorem selectedLayer_step (h : m.selectedLayer room id = 0) {op : RoomOp}
    (hop : ∀ bweKbps lossPct now, op ≠ .updateReceiverState room id bweKbps lossPct now) :
    (m.step op).selectedLayer room id = 0 := by
  have hbeside : ∀ {op}, IsBeside op = true → (m.step op).selectedLayer room id = 0 := fun hop =>
    (selectedLayer_congr (sameView_step hop).receiverStates room id).trans h
  have hjoin : ∀ a sender fp al, (m.join a sender fp al).1.selectedLayer room id = 0 := by
    intro a sender fp al
    cases hauth : m.isAuthorized a fp with
    | true =>
        rw [selectedLayer_congr (m := m.clearParticipants a ((m.roomOrNew a).replace fp).2)
          (by rw [join_eq hauth]), selectedLayer_clearParticipants, h, ite_self]
    | false => rw [join_of_unauthorized hauth, h]
  cases op with
  | join a sender fp al => exact hjoin a sender fp al
  | joinWs a fp => exact hjoin a .webSocket fp none
  | leave a i =>
      cases hlookup : m.rooms.lookup a with
      | none => rw [step, leave_of_absent hlookup, h]
      | some r =>
          by_cases hnil : (r.left i).participants = []
          · rw [step, selectedLayer_congr (m := (m.clearParticipantState a i).clearRoomState a)
              (by rw [leave_last_eq hlookup hnil]), selectedLayer_clearRoomState,
              selectedLayer_clearParticipantState, h, ite_self, ite_self]
          · rw [step, selectedLayer_congr (m := m.clearParticipantState a i)
              (by rw [leave_eq hlookup hnil]), selectedLayer_clearParticipantState, h, ite_self]
  | updateReceiverState a i bweKbps lossPct now =>
      have hne : (room, id) ≠ (a, i) := by
        intro hsame
        obtain ⟨rfl, rfl⟩ := Prod.mk.inj hsame
        exact hop bweKbps lossPct now rfl
      rw [step, updateReceiverState, selectedLayer, Table.lookup_insert_ne hne]
      exact h
  | allow | updateKeyframeCache | registerStream | shouldForwardPli | observeQuality =>
      exact hbeside rfl

end RoomManager

variable {cfg}

theorem selectedLayer_observePacket {m : RoomManager} (h : m.selectedLayer cfg.room cfg.id = 0)
    (pkt : MediaPacket) (now : ℕ) :
    (LoopState.observePacket cfg m pkt now).selectedLayer cfg.room cfg.id = 0 := by
  have hcache : (m.step (.updateKeyframeCache cfg.room cfg.id pkt)).selectedLayer cfg.room
      cfg.id = 0 := RoomManager.selectedLayer_step h fun _ _ _ h => nomatch h
  have hstream : ((m.step (.updateKeyframeCache cfg.room cfg.id pkt)).step
      (.registerStream cfg.room cfg.id pkt)).selectedLayer cfg.room cfg.id = 0 :=
    RoomManager.selectedLayer_step hcache fun _ _ _ h => nomatch h
  rw [LoopState.observePacket]
  cases pkt.qualityReport with
  | none => exact hstream
  | some report =>
      have hreport := RoomManager.selectedLayer_update_byte hstream report.bitrateCapKbps
        report.lossPct now
      have hquality : ∀ m : RoomManager, m.SameView (m.step (.observeQuality cfg.room cfg.id now
        report)) := fun _ => RoomManager.sameView_step rfl
      exact (RoomManager.selectedLayer_congr (hquality _).receiverStates _ _).trans hreport

theorem selectedLayer_next {s : LoopState} {e : LoopEvent} {report : QualityReport}
    (h : s.manager.selectedLayer cfg.room cfg.id = 0) (he : ReportsOnly cfg report e) :
    (s.next cfg e).manager.selectedLayer cfg.room cfg.id = 0 := by
  cases e with
  | datagram data now mtu =>
      rw [LoopState.next]
      cases MediaPacket.fromBytes data with
      | none => exact h
      | some pkt =>
          dsimp only
          split
          · exact selectedLayer_observePacket h pkt now
          · exact h
  | tick => exact h
  | rooms op => exact RoomManager.selectedLayer_step h he

/-- Whatever a participant reports, it stays on the lowest layer. -/
theorem selectedLayer_run {s : LoopState} {es : List LoopEvent} {report : QualityReport}
    (h : s.manager.selectedLayer cfg.room cfg.id = 0) (hes : ∀ e ∈ es, ReportsOnly cfg report e) :
    (run (LoopState.next cfg) s es).manager.selectedLayer cfg.room cfg.id = 0 :=
  (throughout_of_eachStep (P := fun s : LoopState => s.manager.selectedLayer cfg.room cfg.id = 0)
    (fun _ _ => selectedLayer_next) h (eachStep_of_forall fun e he _ => hes e he)).last

/-! ### A participant that reports twice -/

def reportingHeader : MediaHeader := ⟨2, MediaHeader.flagQuality, .audio, .opus24k, 0, 0, 0, 0, 0⟩

/-- An audio packet with the report and no payload. -/
def reporting (report : QualityReport) : MediaPacket := ⟨reportingHeader, [], some report⟩

theorem fromBytes_reporting (report : QualityReport) :
    MediaPacket.fromBytes (reporting report).toBytes = some (reporting report) := by
  have hquality : true = reportingHeader.hasQuality := by decide
  exact MediaPacket.fromBytes_toBytes ⟨rfl, hquality⟩

theorem reportTime_reporting (report : QualityReport) (now : ℕ) (mtu : ParticipantId → Option ℕ) :
    reportTime (.datagram (reporting report).toBytes now mtu) = some now := by
  rw [reportTime, fromBytes_reporting]
  rfl

/-- Packets of the participant change nobody's membership. -/
theorem containsParticipant_observePacket (m : RoomManager) (pkt : MediaPacket) (now : ℕ) :
    (LoopState.observePacket cfg m pkt now).containsParticipant cfg.room cfg.id =
      m.containsParticipant cfg.room cfg.id := by
  have hsame : ∀ a, (LoopState.observePacket cfg m pkt now).localSenders a = m.localSenders a := by
    intro a
    have hcache : RoomManager.SameView m (m.step (.updateKeyframeCache cfg.room cfg.id pkt)) :=
      RoomManager.sameView_step rfl
    have hstream : RoomManager.SameView _ ((m.step (.updateKeyframeCache cfg.room cfg.id pkt)).step
      (.registerStream cfg.room cfg.id pkt)) := RoomManager.sameView_step rfl
    have hpacket := (hstream.localSenders a).trans (hcache.localSenders a)
    rw [LoopState.observePacket]
    cases pkt.qualityReport with
    | none => exact hpacket
    | some report =>
        exact (RoomManager.observeQuality_localSenders _ _ _ _ _ a).trans hpacket
  rw [Bool.eq_iff_iff, RoomManager.containsParticipant_iff, RoomManager.containsParticipant_iff,
    hsame]

theorem containsParticipant_next {s : LoopState} {data : Buf} {now : ℕ}
    {mtu : ParticipantId → Option ℕ} :
    (s.next cfg (.datagram data now mtu)).manager.containsParticipant cfg.room cfg.id =
      s.manager.containsParticipant cfg.room cfg.id := by
  rw [LoopState.next]
  cases MediaPacket.fromBytes data with
  | none => rfl
  | some pkt =>
      dsimp only
      split
      · exact containsParticipant_observePacket s.manager pkt now
      · rfl

/-- Two reports that are four seconds apart. -/
def reportTwice (report : QualityReport) : List LoopEvent :=
  [.datagram (reporting report).toBytes 0 fun _ => none,
    .datagram (reporting report).toBytes 4000000000 fun _ => none]

theorem reportTimes_twice (report : QualityReport) :
    reportTimes (reportTwice report) = [0, 4000000000] := by
  rw [reportTimes, reportTwice, List.filterMap_cons_some (reportTime_reporting _ _ _),
    List.filterMap_cons_some (reportTime_reporting _ _ _), List.filterMap_nil]

/-- A participant that joins and reports twice is on the lowest layer, so its bandwidth
suggests that. -/
theorem suggestLayer_of_tracks {encode : UInt32 → UInt8 → QualityReport} {bweKbps : UInt32}
    {lossPct : UInt8} (h : TracksDownlink cfg encode bweKbps lossPct) :
    ReceiverState.suggestLayer bweKbps lossPct = 0 := by
  have hreports : ∀ e ∈ reportTwice (encode bweKbps lossPct),
      ReportsOnly cfg (encode bweKbps lossPct) e := by
    intro e he
    have hdatagram : ∃ now mtu, e = .datagram (reporting (encode bweKbps lossPct)).toBytes now mtu := by
      rcases List.mem_pair.mp he with rfl | rfl
      · exact ⟨_, _, rfl⟩
      · exact ⟨_, _, rfl⟩
    obtain ⟨now, mtu, rfl⟩ := hdatagram
    intro pkt hpkt
    obtain rfl := Option.some.inj ((fromBytes_reporting _).symm.trans hpkt)
    exact Or.inr rfl
  have hjoined : (run RoomManager.step (.new cfg.id)
      [.join cfg.room .quic none none]).containsParticipant cfg.room cfg.id = true := by
    rw [RoomManager.containsParticipant_iff]
    refine List.mem_map.mpr ⟨⟨cfg.id, .quic, none, none⟩, ?_, rfl⟩
    exact (RoomManager.mem_localSenders_join rfl).mpr (Or.inr ⟨rfl, rfl⟩)
  have hunknown : (run RoomManager.step (.new cfg.id)
      [.join cfg.room .quic none none]).receiverStates.lookup (cfg.room, cfg.id) = none := by
    rfl
  have hruns := h cfg.id (.new cfg.id) [.join cfg.room .quic none none]
    (reportTwice (encode bweKbps lossPct)) (Or.inl rfl) hunknown
    ⟨hjoined, containsParticipant_next.trans hjoined,
      containsParticipant_next.trans (containsParticipant_next.trans hjoined)⟩ hreports (by
      rw [reportTimes_twice]
      exact ⟨by decide, 0, by decide, 4000000000, by decide, by decide⟩)
  rw [← hruns]
  refine selectedLayer_run ?_ hreports
  rw [RoomManager.selectedLayer, hunknown]
  rfl

end

/-- What a participant reports goes through a byte, so however it fills in its reports its
layer follows its bandwidth exactly if that suggests the lowest one. -/
theorem tracksDownlink_iff {Addr : Type} (cfg : LoopSetup Addr)
    (encode : UInt32 → UInt8 → QualityReport) (bweKbps : UInt32) (lossPct : UInt8) :
    TracksDownlink cfg encode bweKbps lossPct ↔ bweKbps ≤ 750 := by
  rw [← suggestLayer_eq_zero lossPct]
  constructor
  · exact suggestLayer_of_tracks
  · intro hlow start m₀ ops es _ hunknown _ hreports _
    rw [hlow]
    refine selectedLayer_run ?_ hreports
    rw [RoomManager.selectedLayer, hunknown]
    rfl

/-- 4000 kbps without loss are reported as 255 at most. -/
theorem fast_downlink_not_tracked :
    ¬ TracksDownlink (⟨[1], 7, id, (0, 7), false, none, fun _ => Vector.replicate 32 0⟩ :
        LoopSetup ParticipantId)
      (fun bweKbps lossPct => ⟨lossPct, 0, 0, UInt8.ofNat (min bweKbps.toNat 255)⟩) 4000 0 :=
  fun h => absurd (suggestLayer_of_tracks h) (by decide)

end Wzp.Relay.Sfu
