import Wzp.Lib.Runs
import Wzp.Proto.Jitter
import Wzp.Relay.Rooms

/-!
# Browser frames

A binary frame of a WebSocket participant reaches a QUIC participant as a media
packet whose header the relay makes up, and waits in the jitter buffer there.
-/
namespace Wzp.Relay
open Bytes Proto Runs

/-- The packet the relay makes of raw bytes. -/
def rawPacket (data : Buf) : MediaPacket := ⟨⟨2, 0, .audio, .opus24k, 0, 0, 0, 0, 0⟩, data, none⟩

/-- What a participant is sent for raw bytes. -/
def ParticipantSender.sendRaw (sender : ParticipantSender) (data : Buf) : Buf :=
  match sender with
  | .webSocket => data
  | .quic => (rawPacket data).toBytes

theorem fromBytes_sendRaw (data : Buf) :
    MediaPacket.fromBytes (ParticipantSender.quic.sendRaw data) = some (rawPacket data) :=
  MediaPacket.fromBytes_toBytes
    ⟨rfl, (by decide : false = ((0 : UInt8) &&& MediaHeader.flagQuality != 0))⟩

/-- How a receiver sets up its buffer; the range of an adaptive one is not empty. -/
inductive JitterConfig where
  | fixed (targetDepth maxDepth minDepth : ℕ)
  | adaptive (minDelay maxDelay : ℕ) (range : minDelay ≤ maxDelay)

def JitterConfig.buffer : JitterConfig → JitterBuffer
  | .fixed targetDepth maxDepth minDepth => .new targetDepth maxDepth minDepth
  | .adaptive minDelay maxDelay _ => .newAdaptive minDelay maxDelay

/-- The receiver's buffer, the frames that have arrived, and those played. -/
structure BrowserPlayout where
  jitter : JitterBuffer
  arrived : List Buf
  played : List Buf

inductive PlayoutEvent where
  | frame (data : Buf) (now : ℕ)
  | pop
  deriving DecidableEq, Repr

namespace BrowserPlayout

def start (config : JitterConfig) : BrowserPlayout := ⟨config.buffer, [], []⟩

def step (s : BrowserPlayout) : PlayoutEvent → BrowserPlayout
  | .frame data now =>
      { s with
        jitter := match MediaPacket.fromBytes (ParticipantSender.quic.sendRaw data) with
          | some packet => s.jitter.push now packet
          | none => s.jitter
        arrived := s.arrived ++ [data] }
  | .pop =>
      { s with
        jitter := s.jitter.pop.2
        played := match s.jitter.pop.1 with
          | .packet p => s.played ++ [p.payload]
          | .missing _ => s.played
          | .notReady => s.played }

def frames (es : List PlayoutEvent) : List Buf :=
  es.filterMap fun e => match e with
    | .frame data _ => some data
    | .pop => none

/-- After enough further pops every frame has been played once and in order, and
none has been counted as duplicate or late. -/
def Survive (config : JitterConfig) (es : List PlayoutEvent) : Prop :=
  ∃ n, let s := run step (start config) (es ++ List.replicate n .pop)
    s.played = frames es ∧ s.jitter.stats.packetsDuplicate = 0 ∧ s.jitter.stats.packetsLate = 0

/-- A frame arrives at an empty buffer that is not about to play one of the
numbers 1 to 100. -/
def PushedAlone (s : BrowserPlayout) : PlayoutEvent → Prop
  | .frame _ _ => s.jitter.buffer = [] ∧
      ¬ (1 ≤ s.jitter.nextPlayoutSeq.toNat ∧ s.jitter.nextPlayoutSeq.toNat ≤ 100)
  | .pop => True

/-! ## The buffer -/

/-- All packets have number zero, so there is at most one. -/
structure Single (config : JitterConfig) (s : BrowserPlayout) : Prop where
  buffer : s.jitter.buffer = [] ∨ ∃ data, s.jitter.buffer = [(0, rawPacket data)]
  unused : s.jitter.initialized = false → s.jitter.buffer = [] ∧ s.played = []
  begins : s.played = [] → s.jitter.nextPlayoutSeq = 0
  queued : s.jitter.initialized = true → s.played = [] → s.jitter.buffer ≠ []
  count : s.jitter.stats.packetsPlayed = s.played.length
  maxDepth : s.jitter.maxDepth = config.buffer.maxDepth
  minDepth : s.jitter.minDepth = config.buffer.minDepth
  settled : s.jitter.Settled

def waiting (s : BrowserPlayout) : List Buf := s.jitter.buffer.map fun e => e.2.payload

/-- Nothing is missing, nothing was counted. -/
structure Complete (s : BrowserPlayout) : Prop where
  arrived : s.arrived = s.played ++ s.waiting
  duplicate : s.jitter.stats.packetsDuplicate = 0
  late : s.jitter.stats.packetsLate = 0

/-- Something that has arrived will never be played. -/
def Lost (s : BrowserPlayout) : Prop := s.played.length + s.waiting.length < s.arrived.length

variable {config : JitterConfig} {s : BrowserPlayout} {data : Buf} {now : ℕ}

theorem start_single (config : JitterConfig) : Single config (start config) := by
  cases config with
  | fixed targetDepth maxDepth minDepth =>
      refine ⟨Or.inl rfl, fun _ => ⟨rfl, rfl⟩, fun _ => rfl, fun h => absurd h Bool.false_ne_true, rfl, rfl,
        rfl, ?_⟩
      exact fun d hd => absurd hd.symm (Option.some_ne_none d)
  | adaptive minDelay maxDelay range =>
      refine ⟨Or.inl rfl, fun _ => ⟨rfl, rfl⟩, fun _ => rfl, fun h => absurd h Bool.false_ne_true, rfl, rfl,
        rfl, ?_⟩
      intro d hd
      obtain rfl := Option.some.inj hd
      exact ⟨Nat.le_refl _, AdaptivePlayoutDelay.new_ranged range⟩

theorem start_complete (config : JitterConfig) : Complete (start config) := by
  cases config with
  | fixed targetDepth maxDepth minDepth => exact ⟨rfl, rfl, rfl⟩
  | adaptive minDelay maxDelay range => exact ⟨rfl, rfl, rfl⟩

theorem step_frame (s : BrowserPlayout) (data : Buf) (now : ℕ) : s.step (.frame data now) =
    { s with jitter := s.jitter.push now (rawPacket data), arrived := s.arrived ++ [data] } := by
  simp only [step, fromBytes_sendRaw]

theorem seqBefore_zero (n : UInt32) :
    seqBefore 0 n = true ↔ 0 < n.toNat ∧ n.toNat < 0x8000 := by
  simp only [seqBefore, Bool.and_eq_true, decide_eq_true_eq, UInt32.lt_iff_toNat_lt,
    UInt32.sub_zero]
  exact Iff.rfl

/-- What a push leaves as it was. -/
structure Kept (jb jb' : JitterBuffer) : Prop where
  initialized : jb'.initialized = true
  maxDepth : jb'.maxDepth = jb.maxDepth
  minDepth : jb'.minDepth = jb.minDepth
  settled : jb'.Settled
  played : jb'.stats.packetsPlayed = jb.stats.packetsPlayed

theorem accept_raw {jb : JitterBuffer} (hbuffer : jb.buffer = []) (hinit : jb.initialized = true)
    (hmax : 0 < jb.maxDepth) (hsettled : jb.Settled)
    (hnext : jb.stats.packetsPlayed = 0 → jb.nextPlayoutSeq = 0) (data : Buf) (now : ℕ) :
    let jb' := jb.accept (rawPacket data) (JitterBuffer.tune now (rawPacket data))
    Kept jb jb' ∧ jb'.buffer = [(0, rawPacket data)] ∧ jb'.nextPlayoutSeq = jb.nextPlayoutSeq ∧
      jb'.stats.packetsDuplicate = jb.stats.packetsDuplicate ∧
      jb'.stats.packetsLate = jb.stats.packetsLate := by
  have hkeep : (if jb.stats.packetsPlayed = 0 && seqBefore 0 jb.nextPlayoutSeq then
      { jb with nextPlayoutSeq := 0 } else jb) = jb := by
    refine if_neg fun h => ?_
    obtain ⟨hzero, hbefore⟩ := Bool.and_eq_true_iff.mp h
    have heq := hnext (of_decide_eq_true hzero)
    rw [seqBefore_zero, heq] at hbefore
    exact Nat.lt_irrefl 0 hbefore.1
  obtain ⟨adaptive, target, htune, hsettled'⟩ :=
    JitterBuffer.tune_settled hsettled now (rawPacket data)
  have hfits : ¬ jb.maxDepth < ([] : List (UInt32 × MediaPacket)).length + 1 :=
    Nat.not_lt.mpr hmax
  have haccept : jb.accept (rawPacket data) (JitterBuffer.tune now (rawPacket data)) =
      ((jb.tune now (rawPacket data)).evict (JitterBuffer.insertSorted 0 (rawPacket data)
        (jb.tune now (rawPacket data)).buffer)).recordDepth :=
    congrArg (fun x : JitterBuffer => ((x.tune now (rawPacket data)).evict
      (JitterBuffer.insertSorted 0 (rawPacket data)
        (x.tune now (rawPacket data)).buffer)).recordDepth) hkeep
  rw [htune] at haccept hsettled'
  simp only [haccept, hbuffer, JitterBuffer.insertSorted, JitterBuffer.evict, if_neg hfits,
    JitterBuffer.recordDepth]
  exact ⟨⟨hinit, rfl, rfl, hsettled', rfl⟩, trivial, trivial, trivial, trivial⟩

theorem push_full {jb : JitterBuffer} {p : MediaPacket} (hbuffer : jb.buffer = [(0, p)])
    (hinit : jb.initialized = true) (hsettled : jb.Settled) (data : Buf) (now : ℕ) :
    let jb' := jb.push now (rawPacket data)
    Kept jb jb' ∧ jb'.buffer = jb.buffer ∧ jb'.nextPlayoutSeq = jb.nextPlayoutSeq ∧
      jb'.stats.packetsDuplicate = jb.stats.packetsDuplicate + 1 := by
  have hseq : (rawPacket data).header.seq = 0 := rfl
  have hkey : (jb.receive 0).containsKey 0 = true := by
    simp only [JitterBuffer.containsKey, JitterBuffer.receive, hbuffer, List.any_cons, decide_true,
      Bool.true_or]
  simp only [JitterBuffer.push, JitterBuffer.pushTuned, hseq, if_pos hkey]
  exact ⟨⟨rfl, rfl, rfl, hsettled, rfl⟩, rfl, if_pos hinit, rfl⟩

theorem push_late {jb : JitterBuffer} (hbuffer : jb.buffer = []) (hinit : jb.initialized = true)
    (hsettled : jb.Settled) (hplayed : 0 < jb.stats.packetsPlayed)
    (hlow : 1 ≤ jb.nextPlayoutSeq.toNat) (hhigh : jb.nextPlayoutSeq.toNat ≤ 100) (data : Buf)
    (now : ℕ) :
    let jb' := jb.push now (rawPacket data)
    Kept jb jb' ∧ jb'.buffer = [] ∧ jb'.nextPlayoutSeq = jb.nextPlayoutSeq ∧
      jb'.stats.packetsLate = jb.stats.packetsLate + 1 := by
  have hseq : (rawPacket data).header.seq = 0 := rfl
  have hnext : (jb.receive 0).nextPlayoutSeq = jb.nextPlayoutSeq := if_pos hinit
  have hkey : ¬ (jb.receive 0).containsKey 0 = true := by
    simp only [JitterBuffer.containsKey, JitterBuffer.receive, hbuffer, List.any_nil,
      Bool.false_eq_true, not_false_eq_true]
  have hlate : (0 < (jb.receive 0).stats.packetsPlayed &&
      seqBefore 0 (jb.receive 0).nextPlayoutSeq) = true := by
    rw [hnext, Bool.and_eq_true, seqBefore_zero]
    exact ⟨decide_eq_true hplayed, hlow, by omega⟩
  have hnear : ¬ 100 < (jb.receive 0).nextPlayoutSeq - 0 := by
    rw [hnext, UInt32.sub_zero, UInt32.lt_iff_toNat_lt]
    exact Nat.not_lt.mpr hhigh
  simp only [JitterBuffer.push, JitterBuffer.pushTuned, hseq, if_neg hkey, if_pos hlate,
    if_neg hnear]
  exact ⟨⟨rfl, rfl, rfl, hsettled, rfl⟩, hbuffer, hnext, rfl⟩

theorem push_accepted {jb : JitterBuffer} (hbuffer : jb.buffer = []) (hmax : 0 < jb.maxDepth)
    (hsettled : jb.Settled) (hbegins : jb.stats.packetsPlayed = 0 → jb.nextPlayoutSeq = 0)
    (hfar : ¬ (1 ≤ jb.nextPlayoutSeq.toNat ∧ jb.nextPlayoutSeq.toNat ≤ 100)) (data : Buf)
    (now : ℕ) :
    let jb' := jb.push now (rawPacket data)
    Kept jb jb' ∧ jb'.buffer = [(0, rawPacket data)] ∧
      (jb.stats.packetsPlayed = 0 → jb'.nextPlayoutSeq = 0) ∧
      jb'.stats.packetsDuplicate = jb.stats.packetsDuplicate ∧
      (jb.stats.packetsLate = 0 → jb'.stats.packetsLate = 0) := by
  have hseq : (rawPacket data).header.seq = 0 := rfl
  have hnext : (jb.receive 0).nextPlayoutSeq = jb.nextPlayoutSeq ∨
      (jb.receive 0).nextPlayoutSeq = 0 := by
    cases hinit : jb.initialized with
    | true => exact Or.inl (if_pos hinit)
    | false => exact Or.inr (if_neg (by rw [hinit]; exact Bool.false_ne_true))
  have hkey : ¬ (jb.receive 0).containsKey 0 = true := by
    simp only [JitterBuffer.containsKey, JitterBuffer.receive, hbuffer, List.any_nil,
      Bool.false_eq_true, not_false_eq_true]
  simp only [JitterBuffer.push, JitterBuffer.pushTuned, hseq, if_neg hkey]
  split
  · -- far behind the numbers of before, the frame resets the buffer
    rename_i hlate
    obtain ⟨hplayed, hbefore⟩ := Bool.and_eq_true_iff.mp hlate
    have hplayed := of_decide_eq_true hplayed
    have hback : 100 < (jb.receive 0).nextPlayoutSeq - 0 := by
      rw [UInt32.sub_zero, UInt32.lt_iff_toNat_lt]
      rw [seqBefore_zero] at hbefore
      rcases hnext with heq | heq
      · rw [heq] at hbefore ⊢
        exact Nat.lt_of_not_le fun hle => hfar ⟨hbefore.1, hle⟩
      · rw [heq] at hbefore
        exact absurd hbefore.1 (Nat.lt_irrefl 0)
    rw [if_pos hback]
    obtain ⟨hkept, hb, hn, hd, hl⟩ := @accept_raw { jb.receive 0 with
      buffer := []
      nextPlayoutSeq := 0
      stats := { (jb.receive 0).stats with packetsLate := 0 } } rfl rfl hmax hsettled
      (fun _ => rfl) data now
    exact ⟨⟨hkept.initialized, hkept.maxDepth, hkept.minDepth, hkept.settled, hkept.played⟩, hb,
      fun _ => hn, hd, fun _ => hl⟩
  · have hzero : jb.stats.packetsPlayed = 0 → (jb.receive 0).nextPlayoutSeq = 0 := by
      intro hp
      rcases hnext with heq | heq
      · rw [heq, hbegins hp]
      · exact heq
    obtain ⟨hkept, hb, hn, hd, hl⟩ := @accept_raw (jb.receive 0) hbuffer rfl hmax hsettled hzero
      data now
    exact ⟨⟨hkept.initialized, hkept.maxDepth, hkept.minDepth, hkept.settled, hkept.played⟩, hb,
      fun hp => hn.trans (hzero hp), hd, fun h => hl.trans h⟩

/-! ## One event -/

/-- The packet that waits is not the one a pop asks for. -/
theorem find_missing {jb : JitterBuffer} (hbuffer : jb.buffer = [(0, rawPacket data)])
    (hnext : jb.nextPlayoutSeq ≠ 0) : jb.buffer.find? (fun e => e.1 = jb.nextPlayoutSeq) = none := by
  rw [hbuffer, List.find?_singleton, decide_eq_false (Ne.symm hnext)]
  rfl

theorem pop_waits (h : s.jitter.initialized = false ∨
    s.jitter.buffer.length < s.jitter.minDepth ∧ s.jitter.stats.packetsPlayed = 0) :
    s.step .pop = s := by
  have hpop : s.jitter.pop = (.notReady, s.jitter) := by
    rcases h with hinit | ⟨hlen, hzero⟩
    · simp only [JitterBuffer.pop, hinit, Bool.not_false, if_true]
    · simp only [JitterBuffer.pop, hlen, hzero, decide_true, Bool.and_self, if_true, ite_self]
  simp only [step, hpop]

theorem pop_proceeds (hinit : s.jitter.initialized = true)
    (h : ¬ (s.jitter.buffer.length < s.jitter.minDepth ∧ s.jitter.stats.packetsPlayed = 0)) :
    (s.jitter.buffer.length < s.jitter.minDepth && decide (s.jitter.stats.packetsPlayed = 0)) =
      false ∧ (!s.jitter.initialized) = false := by
  rw [hinit, Bool.and_eq_false_iff]
  refine ⟨?_, rfl⟩
  rcases Classical.not_and_iff_not_or_not.mp h with hlen | hzero
  · exact Or.inl (decide_eq_false hlen)
  · exact Or.inr (decide_eq_false hzero)

/-- Playout passes a number that is not there. -/
theorem pop_missing (hinit : s.jitter.initialized = true)
    (h : ¬ (s.jitter.buffer.length < s.jitter.minDepth ∧ s.jitter.stats.packetsPlayed = 0))
    (hnone : s.jitter.buffer.find? (fun e => e.1 = s.jitter.nextPlayoutSeq) = none) :
    ∃ stats, s.step .pop = { s with jitter := { s.jitter with
      nextPlayoutSeq := s.jitter.nextPlayoutSeq + 1
      stats := stats } } ∧ stats.packetsPlayed = s.jitter.stats.packetsPlayed ∧
      stats.packetsDuplicate = s.jitter.stats.packetsDuplicate ∧
      stats.packetsLate = s.jitter.stats.packetsLate := by
  obtain ⟨hready, hinit⟩ := pop_proceeds hinit h
  simp only [step, JitterBuffer.pop, hready, hinit, Bool.false_eq_true, if_false, hnone]
  exact ⟨_, rfl, rfl, rfl, rfl⟩

/-- The frame is played when its number has come. -/
theorem pop_packet (hinit : s.jitter.initialized = true)
    (h : ¬ (s.jitter.buffer.length < s.jitter.minDepth ∧ s.jitter.stats.packetsPlayed = 0))
    (hbuffer : s.jitter.buffer = [(0, rawPacket data)]) (hnext : s.jitter.nextPlayoutSeq = 0) :
    ∃ stats, s.step .pop = { s with
        jitter := { s.jitter with nextPlayoutSeq := 1, buffer := [], stats := stats }
        played := s.played ++ [data] } ∧
      stats.packetsPlayed = s.jitter.stats.packetsPlayed + 1 ∧
      stats.packetsDuplicate = s.jitter.stats.packetsDuplicate ∧
      stats.packetsLate = s.jitter.stats.packetsLate := by
  obtain ⟨hready, hinit⟩ := pop_proceeds hinit h
  have hfind : s.jitter.buffer.find? (fun e => e.1 = s.jitter.nextPlayoutSeq) =
      some (0, rawPacket data) := by
    rw [hbuffer, hnext]
    rfl
  have hfilter : s.jitter.buffer.filter (fun e => e.1 ≠ s.jitter.nextPlayoutSeq) = [] := by
    rw [hbuffer, hnext]
    rfl
  simp only [step, JitterBuffer.pop, hready, hinit, Bool.false_eq_true, if_false, hfind, hfilter]
  refine ⟨{ s.jitter.stats with
    packetsPlayed := s.jitter.stats.packetsPlayed + 1
    currentDepth := 0 }, ?_, rfl, rfl, rfl⟩
  rw [hnext]
  rfl

/-- A pop plays what is waiting or nothing. -/
theorem pop_spec (h : Single config s) :
    let s' := s.step .pop
    Single config s' ∧ s'.arrived = s.arrived ∧ s'.played ++ s'.waiting = s.played ++ s.waiting ∧
      s'.jitter.stats.packetsDuplicate = s.jitter.stats.packetsDuplicate ∧
      s'.jitter.stats.packetsLate = s.jitter.stats.packetsLate := by
  by_cases hwait : s.jitter.initialized = false ∨
      s.jitter.buffer.length < s.jitter.minDepth ∧ s.jitter.stats.packetsPlayed = 0
  · rw [pop_waits hwait]
    exact ⟨h, rfl, rfl, rfl, rfl⟩
  · obtain ⟨hinit, hready⟩ := not_or.mp hwait
    have hinit := (Bool.not_eq_false _).mp hinit
    rcases h.buffer with hbuffer | ⟨data, hbuffer⟩
    · obtain ⟨stats, heq, hp, hd, hl⟩ := pop_missing hinit hready (by rw [hbuffer]; rfl)
      have hsome : s.played ≠ [] := fun hnil => h.queued hinit hnil hbuffer
      rw [heq]
      exact ⟨⟨h.buffer, h.unused, fun hnil => absurd hnil hsome, h.queued, hp.trans h.count,
        h.maxDepth, h.minDepth, h.settled⟩, rfl, rfl, hd, hl⟩
    · by_cases hnext : s.jitter.nextPlayoutSeq = 0
      · obtain ⟨stats, heq, hp, hd, hl⟩ := pop_packet hinit hready hbuffer hnext
        have hne : s.played ++ [data] ≠ [] := List.append_ne_nil_of_right_ne_nil _ (List.cons_ne_nil _ _)
        rw [heq]
        refine ⟨⟨Or.inl rfl, fun hi => absurd (hinit.symm.trans hi) (by decide),
          fun hnil => absurd hnil hne,
          fun _ hnil => absurd hnil hne, ?_, h.maxDepth, h.minDepth, h.settled⟩, rfl, ?_, hd, hl⟩
        · rw [hp, h.count, List.length_append, List.length_singleton]
        · simp only [waiting, hbuffer, List.map_nil, List.append_nil, List.map_cons]
          rfl
      · have hnone : s.jitter.buffer.find? (fun e => e.1 = s.jitter.nextPlayoutSeq) = none := by
          rw [hbuffer, List.find?_singleton, decide_eq_false (Ne.symm hnext)]
          rfl
        obtain ⟨stats, heq, hp, hd, hl⟩ := pop_missing hinit hready (find_missing hbuffer hnext)
        have hsome : s.played ≠ [] := fun hnil => hnext (h.begins hnil)
        rw [heq]
        exact ⟨⟨h.buffer, h.unused, fun hnil => absurd hnil hsome, h.queued, hp.trans h.count,
          h.maxDepth, h.minDepth, h.settled⟩, rfl, rfl, hd, hl⟩

theorem Single.initialized (h : Single config s) (hne : s.jitter.buffer ≠ []) :
    s.jitter.initialized = true := by
  by_contra hinit
  exact hne (h.unused ((Bool.not_eq_true _).mp hinit)).1

/-- A frame that does not come alone is counted and gone, one that does waits. -/
theorem frame_spec (h : Single config s) (hmax : 0 < config.buffer.maxDepth) (data : Buf) (now : ℕ) :
    let s' := s.step (.frame data now)
    Single config s' ∧ s'.arrived = s.arrived ++ [data] ∧ s'.played = s.played ∧
      ((PushedAlone s (.frame data now) ∧ s.waiting = [] ∧ s'.waiting = [data] ∧
          s'.jitter.stats.packetsDuplicate = s.jitter.stats.packetsDuplicate ∧
          (s.jitter.stats.packetsLate = 0 → s'.jitter.stats.packetsLate = 0)) ∨
        (¬ PushedAlone s (.frame data now) ∧ s'.waiting = s.waiting)) := by
  rw [step_frame]
  have hplayed : s.jitter.stats.packetsPlayed = 0 ↔ s.played = [] := by
    rw [h.count, List.length_eq_zero_iff]
  rcases h.buffer with hbuffer | ⟨old, hbuffer⟩
  · by_cases hfar : 1 ≤ s.jitter.nextPlayoutSeq.toNat ∧ s.jitter.nextPlayoutSeq.toNat ≤ 100
    · have hsome : s.played ≠ [] := by
        intro hnil
        rw [h.begins hnil] at hfar
        exact Nat.not_succ_le_zero _ hfar.1
      have hinit : s.jitter.initialized = true := by
        by_contra hinit
        exact hsome (h.unused ((Bool.not_eq_true _).mp hinit)).2
      obtain ⟨hkept, hb, hn, _⟩ := push_late hbuffer hinit h.settled
        (Nat.pos_of_ne_zero fun hz => hsome (hplayed.mp hz)) hfar.1 hfar.2 data now
      refine ⟨⟨Or.inl hb, fun hi => absurd (hkept.initialized.symm.trans hi) (by decide),
        fun hnil => absurd hnil hsome, fun _ hnil => absurd hnil hsome,
        hkept.played.trans h.count, hkept.maxDepth.trans h.maxDepth, hkept.minDepth.trans h.minDepth,
        hkept.settled⟩, rfl, rfl, Or.inr ⟨fun hok => hok.2 hfar, ?_⟩⟩
      simp only [waiting, hb, hbuffer]
    · obtain ⟨hkept, hb, hn, hd, hl⟩ := push_accepted hbuffer (h.maxDepth ▸ hmax) h.settled
        (fun hz => h.begins (hplayed.mp hz)) hfar data now
      refine ⟨⟨Or.inr ⟨data, hb⟩, fun hi => absurd (hkept.initialized.symm.trans hi) (by decide),
        fun hnil => hn (hplayed.mpr hnil), fun _ _ => ?_, hkept.played.trans h.count,
        hkept.maxDepth.trans h.maxDepth, hkept.minDepth.trans h.minDepth, hkept.settled⟩, rfl, rfl,
        Or.inl ⟨⟨hbuffer, hfar⟩, ?_, ?_, hd, hl⟩⟩
      · rw [hb]
        exact List.cons_ne_nil _ _
      · simp only [waiting, hbuffer, List.map_nil]
      · simp only [waiting, hb, List.map_cons, List.map_nil]
        rfl
  · have hne : s.jitter.buffer ≠ [] := by
      rw [hbuffer]
      exact List.cons_ne_nil _ _
    obtain ⟨hkept, hb, hn, _⟩ := push_full hbuffer (h.initialized hne) h.settled data now
    refine ⟨⟨Or.inr ⟨old, hb.trans hbuffer⟩,
      fun hi => absurd (hkept.initialized.symm.trans hi) (by decide),
      fun hnil => hn.trans (h.begins hnil), fun _ _ => ?_, hkept.played.trans h.count,
      hkept.maxDepth.trans h.maxDepth, hkept.minDepth.trans h.minDepth, hkept.settled⟩, rfl, rfl,
      Or.inr ⟨fun hok => hne hok.1, ?_⟩⟩
    · rw [hb]
      exact hne
    · simp only [waiting, hb]

theorem single_step (hmax : 0 < config.buffer.maxDepth) (h : Single config s) (e : PlayoutEvent) :
    Single config (s.step e) := by
  cases e with
  | frame data now => exact (frame_spec h hmax data now).1
  | pop => exact (pop_spec h).1

theorem complete_step (hmax : 0 < config.buffer.maxDepth) (h : Single config s) (hc : Complete s)
    (e : PlayoutEvent) : Complete (s.step e) ↔ PushedAlone s e := by
  cases e with
  | pop =>
      obtain ⟨_, harrived, happend, hd, hl⟩ := pop_spec h
      refine iff_of_true ⟨?_, hd.trans hc.duplicate, hl.trans hc.late⟩ trivial
      rw [harrived, happend, hc.arrived]
  | frame data now =>
      obtain ⟨_, harrived, hplayed, ⟨hok, hempty, hwaiting, hd, hl⟩ | ⟨hbad, hwaiting⟩⟩ :=
        frame_spec h hmax data now
      · refine iff_of_true ⟨?_, hd.trans hc.duplicate, hl hc.late⟩ hok
        rw [harrived, hplayed, hwaiting, hc.arrived, hempty, List.append_nil]
      · refine iff_of_false (fun hnew => ?_) hbad
        have hlen := congrArg List.length hnew.arrived
        rw [harrived, hplayed, hwaiting, hc.arrived] at hlen
        simp only [List.length_append, List.length_singleton] at hlen
        omega

theorem lost_of_not_alone (hmax : 0 < config.buffer.maxDepth) (h : Single config s)
    (hc : Complete s) {e : PlayoutEvent} (hbad : ¬ PushedAlone s e) : Lost (s.step e) := by
  cases e with
  | pop => exact absurd trivial hbad
  | frame data now =>
      obtain ⟨_, harrived, hplayed, ⟨hok, _⟩ | ⟨_, hwaiting⟩⟩ := frame_spec h hmax data now
      · exact absurd hok hbad
      · unfold Lost
        rw [harrived, hplayed, hwaiting, hc.arrived]
        simp only [List.length_append, List.length_singleton]
        omega

theorem lost_step (hmax : 0 < config.buffer.maxDepth) (h : Single config s) (hlost : Lost s)
    (e : PlayoutEvent) : Lost (s.step e) := by
  unfold Lost at hlost ⊢
  cases e with
  | pop =>
      obtain ⟨_, harrived, happend, _⟩ := pop_spec h
      have hlen := congrArg List.length happend
      simp only [List.length_append] at hlen
      rw [harrived]
      omega
  | frame data now =>
      obtain ⟨_, harrived, hplayed, ⟨_, hempty, hwaiting, _⟩ | ⟨_, hwaiting⟩⟩ :=
        frame_spec h hmax data now
      · rw [hempty] at hlost
        rw [harrived, hplayed, hwaiting]
        simp only [List.length_append, List.length_singleton, List.length_nil] at hlost ⊢
        omega
      · rw [harrived, hplayed, hwaiting]
        simp only [List.length_append, List.length_singleton]
        omega

/-! ## Every run -/

theorem arrived_run (s : BrowserPlayout) (es : List PlayoutEvent) :
    (run step s es).arrived = s.arrived ++ frames es := by
  induction es generalizing s with
  | nil => exact (List.append_nil _).symm
  | cons e es ih =>
      rw [run_cons, ih]
      cases e with
      | frame data now => exact List.append_assoc s.arrived [data] (frames es)
      | pop => rfl

theorem single_run (hmax : 0 < config.buffer.maxDepth) (h : Single config s)
    (es : List PlayoutEvent) : Single config (run step s es) := by
  induction es generalizing s with
  | nil => exact h
  | cons e es ih => exact ih (single_step hmax h e)

theorem lost_run (hmax : 0 < config.buffer.maxDepth) (h : Single config s) (hlost : Lost s)
    (es : List PlayoutEvent) : Lost (run step s es) := by
  induction es generalizing s with
  | nil => exact hlost
  | cons e es ih => exact ih (single_step hmax h e) (lost_step hmax h hlost e)

theorem throughout_or_lost (hmax : 0 < config.buffer.maxDepth) (h : Single config s)
    (hc : Complete s) (es : List PlayoutEvent) :
    Throughout step Complete s es ∨ Lost (run step s es) := by
  induction es generalizing s with
  | nil => exact Or.inl hc
  | cons e es ih =>
      have hnext := single_step hmax h e
      by_cases hok : PushedAlone s e
      · rcases ih hnext ((complete_step hmax h hc e).mpr hok) with hall | hlost
        · exact Or.inl ⟨hc, hall⟩
        · exact Or.inr hlost
      · exact Or.inr (lost_run hmax hnext (lost_of_not_alone hmax h hc hok) es)

/-- A buffer that waits for more than one packet plays none. -/
theorem never_played (hmax : 0 < config.buffer.maxDepth) (hmin : 1 < config.buffer.minDepth)
    (h : Single config s) (hnil : s.played = []) (es : List PlayoutEvent) :
    (run step s es).played = [] := by
  induction es generalizing s with
  | nil => exact hnil
  | cons e es ih =>
      refine ih (single_step hmax h e) ?_
      cases e with
      | frame data now => exact (frame_spec h hmax data now).2.2.1.trans hnil
      | pop =>
          have hshort : s.jitter.buffer.length ≤ 1 := by
            rcases h.buffer with hb | ⟨data, hb⟩
            · rw [hb]
              exact Nat.zero_le 1
            · rw [hb]
              exact Nat.le_refl 1
          have hcount := h.count
          rw [hnil] at hcount
          rw [pop_waits (Or.inr ⟨h.minDepth ▸ Nat.lt_of_le_of_lt hshort hmin, hcount⟩)]
          exact hnil

theorem Single.ready (hmin : config.buffer.minDepth ≤ 1) (h : Single config s)
    (hbuffer : s.jitter.buffer = [(0, rawPacket data)]) :
    ¬ (s.jitter.buffer.length < s.jitter.minDepth ∧ s.jitter.stats.packetsPlayed = 0) := by
  rw [hbuffer, h.minDepth]
  exact fun hlt => Nat.not_lt.mpr hmin hlt.1

/-- Pops pass every number up to the one that waits. -/
theorem pops_reach (hmin : config.buffer.minDepth ≤ 1) (h : Single config s)
    (hbuffer : s.jitter.buffer = [(0, rawPacket data)]) :
    ∃ n, (run step s (List.replicate n .pop)).jitter.buffer = [] := by
  generalize hd : (0 - s.jitter.nextPlayoutSeq).toNat = d
  induction d generalizing s with
  | zero =>
      have hnext : s.jitter.nextPlayoutSeq = 0 := by
        have hlt : s.jitter.nextPlayoutSeq.toNat < 2 ^ 32 := s.jitter.nextPlayoutSeq.toNat_lt
        have hzero : (0 : UInt32).toNat = 0 := rfl
        rw [UInt32.toNat_sub, hzero] at hd
        rw [← UInt32.toNat_inj, hzero]
        omega
      have hinit := h.initialized (by rw [hbuffer]; exact List.cons_ne_nil _ _)
      obtain ⟨stats, heq, _⟩ := pop_packet hinit (h.ready hmin hbuffer) hbuffer hnext
      refine ⟨1, ?_⟩
      rw [List.replicate_one, run_cons, heq]
      rfl
  | succ d ih =>
      have hnext : s.jitter.nextPlayoutSeq ≠ 0 := by
        intro hzero
        rw [hzero] at hd
        cases hd
      have hinit := h.initialized (by rw [hbuffer]; exact List.cons_ne_nil _ _)
      obtain ⟨stats, heq, _⟩ := pop_missing hinit (h.ready hmin hbuffer)
        (find_missing hbuffer hnext)
      have hsingle : Single config (s.step .pop) := (pop_spec h).1
      have hstep : (0 - (s.step .pop).jitter.nextPlayoutSeq).toNat = d := by
        rw [heq]
        have hpos : s.jitter.nextPlayoutSeq.toNat ≠ 0 := fun hz => hnext (UInt32.toNat_inj.mp hz)
        have hlt : s.jitter.nextPlayoutSeq.toNat < 2 ^ 32 := s.jitter.nextPlayoutSeq.toNat_lt
        have hone : (1 : UInt32).toNat = 1 := rfl
        have hzero : (0 : UInt32).toNat = 0 := rfl
        simp only [UInt32.toNat_sub, UInt32.toNat_add, hone, hzero] at hd ⊢
        omega
      obtain ⟨n, hn⟩ := ih hsingle (by rw [heq]; exact hbuffer) hstep
      exact ⟨n + 1, hn⟩

theorem complete_pops (h : Single config s) (hc : Complete s) (n : ℕ) :
    Complete (run step s (List.replicate n .pop)) := by
  induction n generalizing s with
  | zero => exact hc
  | succ n ih =>
      obtain ⟨hsingle, harrived, happend, hd, hl⟩ := pop_spec h
      refine ih hsingle ⟨?_, hd.trans hc.duplicate, hl.trans hc.late⟩
      rw [harrived, happend, hc.arrived]

theorem drain (hmin : config.buffer.minDepth ≤ 1) (h : Single config s) (hc : Complete s) :
    ∃ n, let t := run step s (List.replicate n .pop)
      t.played = t.arrived ∧ t.jitter.stats.packetsDuplicate = 0 ∧ t.jitter.stats.packetsLate = 0 := by
  obtain ⟨n, hn⟩ : ∃ n, (run step s (List.replicate n .pop)).jitter.buffer = [] := by
    rcases h.buffer with hbuffer | ⟨data, hbuffer⟩
    · exact ⟨0, hbuffer⟩
    · exact pops_reach hmin h hbuffer
  have hdone := complete_pops h hc n
  refine ⟨n, ?_, hdone.duplicate, hdone.late⟩
  rw [hdone.arrived, waiting, hn, List.map_nil, List.append_nil]

theorem run_no_frames (config : JitterConfig) {es : List PlayoutEvent} (h : frames es = []) :
    run step (start config) es = start config := by
  induction es with
  | nil => rfl
  | cons e es ih =>
      cases e with
      | frame data now => exact absurd h (List.cons_ne_nil _ _)
      | pop =>
          have hinit : (start config).jitter.initialized = false := by
            cases config with
            | fixed targetDepth maxDepth minDepth => rfl
            | adaptive minDelay maxDelay range => rfl
          rw [run_cons, pop_waits (Or.inl hinit)]
          exact ih h

theorem frames_append_pops (es : List PlayoutEvent) (n : ℕ) :
    frames (es ++ List.replicate n .pop) = frames es := by
  simp only [frames, List.filterMap_append, List.filterMap_replicate, List.append_nil]

/-- Browser frames survive exactly if there are none, or if the receiver starts
to play at the first packet and every frame arrives at an empty buffer whose
next number is not 1 to 100. A frame needs a buffer that holds one packet. -/
theorem browser_frames_survive_iff (config : JitterConfig) (es : List PlayoutEvent)
    (hdepth : frames es ≠ [] → 0 < config.buffer.maxDepth) :
    Survive config es ↔ frames es = [] ∨
      (config.buffer.minDepth ≤ 1 ∧ EachStep step PushedAlone (start config) es) := by
  by_cases hnone : frames es = []
  · refine iff_of_true ⟨0, ?_⟩ (Or.inl hnone)
    rw [List.replicate_zero, List.append_nil, run_no_frames config hnone, hnone]
    have hc := start_complete config
    exact ⟨rfl, hc.duplicate, hc.late⟩
  · have hmax := hdepth hnone
    have hsingle := start_single config
    have hcomplete := start_complete config
    have harrived : ∀ n, (run step (start config) (es ++ List.replicate n .pop)).arrived =
        frames es := by
      intro n
      rw [arrived_run, frames_append_pops]
      rfl
    rw [or_iff_right hnone]
    constructor
    · rintro ⟨n, hplayed, _, _⟩
      constructor
      · by_contra hmin
        have hnil := never_played hmax (Nat.lt_of_not_le hmin) hsingle rfl
          (es ++ List.replicate n .pop)
        exact hnone (hplayed.symm.trans hnil)
      · rcases throughout_or_lost hmax hsingle hcomplete es with hall | hlost
        · exact (throughout_iff_eachStep (I := Single config)
            (fun _ e hI _ _ => single_step hmax hI e)
            (fun _ e hI hP => complete_step hmax hI hP e) hsingle hcomplete).mp hall
        · have hfinal := lost_run hmax (single_run hmax hsingle es) hlost (List.replicate n .pop)
          rw [← run_append, Lost, harrived, hplayed] at hfinal
          omega
    · rintro ⟨hmin, heach⟩
      have hall := (throughout_iff_eachStep (I := Single config)
        (fun _ e hI _ _ => single_step hmax hI e)
        (fun _ e hI hP => complete_step hmax hI hP e) hsingle hcomplete).mpr heach
      obtain ⟨n, hplayed, hd, hl⟩ := drain hmin (single_run hmax hsingle es) hall.last
      rw [← run_append] at hplayed hd hl
      exact ⟨n, hplayed.trans (harrived n), hd, hl⟩

instance PushedAlone.decidable (s : BrowserPlayout) : (e : PlayoutEvent) → Decidable (s.PushedAlone e)
  | .frame _ _ => inferInstanceAs (Decidable (_ ∧ ¬ _))
  | .pop => isTrue trivial

/-- The second of two frames comes when the receiver is past number 100. -/
theorem two_frames_survive : Survive (.fixed 3 250 1)
    (.frame [7] 0 :: List.replicate 101 .pop ++ [.frame [8] 2020, .pop]) :=
  (browser_frames_survive_iff _ _ fun _ => by decide).mpr
    (Or.inr ⟨Nat.le_refl 1, by decide +kernel⟩)

/-- The second of two frames is taken for a duplicate. -/
theorem second_frame_dropped : ¬ Survive (.fixed 50 250 25) [.frame [7] 0, .frame [8] 0] := by
  rintro ⟨n, _, hduplicate, _⟩
  have hone : ∀ n, (run step (run step (start (.fixed 50 250 25)) [.frame [7] 0, .frame [8] 0])
      (List.replicate n .pop)) =
        run step (start (.fixed 50 250 25)) [.frame [7] 0, .frame [8] 0] := by
    intro n
    induction n with
    | zero => rfl
    | succ n ih => exact ih
  rw [run_append, hone] at hduplicate
  exact absurd hduplicate (by decide)

end BrowserPlayout
end Wzp.Relay
