import Wzp.Lib.Runs
import Wzp.Relay.Trunk

/-!
# The limits of a batch

The limit on the bytes of a batch follows the path and may change between any two calls.
The entries keep their order all the same. A batch that waits while the limit falls below
it goes out as it is.
-/
namespace Wzp.Relay
open Bytes Proto Runs

theorem wireSize_push (f : TrunkFrame) (sessionId : UInt8 × UInt8) (payload : Buf) :
    (f.push sessionId payload).wireSize = f.wireSize + (TrunkEntry.overhead + payload.length) := by
  rw [TrunkFrame.push, TrunkFrame.wireSize, TrunkFrame.wireSize, List.map_append, List.sum_append,
    Nat.add_assoc]
  rfl

namespace TrunkBatcher
variable {b : TrunkBatcher} {sessionId : UInt8 × UInt8} {payload : Buf}

/-- The batch has room for the entry. -/
structure Takes (b : TrunkBatcher) (payload : Buf) : Prop where
  entries : b.pending.len + 1 ≤ b.maxEntries
  bytes : b.pendingBytes + (TrunkEntry.overhead + payload.length) ≤ b.maxBytes

/-- What a push does with the batch that waits and the new entry. -/
inductive PushResult (b : TrunkBatcher) (sessionId : UInt8 × UInt8) (payload : Buf) :
    TrunkBatcher × Option TrunkFrame → Prop where
  | flushesBefore (waits : b.pending.isEmpty = false) (full : ¬ b.Takes payload) :
      PushResult b sessionId payload (b.takePending.1.append sessionId payload, some b.pending)
  | flushesAfter (room : b.pending.isEmpty = true ∨ b.Takes payload) :
      PushResult b sessionId payload ((b.append sessionId payload).takePending.1,
        some (b.append sessionId payload).pending)
  | keeps (room : b.pending.isEmpty = true ∨ b.Takes payload)
      (few : b.pending.len + 1 < b.maxEntries) :
      PushResult b sessionId payload (b.append sessionId payload, none)

theorem push_result (b : TrunkBatcher) (sessionId : UInt8 × UInt8) (payload : Buf) :
    PushResult b sessionId payload (b.push sessionId payload) := by
  have hfull : b.shouldFlushWith (TrunkEntry.overhead + payload.length) = true ↔
      ¬ b.Takes payload := by
    rw [shouldFlushWith, Bool.or_eq_true, decide_eq_true_eq, decide_eq_true_eq]
    constructor
    · rintro hover ⟨hentries, hbytes⟩
      omega
    · intro h
      by_contra hover
      exact h ⟨by omega, by omega⟩
  rw [push]
  split
  · next hbefore =>
      rw [Bool.and_eq_true, Bool.not_eq_true'] at hbefore
      exact .flushesBefore hbefore.2 (hfull.mp hbefore.1)
  · next hafter =>
      rw [Bool.and_eq_true, Bool.not_eq_true', not_and_or, hfull, not_not, Bool.not_eq_false] at hafter
      have hlen : (b.append sessionId payload).pending.len = b.pending.len + 1 := List.length_append
      dsimp only
      split
      · exact .flushesAfter hafter.symm
      · next hfew =>
          rw [shouldFlush, Bool.or_eq_true, not_or, decide_eq_true_eq, hlen] at hfew
          exact .keeps hafter.symm (Nat.not_le.mp hfew.1)

end TrunkBatcher

/-! ## Runs of a batcher -/

inductive BatcherEvent where
  | push (sessionId : UInt8 × UInt8) (payload : Buf)
  | flush
  | setMaxBytes (maxBytes : ℕ)

/-- A frame with the limit in force when it was emitted. -/
structure EmittedFrame where
  frame : TrunkFrame
  maxBytes : ℕ
  deriving DecidableEq

/-- A batcher, the entries that were pushed and the frames that were emitted, in order. -/
structure BatcherRun where
  batcher : TrunkBatcher
  pushed : List TrunkEntry
  emitted : List EmittedFrame

namespace BatcherRun

/-- A new batcher, with any number of entries for its limit. -/
def start (maxEntries : ℕ) : BatcherRun := ⟨{ TrunkBatcher.new with maxEntries }, [], []⟩

/-- The frame, if there is one, goes out under the limit. -/
def emit (s : BatcherRun) (result : TrunkBatcher × Option TrunkFrame) : BatcherRun :=
  { s with
    batcher := result.1
    emitted := s.emitted ++ result.2.toList.map (⟨·, s.batcher.maxBytes⟩) }

def step (s : BatcherRun) : BatcherEvent → BatcherRun
  | .push sessionId payload =>
      { s.emit (s.batcher.push sessionId payload) with
        pushed := s.pushed ++ [⟨sessionId, payload⟩] }
  | .flush => s.emit s.batcher.flush
  | .setMaxBytes maxBytes => { s with batcher := { s.batcher with maxBytes } }

/-- The entries are neither lost nor repeated nor reordered, and their bytes are counted. -/
structure InOrder (s : BatcherRun) : Prop where
  entries : s.emitted.flatMap (·.frame.packets) ++ s.batcher.pending.packets = s.pushed
  pendingBytes : s.batcher.pendingBytes = s.batcher.pending.wireSize

/-- A frame of more than one entry is within the limits. -/
def WithinLimits (s : BatcherRun) : Prop :=
  ∀ e ∈ s.emitted, e.frame.len = 1 ∨
    e.frame.len ≤ s.batcher.maxEntries ∧ e.frame.wireSize ≤ e.maxBytes

/-- A push or a flush finds no batch of several entries that is over the limit by now. -/
def FindsFitting (s : BatcherRun) : BatcherEvent → Prop
  | .push _ _ | .flush => s.batcher.pending.len ≤ 1 ∨ s.batcher.pending.wireSize ≤ s.batcher.maxBytes
  | .setMaxBytes _ => True

instance (s : BatcherRun) : (e : BatcherEvent) → Decidable (s.FindsFitting e)
  | .push _ _ | .flush => inferInstanceAs (Decidable (_ ∨ _))
  | .setMaxBytes _ => isTrue trivial

/-- What waits has not reached the limit on the entries, unless that is one or none. -/
structure Tracked (s : BatcherRun) : Prop extends InOrder s where
  few : s.batcher.pending.len ≤ 1 ∨ s.batcher.pending.len < s.batcher.maxEntries

variable {s : BatcherRun} {e : BatcherEvent} {sessionId : UInt8 × UInt8} {payload : Buf}

theorem tracked_start (maxEntries : ℕ) : (start maxEntries).Tracked :=
  ⟨⟨rfl, rfl⟩, Or.inl (Nat.zero_le 1)⟩

theorem maxEntries_step : (s.step e).batcher.maxEntries = s.batcher.maxEntries := by
  cases e with
  | push sessionId payload =>
      change (s.batcher.push sessionId payload).1.maxEntries = s.batcher.maxEntries
      generalize hresult : s.batcher.push sessionId payload = result
      have hpush := s.batcher.push_result sessionId payload
      rw [hresult] at hpush
      cases hpush <;> rfl
  | flush =>
      change s.batcher.flush.1.maxEntries = s.batcher.maxEntries
      rw [TrunkBatcher.flush]
      split <;> rfl
  | setMaxBytes maxBytes => rfl

theorem tracked_push (h : s.Tracked) (sessionId : UInt8 × UInt8) (payload : Buf) :
    (s.step (.push sessionId payload)).Tracked := by
  have horder := h.entries
  have hbytes : ∀ f : TrunkFrame, ∀ n, n = f.wireSize →
      n + (TrunkEntry.overhead + payload.length) = (f.push sessionId payload).wireSize := by
    rintro f n rfl
    exact (wireSize_push f sessionId payload).symm
  rw [step, emit]
  generalize hresult : s.batcher.push sessionId payload = result
  have hpush := s.batcher.push_result sessionId payload
  rw [hresult] at hpush
  cases hpush with
  | flushesBefore waits full =>
      refine ⟨⟨?_, hbytes .new _ rfl⟩, Or.inl (Nat.le_refl 1)⟩
      rw [← horder, List.flatMap_append]
      simp only [Option.toList_some, List.map_cons, List.map_nil, List.flatMap_singleton]
      rfl
  | flushesAfter room =>
      refine ⟨⟨?_, rfl⟩, Or.inl (Nat.zero_le 1)⟩
      rw [← horder, List.flatMap_append]
      simp only [Option.toList_some, List.map_cons, List.map_nil, List.flatMap_singleton]
      exact (List.append_nil _).trans (List.append_assoc _ _ _).symm
  | keeps room few =>
      refine ⟨⟨?_, hbytes s.batcher.pending _ h.pendingBytes⟩, Or.inr ?_⟩
      · rw [← horder]
        simp only [Option.toList_none, List.map_nil, List.append_nil]
        exact (List.append_assoc _ _ _).symm
      · exact Nat.lt_of_le_of_lt (Nat.le_of_eq List.length_append) few

theorem tracked_flush (h : s.Tracked) : (s.step .flush).Tracked := by
  rw [step, emit, TrunkBatcher.flush]
  split
  · refine ⟨⟨?_, h.pendingBytes⟩, h.few⟩
    simp only [Option.toList_none, List.map_nil, List.append_nil]
    exact h.entries
  · refine ⟨⟨?_, rfl⟩, Or.inl (Nat.zero_le 1)⟩
    rw [← h.entries, List.flatMap_append]
    simp only [Option.toList_some, List.map_cons, List.map_nil, List.flatMap_singleton]
    exact List.append_nil _

theorem tracked_step (h : s.Tracked) (e : BatcherEvent) : (s.step e).Tracked := by
  cases e with
  | push sessionId payload => exact tracked_push h sessionId payload
  | flush => exact tracked_flush h
  | setMaxBytes maxBytes => exact ⟨⟨h.entries, h.pendingBytes⟩, h.few⟩

/-! ## Emitted frames -/

/-- One more frame goes out. -/
theorem withinLimits_emit (h : s.WithinLimits) {frame : TrunkFrame} {next : BatcherRun}
    (hemitted : next.emitted = s.emitted ++ [⟨frame, s.batcher.maxBytes⟩])
    (hmax : next.batcher.maxEntries = s.batcher.maxEntries) :
    next.WithinLimits ↔ frame.len = 1 ∨
      frame.len ≤ s.batcher.maxEntries ∧ frame.wireSize ≤ s.batcher.maxBytes := by
  rw [WithinLimits, hemitted, hmax]
  constructor
  · exact fun hnext => hnext _ (List.mem_append_right _ List.mem_cons_self)
  · intro hframe e he
    rcases List.mem_append.mp he with hold | hnew
    · exact h e hold
    · rw [List.mem_singleton.mp hnew]
      exact hframe

theorem withinLimits_same (h : s.WithinLimits) {next : BatcherRun}
    (hemitted : next.emitted = s.emitted)
    (hmax : next.batcher.maxEntries = s.batcher.maxEntries) : next.WithinLimits := by
  rw [WithinLimits, hemitted, hmax]
  exact h

/-- The batch that waits is within the limits if its bytes are. -/
theorem pending_within (h : s.Tracked) (hwaits : s.batcher.pending.isEmpty = false) :
    (s.batcher.pending.len = 1 ∨ s.batcher.pending.len ≤ s.batcher.maxEntries ∧
      s.batcher.pending.wireSize ≤ s.batcher.maxBytes) ↔
    s.batcher.pending.len ≤ 1 ∨ s.batcher.pending.wireSize ≤ s.batcher.maxBytes := by
  have hpos : 0 < s.batcher.pending.len :=
    List.length_pos_iff.mpr fun hnil => Bool.false_ne_true (hwaits.symm.trans (List.isEmpty_iff.mpr hnil))
  have hfew := h.few
  omega

theorem len_of_isEmpty {f : TrunkFrame} (h : f.isEmpty = true) : f.len = 0 :=
  List.length_eq_zero_iff.mpr (List.isEmpty_iff.mp h)

/-- A batch that has room for an entry is within the limits. -/
theorem pending_of_room (h : s.Tracked)
    (hroom : s.batcher.pending.isEmpty = true ∨ s.batcher.Takes payload) :
    s.batcher.pending.len ≤ 1 ∨ s.batcher.pending.wireSize ≤ s.batcher.maxBytes := by
  have hbytes := h.pendingBytes
  rcases hroom with hempty | htakes
  · have hlen := len_of_isEmpty hempty
    omega
  · have hfits := htakes.bytes
    omega

theorem withinLimits_push (h : s.Tracked) (hlimits : s.WithinLimits) :
    (s.step (.push sessionId payload)).WithinLimits ↔ s.FindsFitting (.push sessionId payload) := by
  have hmax : (s.step (.push sessionId payload)).batcher.maxEntries = s.batcher.maxEntries :=
    maxEntries_step
  have hemitted : (s.step (.push sessionId payload)).emitted = s.emitted ++
      (s.batcher.push sessionId payload).2.toList.map (⟨·, s.batcher.maxBytes⟩) := rfl
  generalize hresult : s.batcher.push sessionId payload = result at hemitted
  have hpush := s.batcher.push_result sessionId payload
  rw [hresult] at hpush
  cases hpush with
  | flushesBefore waits full =>
      exact (withinLimits_emit hlimits hemitted hmax).trans (pending_within h waits)
  | flushesAfter room =>
      refine iff_of_true ((withinLimits_emit hlimits hemitted hmax).mpr ?_) (pending_of_room h room)
      have hlen : (s.batcher.append sessionId payload).pending.len = s.batcher.pending.len + 1 :=
        List.length_append
      have hsize : (s.batcher.append sessionId payload).pending.wireSize = _ :=
        wireSize_push s.batcher.pending sessionId payload
      rcases room with hempty | htakes
      · rw [hlen, len_of_isEmpty hempty]
        exact Or.inl rfl
      · rw [hlen, hsize, ← h.pendingBytes]
        exact Or.inr ⟨htakes.entries, htakes.bytes⟩
  | keeps room few =>
      refine iff_of_true (withinLimits_same hlimits ?_ hmax) (pending_of_room h room)
      exact hemitted.trans (List.append_nil _)

theorem withinLimits_flush (h : s.Tracked) (hlimits : s.WithinLimits) :
    (s.step .flush).WithinLimits ↔ s.FindsFitting .flush := by
  have hmax : (s.step .flush).batcher.maxEntries = s.batcher.maxEntries := maxEntries_step
  have hemitted : (s.step .flush).emitted = s.emitted ++
      s.batcher.flush.2.toList.map (⟨·, s.batcher.maxBytes⟩) := rfl
  cases hwaits : s.batcher.pending.isEmpty with
  | true =>
      rw [TrunkBatcher.flush, if_pos hwaits] at hemitted
      refine iff_of_true (withinLimits_same hlimits (hemitted.trans (List.append_nil _)) hmax) ?_
      exact Or.inl (Nat.le_trans (Nat.le_of_eq (len_of_isEmpty hwaits)) (Nat.zero_le 1))
  | false =>
      rw [TrunkBatcher.flush, if_neg (Bool.eq_false_iff.mp hwaits)] at hemitted
      exact (withinLimits_emit hlimits hemitted hmax).trans (pending_within h hwaits)

theorem withinLimits_step (h : s.Tracked) (hlimits : s.WithinLimits) :
    (s.step e).WithinLimits ↔ s.FindsFitting e := by
  cases e with
  | push sessionId payload => exact withinLimits_push h hlimits
  | flush => exact withinLimits_flush h hlimits
  | setMaxBytes maxBytes => exact iff_of_true hlimits trivial

end BatcherRun

/-- Whatever is pushed and flushed while the limit changes, the entries go out in order and
counted. They go out within the limits exactly if no push or flush finds a batch of several
entries that the limit has fallen below. -/
theorem trunk_limits_iff (maxEntries : ℕ) (es : List BatcherEvent) :
    Throughout BatcherRun.step (fun s => s.InOrder ∧ s.WithinLimits) (.start maxEntries) es ↔
      EachStep BatcherRun.step BatcherRun.FindsFitting (.start maxEntries) es := by
  refine throughout_iff_eachStep (I := BatcherRun.Tracked)
    (fun s e h _ _ => BatcherRun.tracked_step h e) (fun s e h hs => ?_)
    (BatcherRun.tracked_start maxEntries) ⟨(BatcherRun.tracked_start maxEntries).toInOrder, ?_⟩
  · rw [and_iff_right (BatcherRun.tracked_step h e).toInOrder]
    exact BatcherRun.withinLimits_step h hs.2
  · exact fun e he => absurd he List.not_mem_nil

/-- Two entries wait, and the limit falls below their frame. -/
theorem trunk_limits_exceeded :
    ¬ Throughout BatcherRun.step (fun s => s.InOrder ∧ s.WithinLimits) (.start 10)
      [.push (0, 1) [1, 2, 3], .push (0, 2) [4, 5, 6], .setMaxBytes 10, .flush] := by
  intro h
  have hlimits := h.last.2 ⟨⟨[⟨(0, 1), [1, 2, 3]⟩, ⟨(0, 2), [4, 5, 6]⟩]⟩, 10⟩ (by decide)
  exact absurd hlimits (by decide)

/-- A send takes the limit from the path and pushes the packet, so a run of the forwarder is a run
of its batcher and keeps to the limits with it. -/
theorem TrunkedForwarder.send_run (f : TrunkedForwarder) (pkt : MediaPacket) (mtu : Option ℕ)
    (pushed : List TrunkEntry) (emitted : List EmittedFrame) :
    (f.send pkt mtu).1.batcher = (run BatcherRun.step ⟨f.batcher, pushed, emitted⟩
      (mtu.toList.map .setMaxBytes ++ [.push f.sessionId pkt.toBytes])).batcher := by
  cases mtu <;> rfl

end Wzp.Relay
