import Wzp.Video.Nack

/-!
# The pace of the NACKs

However packets come and the receiver is ticked, what it asks for is limited in each
window of a second, spaced for each number, and missing for long enough. A number is
known again by what came and what was asked for.
-/
namespace Wzp.Video
open Runs

namespace NackReceiver
variable {r : NackReceiver} {now : ℕ} {seq : UInt32}

theorem maxNackRate_advanceWindow (r : NackReceiver) (now : ℕ) :
    (r.advanceWindow now).maxNackRate = r.maxNackRate := by
  unfold advanceWindow
  split <;> rfl

theorem nackSeqs_nodup (r : NackReceiver) (now : ℕ) : (r.nackSeqs now).Nodup := by
  refine List.Nodup.filter _ ?_
  exact (List.perm_insertionSort _ _).nodup_iff.mpr r.missing.keys_nodup

/-- A packet counts nothing towards the limit. -/
theorem onPacket_window (r : NackReceiver) (seq : UInt32) (now : ℕ) :
    (r.onPacket seq now).secWindow = (r.advanceWindow now).secWindow ∧
      (r.onPacket seq now).nacksThisSec = (r.advanceWindow now).nacksThisSec ∧
      (r.onPacket seq now).maxNackRate = r.maxNackRate := by
  have hmax := maxNackRate_advanceWindow r now
  unfold onPacket
  dsimp only
  split
  · exact ⟨rfl, rfl, hmax⟩
  · split <;> exact ⟨rfl, rfl, hmax⟩

/-- What a tick asks for is due, and counted in the window. -/
structure Asks (r : NackReceiver) (now : ℕ) (result : NackReceiver × List NackAction) : Prop where
  due : (nackedSeqs result.2).Sublist (r.nackSeqs now)
  window : result.1.secWindow = (r.advanceWindow now).secWindow
  counted : result.1.nacksThisSec = (r.advanceWindow now).nacksThisSec + (nackedSeqs result.2).length
  limited : nackedSeqs result.2 = [] ∨ result.1.nacksThisSec ≤ r.maxNackRate
  rate : result.1.maxNackRate = r.maxNackRate

theorem tick_asks (r : NackReceiver) (now : ℕ) : Asks r now (r.tick now) := by
  have hmax := maxNackRate_advanceWindow r now
  have hquiet : ∀ actions, nackedSeqs actions = [] → Asks r now (r.advanceWindow now, actions) := by
    intro actions h
    refine ⟨?_, rfl, ?_, Or.inl h, hmax⟩
    · rw [h]
      exact List.nil_sublist _
    · rw [h]
      rfl
  unfold tick
  dsimp only
  rw [nackSeqs_advanceWindow]
  split
  · exact hquiet [] rfl
  split
  · split
    · exact hquiet _ rfl
    · next hbudget =>
        have hseqs : ∀ seqs, nackedSeqs [.nack seqs] = seqs := fun _ => List.flatMap_singleton _ _
        have hlength := List.length_take_le
          ((r.advanceWindow now).maxNackRate - (r.advanceWindow now).nacksThisSec) (r.nackSeqs now)
        refine ⟨?_, rfl, ?_, Or.inr ?_, hmax⟩
        · rw [hseqs]
          exact List.take_sublist _ _
        · rw [hseqs]
        · rw [← hmax]
          dsimp only
          omega
  · exact hquiet _ rfl

end NackReceiver

/-! ## What came and what was asked for -/

inductive NackInput where
  | packet (seq : UInt32) (now : ℕ)
  | tick (now : ℕ)
  | setRtt (rtt : ℕ)

/-- A packet, with the number that was expected when it came, or the numbers that were
asked for, with the start of the window. -/
inductive NackRecord where
  | arrived (expected seq : UInt32) (now : ℕ)
  | asked (seqs : List UInt32) (window now : ℕ)

/-- A receiver, the records of it with the latest first, and the time. -/
structure PacedRun where
  receiver : NackReceiver
  log : List NackRecord
  clock : ℕ

/-- The number is between the one that was expected and the one that came. -/
def PassesOver (expected later seq : UInt32) : Prop :=
  later - expected < 0xFFFFFFFF / 2 ∧ seq - expected < later - expected

/-- The number was passed over at the time `t`, and has not come since. -/
def MissingSince (seq : UInt32) (t : ℕ) : List NackRecord → Prop
  | [] => False
  | .arrived expected later now :: log =>
      later ≠ seq ∧ (PassesOver expected later seq ∧ now = t ∨ MissingSince seq t log)
  | .asked _ _ _ :: log => MissingSince seq t log

/-- The number was asked for at the time `t`, and has not come since. -/
def AskedSince (seq : UInt32) (t : ℕ) : List NackRecord → Prop
  | [] => False
  | .arrived _ later _ :: log => later ≠ seq ∧ AskedSince seq t log
  | .asked seqs _ now :: log => seq ∈ seqs ∧ now = t ∨ AskedSince seq t log

/-- How many numbers were asked for in the window. -/
def askedIn (window : ℕ) : List NackRecord → ℕ
  | [] => 0
  | .arrived _ _ _ :: log => askedIn window log
  | .asked seqs start _ :: log => (if start = window then seqs.length else 0) + askedIn window log

/-- Whether a packet of the number ever came. -/
def Came (seq : UInt32) (log : List NackRecord) : Prop :=
  ∃ expected now, NackRecord.arrived expected seq now ∈ log

namespace PacedRun

def start (frameInterval rtt now : ℕ) : PacedRun := ⟨.new frameInterval rtt now, [], now⟩

def step (s : PacedRun) : NackInput → PacedRun
  | .packet seq now =>
      { receiver := s.receiver.onPacket seq now
        log := .arrived s.receiver.nextExpected seq now :: s.log
        clock := now }
  | .tick now =>
      { receiver := (s.receiver.tick now).1
        log := .asked (nackedSeqs (s.receiver.tick now).2) (s.receiver.tick now).1.secWindow now ::
          s.log
        clock := now }
  | .setRtt rtt => { s with receiver := s.receiver.setRtt rtt }

/-- Time does not go back. -/
def InTime (s : PacedRun) : NackInput → Prop
  | .packet _ now => s.clock ≤ now
  | .tick now => s.clock ≤ now
  | .setRtt _ => True

/-- The numbers that a tick asks for are few enough, different, not asked for again too
soon, and have been missing for long enough without coming. -/
structure Paced (s : PacedRun) (e : NackInput) : Prop where
  inWindow : ∀ now, e = .tick now → (s.step e).receiver.secWindow ≤ now ∧
    now < (s.step e).receiver.secWindow + 1000000000
  rate : ∀ window, askedIn window (s.step e).log ≤ 50
  distinct : ∀ now, e = .tick now → (nackedSeqs (s.receiver.tick now).2).Nodup
  backoff : ∀ now, e = .tick now → ∀ seq ∈ nackedSeqs (s.receiver.tick now).2, ∀ t,
    AskedSince seq t s.log → 2 * s.receiver.rtt ≤ now - t
  missing : ∀ now, e = .tick now → ∀ seq ∈ nackedSeqs (s.receiver.tick now).2, ∃ t,
    MissingSince seq t s.log ∧ s.receiver.frameInterval ≤ now - t

/-- No tick asks for a number that ever came. -/
def NeverAfter (s : PacedRun) (e : NackInput) : Prop :=
  ∀ now, e = .tick now → ∀ seq ∈ nackedSeqs (s.receiver.tick now).2, ¬ Came seq s.log

variable {s : PacedRun} {e : NackInput} {seq : UInt32} {now t : ℕ}

/-! ## The limit of a window -/

/-- The numbers asked for are counted in their window, and the next one is later. -/
structure Limited (s : PacedRun) : Prop where
  rate : s.receiver.maxNackRate = 50
  window : s.receiver.secWindow ≤ s.clock
  counted : askedIn s.receiver.secWindow s.log = s.receiver.nacksThisSec
  later : ∀ window, s.receiver.secWindow < window → askedIn window s.log = 0
  limited : ∀ window, askedIn window s.log ≤ 50

/-- The window as it is at the time of a packet or a tick. -/
theorem Limited.advance (h : s.Limited) (htime : s.clock ≤ now) :
    (s.receiver.advanceWindow now).secWindow ≤ now ∧
      now < (s.receiver.advanceWindow now).secWindow + 1000000000 ∧
      askedIn (s.receiver.advanceWindow now).secWindow s.log =
        (s.receiver.advanceWindow now).nacksThisSec ∧
      ∀ window, (s.receiver.advanceWindow now).secWindow < window → askedIn window s.log = 0 := by
  have hwindow := h.window
  unfold NackReceiver.advanceWindow
  split
  · next hover =>
      have hlater : s.receiver.secWindow < now := by omega
      exact ⟨Nat.le_refl now, by dsimp only; omega, h.later now hlater,
        fun window hlt => h.later window (hlater.trans hlt)⟩
  · exact ⟨hwindow.trans htime, by omega, h.counted, h.later⟩

theorem limited_start (frameInterval rtt now : ℕ) : (start frameInterval rtt now).Limited :=
  ⟨rfl, Nat.le_refl now, rfl, fun _ _ => rfl, fun _ => Nat.zero_le 50⟩

theorem askedIn_tick (s : PacedRun) (now window : ℕ) :
    askedIn window (s.step (.tick now)).log =
      (if (s.receiver.tick now).1.secWindow = window then
        (nackedSeqs (s.receiver.tick now).2).length else 0) + askedIn window s.log := rfl

theorem limited_step (h : s.Limited) (htime : s.InTime e) : (s.step e).Limited := by
  cases e with
  | packet seq now =>
      obtain ⟨hle, -, hcounted, hlater⟩ := h.advance htime
      obtain ⟨hwindow, hcount, hrate⟩ := s.receiver.onPacket_window seq now
      refine ⟨hrate.trans h.rate, hwindow.le.trans hle, ?_, ?_, h.limited⟩
      · exact (congrArg (askedIn · s.log) hwindow).trans (hcounted.trans hcount.symm)
      · exact fun window hlt => hlater window (hwindow.symm.le.trans_lt hlt)
  | tick now =>
      obtain ⟨hle, -, hcounted, hlater⟩ := h.advance htime
      have hasks := s.receiver.tick_asks now
      have hwindow := hasks.window
      refine ⟨hasks.rate.trans h.rate, hwindow.le.trans hle, ?_, ?_, ?_⟩
      · change askedIn (s.receiver.tick now).1.secWindow _ = (s.receiver.tick now).1.nacksThisSec
        rw [askedIn_tick, if_pos rfl, hwindow, hcounted, hasks.counted, Nat.add_comm]
      · intro window hlt
        change (s.receiver.tick now).1.secWindow < window at hlt
        rw [askedIn_tick, if_neg hlt.ne, hlater window (hwindow.symm.le.trans_lt hlt)]
      · intro window
        have hbefore := h.limited window
        rw [askedIn_tick]
        split
        · next hsame =>
            rw [← hsame, hwindow, hcounted]
            rw [← hsame, hwindow, hcounted] at hbefore
            obtain hnone | hle := hasks.limited
            · rw [hnone]
              exact (Nat.zero_add _).le.trans hbefore
            · rw [h.rate, hasks.counted] at hle
              rwa [Nat.add_comm]
        · exact (Nat.zero_add _).le.trans hbefore
  | setRtt rtt => exact ⟨h.rate, h.window, h.counted, h.later, h.limited⟩

/-! ## What is remembered of a number -/

/-- A number that a packet leaves missing was missing before, or is passed over by it. -/
theorem lookup_onPacket {r : NackReceiver} {later : UInt32}
    (h : (r.onPacket later now).missing.lookup seq = some t) :
    later ≠ seq ∧ (r.missing.lookup seq = some t ∨ PassesOver r.nextExpected later seq ∧ now = t) := by
  unfold NackReceiver.onPacket at h
  dsimp only at h
  rw [NackReceiver.nextExpected_advanceWindow, NackReceiver.missing_advanceWindow] at h
  have herased : ∀ {missing : Table UInt32 ℕ}, (missing.erase later).lookup seq = some t →
      later ≠ seq ∧ missing.lookup seq = some t := by
    intro missing h
    rw [Table.lookup_erase] at h
    split at h
    · exact absurd h.symm (Option.some_ne_none t)
    · next hne => exact ⟨Ne.symm hne, h⟩
  split at h
  · obtain ⟨hne, hold⟩ := herased h
    exact ⟨hne, Or.inl hold⟩
  · split at h
    · next hahead =>
        obtain ⟨hne, hnoted⟩ := herased h
        rw [NackReceiver.lookup_noteMissing] at hnoted
        split at hnoted
        · next hbetween =>
            cases hold : r.missing.lookup seq with
            | some told =>
                rw [hold, Option.getD_some] at hnoted
                exact ⟨hne, Or.inl hnoted⟩
            | none =>
                rw [hold, Option.getD_none] at hnoted
                obtain ⟨offset, hoffset, rfl⟩ := hbetween
                refine ⟨hne, Or.inr ⟨⟨hahead, ?_⟩, Option.some.inj hnoted⟩⟩
                have hlt := (later - r.nextExpected).toNat_lt
                rw [UInt32.lt_iff_toNat_lt, UInt32.add_comm, UInt32.add_sub_cancel, UInt32.toNat_ofNat']
                omega
        · exact ⟨hne, Or.inl hnoted⟩
    · obtain ⟨hne, hold⟩ := herased h
      exact ⟨hne, Or.inl hold⟩

/-- The receiver knows no more of what is missing than the records say, and no less of
what was asked for. -/
structure Remembers (s : PacedRun) : Prop where
  missing : ∀ seq t, s.receiver.missing.lookup seq = some t →
    t ≤ s.clock ∧ MissingSince seq t s.log
  asked : ∀ seq t, AskedSince seq t s.log →
    ∃ last, s.receiver.lastNack.lookup seq = some last ∧ t ≤ last ∧ last ≤ s.clock

theorem remembers_start (frameInterval rtt now : ℕ) : (start frameInterval rtt now).Remembers :=
  ⟨fun _ t h => absurd h.symm (Option.some_ne_none t), fun _ _ h => h.elim⟩

theorem remembers_step (h : s.Remembers) (htime : s.InTime e) : (s.step e).Remembers := by
  cases e with
  | packet later now =>
      have htime : s.clock ≤ now := htime
      constructor
      · intro seq t ht
        obtain ⟨hne, hold | ⟨hpasses, rfl⟩⟩ := lookup_onPacket ht
        · obtain ⟨hle, hmissing⟩ := h.missing seq t hold
          exact ⟨hle.trans htime, hne, Or.inr hmissing⟩
        · exact ⟨Nat.le_refl _, hne, Or.inl ⟨hpasses, rfl⟩⟩
      · rintro seq t ⟨hne, hasked⟩
        obtain ⟨last, hlast, hle, hclock⟩ := h.asked seq t hasked
        refine ⟨last, ?_, hle, hclock.trans htime⟩
        change (s.receiver.onPacket later now).lastNack.lookup seq = some last
        rw [NackReceiver.lastNack_onPacket, Table.lookup_erase_ne (Ne.symm hne), hlast]
  | tick now =>
      have htime : s.clock ≤ now := htime
      obtain ⟨-, hmissing, hlast⟩ := s.receiver.tick_keeps now
      constructor
      · intro seq t ht
        obtain ⟨hle, hsince⟩ := h.missing seq t (hmissing ▸ ht)
        exact ⟨hle.trans htime, hsince⟩
      · intro seq t hasked
        change ∃ last, (s.receiver.tick now).1.lastNack.lookup seq = some last ∧ _
        rw [hlast]
        by_cases hmem : seq ∈ nackedSeqs (s.receiver.tick now).2
        · refine ⟨now, if_pos hmem, ?_, Nat.le_refl now⟩
          obtain ⟨-, rfl⟩ | hbefore := hasked
          · exact Nat.le_refl _
          · obtain ⟨last, -, hle, hclock⟩ := h.asked seq t hbefore
            exact (hle.trans hclock).trans htime
        · have hbefore : AskedSince seq t s.log := hasked.resolve_left fun hnow => hmem hnow.1
          obtain ⟨last, hlast, hle, hclock⟩ := h.asked seq t hbefore
          exact ⟨last, (if_neg hmem).trans hlast, hle, hclock.trans htime⟩
  | setRtt rtt => exact ⟨h.missing, h.asked⟩

/-! ## Every tick -/

theorem paced_step (hlimited : s.Limited) (h : s.Remembers) (htime : s.InTime e) : s.Paced e := by
  have hnext := limited_step hlimited htime
  refine ⟨?_, hnext.limited, ?_, ?_, ?_⟩
  · rintro now rfl
    obtain ⟨hle, hlt, -⟩ := hlimited.advance htime
    have hwindow := (s.receiver.tick_asks now).window
    exact ⟨hwindow.le.trans hle, hwindow.symm ▸ hlt⟩
  · rintro now rfl
    exact (s.receiver.nackSeqs_nodup now).sublist (s.receiver.tick_asks now).due
  · rintro now rfl seq hmem t hasked
    obtain ⟨last, hlast, hle, -⟩ := h.asked seq t hasked
    obtain ⟨_, -, -, hbackoff⟩ := NackReceiver.mem_nackSeqs.mp (NackReceiver.subset_nackSeqs hmem)
    exact (hbackoff last hlast).trans (Nat.sub_le_sub_left hle now)
  · rintro now rfl seq hmem
    obtain ⟨noticedAt, hnoticed, hold, -⟩ :=
      NackReceiver.mem_nackSeqs.mp (NackReceiver.subset_nackSeqs hmem)
    exact ⟨noticedAt, (h.missing seq noticedAt hnoticed).2, hold⟩

/-- Whatever comes, the receiver asks for packets at its pace. -/
theorem paced_of_inTime {frameInterval rtt now : ℕ} {es : List NackInput}
    (h : EachStep step InTime (start frameInterval rtt now) es) :
    EachStep step Paced (start frameInterval rtt now) es :=
  h.imp (P := fun s => s.Limited ∧ s.Remembers)
    (fun _ _ hs htime => ⟨limited_step hs.1 htime, remembers_step hs.2 htime⟩)
    (fun _ _ hs htime => paced_step hs.1 hs.2 htime)
    ⟨limited_start frameInterval rtt now, remembers_start frameInterval rtt now⟩

instance InTime.decidable (s : PacedRun) (e : NackInput) : Decidable (s.InTime e) :=
  match e with
  | .packet _ now => inferInstanceAs (Decidable (s.clock ≤ now))
  | .tick now => inferInstanceAs (Decidable (s.clock ≤ now))
  | .setRtt _ => inferInstanceAs (Decidable True)

/-- Number 1 is asked for at 40 ms and, twice the round trip later, at 80 ms. -/
theorem paced_askedTwice : EachStep step Paced (start 33000000 20000000 0)
    [.packet 0 0, .packet 2 5000000, .tick 40000000, .tick 60000000, .setRtt 15000000,
      .tick 80000000, .packet 1 85000000, .tick 120000000] :=
  paced_of_inTime (by decide +kernel)

/-! ## Numbers that are used again -/

/-- The first `n` packets of a stream, in order and all at once. -/
def inOrder (n : ℕ) : List NackInput := (List.range n).map fun i => .packet (seqOf 0 i) 0

theorem inOrder_succ (n : ℕ) : inOrder (n + 1) = inOrder n ++ [.packet (seqOf 0 n) 0] := by
  rw [inOrder, List.range_succ, List.map_append]
  rfl

theorem onPacket_expected (frameInterval rtt : ℕ) (seq : UInt32) :
    ({ NackReceiver.new frameInterval rtt 0 with nextExpected := seq }.onPacket seq 0) =
      { NackReceiver.new frameInterval rtt 0 with nextExpected := seq + 1 } := by
  unfold NackReceiver.onPacket
  dsimp only
  rw [NackReceiver.nextExpected_advanceWindow, if_pos (UInt32.sub_self seq)]
  rfl

/-- Packets in order leave nothing missing, however often the numbers start anew. -/
theorem run_inOrder (frameInterval rtt n : ℕ) :
    (run step (start frameInterval rtt 0) (inOrder n)).receiver =
        { NackReceiver.new frameInterval rtt 0 with nextExpected := seqOf 0 n } ∧
      (run step (start frameInterval rtt 0) (inOrder n)).clock = 0 ∧
      EachStep step InTime (start frameInterval rtt 0) (inOrder n) ∧
      ∀ i < n, Came (seqOf 0 i) (run step (start frameInterval rtt 0) (inOrder n)).log := by
  induction n with
  | zero => exact ⟨rfl, rfl, trivial, fun i hi => absurd hi (Nat.not_lt_zero i)⟩
  | succ n ih =>
      obtain ⟨hreceiver, hclock, htime, hcame⟩ := ih
      rw [inOrder_succ, run_append, eachStep_append]
      refine ⟨?_, rfl, ⟨htime, hclock.le, trivial⟩, fun i hi => ?_⟩
      · change NackReceiver.onPacket _ _ _ = _
        rw [hreceiver, onPacket_expected, ← UInt32.ofNat_one, seqOf_add]
      · obtain rfl | hlt := Nat.eq_or_lt_of_le (Nat.le_of_lt_succ hi)
        · exact ⟨_, _, List.mem_cons_self⟩
        · obtain ⟨expected, now, hmem⟩ := hcame i hlt
          exact ⟨expected, now, List.mem_cons_of_mem _ hmem⟩

/-- A stream without a gap in its first `n` packets, and then without the next one. -/
def gapAfter (n : ℕ) : List NackInput := inOrder n ++ [.packet (seqOf 0 (n + 1)) 0, .tick 40000000]

/-- Number 0 came first, and is asked for when the packet that has it again is missing. -/
theorem gapAfter_round {n : ℕ} (hpos : 0 < n) (hround : seqOf 0 n = 0) :
    EachStep step InTime (start 33000000 20000000 0) (gapAfter n) ∧
      ¬ EachStep step NeverAfter (start 33000000 20000000 0) (gapAfter n) := by
  obtain ⟨hreceiver, hclock, htime, hcame⟩ := run_inOrder 33000000 20000000 n
  obtain ⟨expected, now, hmem⟩ := hcame 0 hpos
  have hnext : seqOf 0 (n + 1) = 1 := by rw [← seqOf_add, hround]; rfl
  rw [gapAfter, eachStep_append, eachStep_append, hnext]
  refine ⟨⟨htime, hclock.le, Nat.zero_le _, trivial⟩, fun h => ?_⟩
  refine h.2.2.1 40000000 rfl 0 ?_ ⟨expected, now, List.mem_cons_of_mem _ hmem⟩
  change 0 ∈ nackedSeqs ((NackReceiver.onPacket _ 1 0).tick 40000000).2
  rw [hreceiver, hround]
  decide +kernel

theorem asked_after_it_came :
    EachStep step InTime (start 33000000 20000000 0) (gapAfter (2 ^ 32)) ∧
      ¬ EachStep step NeverAfter (start 33000000 20000000 0) (gapAfter (2 ^ 32)) :=
  gapAfter_round (by decide) (by decide)

end PacedRun
end Wzp.Video
