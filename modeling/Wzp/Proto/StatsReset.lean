import Wzp.Proto.JitterOrder

/-!
# Playout with and without a reset of the statistics

Two buffers that differ in their statistics only are used alike. One of the counters
says whether anything was played, and a push and a pop ask it.
-/
namespace Wzp.Proto
open Runs JitterBuffer

namespace JitterBuffer

/-- What the pops of a run return. -/
def pops (jb : JitterBuffer) : List JitterEvent → List PlayoutResult
  | [] => []
  | .pop :: es => jb.pop.1 :: jb.pop.2.pops es
  | e :: es => (jb.apply e).pops es

/-- The buffers differ in their statistics only. -/
def Alike (jb jb' : JitterBuffer) : Prop := jb' = { jb with stats := jb'.stats }

/-- Both have played something, or neither. -/
def InStep (jb jb' : JitterBuffer) : Prop :=
  jb.stats.packetsPlayed = 0 ↔ jb'.stats.packetsPlayed = 0

variable {jb jb' : JitterBuffer} {tune : JitterBuffer → JitterBuffer} {packet : MediaPacket}

/-- An estimator does not look at the statistics. -/
def Blind (tune : JitterBuffer → JitterBuffer) : Prop :=
  ∀ (jb : JitterBuffer) (stats : JitterStats),
    tune { jb with stats } = { tune jb with stats } ∧ (tune jb).stats = jb.stats

theorem blind_tune (now : ℕ) (packet : MediaPacket) : Blind (JitterBuffer.tune now packet) := by
  intro jb stats
  unfold JitterBuffer.tune
  dsimp only
  split <;> exact ⟨rfl, rfl⟩

theorem blind_tuneWithArrival (now : ℕ) (arrivalMs : UInt64) (packet : MediaPacket) :
    Blind (tuneWithArrival now arrivalMs packet) := by
  intro jb stats
  unfold tuneWithArrival
  dsimp only
  split <;> exact ⟨rfl, rfl⟩

/-- The statistics of two buffers after a push: what was played is as before. -/
structure PlayedAsBefore (jb jb' next next' : JitterBuffer) : Prop where
  alike : Alike next next'
  kept : next.stats.packetsPlayed = jb.stats.packetsPlayed
  reset : next'.stats.packetsPlayed = jb'.stats.packetsPlayed

theorem PlayedAsBefore.of_same {b b' next next' : JitterBuffer} (h : PlayedAsBefore b b' next next')
    (hkept : b.stats.packetsPlayed = jb.stats.packetsPlayed)
    (hreset : b'.stats.packetsPlayed = jb'.stats.packetsPlayed) :
    PlayedAsBefore jb jb' next next' := ⟨h.alike, h.kept.trans hkept, h.reset.trans hreset⟩

theorem evict_alike (h : Alike jb jb') (entries : List (UInt32 × MediaPacket)) :
    PlayedAsBefore jb jb' (jb.evict entries) (jb'.evict entries) := by
  induction entries generalizing jb jb' with
  | nil =>
      rw [h]
      exact ⟨rfl, rfl, rfl⟩
  | cons e rest ih =>
      have hnext : ∀ {b b' : JitterBuffer}, Alike b b' →
          b.stats.packetsPlayed = jb.stats.packetsPlayed →
          b'.stats.packetsPlayed = jb'.stats.packetsPlayed →
          PlayedAsBefore jb jb' (b.evict rest) (b'.evict rest) :=
        fun hb hkept hreset => (ih hb).of_same hkept hreset
      rw [h] at hnext ⊢
      unfold evict
      dsimp only
      split
      · split
        · refine hnext ?_ rfl rfl
          rfl
        · refine hnext ?_ rfl rfl
          rfl
      · exact ⟨rfl, rfl, rfl⟩

/-- Behind the tuning, a packet is put in alike. -/
theorem insert_alike (h : Alike jb jb') (htune : Blind tune) :
    PlayedAsBefore jb jb'
      ((tune jb).evict (insertSorted packet.header.seq packet (tune jb).buffer)).recordDepth
      ((tune jb').evict (insertSorted packet.header.seq packet (tune jb').buffer)).recordDepth := by
  obtain ⟨htuned, hstats⟩ := htune jb jb'.stats
  have hjb' : tune jb' = { tune jb with stats := jb'.stats } := by rw [h]; exact htuned
  have halike : Alike (tune jb) (tune jb') := by rw [hjb']; rfl
  have hbuffer : (tune jb').buffer = (tune jb).buffer := by rw [hjb']
  have hplayed : (tune jb').stats = jb'.stats := by rw [hjb']
  obtain ⟨hevict, hkept, hreset⟩ := evict_alike halike
    (insertSorted packet.header.seq packet (tune jb).buffer)
  rw [hbuffer]
  refine ⟨?_, ?_, ?_⟩
  · rw [hevict]
    rfl
  · rw [← hstats]
    exact hkept
  · rw [← hplayed]
    exact hreset

/-- What was played is asked only of numbers before playout. -/
theorem played_and_before {p q : Prop} [Decidable p] [Decidable q] {before : Bool}
    (h : before = false ∨ (p ↔ q)) : (decide p && before) = (decide q && before) := by
  obtain hafter | hsame := h
  · rw [hafter, Bool.and_false, Bool.and_false]
  · rw [decide_eq_decide.mpr hsame]

/-- A number that is not before playout, or a buffer that has played what the other has. -/
theorem accept_alike (h : Alike jb jb') (htune : Blind tune)
    (hguard : seqBefore packet.header.seq jb.nextPlayoutSeq = false ∨ InStep jb jb') :
    PlayedAsBefore jb jb' (jb.accept packet tune) (jb'.accept packet tune) := by
  have hsame := played_and_before hguard
  have hnext : jb'.nextPlayoutSeq = jb.nextPlayoutSeq := by rw [h]
  unfold accept
  dsimp only
  rw [hnext, ← hsame]
  split
  · refine PlayedAsBefore.of_same (insert_alike ?_ htune) rfl rfl
    rw [h]
    rfl
  · exact insert_alike h htune

/-- The push does not ask whether anything was played: the number is there already, or not
before playout. -/
def Indifferent (jb : JitterBuffer) (seq : UInt32) : Prop :=
  jb.containsKey seq = true ∨ seqBefore seq jb.nextPlayoutSeq = false

theorem pushTuned_alike (h : Alike jb jb') (htune : Blind tune)
    (hguard : jb.Indifferent packet.header.seq ∨ InStep jb jb') :
    PlayedAsBefore jb jb' (jb.pushTuned packet tune) (jb'.pushTuned packet tune) := by
  have hreceive : Alike (jb.receive packet.header.seq) (jb'.receive packet.header.seq) := by
    rw [h]
    rfl
  have hkey : (jb'.receive packet.header.seq).containsKey packet.header.seq =
      (jb.receive packet.header.seq).containsKey packet.header.seq := by
    rw [h]
    rfl
  have hnext : (jb'.receive packet.header.seq).nextPlayoutSeq =
      (jb.receive packet.header.seq).nextPlayoutSeq := by
    rw [hreceive]
  unfold pushTuned
  dsimp only
  rw [hkey, hnext]
  split
  · rw [hreceive]
    exact ⟨rfl, rfl, rfl⟩
  · rename_i hnew
    have hguard' : seqBefore packet.header.seq (jb.receive packet.header.seq).nextPlayoutSeq = false ∨
        InStep jb jb' := by
      refine hguard.imp_left fun hindifferent => ?_
      have hafter := hindifferent.resolve_left hnew
      unfold receive
      dsimp only
      split
      · exact hafter
      · exact seqBefore_self _
    have hlate : (decide (0 < (jb.receive packet.header.seq).stats.packetsPlayed) &&
          seqBefore packet.header.seq (jb.receive packet.header.seq).nextPlayoutSeq) =
        (decide (0 < (jb'.receive packet.header.seq).stats.packetsPlayed) &&
          seqBefore packet.header.seq (jb.receive packet.header.seq).nextPlayoutSeq) := by
      refine played_and_before (hguard'.imp_right fun hstep => ?_)
      rw [Nat.pos_iff_ne_zero, Nat.pos_iff_ne_zero]
      exact not_congr hstep
    rw [← hlate]
    split
    · rename_i hback
      split
      · -- the packets that wait are dropped, and the number is the next
        refine PlayedAsBefore.of_same (accept_alike ?_ htune (Or.inl ?_)) rfl rfl
        · rw [hreceive]
          rfl
        · exact seqBefore_self _
      · rw [hreceive]
        exact ⟨rfl, rfl, rfl⟩
    · refine PlayedAsBefore.of_same (accept_alike hreceive htune hguard') rfl rfl

/-- What is returned is the same, and so is what waits. -/
structure PoppedAlike (jb jb' : JitterBuffer) : Prop where
  result : jb'.pop.1 = jb.pop.1
  alike : Alike jb.pop.2 jb'.pop.2
  played : (jb.stats.packetsPlayed = 0 → jb'.stats.packetsPlayed = 0) →
    jb.pop.2.stats.packetsPlayed = 0 → jb'.pop.2.stats.packetsPlayed = 0

/-- A buffer that is deep enough, or that has played what the other has. -/
theorem pop_alike (h : Alike jb jb')
    (hguard : jb.minDepth ≤ jb.buffer.length ∨ InStep jb jb') : PoppedAlike jb jb' := by
  have hwait : (decide (jb.buffer.length < jb.minDepth) && decide (jb.stats.packetsPlayed = 0)) =
      (decide (jb.buffer.length < jb.minDepth) && decide (jb'.stats.packetsPlayed = 0)) := by
    obtain hdeep | hstep := hguard
    · rw [decide_eq_false (Nat.not_lt.mpr hdeep), Bool.false_and, Bool.false_and]
    · rw [decide_eq_decide.mpr hstep]
  have hpop : jb'.pop.1 = jb.pop.1 ∧ Alike jb.pop.2 jb'.pop.2 ∧
      ((jb.stats.packetsPlayed = 0 → jb'.stats.packetsPlayed = 0) →
        jb.pop.2.stats.packetsPlayed = 0 → jb'.pop.2.stats.packetsPlayed = 0) := by
    generalize hcounter : decide (jb'.stats.packetsPlayed = 0) = zero at hwait
    rw [h]
    unfold pop
    dsimp only
    rw [hcounter, ← hwait]
    split
    · exact ⟨rfl, rfl, id⟩
    · split
      · exact ⟨rfl, rfl, id⟩
      · split
        · exact ⟨rfl, rfl, fun _ hzero => absurd hzero (Nat.succ_ne_zero _)⟩
        · exact ⟨rfl, rfl, id⟩
  exact ⟨hpop.1, hpop.2.1, hpop.2.2⟩

end JitterBuffer

/-- A buffer, and the same buffer whose statistics were reset before. -/
structure WithReset where
  kept : JitterBuffer
  reset : JitterBuffer

namespace WithReset

def step (s : WithReset) (e : JitterEvent) : WithReset := ⟨s.kept.apply e, s.reset.apply e⟩

/-- Until a packet is played after the reset, no pop finds too few packets to begin with,
and no push is of a number before playout. -/
def Proper (s : WithReset) : JitterEvent → Prop
  | .push _ packet => s.kept.Indifferent packet.header.seq ∨ InStep s.kept s.reset
  | .pushWithArrival _ packet _ => s.kept.Indifferent packet.header.seq ∨ InStep s.kept s.reset
  | .pop => s.kept.minDepth ≤ s.kept.buffer.length ∨ InStep s.kept s.reset
  | _ => True

instance (jb jb' : JitterBuffer) : Decidable (InStep jb jb') :=
  inferInstanceAs (Decidable (jb.stats.packetsPlayed = 0 ↔ jb'.stats.packetsPlayed = 0))

instance (jb : JitterBuffer) (seq : UInt32) : Decidable (jb.Indifferent seq) :=
  inferInstanceAs (Decidable (jb.containsKey seq = true ∨ seqBefore seq jb.nextPlayoutSeq = false))

instance (s : WithReset) : (e : JitterEvent) → Decidable (s.Proper e)
  | .push _ packet =>
      inferInstanceAs (Decidable (s.kept.Indifferent packet.header.seq ∨ InStep s.kept s.reset))
  | .pushWithArrival _ packet _ =>
      inferInstanceAs (Decidable (s.kept.Indifferent packet.header.seq ∨ InStep s.kept s.reset))
  | .pop => inferInstanceAs
      (Decidable (s.kept.minDepth ≤ s.kept.buffer.length ∨ InStep s.kept s.reset))
  | .reset => isTrue trivial
  | .resetStats => isTrue trivial
  | .recordUnderrun => isTrue trivial
  | .recordDecode => isTrue trivial
  | .setTargetDepth _ => isTrue trivial

/-- What remains between the two: the buffers are alike, and only the one that was not reset
may count packets as played that the other does not. -/
structure Tracks (s : WithReset) : Prop where
  alike : Alike s.kept s.reset
  played : s.kept.stats.packetsPlayed = 0 → s.reset.stats.packetsPlayed = 0

variable {s : WithReset}

theorem PlayedAsBefore.tracks {e : JitterEvent} (hs : s.Tracks)
    (h : PlayedAsBefore s.kept s.reset (s.kept.apply e) (s.reset.apply e)) : (s.step e).Tracks := by
  refine ⟨h.alike, fun hzero => ?_⟩
  change (s.reset.apply e).stats.packetsPlayed = 0
  change (s.kept.apply e).stats.packetsPlayed = 0 at hzero
  rw [h.reset]
  rw [h.kept] at hzero
  exact hs.played hzero

theorem tracks_step (e : JitterEvent) (h : s.Tracks) (hproper : s.Proper e) : (s.step e).Tracks := by
  cases e with
  | push now packet =>
      exact PlayedAsBefore.tracks h (pushTuned_alike h.alike (blind_tune now packet) hproper)
  | pushWithArrival now packet arrivalMs =>
      exact PlayedAsBefore.tracks h
        (pushTuned_alike h.alike (blind_tuneWithArrival now arrivalMs packet) hproper)
  | pop =>
      have hpop := pop_alike h.alike hproper
      exact ⟨hpop.alike, hpop.played h.played⟩
  | reset =>
      refine ⟨?_, fun _ => rfl⟩
      change s.reset.reset = _
      rw [h.alike]
      rfl
  | resetStats =>
      have hsame : s.reset.resetStats = s.kept.resetStats := by
        rw [h.alike]
        rfl
      refine ⟨?_, fun _ => rfl⟩
      change Alike s.kept.resetStats s.reset.resetStats
      rw [hsame]
      rfl
  | recordUnderrun =>
      refine ⟨?_, h.played⟩
      change s.reset.recordUnderrun = _
      rw [h.alike]
      rfl
  | recordDecode =>
      refine ⟨?_, h.played⟩
      change s.reset.recordDecode = _
      rw [h.alike]
      rfl
  | setTargetDepth depth =>
      refine ⟨?_, h.played⟩
      change s.reset.setTargetDepth depth = _
      rw [h.alike]
      rfl

theorem pops_eq {es : List JitterEvent} (h : s.Tracks) (hproper : EachStep step Proper s es) :
    s.reset.pops es = s.kept.pops es := by
  induction es generalizing s with
  | nil => rfl
  | cons e es ih =>
      have hrest := ih (tracks_step e h hproper.1) hproper.2
      cases e with
      | pop =>
          rw [JitterBuffer.pops, JitterBuffer.pops, (pop_alike h.alike hproper.1).result]
          exact congrArg _ hrest
      | _ => exact hrest

/-- In a run whose steps do not ask for what was played before the reset, all pops return
what they return without it. -/
theorem pops_eq_of_proper (jb : JitterBuffer) {es : List JitterEvent}
    (h : EachStep step Proper ⟨jb, jb.resetStats⟩ es) : jb.resetStats.pops es = jb.pops es := by
  have hstart : Tracks ⟨jb, jb.resetStats⟩ := ⟨rfl, fun _ => rfl⟩
  exact pops_eq hstart h

/-- A buffer that has played number 5 and holds 6. -/
def playing (minDepth : ℕ) : JitterBuffer :=
  run JitterBuffer.apply (.new 3 100 minDepth) [.push 0 (numbered 5), .push 0 (numbered 6), .pop]

/-- The reset goes unnoticed if playout goes on. -/
theorem pops_eq_inOrder :
    (playing 1).resetStats.pops [.pop, .push 0 (numbered 5), .push 0 (numbered 7), .pop, .pop] =
      (playing 1).pops [.pop, .push 0 (numbered 5), .push 0 (numbered 7), .pop, .pop] :=
  pops_eq_of_proper (playing 1) (by decide)

/-- After a reset playout waits again, and a late packet takes it back. -/
theorem pops_differ :
    (playing 2).pops [.pop] = [.packet (numbered 6)] ∧
      (playing 2).resetStats.pops [.pop] = [.notReady] ∧
      (playing 1).pops [.push 0 (numbered 5), .pop] = [.packet (numbered 6)] ∧
      (playing 1).resetStats.pops [.push 0 (numbered 5), .pop] = [.packet (numbered 5)] := by
  decide

end WithReset
end Wzp.Proto
