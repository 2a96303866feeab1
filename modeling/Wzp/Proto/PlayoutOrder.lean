import Wzp.Proto.JitterOrder

/-!
# The order of playout

The numbers that pops give out, from one reset to the next.
-/
namespace Wzp.Proto
open Runs Serial JitterBuffer

/-- A buffer and the numbers its pops have given out since the last reset, the
latest first. -/
structure Playback where
  jb : JitterBuffer
  returned : List UInt32

namespace Playback

/-- The numbers after a push, which begin anew with a new sender. -/
def returnedAfterPush (s : Playback) (packet : MediaPacket) : List UInt32 :=
  if s.jb.isNewSender packet.header.seq then [] else s.returned

def step (s : Playback) (e : JitterEvent) : Playback where
  jb := s.jb.apply e
  returned := match e with
    | .push _ packet => s.returnedAfterPush packet
    | .pushWithArrival _ packet _ => s.returnedAfterPush packet
    | .pop => match s.jb.pop.1 with
        | .packet packet => packet.header.seq :: s.returned
        | .missing seq => seq :: s.returned
        | .notReady => s.returned
    | .reset => []
    | .resetStats => s.returned
    | .recordUnderrun => s.returned
    | .recordDecode => s.returned
    | .setTargetDepth _ => s.returned

/-- The numbers ascend, no place in the stream is played twice, and the number
to be given out next comes after them. -/
structure Onward (s : Playback) : Prop where
  ascending : Ascending s.returned
  once : (positions s.returned).Nodup
  next : ∀ last ∈ s.returned.head?, Before last s.jb.nextPlayoutSeq

/-- A push does not take playout back to what was given out: not by setting it to
an earlier number while nothing counts as played, and not by dropping so many
packets that half of the numbers are passed. -/
structure Advances (s : Playback) (seq last : UInt32) : Prop where
  start : s.jb.dropAdvances seq = false → s.jb.stats.packetsPlayed = 0 →
    seqBefore seq s.jb.nextPlayoutSeq = true → Before last seq
  drop : s.jb.dropAdvances seq = true → Before last (s.jb.smallestWith seq + 1)

def AdvancesWith (s : Playback) (seq : UInt32) : Prop :=
  s.jb.joins seq = true → ∀ last ∈ s.returned.head?, Advances s seq last

def AdvancingEvent (s : Playback) : JitterEvent → Prop
  | .push _ packet => s.AdvancesWith packet.header.seq
  | .pushWithArrival _ packet _ => s.AdvancesWith packet.header.seq
  | _ => True

instance (s : Playback) : Decidable (Onward s) :=
  have : Decidable (∀ last ∈ s.returned.head?, Before last s.jb.nextPlayoutSeq) :=
    Option.decidableForallMem _
  decidable_of_iff (Ascending s.returned ∧ (positions s.returned).Nodup ∧
      ∀ last ∈ s.returned.head?, Before last s.jb.nextPlayoutSeq)
    ⟨fun h => ⟨h.1, h.2.1, h.2.2⟩, fun h => ⟨h.1, h.2, h.3⟩⟩

instance (s : Playback) (seq last : UInt32) : Decidable (Advances s seq last) :=
  decidable_of_iff ((s.jb.dropAdvances seq = false → s.jb.stats.packetsPlayed = 0 →
      seqBefore seq s.jb.nextPlayoutSeq = true → Before last seq) ∧
      (s.jb.dropAdvances seq = true → Before last (s.jb.smallestWith seq + 1)))
    ⟨fun h => ⟨h.1, h.2⟩, fun h => ⟨h.1, h.2⟩⟩

instance (s : Playback) (seq : UInt32) : Decidable (s.AdvancesWith seq) :=
  have : Decidable (∀ last ∈ s.returned.head?, Advances s seq last) := Option.decidableForallMem _
  inferInstanceAs (Decidable (s.jb.joins seq = true → ∀ last ∈ s.returned.head?, Advances s seq last))

instance (s : Playback) : (e : JitterEvent) → Decidable (AdvancingEvent s e)
  | .push _ packet => inferInstanceAs (Decidable (s.AdvancesWith packet.header.seq))
  | .pushWithArrival _ packet _ => inferInstanceAs (Decidable (s.AdvancesWith packet.header.seq))
  | .pop => isTrue trivial
  | .reset => isTrue trivial
  | .resetStats => isTrue trivial
  | .recordUnderrun => isTrue trivial
  | .recordDecode => isTrue trivial
  | .setTargetDepth _ => isTrue trivial

/-! ## Invariant -/

/-- Nothing is given out before the first packet. -/
structure Sound (s : Playback) : Prop where
  formed : Formed s.jb
  fresh : s.jb.initialized = false → s.returned = []

variable {s s' : Playback} {seq last : UInt32} {packet : MediaPacket}

theorem sound_step (h : Sound s) (e : JitterEvent) : Sound (s.step e) := by
  have hpush : ∀ {tune : JitterBuffer → JitterBuffer}, Tunes tune → ∀ packet,
      (s.jb.pushTuned packet tune).initialized = true := by
    intro tune htune packet
    exact (pushTuned_pushed h.formed htune).1.initialized
  refine ⟨formed_apply h.formed e, ?_⟩
  cases e with
  | push now packet =>
      intro hnot
      exact absurd ((hpush (tune_tunes now packet) packet).symm.trans hnot) Bool.false_ne_true.symm
  | pushWithArrival now packet arrivalMs =>
      intro hnot
      exact absurd ((hpush (tuneWithArrival_tunes now arrivalMs packet) packet).symm.trans hnot)
        Bool.false_ne_true.symm
  | pop =>
      intro hnot
      have hnot' : s.jb.initialized = false := (pop_initialized s.jb).symm.trans hnot
      simp only [step, pop_unused hnot']
      exact h.fresh hnot'
  | reset => exact fun _ => rfl
  | resetStats => exact h.fresh
  | recordUnderrun => exact h.fresh
  | recordDecode => exact h.fresh
  | setTargetDepth depth => exact h.fresh

theorem onward_iff : Onward s ↔
    Ascending s.returned ∧ ∀ last ∈ s.returned.head?, Before last s.jb.nextPlayoutSeq :=
  ⟨fun h => ⟨h.ascending, h.next⟩, fun h => ⟨h.1, h.1.positions_nodup, h.2⟩⟩

/-- Nothing is before playout that was given out, since nothing was. -/
theorem onward_of_fresh (h : s.returned = []) : Onward s := by
  rw [onward_iff, h]
  exact ⟨List.isChain_nil, fun last hlast => absurd hlast (Option.not_mem_none last)⟩

/-! ## Steps -/

theorem before_start (hnext : Before last s.jb.nextPlayoutSeq) (hstays : s.jb.dropAdvances seq = false) :
    Before last (s.jb.startWith seq) ↔ Advances s seq last := by
  unfold startWith
  split
  · rename_i hback
    rw [Bool.and_eq_true, decide_eq_true_eq] at hback
    constructor
    · intro h
      exact ⟨fun _ _ _ => h, fun hadv => absurd (hstays.symm.trans hadv) Bool.false_ne_true⟩
    · intro h
      exact h.start hstays hback.1 hback.2
  · rename_i hnot
    rw [Bool.and_eq_true, decide_eq_true_eq] at hnot
    constructor
    · intro _
      exact ⟨fun _ hplayed hback => absurd ⟨hplayed, hback⟩ hnot,
        fun hadv => absurd (hstays.symm.trans hadv) Bool.false_ne_true⟩
    · intro _
      exact hnext

theorem before_joined (hnext : Before last s.jb.nextPlayoutSeq) :
    Before last (if s.jb.dropAdvances seq then s.jb.smallestWith seq + 1 else s.jb.startWith seq) ↔
      Advances s seq last := by
  cases hadv : s.jb.dropAdvances seq with
  | false => exact before_start hnext hadv
  | true =>
      rw [if_pos rfl]
      constructor
      · intro h
        exact ⟨fun hstays => absurd (hadv.symm.trans hstays) Bool.false_ne_true.symm, fun _ => h⟩
      · intro h
        exact h.drop hadv

theorem onward_joined (honward : Onward s) (e : JitterEvent) (hjoins : s.jb.joins seq = true)
    (hreturned : (s.step e).returned = s.returned)
    (hnext : (s.step e).jb.nextPlayoutSeq =
      if s.jb.dropAdvances seq then s.jb.smallestWith seq + 1 else s.jb.startWith seq) :
    Onward (s.step e) ↔ s.AdvancesWith seq := by
  rw [onward_iff, hreturned, hnext]
  constructor
  · intro h _ last hlast
    exact (before_joined (honward.next last hlast)).mp (h.2 last hlast)
  · intro h
    refine ⟨honward.ascending, fun last hlast => ?_⟩
    exact (before_joined (honward.next last hlast)).mpr (h hjoins last hlast)

theorem returnedAfterPush_joins (h : s.jb.joins packet.header.seq = true) :
    s.returnedAfterPush packet = s.returned := by
  have hnot : s.jb.isNewSender packet.header.seq = false := by
    rw [isNewSender, (joins_spec h).2.2, Bool.and_false, Bool.false_and]
  rw [returnedAfterPush, hnot]
  rfl

theorem onward_push (h : Sound s) (honward : Onward s) (e : JitterEvent)
    (hpushed : Pushed s.jb packet (s.jb.apply e))
    (hreturned : (s.step e).returned = s.returnedAfterPush packet) :
    Onward (s.step e) ↔ s.AdvancesWith packet.header.seq := by
  cases hpushed with
  | first unused buffer next =>
      have hfresh : (s.step e).returned = [] := by
        rw [hreturned, returnedAfterPush, h.fresh unused, ite_self]
      refine ⟨fun _ hjoins => ?_, fun _ => onward_of_fresh hfresh⟩
      exact absurd (unused.symm.trans (joins_spec hjoins).1) Bool.false_ne_true
  | ignored known initialized buffer next =>
      have hsame : (s.step e).returned = s.returned := by
        rw [hreturned, returnedAfterPush, known.2]
        rfl
      have hnext : (s.step e).jb.nextPlayoutSeq = s.jb.nextPlayoutSeq := next
      refine ⟨fun _ hjoins => absurd (known.1.symm.trans hjoins) Bool.false_ne_true, fun _ => ?_⟩
      rw [onward_iff, hsame, hnext]
      exact onward_iff.mp honward
  | renewed sender buffer next =>
      have hfresh : (s.step e).returned = [] := by
        rw [hreturned, returnedAfterPush, sender]
        rfl
      refine ⟨fun _ hjoins => ?_, fun _ => onward_of_fresh hfresh⟩
      rw [isNewSender, (joins_spec hjoins).2.2, Bool.and_false, Bool.false_and] at sender
      exact absurd sender Bool.false_ne_true
  | joined joins room buffer next =>
      have hstays : s.jb.dropAdvances packet.header.seq = false := by
        rw [dropAdvances, room, Bool.false_and]
      refine onward_joined honward e joins (hreturned.trans (returnedAfterPush_joins joins)) ?_
      rw [hstays]
      exact next
  | displaced joins full buffer next =>
      exact onward_joined honward e joins (hreturned.trans (returnedAfterPush_joins joins)) next

/-- A pop gives out the next number, and goes on to the one behind it. -/
theorem onward_pop (h : Sound s) (honward : Onward s) : Onward (s.step .pop) := by
  have hpush : ∀ seq, seq = s.jb.nextPlayoutSeq → Ascending (seq :: s.returned) := by
    rintro seq rfl
    cases hlast : s.returned with
    | nil => exact List.isChain_singleton _
    | cons last rest =>
        have hbefore := honward.next last (by rw [hlast]; rfl)
        have hascending := honward.ascending
        rw [hlast] at hascending
        exact List.isChain_cons_cons.mpr ⟨hbefore, hascending⟩
  have hstep : ∀ seq, seq = s.jb.nextPlayoutSeq → (s.step .pop).returned = seq :: s.returned →
      s.jb.pop.2.nextPlayoutSeq = s.jb.nextPlayoutSeq + 1 → Onward (s.step .pop) := by
    intro seq hseq hreturned hnext
    have hnext' : (s.step .pop).jb.nextPlayoutSeq = s.jb.nextPlayoutSeq + 1 := hnext
    rw [onward_iff, hreturned, hnext', ← hseq]
    refine ⟨hpush seq hseq, fun last hlast => ?_⟩
    rw [← Option.mem_some_iff.mp hlast]
    exact before_add_one seq
  cases pop_popped s.jb with
  | waits waits same =>
      have hreturned : (s.step .pop).returned = s.returned := by
        simp only [step, waits]
      have hnext : (s.step .pop).jb.nextPlayoutSeq = s.jb.nextPlayoutSeq :=
        congrArg JitterBuffer.nextPlayoutSeq same
      rw [onward_iff, hreturned, hnext]
      exact onward_iff.mp honward
  | plays packet plays held buffer next =>
      refine hstep packet.header.seq (h.formed.labelled _ held).symm ?_ next
      simp only [step, plays]
  | conceals conceals absent buffer next =>
      refine hstep s.jb.nextPlayoutSeq rfl ?_ next
      simp only [step, conceals]

theorem onward_step (h : Sound s) (honward : Onward s) (e : JitterEvent) :
    Onward (s.step e) ↔ AdvancingEvent s e := by
  cases e with
  | push now packet =>
      exact onward_push h honward _ (pushTuned_pushed h.formed (tune_tunes now packet)).2 rfl
  | pushWithArrival now packet arrivalMs =>
      exact onward_push h honward _
        (pushTuned_pushed h.formed (tuneWithArrival_tunes now arrivalMs packet)).2 rfl
  | pop => exact ⟨fun _ => trivial, fun _ => onward_pop h honward⟩
  | reset => exact ⟨fun _ => trivial, fun _ => onward_of_fresh rfl⟩
  | resetStats => exact ⟨fun _ => trivial, fun _ => ⟨honward.ascending, honward.once, honward.next⟩⟩
  | recordUnderrun => exact ⟨fun _ => trivial, fun _ => ⟨honward.ascending, honward.once, honward.next⟩⟩
  | recordDecode => exact ⟨fun _ => trivial, fun _ => ⟨honward.ascending, honward.once, honward.next⟩⟩
  | setTargetDepth depth => exact ⟨fun _ => trivial, fun _ => ⟨honward.ascending, honward.once, honward.next⟩⟩

/-- Playout goes onward between resets exactly if every push takes it onward. -/
theorem onward_throughout_iff {jb : JitterBuffer} (h : Created jb) (es : List JitterEvent) :
    Throughout step Onward ⟨jb, []⟩ es ↔ EachStep step AdvancingEvent ⟨jb, []⟩ es :=
  throughout_iff_eachStep (fun _ e hsound _ _ => sound_step hsound e)
    (fun _ e hsound honward => onward_step hsound honward e) ⟨h.formed, fun _ => rfl⟩
    (onward_of_fresh rfl)

theorem late_packet_onward : Throughout step Onward ⟨.new 3 100 1, []⟩
    [.push 0 (numbered 5), .pop, .push 0 (numbered 5), .pop, .push 0 (numbered 7), .pop] :=
  (onward_throughout_iff (.new 3 100 1 (by decide)) _).mpr (by decide)

/-- A packet that arrives twice is played twice if the statistics are reset in
between. -/
theorem replayed_after_resetStats :
    (run step ⟨.new 3 100 1, []⟩
      [.push 0 (numbered 5), .pop, .resetStats, .push 0 (numbered 5), .pop]).returned = [5, 5] ∧
    ¬ Throughout step Onward ⟨.new 3 100 1, []⟩
      [.push 0 (numbered 5), .pop, .resetStats, .push 0 (numbered 5), .pop] := by
  decide

end Playback
end Wzp.Proto
