import Wzp.Proto.PushAgreement

/-!
# Every packet is counted

A packet that a buffer has received is played, a duplicate, late or dropped, or it still
waits.
-/
namespace Wzp.Proto
open Runs

namespace JitterBuffer
variable {jb : JitterBuffer} {packet : MediaPacket} {tune : JitterBuffer → JitterBuffer}
  {entries : List (UInt32 × MediaPacket)}

/-- Every packet that was received is accounted for, and the depth is right and bounded. -/
structure Conserves (jb : JitterBuffer) : Prop where
  received : jb.stats.packetsReceived = jb.stats.packetsPlayed + jb.stats.packetsDuplicate +
    jb.stats.packetsLate + jb.stats.overruns + jb.depth
  current : jb.stats.currentDepth = jb.depth
  bounded : jb.depth ≤ jb.maxDepth

/-- The numbers that wait are different. -/
structure Balanced (jb : JitterBuffer) : Prop extends Conserves jb where
  sorted : jb.buffer.Pairwise fun a b => a.1 < b.1

/-! ## Dropping -/

/-- What is dropped is counted, and nothing else. -/
structure Evicted (jb : JitterBuffer) (entries : List (UInt32 × MediaPacket))
    (jb' : JitterBuffer) : Prop where
  kept : jb'.buffer <:+ entries
  dropped : jb'.stats.overruns + jb'.depth = jb.stats.overruns + entries.length
  bounded : jb'.depth ≤ jb'.maxDepth
  received : jb'.stats.packetsReceived = jb.stats.packetsReceived
  played : jb'.stats.packetsPlayed = jb.stats.packetsPlayed
  duplicate : jb'.stats.packetsDuplicate = jb.stats.packetsDuplicate
  late : jb'.stats.packetsLate = jb.stats.packetsLate

theorem evict_evicted (jb : JitterBuffer) (entries : List (UInt32 × MediaPacket)) :
    Evicted jb entries (jb.evict entries) := by
  induction entries generalizing jb with
  | nil => exact ⟨List.suffix_refl _, rfl, Nat.zero_le _, rfl, rfl, rfl, rfl⟩
  | cons e rest ih =>
      have hnext : ∀ {b : JitterBuffer}, b.stats.packetsReceived = jb.stats.packetsReceived →
          b.stats.packetsPlayed = jb.stats.packetsPlayed →
          b.stats.packetsDuplicate = jb.stats.packetsDuplicate →
          b.stats.packetsLate = jb.stats.packetsLate →
          b.stats.overruns = jb.stats.overruns + 1 → Evicted jb (e :: rest) (b.evict rest) := by
        intro b hreceived hplayed hduplicate hlate hoverruns
        have h := ih b
        have hdropped := h.dropped
        rw [hoverruns] at hdropped
        refine ⟨h.kept.trans (List.suffix_cons e rest), ?_, h.bounded, h.received.trans hreceived,
          h.played.trans hplayed, h.duplicate.trans hduplicate, h.late.trans hlate⟩
        rw [hdropped, List.length_cons]
        omega
      unfold evict
      split
      · dsimp only
        split
        · exact hnext rfl rfl rfl rfl rfl
        · exact hnext rfl rfl rfl rfl rfl
      · next hroom =>
          exact ⟨List.suffix_refl _, rfl, Nat.not_lt.mp hroom, rfl, rfl, rfl, rfl⟩

/-! ## The operations -/

/-- A packet that is accepted is put among the others, of which some may then be dropped. -/
theorem accept_evicted (jb : JitterBuffer) (packet : MediaPacket) (htune : Tunes tune) :
    ∃ after, Evicted jb (insertSorted packet.header.seq packet jb.buffer) after ∧
      jb.accept packet tune = after.recordDepth := by
  obtain ⟨adaptive, target, minDepth, heq⟩ :=
    htune { jb with nextPlayoutSeq := jb.startWith packet.header.seq }
  have haccept : jb.accept packet tune = (evict { jb with
      nextPlayoutSeq := jb.startWith packet.header.seq
      adaptive := adaptive
      targetDepth := target
      minDepth := minDepth } (insertSorted packet.header.seq packet jb.buffer)).recordDepth := by
    have hstart : (if jb.stats.packetsPlayed = 0 && seqBefore packet.header.seq jb.nextPlayoutSeq
          then { jb with nextPlayoutSeq := packet.header.seq } else jb) =
        { jb with nextPlayoutSeq := jb.startWith packet.header.seq } := by
      unfold startWith
      split <;> rfl
    unfold accept
    dsimp only
    rw [hstart, heq]
  have h := evict_evicted { jb with
    nextPlayoutSeq := jb.startWith packet.header.seq
    adaptive := adaptive
    targetDepth := target
    minDepth := minDepth } (insertSorted packet.header.seq packet jb.buffer)
  exact ⟨_, ⟨h.kept, h.dropped, h.bounded, h.received, h.played, h.duplicate, h.late⟩, haccept⟩

/-- The packet was counted as received only. -/
theorem accept_balanced (htune : Tunes tune) (hsorted : jb.buffer.Pairwise fun a b => a.1 < b.1)
    (hnew : ∀ e ∈ jb.buffer, e.1 ≠ packet.header.seq)
    (hreceived : jb.stats.packetsReceived = jb.stats.packetsPlayed + jb.stats.packetsDuplicate +
      jb.stats.packetsLate + jb.stats.overruns + jb.depth + 1) :
    (jb.accept packet tune).Balanced := by
  obtain ⟨after, hevicted, haccept⟩ := accept_evicted jb packet htune
  rw [haccept]
  have hlength := (insertSorted_perm packet hnew).length_eq
  have hdropped := hevicted.dropped
  rw [hlength, List.length_cons] at hdropped
  refine ⟨⟨?_, rfl, hevicted.bounded⟩, ?_⟩
  on_goal 2 => exact (insertSorted_sorted packet hsorted hnew).sublist hevicted.kept.sublist
  · change after.stats.packetsReceived = after.stats.packetsPlayed + after.stats.packetsDuplicate +
      after.stats.packetsLate + after.stats.overruns + after.depth
    have hdepth : jb.depth = jb.buffer.length := rfl
    rw [hevicted.received, hevicted.played, hevicted.duplicate, hevicted.late]
    omega

theorem pushTuned_received (htune : Tunes tune) (hknown : jb.isNewSender packet.header.seq = false) :
    (jb.pushTuned packet tune).stats.packetsReceived = jb.stats.packetsReceived + 1 := by
  cases pushTuned_branch jb packet with
  | duplicate key counts =>
      rw [counts]
      rfl
  | late key late known counts =>
      rw [counts]
      rfl
  | renewed sender accepts => exact absurd (hknown.symm.trans sender) Bool.false_ne_true
  | accepted key early accepts =>
      obtain ⟨after, hevicted, haccept⟩ :=
        accept_evicted (jb.receive packet.header.seq) packet htune
      rw [accepts, haccept]
      exact hevicted.received

theorem pushTuned_balanced (h : jb.Balanced) (htune : Tunes tune)
    (hknown : jb.isNewSender packet.header.seq = false) :
    (jb.pushTuned packet tune).Balanced := by
  have hreceived := h.received
  cases pushTuned_branch jb packet with
  | duplicate key counts =>
      rw [counts]
      refine ⟨⟨?_, h.current, h.bounded⟩, h.sorted⟩
      change jb.stats.packetsReceived + 1 = jb.stats.packetsPlayed +
        (jb.stats.packetsDuplicate + 1) + jb.stats.packetsLate + jb.stats.overruns + jb.depth
      omega
  | late key late known counts =>
      rw [counts]
      refine ⟨⟨?_, h.current, h.bounded⟩, h.sorted⟩
      change jb.stats.packetsReceived + 1 = jb.stats.packetsPlayed + jb.stats.packetsDuplicate +
        (jb.stats.packetsLate + 1) + jb.stats.overruns + jb.depth
      omega
  | renewed sender accepts => exact absurd (hknown.symm.trans sender) Bool.false_ne_true
  | accepted key early accepts =>
      rw [accepts]
      refine accept_balanced htune h.sorted (not_mem_waiting.mp key) ?_
      change jb.stats.packetsReceived + 1 = jb.stats.packetsPlayed + jb.stats.packetsDuplicate +
        jb.stats.packetsLate + jb.stats.overruns + jb.depth + 1
      omega

/-- A number waits once, so one packet goes when it is played. -/
theorem length_filter_ne (hsorted : entries.Pairwise fun a b => a.1 < b.1) {seq : UInt32}
    (hmem : ∃ p, (seq, p) ∈ entries) :
    (entries.filter fun e => e.1 ≠ seq).length + 1 = entries.length := by
  induction entries with
  | nil => exact absurd hmem.choose_spec List.not_mem_nil
  | cons first rest ih =>
      obtain ⟨hfirst, hrest⟩ := List.pairwise_cons.mp hsorted
      obtain ⟨p, hp⟩ := hmem
      rcases List.mem_cons.mp hp with hhead | htail
      · have hkept : rest.filter (fun e => e.1 ≠ seq) = rest := by
          refine List.filter_eq_self.mpr fun e he => decide_eq_true ?_
          have hlt := hfirst e he
          rw [← hhead] at hlt
          exact (UInt32.ne_of_lt hlt).symm
        rw [List.filter_cons_of_neg (by rw [← hhead]; simp), hkept, List.length_cons]
      · have hne : first.1 ≠ seq := UInt32.ne_of_lt (hfirst _ htail)
        rw [List.filter_cons_of_pos (by simpa using hne), List.length_cons, ih hrest ⟨p, htail⟩,
          List.length_cons]

theorem pop_balanced (h : jb.Balanced) : jb.pop.2.Balanced := by
  have hreceived := h.received
  unfold pop
  split
  · exact h
  split
  · exact h
  dsimp only
  split
  · next e he =>
      have hfound := List.find?_some he
      have hkey : e.1 = jb.nextPlayoutSeq := of_decide_eq_true hfound
      have hmem : (jb.nextPlayoutSeq, e.2) ∈ jb.buffer := by
        rw [← hkey]
        exact List.mem_of_find?_eq_some he
      have hlength := length_filter_ne h.sorted ⟨e.2, hmem⟩
      have hdepth : jb.depth = jb.buffer.length := rfl
      have hbounded := h.bounded
      refine ⟨⟨?_, rfl, ?_⟩, h.sorted.filter _⟩
      · change jb.stats.packetsReceived = jb.stats.packetsPlayed + 1 + jb.stats.packetsDuplicate +
          jb.stats.packetsLate + jb.stats.overruns +
          (jb.buffer.filter fun e => e.1 ≠ jb.nextPlayoutSeq).length
        omega
      · change (jb.buffer.filter fun e => e.1 ≠ jb.nextPlayoutSeq).length ≤ jb.maxDepth
        omega
  · exact ⟨⟨h.received, rfl, h.bounded⟩, h.sorted⟩

/-! ## Runs -/

end JitterBuffer

def JitterEvent.isPush : JitterEvent → Bool
  | .push _ _ | .pushWithArrival _ _ _ => true
  | _ => false

namespace JitterBuffer
variable {jb : JitterBuffer}

/-- Neither a reset nor a push that is taken for a new sender's first. -/
def Counts (jb : JitterBuffer) : JitterEvent → Prop
  | .push _ packet | .pushWithArrival _ packet _ => jb.isNewSender packet.header.seq = false
  | .reset | .resetStats => False
  | .pop | .recordUnderrun | .recordDecode | .setTargetDepth _ => True

theorem Made.balanced (h : jb.Made) : jb.Balanced := by
  cases h with
  | new => exact ⟨⟨rfl, rfl, Nat.zero_le _⟩, List.Pairwise.nil⟩
  | newAdaptive => exact ⟨⟨rfl, rfl, Nat.zero_le _⟩, List.Pairwise.nil⟩

theorem Made.received (h : jb.Made) : jb.stats.packetsReceived = 0 := by
  cases h with
  | new => rfl
  | newAdaptive => rfl

theorem balanced_apply (h : jb.Balanced) {e : JitterEvent} (he : jb.Counts e) :
    (jb.apply e).Balanced := by
  cases e with
  | push now packet => exact pushTuned_balanced h (tune_tunes now packet) he
  | pushWithArrival now packet arrivalMs =>
      exact pushTuned_balanced h (tuneWithArrival_tunes now arrivalMs packet) he
  | pop => exact pop_balanced h
  | reset | resetStats => exact he.elim
  | recordUnderrun | recordDecode | setTargetDepth =>
      exact ⟨⟨h.received, h.current, h.bounded⟩, h.sorted⟩

theorem pop_received (jb : JitterBuffer) :
    jb.pop.2.stats.packetsReceived = jb.stats.packetsReceived := by
  unfold pop
  split
  · rfl
  split
  · rfl
  dsimp only
  split <;> rfl

theorem apply_received {e : JitterEvent} (he : jb.Counts e) :
    (jb.apply e).stats.packetsReceived = jb.stats.packetsReceived + [e].countP JitterEvent.isPush := by
  cases e with
  | push now packet => exact pushTuned_received (tune_tunes now packet) he
  | pushWithArrival now packet arrivalMs =>
      exact pushTuned_received (tuneWithArrival_tunes now arrivalMs packet) he
  | pop => exact pop_received jb
  | reset | resetStats => exact he.elim
  | recordUnderrun | recordDecode | setTargetDepth => rfl

theorem run_received {es : List JitterEvent} (hes : EachStep apply Counts jb es) :
    (run apply jb es).stats.packetsReceived =
      jb.stats.packetsReceived + es.countP JitterEvent.isPush := by
  induction es generalizing jb with
  | nil => rfl
  | cons e es ih =>
      rw [run_cons, ih hes.2, apply_received hes.1, Nat.add_assoc, ← List.countP_append,
        List.singleton_append]

/-- As long as no sender is taken for a new one, no packet disappears uncounted: what is counted
as received is what was pushed. -/
theorem conserves_throughout (h : jb.Made) (es : List JitterEvent)
    (hes : EachStep apply Counts jb es) : Throughout apply Conserves jb es ∧
      (run apply jb es).stats.packetsReceived = es.countP JitterEvent.isPush := by
  refine ⟨(throughout_of_eachStep (P := Balanced) (fun _ _ h => balanced_apply h) h.balanced
    hes).mono fun _ h => h.toConserves, ?_⟩
  rw [run_received hes, h.received, Nat.zero_add]

/-- A duplicate, a late packet, and one that is dropped at once. -/
def dropping : List JitterEvent :=
  [.push 0 (tone 7 0), .push 0 (tone 7 0), .pop, .push 0 (tone 6 0), .push 0 (tone 9 0),
    .pushWithArrival 0 (tone 8 0) 20]

theorem conserves_dropping : Throughout apply Conserves (.new 1 1 1) dropping ∧
    (run apply (.new 1 1 1) dropping).stats.packetsReceived = 5 :=
  conserves_throughout (.new 1 1 1) dropping ⟨rfl, rfl, trivial, rfl, rfl, rfl, trivial⟩

end JitterBuffer
end Wzp.Proto
