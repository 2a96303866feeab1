import Wzp.Lib.Runs
import Wzp.Lib.SerialNumber
import Wzp.Proto.Jitter

/-!
# What waits in the jitter buffer

A push leaves the buffer in one of five ways. Which of them strand a packet
behind playout is a matter of the numbers alone.
-/
namespace Wzp.Proto
open Runs Serial

/-- What is done to a buffer after it has been made. -/
inductive JitterEvent where
  | push (now : ℕ) (packet : MediaPacket)
  | pushWithArrival (now : ℕ) (packet : MediaPacket) (arrivalMs : UInt64)
  | pop
  | reset
  | resetStats
  | recordUnderrun
  | recordDecode
  | setTargetDepth (depth : ℕ)

namespace JitterBuffer

/-- As the constructors make it, with room for a packet. -/
inductive Created : JitterBuffer → Prop where
  | new (targetDepth maxDepth minDepth : ℕ) (room : 1 ≤ maxDepth) :
      Created (.new targetDepth maxDepth minDepth)
  | newAdaptive (minDelay maxDelay : ℕ) (range : minDelay ≤ maxDelay) (room : 1 ≤ maxDelay) :
      Created (.newAdaptive minDelay maxDelay)

def apply (jb : JitterBuffer) : JitterEvent → JitterBuffer
  | .push now packet => jb.push now packet
  | .pushWithArrival now packet arrivalMs => jb.pushWithArrival now packet arrivalMs
  | .pop => jb.pop.2
  | .reset => jb.reset
  | .resetStats => jb.resetStats
  | .recordUnderrun => jb.recordUnderrun
  | .recordDecode => jb.recordDecode
  | .setTargetDepth depth => jb.setTargetDepth depth

def waiting (jb : JitterBuffer) : List UInt32 := jb.buffer.map Prod.fst

/-! ## The numbers a push finds -/

/-- A number that is already played, by no more than half of sixteen bits. -/
def isLate (jb : JitterBuffer) (seq : UInt32) : Bool :=
  jb.initialized && 0 < jb.stats.packetsPlayed && seqBefore seq jb.nextPlayoutSeq

/-- The push is taken for the first of a new sender. -/
def isNewSender (jb : JitterBuffer) (seq : UInt32) : Bool :=
  !jb.containsKey seq && jb.isLate seq && 100 < jb.nextPlayoutSeq - seq

/-- The number is put among those that wait already. -/
def joins (jb : JitterBuffer) (seq : UInt32) : Bool :=
  jb.initialized && !jb.containsKey seq && !jb.isLate seq

/-- Where playout stands with the number, as long as nothing was played. -/
def startWith (jb : JitterBuffer) (seq : UInt32) : UInt32 :=
  if jb.stats.packetsPlayed = 0 && seqBefore seq jb.nextPlayoutSeq then seq else jb.nextPlayoutSeq

def isFull (jb : JitterBuffer) : Bool := jb.maxDepth ≤ jb.depth

/-- The numerically smallest of the numbers, which is dropped if there are too
many. -/
def smallestWith (jb : JitterBuffer) (seq : UInt32) : UInt32 :=
  match jb.buffer with
  | [] => seq
  | (k, _) :: _ => if seq < k then seq else k

/-- The drop takes playout along. -/
def dropAdvances (jb : JitterBuffer) (seq : UInt32) : Bool :=
  jb.isFull && seqBefore (jb.startWith seq) (jb.smallestWith seq + 1)

/-! ## Invariant -/

/-- The buffer is a map in numerical order and of bounded size. -/
structure Formed (jb : JitterBuffer) : Prop where
  sorted : jb.buffer.Pairwise fun a b => a.1 < b.1
  labelled : ∀ e ∈ jb.buffer, e.1 = e.2.header.seq
  room : 1 ≤ jb.maxDepth
  bounded : jb.depth ≤ jb.maxDepth
  unused : jb.initialized = false → jb.buffer = [] ∧ jb.stats.packetsPlayed = 0

theorem Created.formed {jb : JitterBuffer} (h : Created jb) : Formed jb := by
  cases h with
  | new targetDepth maxDepth minDepth room =>
      exact ⟨List.Pairwise.nil, fun e he => absurd he List.not_mem_nil, room, Nat.zero_le _,
        fun _ => ⟨rfl, rfl⟩⟩
  | newAdaptive minDelay maxDelay range room =>
      exact ⟨List.Pairwise.nil, fun e he => absurd he List.not_mem_nil, room, Nat.zero_le _,
        fun _ => ⟨rfl, rfl⟩⟩

/-! ## The sorted map -/

variable {jb jb' : JitterBuffer} {seq : UInt32} {packet : MediaPacket}
  {entries rest : List (UInt32 × MediaPacket)}

theorem not_mem_waiting : jb.containsKey seq = false ↔ ∀ e ∈ jb.buffer, e.1 ≠ seq := by
  simp only [containsKey, List.any_eq_false, decide_eq_true_eq, ne_eq]

theorem insertSorted_perm (packet : MediaPacket) (h : ∀ e ∈ entries, e.1 ≠ seq) :
    (insertSorted seq packet entries).Perm ((seq, packet) :: entries) := by
  induction entries with
  | nil => exact List.Perm.refl _
  | cons e entries ih =>
      obtain ⟨k, p⟩ := e
      have hne : seq ≠ k := (h (k, p) List.mem_cons_self).symm
      unfold insertSorted
      split
      · exact List.Perm.refl _
      · have htail := ih fun e he => h e (List.mem_cons_of_mem _ he)
        exact (htail.cons (k, p)).trans (List.Perm.swap (seq, packet) (k, p) entries)

theorem insertSorted_sorted (packet : MediaPacket) (hsorted : entries.Pairwise fun a b => a.1 < b.1)
    (h : ∀ e ∈ entries, e.1 ≠ seq) :
    (insertSorted seq packet entries).Pairwise fun a b => a.1 < b.1 := by
  induction entries with
  | nil => exact List.pairwise_singleton _ _
  | cons e entries ih =>
      obtain ⟨k, p⟩ := e
      obtain ⟨hhead, htail⟩ := List.pairwise_cons.mp hsorted
      have hne : seq ≠ k := (h (k, p) List.mem_cons_self).symm
      have hrest : ∀ e ∈ entries, e.1 ≠ seq := fun e he => h e (List.mem_cons_of_mem _ he)
      unfold insertSorted
      split
      · rename_i hlt
        refine List.pairwise_cons.mpr ⟨fun e he => ?_, hsorted⟩
        cases List.mem_cons.mp he with
        | inl heq => rw [heq]; exact hlt
        | inr hmem => exact UInt32.lt_trans hlt (hhead e hmem)
      · rename_i hlt
        refine List.pairwise_cons.mpr ⟨fun e he => ?_, ih htail hrest⟩
        cases List.mem_cons.mp ((insertSorted_perm packet hrest).mem_iff.mp he) with
        | inl heq =>
            rw [heq]
            exact UInt32.lt_of_le_of_ne (UInt32.not_lt.mp hlt) hne.symm
        | inr hmem => exact hhead e hmem

theorem head_insertSorted (packet : MediaPacket) (h : ∀ e ∈ jb.buffer, e.1 ≠ seq) :
    ∃ p rest, insertSorted seq packet jb.buffer = (jb.smallestWith seq, p) :: rest := by
  unfold smallestWith
  split
  · rename_i hnil
    rw [hnil]
    exact ⟨packet, [], rfl⟩
  · rename_i k p rest hcons
    rw [hcons] at h ⊢
    have hne : seq ≠ k := (h (k, p) List.mem_cons_self).symm
    unfold insertSorted
    split
    · exact ⟨packet, _, rfl⟩
    · exact ⟨p, _, rfl⟩

theorem evict_of_le (h : entries.length ≤ jb.maxDepth) :
    jb.evict entries = { jb with buffer := entries } := by
  cases entries with
  | nil => rfl
  | cons e rest =>
      have hlen : ¬ jb.maxDepth < rest.length + 1 := Nat.not_lt.mpr h
      rw [evict, if_neg hlen]

/-- One packet too many, and the first of them goes. -/
theorem evict_of_eq (jb : JitterBuffer) (k : UInt32) (p : MediaPacket) (h : rest.length = jb.maxDepth) :
    ∃ stats : JitterStats, stats.packetsPlayed = jb.stats.packetsPlayed ∧
      jb.evict ((k, p) :: rest) =
        { jb with
          buffer := rest
          nextPlayoutSeq := if seqBefore jb.nextPlayoutSeq (k + 1) then k + 1 else jb.nextPlayoutSeq
          stats := stats } := by
  rw [evict, if_pos (by omega)]
  dsimp only
  split
  · refine ⟨_, ?_, evict_of_le h.le⟩
    rfl
  · refine ⟨_, ?_, evict_of_le h.le⟩
    rfl

/-! ## The five ways of a push -/

/-- A push changes neither the bound nor what counts as played. -/
structure Counted (jb jb' : JitterBuffer) : Prop where
  maxDepth : jb'.maxDepth = jb.maxDepth
  played : jb'.stats.packetsPlayed = jb.stats.packetsPlayed
  initialized : jb'.initialized = true

inductive Pushed (jb : JitterBuffer) (packet : MediaPacket) (jb' : JitterBuffer) : Prop where
  | first (unused : jb.initialized = false) (buffer : jb'.buffer = [(packet.header.seq, packet)])
      (next : jb'.nextPlayoutSeq = packet.header.seq)
  | ignored (known : jb.joins packet.header.seq = false ∧ jb.isNewSender packet.header.seq = false)
      (initialized : jb.initialized = true) (buffer : jb'.buffer = jb.buffer)
      (next : jb'.nextPlayoutSeq = jb.nextPlayoutSeq)
  | renewed (sender : jb.isNewSender packet.header.seq = true)
      (buffer : jb'.buffer = [(packet.header.seq, packet)])
      (next : jb'.nextPlayoutSeq = packet.header.seq)
  | joined (joins : jb.joins packet.header.seq = true) (room : jb.isFull = false)
      (buffer : jb'.buffer = insertSorted packet.header.seq packet jb.buffer)
      (next : jb'.nextPlayoutSeq = jb.startWith packet.header.seq)
  | displaced (joins : jb.joins packet.header.seq = true) (full : jb.isFull = true)
      (buffer : ∃ p, insertSorted packet.header.seq packet jb.buffer =
        (jb.smallestWith packet.header.seq, p) :: jb'.buffer)
      (next : jb'.nextPlayoutSeq = if jb.dropAdvances packet.header.seq
        then jb.smallestWith packet.header.seq + 1 else jb.startWith packet.header.seq)

/-- All that feeding the estimator may change. -/
def Tunes (tune : JitterBuffer → JitterBuffer) : Prop :=
  ∀ jb, ∃ adaptive target minDepth,
    tune jb = { jb with adaptive := adaptive, targetDepth := target, minDepth := minDepth }

theorem tune_tunes (now : ℕ) (packet : MediaPacket) : Tunes (tune now packet) := by
  intro jb
  unfold tune
  split
  · exact ⟨jb.adaptive, jb.targetDepth, jb.minDepth, rfl⟩
  · exact ⟨_, _, _, rfl⟩

theorem tuneWithArrival_tunes (now : ℕ) (arrivalMs : UInt64) (packet : MediaPacket) :
    Tunes (tuneWithArrival now arrivalMs packet) := by
  intro jb
  unfold tuneWithArrival
  split
  · exact ⟨jb.adaptive, jb.targetDepth, jb.minDepth, rfl⟩
  · exact ⟨_, _, jb.minDepth, rfl⟩

variable {tune : JitterBuffer → JitterBuffer}

/-- The packet is put in its place, and the smallest one dropped if need be. -/
theorem accept_spec (jb : JitterBuffer) (packet : MediaPacket) (htune : Tunes tune) (hbounded : jb.depth ≤ jb.maxDepth)
    (hinit : jb.initialized = true) (hnew : ∀ e ∈ jb.buffer, e.1 ≠ packet.header.seq) :
    Counted jb (jb.accept packet tune) ∧
      (jb.isFull = false ∧
          (jb.accept packet tune).buffer = insertSorted packet.header.seq packet jb.buffer ∧
          (jb.accept packet tune).nextPlayoutSeq = jb.startWith packet.header.seq ∨
        jb.isFull = true ∧
          (∃ p, insertSorted packet.header.seq packet jb.buffer =
            (jb.smallestWith packet.header.seq, p) :: (jb.accept packet tune).buffer) ∧
          (jb.accept packet tune).nextPlayoutSeq = if jb.dropAdvances packet.header.seq
            then jb.smallestWith packet.header.seq + 1 else jb.startWith packet.header.seq) := by
  have hstart : (if jb.stats.packetsPlayed = 0 && seqBefore packet.header.seq jb.nextPlayoutSeq then
        { jb with nextPlayoutSeq := packet.header.seq } else jb) =
      { jb with nextPlayoutSeq := jb.startWith packet.header.seq } := by
    unfold startWith
    split
    · rfl
    · rfl
  obtain ⟨adaptive, target, minDepth, heq⟩ :=
    htune { jb with nextPlayoutSeq := jb.startWith packet.header.seq }
  have hlen := (insertSorted_perm packet hnew).length_eq
  rw [List.length_cons] at hlen
  unfold accept
  dsimp only
  rw [hstart, heq]
  cases hfull : jb.isFull with
  | false =>
      have hroom : ¬ jb.maxDepth ≤ jb.depth := of_decide_eq_false hfull
      rw [evict_of_le (by rw [hlen]; exact Nat.not_le.mp hroom)]
      exact ⟨⟨rfl, rfl, hinit⟩, Or.inl ⟨rfl, rfl, rfl⟩⟩
  | true =>
      have hmax : jb.maxDepth ≤ jb.depth := of_decide_eq_true hfull
      obtain ⟨p, rest, hhead⟩ := head_insertSorted packet hnew
      rw [hhead, List.length_cons] at hlen
      rw [hhead]
      have hrest : rest.length = jb.maxDepth := by
        have hdepth : jb.depth = jb.buffer.length := rfl
        omega
      obtain ⟨stats, hplayed, hevict⟩ := evict_of_eq
        { jb with
          nextPlayoutSeq := jb.startWith packet.header.seq
          adaptive := adaptive
          targetDepth := target
          minDepth := minDepth } (jb.smallestWith packet.header.seq) p hrest
      rw [hevict]
      refine ⟨⟨rfl, hplayed, hinit⟩, Or.inr ⟨rfl, ⟨p, rfl⟩, ?_⟩⟩
      rw [dropAdvances, hfull]
      rfl

theorem seqBefore_self (seq : UInt32) : seqBefore seq seq = false := by
  rw [seqBefore, UInt32.sub_self]
  rfl

theorem receive_first (h : jb.initialized = false) : jb.receive seq =
    { jb with
      stats := { jb.stats with packetsReceived := jb.stats.packetsReceived + 1 }
      nextPlayoutSeq := seq
      initialized := true } := by
  rw [receive, h]
  rfl

theorem receive_later (h : jb.initialized = true) : jb.receive seq =
    { jb with stats := { jb.stats with packetsReceived := jb.stats.packetsReceived + 1 } } := by
  rw [receive, h]
  rfl

theorem startWith_self (h : jb.nextPlayoutSeq = seq) : jb.startWith seq = seq := by
  unfold startWith
  split
  · rfl
  · exact h

/-- An empty buffer holds the packet afterwards, and plays it next. -/
theorem accept_empty (jb : JitterBuffer) (packet : MediaPacket) (htune : Tunes tune) (hroom : 1 ≤ jb.maxDepth) (hbuffer : jb.buffer = [])
    (hnext : jb.nextPlayoutSeq = packet.header.seq) (hinit : jb.initialized = true) :
    Counted jb (jb.accept packet tune) ∧
      (jb.accept packet tune).buffer = [(packet.header.seq, packet)] ∧
      (jb.accept packet tune).nextPlayoutSeq = packet.header.seq := by
  have hdepth : jb.depth = 0 := by rw [depth, hbuffer, List.length_nil]
  have hfull : jb.isFull = false := by
    rw [isFull, hdepth]
    exact decide_eq_false (Nat.not_le.mpr hroom)
  have hnone : ∀ e ∈ jb.buffer, e.1 ≠ packet.header.seq := by
    intro e he
    rw [hbuffer] at he
    exact absurd he List.not_mem_nil
  obtain ⟨hcounted, hcase⟩ := accept_spec jb packet htune (by omega) hinit hnone
  rw [hfull, hbuffer, startWith_self hnext] at hcase
  refine ⟨hcounted, ?_⟩
  cases hcase with
  | inl hjoin => exact hjoin.2
  | inr hdrop => exact absurd hdrop.1 Bool.false_ne_true

theorem pushTuned_first (h : Formed jb) (htune : Tunes tune) (hinit : jb.initialized = false) :
    Counted jb (jb.pushTuned packet tune) ∧ Pushed jb packet (jb.pushTuned packet tune) := by
  obtain ⟨hbuffer, hplayed⟩ := h.unused hinit
  have hempty : (jb.receive packet.header.seq).buffer = [] := hbuffer
  have hnext : (jb.receive packet.header.seq).nextPlayoutSeq = packet.header.seq := by
    rw [receive_first hinit]
  have hkey : ¬ (jb.receive packet.header.seq).containsKey packet.header.seq = true := by
    rw [containsKey, hempty]
    exact Bool.false_ne_true
  have hlate : ¬ (0 < (jb.receive packet.header.seq).stats.packetsPlayed &&
      seqBefore packet.header.seq (jb.receive packet.header.seq).nextPlayoutSeq) = true := by
    have hzero : (jb.receive packet.header.seq).stats.packetsPlayed = 0 := hplayed
    rw [hzero]
    exact Bool.false_ne_true
  unfold pushTuned
  dsimp only
  rw [if_neg hkey, if_neg hlate]
  have hroom : 1 ≤ (jb.receive packet.header.seq).maxDepth := h.room
  obtain ⟨hcounted, hbuffer', hnext'⟩ := accept_empty _ packet htune hroom hempty hnext rfl
  exact ⟨⟨hcounted.maxDepth, hcounted.played, hcounted.initialized⟩, .first hinit hbuffer' hnext'⟩

/-- Every push goes one of the five ways. -/
theorem pushTuned_pushed (h : Formed jb) (htune : Tunes tune) :
    Counted jb (jb.pushTuned packet tune) ∧ Pushed jb packet (jb.pushTuned packet tune) := by
  cases hinit : jb.initialized with
  | false => exact pushTuned_first h htune hinit
  | true =>
      unfold pushTuned
      dsimp only
      rw [receive_later hinit]
      split
      · rename_i hkey
        have hkey' : jb.containsKey packet.header.seq = true := hkey
        refine ⟨⟨rfl, rfl, hinit⟩, .ignored ⟨?_, ?_⟩ hinit rfl rfl⟩
        · rw [joins, hkey']
          simp only [Bool.not_true, Bool.and_false, Bool.false_and]
        · rw [isNewSender, hkey']
          simp only [Bool.not_true, Bool.false_and]
      · rename_i hkey
        have hkey' : jb.containsKey packet.header.seq = false := Bool.not_eq_true _ |>.mp hkey
        split
        · rename_i hlate
          have hlate' : jb.isLate packet.header.seq = true := by
            rw [isLate, hinit, Bool.true_and]
            exact hlate
          split
          · rename_i hfar
            have hnewSender : jb.isNewSender packet.header.seq = true := by
              rw [isNewSender, hkey', hlate', decide_eq_true hfar]
              rfl
            obtain ⟨hcounted, hbuffer, hnext⟩ := accept_empty
              { jb with
                buffer := []
                nextPlayoutSeq := packet.header.seq
                stats := { jb.stats with
                  packetsReceived := jb.stats.packetsReceived + 1
                  packetsLate := 0 } } packet htune h.room rfl rfl hinit
            exact ⟨⟨hcounted.maxDepth, hcounted.played, hcounted.initialized⟩,
              .renewed hnewSender hbuffer hnext⟩
          · rename_i hnear
            refine ⟨⟨rfl, rfl, hinit⟩, .ignored ⟨?_, ?_⟩ hinit rfl rfl⟩
            · rw [joins, hlate']
              simp only [Bool.not_true, Bool.and_false]
            · rw [isNewSender, decide_eq_false hnear, Bool.and_false]
        · rename_i hlate
          have hlate' : jb.isLate packet.header.seq = false := by
            rw [isLate, hinit, Bool.true_and]
            exact Bool.eq_false_of_not_eq_true hlate
          have hjoins : jb.joins packet.header.seq = true := by
            rw [joins, hinit, hkey', hlate']
            rfl
          obtain ⟨hcounted, hcase⟩ := accept_spec
            { jb with stats := { jb.stats with packetsReceived := jb.stats.packetsReceived + 1 } }
            packet htune h.bounded hinit (not_mem_waiting.mp hkey')
          refine ⟨⟨hcounted.maxDepth, hcounted.played, hcounted.initialized⟩, ?_⟩
          cases hcase with
          | inl hjoin => exact .joined hjoins hjoin.1 hjoin.2.1 hjoin.2.2
          | inr hdrop => exact .displaced hjoins hdrop.1 hdrop.2.1 hdrop.2.2

/-! ## The three ways of a pop -/

inductive Popped (jb : JitterBuffer) (result : PlayoutResult) (jb' : JitterBuffer) : Prop where
  | waits (waits : result = .notReady) (same : jb' = jb)
  | plays (packet : MediaPacket) (plays : result = .packet packet)
      (held : (jb.nextPlayoutSeq, packet) ∈ jb.buffer)
      (buffer : jb'.buffer = jb.buffer.filter fun e => e.1 ≠ jb.nextPlayoutSeq)
      (next : jb'.nextPlayoutSeq = jb.nextPlayoutSeq + 1)
  | conceals (conceals : result = .missing jb.nextPlayoutSeq)
      (absent : ∀ e ∈ jb.buffer, e.1 ≠ jb.nextPlayoutSeq) (buffer : jb'.buffer = jb.buffer)
      (next : jb'.nextPlayoutSeq = jb.nextPlayoutSeq + 1)

theorem pop_maxDepth (jb : JitterBuffer) : jb.pop.2.maxDepth = jb.maxDepth := by
  unfold pop
  split
  · rfl
  · split
    · rfl
    · dsimp only
      split
      · rfl
      · rfl

theorem pop_initialized (jb : JitterBuffer) : jb.pop.2.initialized = jb.initialized := by
  unfold pop
  split
  · rfl
  · split
    · rfl
    · dsimp only
      split
      · rfl
      · rfl

theorem pop_unused (h : jb.initialized = false) : jb.pop = (.notReady, jb) := by
  rw [pop, h]
  rfl

theorem pop_popped (jb : JitterBuffer) : Popped jb jb.pop.1 jb.pop.2 := by
  unfold pop
  split
  · exact .waits rfl rfl
  · split
    · exact .waits rfl rfl
    · dsimp only
      split
      · rename_i e he
        have hfound := List.find?_some he
        have hkey : e.1 = jb.nextPlayoutSeq := of_decide_eq_true hfound
        have hmem : (jb.nextPlayoutSeq, e.2) ∈ jb.buffer := by
          rw [← hkey]
          exact List.mem_of_find?_eq_some he
        exact .plays e.2 rfl hmem rfl rfl
      · rename_i hnone
        refine .conceals rfl (fun e he heq => ?_) rfl rfl
        exact List.find?_eq_none.mp hnone e he (decide_eq_true heq)

/-- A buffer answers once it was filled enough or has begun to play. -/
theorem pop_ready_iff : jb.pop.1 ≠ .notReady ↔
    jb.initialized = true ∧ (jb.minDepth ≤ jb.buffer.length ∨ jb.stats.packetsPlayed ≠ 0) := by
  unfold pop
  split
  · rename_i hinit
    rw [Bool.not_eq_true'] at hinit
    exact iff_of_false (fun h => h rfl) fun h => Bool.false_ne_true (hinit.symm.trans h.1)
  · rename_i hinit
    rw [Bool.not_eq_true', Bool.not_eq_false] at hinit
    split
    · rename_i hwait
      obtain ⟨hlt, hzero⟩ := (Bool.and_eq_true_iff).mp hwait
      refine iff_of_false (fun h => h rfl) fun h => ?_
      cases h.2 with
      | inl hle => exact Nat.not_le.mpr (of_decide_eq_true hlt) hle
      | inr hplayed => exact hplayed (of_decide_eq_true hzero)
    · rename_i hready
      rw [Bool.and_eq_true_iff, not_and_or, decide_eq_true_iff, decide_eq_true_iff, Nat.not_lt] at hready
      refine iff_of_true ?_ ⟨hinit, hready⟩
      dsimp only
      split
      · exact fun h => by cases h
      · exact fun h => by cases h

/-- A packet has been played, or nothing has changed that playout would wait for. -/
theorem pop_answers : jb.pop.1 ≠ .notReady →
    jb.pop.2.stats.packetsPlayed ≠ 0 ∨ jb.pop.2.minDepth = jb.minDepth ∧
      jb.pop.2.buffer = jb.buffer ∧ jb.pop.2.stats.packetsPlayed = jb.stats.packetsPlayed := by
  unfold pop
  split
  · exact fun h => absurd rfl h
  · split
    · exact fun h => absurd rfl h
    · intro _
      dsimp only
      split
      · exact Or.inl (Nat.succ_ne_zero _)
      · exact Or.inr ⟨rfl, rfl, rfl⟩

/-- Playout that has begun never waits again. -/
theorem pop_ready (h : jb.pop.1 ≠ .notReady) : jb.pop.2.pop.1 ≠ .notReady := by
  have hready := pop_ready_iff.mp h
  rw [pop_ready_iff, pop_initialized]
  refine ⟨hready.1, ?_⟩
  cases pop_answers h with
  | inl hplayed => exact Or.inr hplayed
  | inr hsame =>
      rw [hsame.1, hsame.2.1, hsame.2.2]
      exact hready.2

/-- A buffer that does not answer stays as it is. -/
theorem pop_waits (h : jb.pop.1 = .notReady) : jb.pop = (.notReady, jb) := by
  cases jb.pop_popped with
  | waits _ same => exact Prod.ext h same
  | plays packet plays => exact absurd (h.symm.trans plays) (by simp)
  | conceals conceals => exact absurd (h.symm.trans conceals) (by simp)

/-! ## The invariant is kept -/

theorem joins_spec (h : jb.joins seq = true) :
    jb.initialized = true ∧ (∀ e ∈ jb.buffer, e.1 ≠ seq) ∧ jb.isLate seq = false := by
  simp only [joins, Bool.and_eq_true, Bool.not_eq_true'] at h
  exact ⟨h.1.1, not_mem_waiting.mp h.1.2, h.2⟩

theorem labelled_insertSorted (h : Formed jb) (hnew : ∀ e ∈ jb.buffer, e.1 ≠ packet.header.seq) :
    ∀ e ∈ insertSorted packet.header.seq packet jb.buffer, e.1 = e.2.header.seq := by
  intro e he
  cases List.mem_cons.mp ((insertSorted_perm packet hnew).mem_iff.mp he) with
  | inl heq => rw [heq]
  | inr hmem => exact h.labelled e hmem

theorem formed_pushed (h : Formed jb) (hcounted : Counted jb jb') (hpushed : Pushed jb packet jb') :
    Formed jb' := by
  have hinit : jb'.initialized = false → jb'.buffer = [] ∧ jb'.stats.packetsPlayed = 0 := by
    intro hnot
    rw [hcounted.initialized] at hnot
    exact absurd hnot.symm Bool.false_ne_true
  have hroom : 1 ≤ jb'.maxDepth := by
    rw [hcounted.maxDepth]
    exact h.room
  have hsingle : ∀ {b : JitterBuffer}, b.buffer = [(packet.header.seq, packet)] →
      (b.buffer.Pairwise fun a c => a.1 < c.1) ∧ (∀ e ∈ b.buffer, e.1 = e.2.header.seq) ∧
        b.depth = 1 := by
    intro b hb
    rw [depth, hb]
    refine ⟨List.pairwise_singleton _ _, fun e he => ?_, rfl⟩
    rw [List.mem_singleton.mp he]
  cases hpushed with
  | first unused buffer next =>
      obtain ⟨hsorted, hlabelled, hdepth⟩ := hsingle buffer
      exact ⟨hsorted, hlabelled, hroom, by omega, hinit⟩
  | ignored known initialized buffer next =>
      refine ⟨?_, ?_, hroom, ?_, hinit⟩
      · rw [buffer]
        exact h.sorted
      · rw [buffer]
        exact h.labelled
      · rw [depth, buffer, hcounted.maxDepth]
        exact h.bounded
  | renewed sender buffer next =>
      obtain ⟨hsorted, hlabelled, hdepth⟩ := hsingle buffer
      exact ⟨hsorted, hlabelled, hroom, by omega, hinit⟩
  | joined joins room buffer next =>
      obtain ⟨-, hnew, -⟩ := joins_spec joins
      have hlen := (insertSorted_perm packet hnew).length_eq
      rw [List.length_cons] at hlen
      have hless : ¬ jb.maxDepth ≤ jb.buffer.length := of_decide_eq_false room
      refine ⟨?_, ?_, hroom, ?_, hinit⟩
      · rw [buffer]
        exact insertSorted_sorted packet h.sorted hnew
      · rw [buffer]
        exact labelled_insertSorted h hnew
      · rw [depth, buffer, hcounted.maxDepth]
        omega
  | displaced joins full buffer next =>
      obtain ⟨-, hnew, -⟩ := joins_spec joins
      obtain ⟨p, hdrop⟩ := buffer
      have hlen := (insertSorted_perm packet hnew).length_eq
      rw [hdrop, List.length_cons, List.length_cons] at hlen
      have hbounded := h.bounded
      rw [depth] at hbounded
      refine ⟨?_, ?_, hroom, ?_, hinit⟩
      · have hsorted := insertSorted_sorted packet h.sorted hnew
        rw [hdrop] at hsorted
        exact (List.pairwise_cons.mp hsorted).2
      · intro e he
        apply labelled_insertSorted h hnew
        rw [hdrop]
        exact List.mem_cons_of_mem _ he
      · rw [depth, hcounted.maxDepth]
        omega

theorem formed_popped (h : Formed jb) : Formed jb.pop.2 := by
  have hunused : jb.pop.2.initialized = false →
      jb.pop.2.buffer = [] ∧ jb.pop.2.stats.packetsPlayed = 0 := by
    intro hnot
    rw [pop_initialized] at hnot
    rw [pop_unused hnot]
    exact h.unused hnot
  have hroom : 1 ≤ jb.pop.2.maxDepth := by
    rw [pop_maxDepth]
    exact h.room
  cases pop_popped jb with
  | waits waits same =>
      rw [same]
      exact h
  | plays packet plays held buffer next =>
      refine ⟨?_, ?_, hroom, ?_, hunused⟩
      · rw [buffer]
        exact h.sorted.filter _
      · intro e he
        rw [buffer] at he
        exact h.labelled e (List.mem_of_mem_filter he)
      · rw [depth, buffer, pop_maxDepth]
        exact (List.length_filter_le _ _).trans h.bounded
  | conceals conceals absent buffer next =>
      refine ⟨?_, ?_, hroom, ?_, hunused⟩
      · rw [buffer]
        exact h.sorted
      · rw [buffer]
        exact h.labelled
      · rw [depth, buffer, pop_maxDepth]
        exact h.bounded

theorem formed_apply (h : Formed jb) (e : JitterEvent) : Formed (jb.apply e) := by
  cases e with
  | push now packet =>
      obtain ⟨hcounted, hpushed⟩ := pushTuned_pushed h (tune_tunes now packet)
      exact formed_pushed h hcounted hpushed
  | pushWithArrival now packet arrivalMs =>
      obtain ⟨hcounted, hpushed⟩ := pushTuned_pushed h (tuneWithArrival_tunes now arrivalMs packet)
      exact formed_pushed h hcounted hpushed
  | pop => exact formed_popped h
  | reset =>
      exact ⟨List.Pairwise.nil, fun e he => absurd he List.not_mem_nil, h.room, Nat.zero_le _,
        fun _ => ⟨rfl, rfl⟩⟩
  | resetStats =>
      exact ⟨h.sorted, h.labelled, h.room, h.bounded, fun hnot => ⟨(h.unused hnot).1, rfl⟩⟩
  | recordUnderrun => exact ⟨h.sorted, h.labelled, h.room, h.bounded, h.unused⟩
  | recordDecode => exact ⟨h.sorted, h.labelled, h.room, h.bounded, h.unused⟩
  | setTargetDepth depth => exact ⟨h.sorted, h.labelled, h.room, h.bounded, h.unused⟩

end JitterBuffer

/-! ## The range of the estimator -/

/-- The clamp of an update panics if the range is empty. -/
def AdaptivePlayoutDelay.clampPanics (d : AdaptivePlayoutDelay) (now : ℕ)
    (arrivalMs expectedMs : UInt64) : Bool :=
  match d.lastArrivalMs, d.lastExpectedMs with
  | some lastArrival, some lastExpected =>
      (d.adjust now (arrivalMs.toFloat - lastArrival.toFloat)
        (expectedMs.toFloat - lastExpected.toFloat)).spikeDetectedAt.isNone && d.maxDelay < d.minDelay
  | _, _ => false

@[simp] theorem AdaptivePlayoutDelay.update_maxDelay (d : AdaptivePlayoutDelay) (now : ℕ)
    (a e : UInt64) : (d.update now a e).maxDelay = d.maxDelay := by
  unfold update
  split
  · rfl
  · rfl

theorem AdaptivePlayoutDelay.clampPanics_eq_false {d : AdaptivePlayoutDelay}
    (h : d.minDelay ≤ d.maxDelay) (now : ℕ) (arrivalMs expectedMs : UInt64) :
    d.clampPanics now arrivalMs expectedMs = false := by
  have hrange : decide (d.maxDelay < d.minDelay) = false := decide_eq_false (Nat.not_lt.mpr h)
  unfold clampPanics
  split
  · rw [hrange, Bool.and_false]
  · rfl

namespace JitterBuffer

variable {jb : JitterBuffer}

/-- The push gets as far as the estimator, whose clamp panics. -/
def pushPanics (jb : JitterBuffer) (now : ℕ) (packet : MediaPacket) : Bool :=
  (!jb.initialized || jb.joins packet.header.seq || jb.isNewSender packet.header.seq) &&
    jb.adaptive.any fun d =>
      d.clampPanics now packet.header.timestamp.toUInt64 packet.header.timestamp.toUInt64

/-- There are depths for the estimator to choose from. -/
def HasRange (jb : JitterBuffer) : Prop := ∀ d, jb.adaptive = some d → d.minDelay ≤ d.maxDelay

theorem pushPanics_eq_false (h : HasRange jb) (now : ℕ) (packet : MediaPacket) :
    jb.pushPanics now packet = false := by
  unfold pushPanics
  cases hd : jb.adaptive with
  | none => rw [Option.any_none, Bool.and_false]
  | some d =>
      rw [Option.any_some, AdaptivePlayoutDelay.clampPanics_eq_false (h d hd), Bool.and_false]

@[simp] theorem evict_adaptive (jb : JitterBuffer) (entries : List (UInt32 × MediaPacket)) :
    (jb.evict entries).adaptive = jb.adaptive := by
  induction entries generalizing jb with
  | nil => rfl
  | cons e rest ih =>
      unfold evict
      split
      · dsimp only
        split
        · rw [ih]
        · rw [ih]
      · rfl

/-- The estimator is either left alone or fed once. -/
theorem pushTuned_adaptive (jb : JitterBuffer) (packet : MediaPacket)
    (tune : JitterBuffer → JitterBuffer) :
    (jb.pushTuned packet tune).adaptive = jb.adaptive ∨
      ∃ fed : JitterBuffer, fed.adaptive = jb.adaptive ∧
        (jb.pushTuned packet tune).adaptive = (tune fed).adaptive := by
  have haccept : ∀ b : JitterBuffer, b.adaptive = jb.adaptive → ∃ fed : JitterBuffer,
      fed.adaptive = jb.adaptive ∧ (b.accept packet tune).adaptive = (tune fed).adaptive := by
    intro b hb
    refine ⟨if b.stats.packetsPlayed = 0 && seqBefore packet.header.seq b.nextPlayoutSeq then
      { b with nextPlayoutSeq := packet.header.seq } else b, ?_, ?_⟩
    · split
      · exact hb
      · exact hb
    · exact evict_adaptive _ _
  unfold pushTuned
  dsimp only
  split
  · exact Or.inl rfl
  · split
    · split
      · exact Or.inr (haccept _ rfl)
      · exact Or.inl rfl
    · exact Or.inr (haccept _ rfl)

theorem push_hasRange (h : HasRange jb) (now : ℕ) (packet : MediaPacket) :
    HasRange (jb.push now packet) := by
  cases pushTuned_adaptive jb packet (tune now packet) with
  | inl hsame =>
      intro d hd
      exact h d (hsame.symm.trans hd)
  | inr hfed =>
      obtain ⟨fed, hsame, htuned⟩ := hfed
      intro d hd
      have hd' : (tune now packet fed).adaptive = some d := htuned.symm.trans hd
      unfold tune at hd'
      split at hd'
      · rename_i hnone
        exact absurd (hnone.symm.trans hd') (Option.some_ne_none d).symm
      · rename_i old hold
        rw [← Option.some.inj hd']
        have hrange := h old (hsame.symm.trans hold)
        rw [AdaptivePlayoutDelay.update_minDelay, AdaptivePlayoutDelay.update_maxDelay]
        exact hrange

theorem pop_adaptive (jb : JitterBuffer) : jb.pop.2.adaptive = jb.adaptive := by
  unfold pop
  split
  · rfl
  · split
    · rfl
    · dsimp only
      split
      · rfl
      · rfl

end JitterBuffer
end Wzp.Proto
