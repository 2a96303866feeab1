import Wzp.Lib.Bytes
import Wzp.Video.Nack

/-!
# Packets sent again

The sender keeps what it has sent for half a second and answers a NACK from it. Between it and
the receiver, packets and NACKs may be lost, come late, out of order or more than once.
-/
namespace Wzp.Video
open Bytes Runs

structure CachedPacket where
  seq : UInt32
  data : Buf
  timestampMs : UInt64
  deriving DecidableEq, Repr

structure NackSender where
  buffer : List (ℕ × CachedPacket)
  maxAge : ℕ

namespace NackSender

def defaultMaxAgeMs : ℕ := 500

def new : NackSender := ⟨[], defaultMaxAgeMs * 1000000⟩

def onSend (self : NackSender) (packet : CachedPacket) (now : ℕ) : NackSender :=
  { self with buffer := self.buffer ++ [(now, packet)] }

def evict (self : NackSender) (now : ℕ) : NackSender :=
  { self with buffer := self.buffer.filter fun e => now - e.1 ≤ self.maxAge }

/-- The packets that are still there, in the order they are asked for. -/
def onNack (self : NackSender) (seqs : List UInt32) (now : ℕ) : NackSender × List CachedPacket :=
  let self := self.evict now
  (self, seqs.filterMap fun seq => (self.buffer.find? (·.2.seq = seq)).map Prod.snd)

def tick (self : NackSender) (now : ℕ) : NackSender := self.evict now

end NackSender

/-! ## The loop -/

/-- `wire` and `requests` are all that was ever put on the network, `sent` the packets of the
stream with the times they were first sent at. -/
structure NackLoop where
  sender : NackSender
  sent : List (ℕ × CachedPacket)
  wire : List CachedPacket
  requests : List (List UInt32)
  receiver : NackRun
  received : List CachedPacket
  clock : ℕ

inductive LoopEvent where
  | send (data : Buf) (timestampMs : UInt64) (now : ℕ)
  | deliver (i now : ℕ)
  | ask (now : ℕ)
  | answer (i now : ℕ)
  | forget (now : ℕ)
  | setRtt (rtt : ℕ)

namespace NackLoop

def start (frameInterval rtt now : ℕ) : NackLoop :=
  ⟨.new, [], [], [], .start frameInterval rtt now, [], now⟩

/-- The network delivers any packet and any NACK it was ever given. -/
def step (s : NackLoop) : LoopEvent → NackLoop
  | .send data timestampMs now =>
      let packet : CachedPacket := ⟨seqOf 0 s.sent.length, data, timestampMs⟩
      { s with
        sender := s.sender.onSend packet now
        sent := s.sent ++ [(now, packet)]
        wire := s.wire ++ [packet]
        clock := now }
  | .deliver i now =>
      match s.wire[i]? with
      | some packet =>
          { s with
            receiver := s.receiver.step 0 (.packet packet.seq.toNat now)
            received := packet :: s.received
            clock := now }
      | none => s
  | .ask now =>
      { s with
        receiver := s.receiver.step 0 (.tick now)
        requests := s.requests ++ [nackedSeqs (s.receiver.receiver.tick now).2]
        clock := now }
  | .answer i now =>
      match s.requests[i]? with
      | some seqs =>
          let (sender, packets) := s.sender.onNack seqs now
          { s with sender, wire := s.wire ++ packets, clock := now }
      | none => s
  | .forget now => { s with sender := s.sender.tick now, clock := now }
  | .setRtt rtt => { s with receiver := s.receiver.step 0 (.setRtt rtt) }

/-- Time does not go back, and the numbers of the stream do not come round half way. -/
def InTime (s : NackLoop) : LoopEvent → Prop
  | .send _ _ now => s.clock ≤ now ∧ s.sent.length + 1 < 2 ^ 31
  | .deliver _ now | .ask now | .answer _ now | .forget now => s.clock ≤ now
  | .setRtt _ => True

instance InTime.decidable (s : NackLoop) : (e : LoopEvent) → Decidable (s.InTime e)
  | .send _ _ now => inferInstanceAs (Decidable (s.clock ≤ now ∧ s.sent.length + 1 < 2 ^ 31))
  | .deliver _ now | .ask now | .answer _ now | .forget now =>
      inferInstanceAs (Decidable (s.clock ≤ now))
  | .setRtt _ => isTrue trivial

/-! ### What the sender keeps -/

/-- The packets of the stream that are not too old. -/
def young (s : NackLoop) (now : ℕ) : List (ℕ × CachedPacket) :=
  s.sent.filter fun e => now - e.1 ≤ s.sender.maxAge

/-- The buffer is what a look at the times would leave of all that was sent. -/
def Kept (s : NackLoop) : Prop := ∃ c ≤ s.clock, s.sender.buffer = s.young c

variable {s : NackLoop} {now : ℕ}

theorem Kept.evict (h : s.Kept) (htime : s.clock ≤ now) :
    (s.sender.evict now).buffer = s.young now := by
  obtain ⟨c, hc, hbuffer⟩ := h
  rw [NackSender.evict, hbuffer, young, young, List.filter_filter]
  refine List.filter_congr fun e _ => ?_
  rw [Bool.eq_iff_iff]
  simp only [Bool.and_eq_true, decide_eq_true_eq]
  omega

/-- A packet that has just been sent is not too old. -/
theorem Kept.send (h : s.Kept) (htime : s.clock ≤ now) (data : Buf) (timestampMs : UInt64) :
    (s.step (.send data timestampMs now)).Kept := by
  obtain ⟨c, hc, hbuffer⟩ := h
  have hage : c ≤ s.sender.maxAge + now := by omega
  refine ⟨c, hc.trans htime, ?_⟩
  simp only [step, NackSender.onSend, hbuffer, young, List.filter_append]
  simp [hage]

/-! ### What holds throughout -/

structure Sound (s : NackLoop) : Prop where
  numbered : ∀ n e, s.sent[n]? = some e → e.2.seq = seqOf 0 n
  short : s.sent.length < 2 ^ 31
  maxAge : s.sender.maxAge = 500000000
  kept : s.Kept
  wire : ∀ p ∈ s.wire, ∃ e ∈ s.sent, e.2 = p
  received : ∀ p ∈ s.received, ∃ e ∈ s.sent, e.2 = p
  arrivals : s.receiver.arrivals.map Prod.fst = s.received.map (·.seq.toNat)
  inStep : s.receiver.InStep 0
  tracks : s.receiver.Tracks 0
  clock : s.receiver.clock ≤ s.clock

theorem toNat_seqOf_zero {n : ℕ} (hn : n < 2 ^ 32) : (seqOf 0 n).toNat = n := by
  rw [toNat_seqOf, UInt32.toNat_zero, Nat.zero_add, Nat.mod_eq_of_lt hn]

/-- The number of a packet is its place in the stream. -/
theorem Sound.place (h : s.Sound) {n : ℕ} {e : ℕ × CachedPacket} (he : s.sent[n]? = some e) :
    e.2.seq.toNat = n ∧ n < s.sent.length := by
  have hn : n < s.sent.length := (List.getElem?_eq_some_iff.mp he).1
  have hshort := h.short
  refine ⟨?_, hn⟩
  rw [h.numbered n e he, toNat_seqOf_zero (by omega)]

theorem Sound.sent_place (h : s.Sound) {e : ℕ × CachedPacket} (he : e ∈ s.sent) :
    s.sent[e.2.seq.toNat]? = some e := by
  obtain ⟨n, hn⟩ := List.mem_iff_getElem?.mp he
  rw [(h.place hn).1]
  exact hn

theorem Sound.unique (h : s.Sound) {e e' : ℕ × CachedPacket} (he : e ∈ s.sent) (he' : e' ∈ s.sent)
    (hseq : e.2.seq = e'.2.seq) : e = e' := by
  have hplace := h.sent_place he
  rw [hseq, h.sent_place he'] at hplace
  exact (Option.some.inj hplace).symm

/-- The buffer has a packet of the stream exactly as long as it is not too old. -/
theorem Sound.find_young (h : s.Sound) {e : ℕ × CachedPacket} (he : e ∈ s.sent) (now : ℕ) :
    (s.young now).find? (·.2.seq = e.2.seq) =
      if now - e.1 ≤ s.sender.maxAge then some e else none := by
  cases hfind : (s.young now).find? (·.2.seq = e.2.seq) with
  | none =>
      have hnone := List.find?_eq_none.mp hfind
      rw [if_neg]
      intro hage
      exact hnone e (List.mem_filter.mpr ⟨he, decide_eq_true hage⟩) (decide_eq_true rfl)
  | some e' =>
      have hmem := List.mem_filter.mp (List.mem_of_find?_eq_some hfind)
      have hseq : e'.2.seq = e.2.seq := by simpa using List.find?_some hfind
      obtain rfl := h.unique hmem.1 he hseq
      rw [if_pos (of_decide_eq_true hmem.2)]

/-- What answers a NACK is what it asks for and is not too old. -/
theorem Sound.mem_onNack (h : s.Sound) (htime : s.clock ≤ now) {seqs : List UInt32}
    {e : ℕ × CachedPacket} (he : e ∈ s.sent) :
    e.2 ∈ (s.sender.onNack seqs now).2 ↔ e.2.seq ∈ seqs ∧ now ≤ e.1 + 500000000 := by
  have hage : now - e.1 ≤ s.sender.maxAge ↔ now ≤ e.1 + 500000000 := by
    rw [h.maxAge]
    omega
  rw [NackSender.onNack, h.kept.evict htime, List.mem_filterMap]
  constructor
  · rintro ⟨seq, hseq, hfound⟩
    obtain ⟨e', hfind, heq⟩ := Option.map_eq_some_iff.mp hfound
    have hmem := List.mem_filter.mp (List.mem_of_find?_eq_some hfind)
    have hsame : e' = e := h.unique hmem.1 he (congrArg CachedPacket.seq heq)
    have hnumber : e'.2.seq = seq := by simpa using List.find?_some hfind
    subst hsame
    exact ⟨hnumber ▸ hseq, hage.mp (of_decide_eq_true hmem.2)⟩
  · rintro ⟨hseq, hyoung⟩
    refine ⟨e.2.seq, hseq, ?_⟩
    rw [h.find_young he, if_pos (hage.mpr hyoung)]
    rfl

theorem Sound.onNack_sent (h : s.Sound) (htime : s.clock ≤ now) (seqs : List UInt32) :
    ∀ p ∈ (s.sender.onNack seqs now).2, ∃ e ∈ s.sent, e.2 = p := by
  intro p hp
  rw [NackSender.onNack, h.kept.evict htime, List.mem_filterMap] at hp
  obtain ⟨seq, -, hfound⟩ := hp
  obtain ⟨e, hfind, heq⟩ := Option.map_eq_some_iff.mp hfound
  exact ⟨e, (List.mem_filter.mp (List.mem_of_find?_eq_some hfind)).1, heq⟩

/-- What has come is below the length of the stream. -/
theorem Sound.arrival_lt (h : s.Sound) : ∀ a ∈ s.receiver.arrivals, a.1 < s.sent.length := by
  intro a ha
  have hmem : a.1 ∈ s.received.map (·.seq.toNat) := h.arrivals ▸ List.mem_map_of_mem ha
  obtain ⟨p, hp, hseq⟩ := List.mem_map.mp hmem
  obtain ⟨e, he, rfl⟩ := h.received p hp
  rw [← hseq]
  exact (List.getElem?_eq_some_iff.mp (h.sent_place he)).1

/-! ### Steps -/

theorem Sound.evicted (h : s.Sound) (htime : s.clock ≤ now) {wire : List CachedPacket}
    (hwire : ∀ p ∈ wire, ∃ e ∈ s.sent, e.2 = p) :
    Sound { s with sender := s.sender.evict now, wire, clock := now } where
  numbered := h.numbered
  short := h.short
  maxAge := h.maxAge
  kept := ⟨now, le_refl now, h.kept.evict htime⟩
  wire := hwire
  received := h.received
  arrivals := h.arrivals
  inStep := h.inStep
  tracks := h.tracks
  clock := h.clock.trans htime

theorem Sound.send (h : s.Sound) (data : Buf) (timestampMs : UInt64)
    (htime : s.InTime (.send data timestampMs now)) :
    (s.step (.send data timestampMs now)).Sound where
  numbered := by
    intro n e he
    rcases Nat.lt_trichotomy n s.sent.length with hn | rfl | hn
    · exact h.numbered n e ((List.getElem?_append_left hn).symm.trans he)
    · rw [step, List.getElem?_concat_length] at he
      obtain rfl := Option.some.inj he
      rfl
    · rw [step, List.getElem?_eq_none (by simp; omega)] at he
      cases he
  short := by simpa [step] using htime.2
  maxAge := h.maxAge
  kept := h.kept.send htime.1 data timestampMs
  wire := by
    intro p hp
    rcases List.mem_append.mp hp with hp | hp
    · obtain ⟨e, he, heq⟩ := h.wire p hp
      exact ⟨e, List.mem_append_left _ he, heq⟩
    · obtain rfl := List.mem_singleton.mp hp
      exact ⟨_, List.mem_append_right _ (List.mem_singleton_self _), rfl⟩
  received := by
    intro p hp
    obtain ⟨e, he, heq⟩ := h.received p hp
    exact ⟨e, List.mem_append_left _ he, heq⟩
  arrivals := h.arrivals
  inStep := h.inStep
  tracks := h.tracks
  clock := h.clock.trans htime.1

theorem Sound.deliver (h : s.Sound) (i : ℕ) (htime : s.clock ≤ now) :
    (s.step (.deliver i now)).Sound := by
  rw [step]
  cases hwire : s.wire[i]? with
  | none => exact h
  | some p =>
      obtain ⟨e, he, rfl⟩ := h.wire p (List.mem_of_getElem? hwire)
      have hplace := (List.getElem?_eq_some_iff.mp (h.sent_place he)).1
      have hshort := h.short
      have hnext : s.receiver.next ≤ s.sent.length := NackRun.foldr_next_le h.arrival_lt
      have hnear : s.receiver.Near (.packet e.2.seq.toNat now) :=
        ⟨h.clock.trans htime, by omega, by omega⟩
      exact {
        numbered := h.numbered
        short := h.short
        maxAge := h.maxAge
        kept := by
          obtain ⟨c, hc, hbuffer⟩ := h.kept
          exact ⟨c, hc.trans htime, hbuffer⟩
        wire := h.wire
        received := by
          intro p hp
          rcases List.mem_cons.mp hp with rfl | hp
          · exact ⟨e, he, rfl⟩
          · exact h.received p hp
        arrivals := congrArg (e.2.seq.toNat :: ·) h.arrivals
        inStep := NackRun.inStep_step _ h.inStep hnear
        tracks := NackRun.tracks_step _ h.tracks (h.inStep.proper hnear)
        clock := le_refl now }

theorem Sound.ask (h : s.Sound) (htime : s.clock ≤ now) : (s.step (.ask now)).Sound where
  numbered := h.numbered
  short := h.short
  maxAge := h.maxAge
  kept := by
    obtain ⟨c, hc, hbuffer⟩ := h.kept
    exact ⟨c, hc.trans htime, hbuffer⟩
  wire := h.wire
  received := h.received
  arrivals := h.arrivals
  inStep := NackRun.inStep_step (.tick now) h.inStep (h.clock.trans htime)
  tracks := NackRun.tracks_step (.tick now) h.tracks (h.clock.trans htime)
  clock := le_refl now

theorem sound_step (h : s.Sound) (e : LoopEvent) (htime : s.InTime e) : (s.step e).Sound := by
  cases e with
  | send data timestampMs now => exact h.send data timestampMs htime
  | deliver i now => exact h.deliver i htime
  | ask now => exact h.ask htime
  | answer i now =>
      rw [step]
      cases hrequest : s.requests[i]? with
      | none => exact h
      | some seqs =>
          refine h.evicted htime fun p hp => ?_
          rcases List.mem_append.mp hp with hp | hp
          · exact h.wire p hp
          · exact h.onNack_sent htime seqs p hp
  | forget now => exact h.evicted htime h.wire
  | setRtt rtt =>
      exact { h with
        inStep := NackRun.inStep_step (.setRtt rtt) h.inStep trivial
        tracks := NackRun.tracks_step (.setRtt rtt) h.tracks trivial }

theorem sound_start (frameInterval rtt now : ℕ) : (start frameInterval rtt now).Sound where
  numbered := by
    intro n e he
    cases he
  short := Nat.two_pow_pos 31
  maxAge := rfl
  kept := ⟨0, Nat.zero_le now, rfl⟩
  wire := by
    intro p hp
    cases hp
  received := by
    intro p hp
    cases hp
  arrivals := rfl
  inStep := rfl
  tracks := NackRun.tracks_start 0 frameInterval rtt now
  clock := le_refl now

/-! ## What the loop recovers -/

theorem missing_onPacket (r : NackReceiver) (seq : UInt32) (now : ℕ) :
    seq ∉ (r.onPacket seq now).missing := by
  rw [← AList.lookup_eq_none, NackReceiver.onPacket]
  split
  · exact Table.lookup_erase_self _ _
  · split
    · exact Table.lookup_erase_self _ _
    · exact Table.lookup_erase_self _ _

/-- What is asked for was sent and has not come. It is sent again if the NACK comes within half a
second of the time it was first sent at, and only then; when it comes, it is not missing any more. -/
def Recoverable (s : NackLoop) (now : ℕ) (seq : UInt32) : Prop :=
  ∃ e ∈ s.sent, e.2.seq = seq ∧ e.2 ∉ s.received ∧ ∀ later ≥ now,
    let asked := run step s [.ask now, .answer s.requests.length later]
    (e.2 ∈ asked.wire.drop s.wire.length ↔ later ≤ e.1 + 500000000) ∧
      ∀ i time, asked.wire[i]? = some e.2 →
        let came := asked.step (.deliver i time)
        e.2 ∈ came.received ∧ seq ∉ came.receiver.receiver.missing

theorem Sound.asked (h : s.Sound) {seq : UInt32}
    (hseq : seq ∈ nackedSeqs (s.receiver.receiver.tick now).2) :
    ∃ e ∈ s.sent, e.2.seq = seq ∧ e.2 ∉ s.received := by
  obtain ⟨index, rfl, ⟨a, ha, hlt⟩, hnone⟩ := (h.tracks.right (.tick now)).genuine now rfl seq hseq
  have hindex : index < s.sent.length := hlt.trans (h.arrival_lt a ha)
  have he := List.getElem?_eq_getElem hindex
  refine ⟨s.sent[index], List.getElem_mem hindex, h.numbered index _ he, fun hmem => ?_⟩
  have hcame : index ∈ s.receiver.arrivals.map Prod.fst := by
    rw [h.arrivals]
    exact List.mem_map.mpr ⟨_, hmem, (h.place he).1⟩
  obtain ⟨b, hb, hsame⟩ := List.mem_map.mp hcame
  exact hnone b hb hsame

theorem wire_answer {i : ℕ} {seqs : List UInt32} (hi : s.requests[i]? = some seqs) :
    (s.step (.answer i now)).wire = s.wire ++ (s.sender.onNack seqs now).2 := by
  rw [step, hi]

theorem Sound.recoverable (h : s.Sound) (htime : s.clock ≤ now) {seq : UInt32}
    (hseq : seq ∈ nackedSeqs (s.receiver.receiver.tick now).2) : s.Recoverable now seq := by
  obtain ⟨e, he, rfl, hnot⟩ := h.asked hseq
  refine ⟨e, he, rfl, hnot, fun later hlater => ?_⟩
  have hrequest : (s.step (.ask now)).requests[s.requests.length]? =
      some (nackedSeqs (s.receiver.receiver.tick now).2) := List.getElem?_concat_length
  have hasked : (run step s [.ask now, .answer s.requests.length later]).wire =
      s.wire ++ (s.sender.onNack (nackedSeqs (s.receiver.receiver.tick now).2) later).2 :=
    wire_answer hrequest
  constructor
  · rw [hasked, List.drop_left, h.mem_onNack (htime.trans hlater) he]
    exact and_iff_right hseq
  · intro i time hi
    rw [step, hi]
    refine ⟨List.mem_cons_self, ?_⟩
    have hnumber : seqOf 0 e.2.seq.toNat = e.2.seq := by
      rw [seqOf, UInt32.zero_add, UInt32.ofNat_toNat]
    have hmissing := missing_onPacket
      (run step s [.ask now, .answer s.requests.length later]).receiver.receiver e.2.seq time
    dsimp only [NackRun.step]
    rwa [hnumber]

/-- Whatever the network does, only packets of the stream come, as they were sent, and what the
receiver asks for can be recovered for half a second. -/
theorem nack_loop_recovers (frameInterval rtt began : ℕ) (es : List LoopEvent)
    (h : EachStep step InTime (start frameInterval rtt began) es) :
    let s := run step (start frameInterval rtt began) es
    (∀ p ∈ s.received, ∃ e, s.sent[p.seq.toNat]? = some e ∧ e.2 = p) ∧
      ∀ now ≥ s.clock, ∀ seq ∈ nackedSeqs (s.receiver.receiver.tick now).2,
        s.Recoverable now seq := by
  intro s
  have hsounds : Throughout step Sound (start frameInterval rtt began) es :=
    throughout_of_eachStep (fun _ e hs he => sound_step hs e he) (sound_start frameInterval rtt began) h
  have hsound : s.Sound := hsounds.last
  refine ⟨fun p hp => ?_, fun now htime seq hseq => hsound.recoverable htime hseq⟩
  obtain ⟨e, he, rfl⟩ := hsound.received p hp
  exact ⟨e, hsound.sent_place he, rfl⟩

/-- The second of three packets is lost, and its number is asked for after 40 ms. -/
theorem lost_packet_recoverable :
    let s := run step (start 33000000 20000000 0)
      [.send [1] 0 0, .send [2] 33 0, .send [3] 66 0, .deliver 0 5000000, .deliver 2 6000000]
    (∀ p ∈ s.received, ∃ e, s.sent[p.seq.toNat]? = some e ∧ e.2 = p) ∧
      ∀ now ≥ s.clock, ∀ seq ∈ nackedSeqs (s.receiver.receiver.tick now).2, s.Recoverable now seq :=
  nack_loop_recovers 33000000 20000000 0
    [.send [1] 0 0, .send [2] 33 0, .send [3] 66 0, .deliver 0 5000000, .deliver 2 6000000]
    (by decide)

end NackLoop
end Wzp.Video
