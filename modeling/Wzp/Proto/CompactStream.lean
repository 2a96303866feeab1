import Wzp.Proto.Compact

/-!
# Streams of compact frames

A sender encodes packet after packet with one context and one counter, and a
receiver decodes the datagrams that arrive. Which datagrams arrive is an
arbitrary predicate on their index, so a loss pattern needs no bound.
-/
namespace Wzp.Proto.MediaPacket
open MiniFrameContext

variable (sent : Nat → MediaPacket) (keep : Nat → Bool)

/-- The encoder's context and counter before packet `i`. -/
def encoderAt : Nat → MiniFrameContext × UInt32
  | 0 => ({}, 0)
  | i + 1 => ((sent i).encodeCompact (encoderAt i).1 (encoderAt i).2).2

def datagram (i : Nat) : Bytes.Buf :=
  ((sent i).encodeCompact (encoderAt sent i).1 (encoderAt sent i).2).1

/-- The decoder's context before datagram `i`; a lost datagram leaves it alone. -/
def receiverAt : Nat → MiniFrameContext
  | 0 => {}
  | i + 1 => if keep i then (decodeCompact (datagram sent i) (receiverAt i)).2 else receiverAt i

/-- What the receiver makes of datagram `i`. -/
def received (i : Nat) : Option MediaPacket :=
  if keep i then (decodeCompact (datagram sent i) (receiverAt sent keep i)).1 else none

theorem encodeCompact_full {p : MediaPacket} {ctx : MiniFrameContext} {n : UInt32}
    (h : ¬ (0 < n ∧ n < miniFrameFullInterval)) :
    p.encodeCompact ctx n = (p.fullFrame, ⟨some p.header⟩, 1) := by
  rw [encodeCompact, if_neg h]
  rfl

theorem encodeCompact_mini {p : MediaPacket} {base : MediaHeader} {n : UInt32}
    (h : 0 < n ∧ n < miniFrameFullInterval) :
    p.encodeCompact ⟨some base⟩ n = (p.miniFrame base, ⟨some p.header⟩, n + 1) := by
  rw [encodeCompact, if_pos h]
  rfl

/-- The counter after packet `i` runs from 1 to 50 and starts over. -/
theorem counter_in_interval (k : Nat) (hk : k < 50) :
    (0 < UInt32.ofNat (k + 1) ∧ UInt32.ofNat (k + 1) < miniFrameFullInterval) ↔ k + 1 < 50 := by
  have hval : (UInt32.ofNat (k + 1)).toNat = k + 1 := by
    rw [UInt32.toNat_ofNat']
    omega
  simp only [UInt32.lt_iff_toNat_lt, hval, miniFrameFullInterval]
  constructor
  · exact fun h => h.2
  · exact fun h => ⟨Nat.succ_pos k, h⟩

theorem encoderAt_succ (i : Nat) :
    encoderAt sent (i + 1) = (⟨some (sent i).header⟩, UInt32.ofNat (i % 50 + 1)) := by
  induction i with
  | zero =>
      have h0 : ¬ ((0 : UInt32) < 0 ∧ (0 : UInt32) < miniFrameFullInterval) := by decide
      simp only [encoderAt, encodeCompact_full h0]
      rfl
  | succ i ih =>
      have hrange := counter_in_interval (i % 50) (Nat.mod_lt _ (by decide))
      rw [encoderAt, ih]
      by_cases hi : i % 50 + 1 < 50
      · rw [encodeCompact_mini (hrange.mpr hi)]
        have hnext : (i + 1) % 50 + 1 = i % 50 + 1 + 1 := by omega
        rw [hnext, UInt32.ofNat_add (i % 50 + 1) 1]
        rfl
      · rw [encodeCompact_full (mt hrange.mp hi)]
        have hnext : (i + 1) % 50 + 1 = 1 := by omega
        rw [hnext]
        rfl

theorem datagram_full {i : Nat} (hi : i % 50 = 0) : datagram sent i = (sent i).fullFrame := by
  cases i with
  | zero =>
      have h0 : ¬ ((0 : UInt32) < 0 ∧ (0 : UInt32) < miniFrameFullInterval) := by decide
      rw [datagram, encoderAt, encodeCompact_full h0]
  | succ i =>
      have hrange := counter_in_interval (i % 50) (Nat.mod_lt _ (by decide))
      rw [datagram, encoderAt_succ, encodeCompact_full (mt hrange.mp (by omega))]

theorem datagram_mini {i : Nat} (hi : (i + 1) % 50 ≠ 0) :
    datagram sent (i + 1) = (sent (i + 1)).miniFrame (sent i).header := by
  have hrange := counter_in_interval (i % 50) (Nat.mod_lt _ (by decide))
  rw [datagram, encoderAt_succ, encodeCompact_mini (hrange.mpr (by omega))]

theorem add_eq_iff_eq_sub (b t p : UInt32) : b + t = p ↔ t = p - b := by
  constructor
  · intro h
    rw [← h, UInt32.add_comm, UInt32.add_sub_cancel]
  · intro h
    rw [h, UInt32.add_comm, UInt32.sub_add_cancel]

/-- Expanding a delta gives the sent header exactly when that header continues
the baseline the delta was taken against. -/
theorem applyDelta_eq_iff (p : MediaPacket) (base : MediaHeader) :
    applyDelta base (p.miniHeader base) = p.header ↔ Continues base p.header := by
  have htrunc : ((p.header.timestamp - base.timestamp).toUInt16.toUInt32 =
      p.header.timestamp - base.timestamp) ↔
      (p.header.timestamp - base.timestamp).toNat < 2 ^ 16 := by
    rw [← UInt32.toNat_inj, UInt16.toNat_toUInt32, UInt32.toNat_toUInt16]
    omega
  have hts := add_eq_iff_eq_sub base.timestamp
    (p.header.timestamp - base.timestamp).toUInt16.toUInt32 p.header.timestamp
  constructor
  · intro h
    have hstamp := congrArg MediaHeader.timestamp h
    refine ⟨?_, htrunc.mp (hts.mp hstamp)⟩
    rw [← h]
    rfl
  · intro h
    have hstamp := hts.mpr (htrunc.mpr h.step)
    rw [applyDelta, miniHeader, hstamp]
    exact h.fields.symm

theorem receiverAt_keep {i : Nat} (hk : keep i = true) :
    receiverAt sent keep (i + 1) = (decodeCompact (datagram sent i) (receiverAt sent keep i)).2 := by
  rw [receiverAt, if_pos hk]

theorem received_keep {i : Nat} (hk : keep i = true) :
    received sent keep i = (decodeCompact (datagram sent i) (receiverAt sent keep i)).1 := by
  rw [received, if_pos hk]

theorem receiverAt_of_received {i : Nat} {p : MediaPacket}
    (h : received sent keep i = some p) : receiverAt sent keep (i + 1) = ⟨some p.header⟩ := by
  by_cases hk : keep i = true
  · rw [received_keep sent keep hk] at h
    rw [receiverAt_keep sent keep hk, decodeCompact_some h]
  · rw [received, if_neg hk] at h
    cases h

/-- A received mini frame, decoded over whatever baseline the receiver has. -/
theorem received_mini {i : Nat} (hk : keep (i + 1) = true) (hi : (i + 1) % 50 ≠ 0)
    {b : MediaHeader} (hb : (receiverAt sent keep (i + 1)).last = some b) :
    received sent keep (i + 1) =
      some ⟨applyDelta b ((sent (i + 1)).miniHeader (sent i).header),
        (sent (i + 1)).payload.take ((sent (i + 1)).miniHeader (sent i).header).payloadLen.toNat,
        none⟩ := by
  rw [received_keep sent keep hk, datagram_mini sent hi, decodeCompact_mini, hb]

theorem received_full {i : Nat} (hk : keep i = true) (hi : i % 50 = 0) :
    received sent keep i = fromBytes (sent i).toBytes := by
  rw [received_keep sent keep hk, datagram_full sent hi, decodeCompact_full]
  cases fromBytes (sent i).toBytes <;> rfl

/-! ## Loss-free delivery -/

/-- On a path that loses nothing, a decoder that was right so far has the
encoder's baseline. -/
theorem lossFree_baseline {n : Nat}
    (h : ∀ i < n + 1, received sent (fun _ => true) i = some (sent i)) :
    (receiverAt sent (fun _ => true) (n + 1)).last = some (sent n).header :=
  congrArg MiniFrameContext.last (receiverAt_of_received sent _ (h n (Nat.lt_succ_self n)))

theorem lossFree_full {i : Nat} (hw : (sent i).WellFormed) (hi : i % 50 = 0) :
    received sent (fun _ => true) i = some (sent i) := by
  rw [received_full sent _ rfl hi, fromBytes_toBytes hw]

theorem lossFree_mini {i : Nat} (hp : (sent (i + 1)).payload.length < 2 ^ 16)
    (hi : (i + 1) % 50 ≠ 0)
    (hb : (receiverAt sent (fun _ => true) (i + 1)).last = some (sent i).header) :
    received sent (fun _ => true) (i + 1) = some (sent (i + 1)) ↔
      Continues (sent i).header (sent (i + 1)).header ∧ (sent (i + 1)).qualityReport = none := by
  have hlen : ((sent (i + 1)).miniHeader (sent i).header).payloadLen.toNat =
      (sent (i + 1)).payload.length := by
    rw [miniHeader, UInt16.toNat_ofNat', Nat.mod_eq_of_lt hp]
  rw [received_mini sent _ rfl hi hb, hlen, List.take_length, ← applyDelta_eq_iff]
  constructor
  · intro h
    have heq := Option.some.inj h
    exact ⟨congrArg MediaPacket.header heq, (congrArg MediaPacket.qualityReport heq).symm⟩
  · intro h
    rw [h.1, ← h.2]

/-- The codec is lossless on exactly the sequences whose mini-framed packets
all continue their predecessor and carry no quality report. -/
theorem compact_lossless_iff (n : Nat) (hw : ∀ i < n, (sent i).WellFormed)
    (hp : ∀ i < n, (sent i).payload.length < 2 ^ 16) :
    (∀ i < n, received sent (fun _ => true) i = some (sent i)) ↔
      ∀ i, i + 1 < n → (i + 1) % 50 ≠ 0 →
        Continues (sent i).header (sent (i + 1)).header ∧
          (sent (i + 1)).qualityReport = none := by
  constructor
  · intro h i hi hmini
    have hb := lossFree_baseline sent (n := i) (fun j hj => h j (by omega))
    exact (lossFree_mini sent (hp (i + 1) hi) hmini hb).mp (h (i + 1) hi)
  · intro h i
    -- the baseline of packet `i` comes from all packets before it being right
    induction i using Nat.strongRecOn with
    | ind i ih =>
        intro hi
        by_cases hfull : i % 50 = 0
        · exact lossFree_full sent (hw i hi) hfull
        · obtain ⟨j, rfl⟩ : ∃ j, i = j + 1 := ⟨i - 1, by omega⟩
          have hb := lossFree_baseline sent (n := j) (fun k hk => ih k hk (by omega))
          exact (lossFree_mini sent (hp _ hi) hfull hb).mpr (h j hi hfull)

/-- Audio packets 20 ms apart that differ in sequence number and timestamp only. -/
def steadyHeader : Nat → MediaHeader
  | 0 => ⟨MediaHeader.versionByte, 0, .audio, .opus24k, 0, 0, 0, 0, 0⟩
  | i + 1 => { steadyHeader i with
      seq := (steadyHeader i).seq + 1
      timestamp := (steadyHeader i).timestamp + 20 }

def steadyStream (i : Nat) : MediaPacket := ⟨steadyHeader i, [1, 2, 3], none⟩

theorem steadyStream_continues (i : Nat) :
    Continues (steadyStream i).header (steadyStream (i + 1)).header := by
  refine ⟨rfl, ?_⟩
  have hstep : (steadyHeader i).timestamp + 20 - (steadyHeader i).timestamp = 20 := by
    rw [UInt32.add_comm, UInt32.add_sub_cancel]
  change ((steadyHeader i).timestamp + 20 - (steadyHeader i).timestamp).toNat < 2 ^ 16
  rw [hstep]
  decide

theorem steadyStream_fields (i : Nat) :
    (steadyHeader i).version = MediaHeader.versionByte ∧ (steadyHeader i).hasQuality = false := by
  induction i with
  | zero => decide
  | succ i ih => exact ih

theorem steadyStream_wellFormed (i : Nat) : (steadyStream i).WellFormed :=
  ⟨(steadyStream_fields i).1, (steadyStream_fields i).2.symm⟩

theorem steadyStream_lossless :
    received steadyStream (fun _ => true) 59 = some (steadyStream 59) :=
  (compact_lossless_iff steadyStream 60 (fun i _ => steadyStream_wellFormed i)
    (fun _ _ => (by decide : 3 < 2 ^ 16))).mpr
    (fun i _ _ => ⟨steadyStream_continues i, rfl⟩) 59 (by decide)

/-- The second packet of the stream is an FEC repair packet. -/
def repairStream : Nat → MediaPacket
  | 1 => { steadyStream 1 with
      header := { steadyHeader 1 with flags := MediaHeader.flagRepair } }
  | i => steadyStream i

/-- The repair flag of a mini-framed packet does not survive the codec. -/
theorem compact_not_lossless :
    ¬ ∀ (sent : Nat → MediaPacket) (n : Nat), (∀ i < n, (sent i).WellFormed) →
      (∀ i < n, (sent i).payload.length < 2 ^ 16) →
      ∀ i < n, received sent (fun _ => true) i = some (sent i) := by
  intro h
  have hw : ∀ i < 2, (repairStream i).WellFormed := by
    intro i hi
    match i, hi with
    | 0, _ => exact ⟨rfl, rfl⟩
    | 1, _ => exact ⟨rfl, rfl⟩
  have hp : ∀ i < 2, (repairStream i).payload.length < 2 ^ 16 := by decide
  have hone := h repairStream 2 hw hp 1 (by decide)
  revert hone
  decide

/-! ## Lossy delivery -/

/-- A full frame is refused when it does not parse, a mini frame when there is
no baseline. -/
def accepted (base : Option MediaHeader) (i : Nat) : Bool :=
  if i % 50 = 0 then (fromBytes (sent i).toBytes).isSome else base.isSome

/-- The header of the last packet sent before packet `i` whose datagram arrived
and was accepted. -/
def baseline : Nat → Option MediaHeader
  | 0 => none
  | i + 1 => if keep i && accepted sent (baseline i) i then some (sent i).header else baseline i

/-- A packet that comes out of datagram `i` carries the numbering it was sent with. -/
def NumberedRight (i : Nat) : Prop :=
  ∀ p, received sent keep i = some p →
    p.header.seq = (sent i).header.seq ∧ p.header.timestamp = (sent i).header.timestamp

/-- A received mini frame finds no baseline or the header sent just before it. -/
def FindsPredecessor (i : Nat) : Prop :=
  keep (i + 1) = true → (i + 1) % 50 ≠ 0 →
    ∀ b, baseline sent keep (i + 1) = some b → b = (sent i).header

/-- Everything of a header but its numbering. -/
def fixedFields (h : MediaHeader) : MediaHeader := { h with seq := 0, timestamp := 0 }

theorem Continues.fixedFields_eq {base h : MediaHeader} (hc : Continues base h) :
    fixedFields h = fixedFields base := by
  rw [hc.fields]
  rfl

variable {sent keep}

theorem fixedFields_constant (hc : ∀ i, Continues (sent i).header (sent (i + 1)).header) (i : Nat) :
    fixedFields (sent i).header = fixedFields (sent 0).header := by
  induction i with
  | zero => rfl
  | succ i ih => rw [(hc i).fixedFields_eq, ih]

theorem baseline_sent {i : Nat} {b : MediaHeader} (h : baseline sent keep i = some b) :
    ∃ j, b = (sent j).header := by
  induction i with
  | zero => cases h
  | succ i ih =>
      rw [baseline] at h
      split at h
      · exact ⟨i, (Option.some.inj h).symm⟩
      · exact ih h

/-- Over a baseline of the same stream, the numbering a mini frame decodes to is
the sent one exactly when the baseline is the predecessor's header. -/
theorem numbering_iff {b h : MediaHeader} {p : MediaPacket} (hc : Continues h p.header)
    (hf : fixedFields b = fixedFields h) :
    ((applyDelta b (p.miniHeader h)).seq = p.header.seq ∧
      (applyDelta b (p.miniHeader h)).timestamp = p.header.timestamp) ↔ b = h := by
  have hseq := congrArg MediaHeader.seq ((applyDelta_eq_iff p h).mpr hc)
  have hts := congrArg MediaHeader.timestamp ((applyDelta_eq_iff p h).mpr hc)
  rw [← hseq, ← hts]
  constructor
  · intro hn
    have hs : b.seq = h.seq := (UInt32.add_left_inj _).mp hn.1
    have ht : b.timestamp = h.timestamp := (UInt32.add_left_inj _).mp hn.2
    obtain ⟨⟩ := b
    obtain ⟨⟩ := h
    simp only [fixedFields, MediaHeader.mk.injEq] at hf hs ht ⊢
    simp only [hf, hs, ht, and_self]
  · rintro rfl
    exact ⟨rfl, rfl⟩

theorem numberedRight_full {i : Nat} (hi : i % 50 = 0) : NumberedRight sent keep i := by
  intro p hp
  by_cases hk : keep i = true
  · rw [received_full sent keep hk hi] at hp
    rw [fromBytes_header hp]
    exact ⟨rfl, rfl⟩
  · rw [received, if_neg hk] at hp
    cases hp

theorem receiverAt_full {i : Nat} (hk : keep i = true) (hi : i % 50 = 0) :
    (receiverAt sent keep (i + 1)).last =
      if accepted sent (receiverAt sent keep i).last i then some (sent i).header
      else (receiverAt sent keep i).last := by
  rw [receiverAt_keep sent keep hk, datagram_full sent hi, decodeCompact_full, accepted, if_pos hi]
  cases hp : fromBytes (sent i).toBytes with
  | none => rfl
  | some pkt => exact congrArg some (fromBytes_header hp)

theorem receiverAt_mini {i : Nat} (hk : keep (i + 1) = true) (hi : (i + 1) % 50 ≠ 0) :
    (receiverAt sent keep (i + 2)).last = (receiverAt sent keep (i + 1)).last.map
      fun b => applyDelta b ((sent (i + 1)).miniHeader (sent i).header) := by
  rw [receiverAt_keep sent keep hk, datagram_mini sent hi, decodeCompact_mini]
  cases hb : (receiverAt sent keep (i + 1)).last with
  | none => exact hb
  | some b => rfl

/-- While every received mini frame finds its predecessor, the decoder's context
is the header of the last packet it accepted. -/
theorem receiverAt_baseline (hc : ∀ i, Continues (sent i).header (sent (i + 1)).header) (n : Nat)
    (h : ∀ i, i + 1 < n → FindsPredecessor sent keep i) :
    (receiverAt sent keep n).last = baseline sent keep n := by
  induction n with
  | zero => rfl
  | succ n ih =>
      have hlast := ih fun i hi => h i (by omega)
      by_cases hk : keep n = true
      · by_cases hfull : n % 50 = 0
        · rw [receiverAt_full hk hfull, baseline, hlast, hk, Bool.true_and]
        · obtain ⟨j, rfl⟩ : ∃ j, n = j + 1 := ⟨n - 1, by omega⟩
          rw [receiverAt_mini hk hfull, baseline, hlast, hk, Bool.true_and, accepted, if_neg hfull]
          cases hb : baseline sent keep (j + 1) with
          | none => rfl
          | some b =>
              -- the baseline is the predecessor, so the delta lands on the sent header
              rw [h j (by omega) hk hfull b hb]
              exact congrArg some ((applyDelta_eq_iff _ _).mpr (hc j))
      · have hk' : keep n = false := Bool.not_eq_true _ ▸ hk
        rw [receiverAt, baseline, hk', if_neg (by decide), Bool.false_and, if_neg (by decide), hlast]

theorem numberedRight_mini (hc : ∀ i, Continues (sent i).header (sent (i + 1)).header) {i : Nat}
    (hlast : (receiverAt sent keep (i + 1)).last = baseline sent keep (i + 1)) :
    NumberedRight sent keep (i + 1) ↔ FindsPredecessor sent keep i := by
  by_cases hk : keep (i + 1) = true
  · by_cases hi : (i + 1) % 50 = 0
    · exact ⟨fun _ _ hmini => absurd hi hmini, fun _ => numberedRight_full hi⟩
    · cases hb : baseline sent keep (i + 1) with
      | none =>
          rw [hb] at hlast
          constructor
          · intro _ _ _ b hb'
            rw [hb] at hb'
            cases hb'
          · intro _ p hp
            rw [received_keep sent keep hk, datagram_mini sent hi, decodeCompact_mini, hlast] at hp
            cases hp
      | some b =>
          rw [hb] at hlast
          obtain ⟨j, hj⟩ := baseline_sent hb
          have hfixed : fixedFields b = fixedFields (sent i).header := by
            rw [hj, fixedFields_constant hc j, fixedFields_constant hc i]
          rw [NumberedRight, received_mini sent keep hk hi hlast, FindsPredecessor, hb]
          constructor
          · intro h _ _ b' hb'
            rw [← Option.some.inj hb']
            exact (numbering_iff (hc i) hfixed).mp (h _ rfl)
          · intro h p hp
            rw [← Option.some.inj hp]
            exact (numbering_iff (hc i) hfixed).mpr (h hk hi b rfl)
  · constructor
    · exact fun _ hk' => absurd hk' hk
    · intro _ p hp
      rw [received, if_neg hk] at hp
      cases hp

/-- On a steady stream, whatever is lost, the decoded packets are all numbered
right exactly when each received mini frame finds its predecessor's header. -/
theorem compact_loss_iff (sent : Nat → MediaPacket) (keep : Nat → Bool)
    (hc : ∀ i, Continues (sent i).header (sent (i + 1)).header) (n : Nat) :
    (∀ i < n, NumberedRight sent keep i) ↔ ∀ i, i + 1 < n → FindsPredecessor sent keep i := by
  induction n with
  | zero => exact ⟨fun _ _ hi => absurd hi (Nat.not_lt_zero _), fun _ _ hi => absurd hi (Nat.not_lt_zero _)⟩
  | succ n ih =>
      constructor
      · intro h i hi
        have hprev := ih.mp fun j hj => h j (by omega)
        have hlast := receiverAt_baseline hc (i + 1) fun j hj => hprev j (by omega)
        exact (numberedRight_mini hc hlast).mp (h (i + 1) hi)
      · intro h i hi
        cases i with
        | zero => exact numberedRight_full rfl
        | succ i =>
            have hlast := receiverAt_baseline hc (i + 1) fun j hj => h j (by omega)
            exact (numberedRight_mini hc hlast).mpr (h i hi)

theorem findsPredecessor_of_accepted {i : Nat} (hk : keep i = true)
    (ha : accepted sent (baseline sent keep i) i = true) : FindsPredecessor sent keep i := by
  intro _ _ b hb
  rw [baseline, hk, ha] at hb
  exact (Option.some.inj hb).symm

theorem steadyStream_numbered : NumberedRight steadyStream (fun _ => true) 2 :=
  (compact_loss_iff steadyStream (fun _ => true) steadyStream_continues 3).mpr (by
    intro i hi
    match i, hi with
    | 0, _ => exact findsPredecessor_of_accepted rfl (by decide)
    | 1, _ => exact findsPredecessor_of_accepted rfl (by decide)) 2 (by decide)

/-- Losing the first mini frame shifts the numbering of the ones behind it. -/
theorem compact_loss_desyncs :
    ¬ ∀ (sent : Nat → MediaPacket) (keep : Nat → Bool),
      (∀ i, Continues (sent i).header (sent (i + 1)).header) → ∀ i, NumberedRight sent keep i := by
  intro h
  have htwo := h steadyStream (fun i => i != 1) steadyStream_continues 2
  have hout : received steadyStream (fun i => i != 1) 2 =
      some ⟨{ steadyHeader 2 with seq := 1, timestamp := 20 }, [1, 2, 3], none⟩ := by decide
  exact absurd (htwo _ hout).1 (by decide)

end Wzp.Proto.MediaPacket
