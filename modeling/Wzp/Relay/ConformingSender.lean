import Mathlib.Tactic.FieldSimp
import Mathlib.Tactic.Ring
import Wzp.Client.SpeechStream
import Wzp.Relay.RateCap

/-!
# Senders that conform

A stream of speech is observed as it is sent, with any of its packets lost. It
is said of the stream alone when the meter flags none of them.
-/
namespace Wzp.Relay
open Bytes Proto Fec Client Runs RateMeters

namespace ConformanceMeter

/-- The meter of a participant who waits before the first packet. -/
def start (lead : ℕ) : ConformanceMeter :=
  .withTokenBucket (.forAudioSession (-lead)) (-lead)

def afterPacket (m : ConformanceMeter) (e : Emission) : ConformanceMeter :=
  (m.observe e.packet.header e.packet.payload.length e.time).1

def Accepts (m : ConformanceMeter) (e : Emission) : Prop :=
  (m.observe e.packet.header e.packet.payload.length e.time).2.isOk = true

/-- The bytes in the bucket of an audio session. -/
def capacity : ℚ := 1920000

/-- Its refill in a nanosecond. -/
def rate : ℚ := 32000 / 1000000000

/-- However long the wait and whatever is lost, every packet is accepted. -/
def NeverFlags (sent : List Emission) : Prop :=
  ∀ lead : ℕ, ∀ observed : List Emission, observed.Sublist sent →
    EachStep afterPacket Accepts (start lead) observed

instance (m : ConformanceMeter) (e : Emission) : Decidable (Accepts m e) :=
  inferInstanceAs (Decidable (_ = true))

end ConformanceMeter

/-- A payload within the bound and the nominal bitrate of its codec. -/
def SpeechPayload (p : QualityProfile) (payload : Buf) : Prop :=
  payload.length ≤ payloadSizeBound p.codec ∧
    payload.length * 8 * 1000 ≤ p.codec.bitrateBps.toNat * p.frameDurationMs.toNat

instance (p : QualityProfile) (payload : Buf) : Decidable (SpeechPayload p payload) :=
  inferInstanceAs (Decidable (_ ∧ _))

def wireBytes (e : Emission) : ℕ := MediaHeader.wireSize + e.packet.payload.length

/-- What the meter asks of a stream of speech. -/
structure Meterable (p : QualityProfile) (sent : List Emission) : Prop where
  /-- Nothing follows a repair packet. -/
  repairLast : sent.Pairwise fun a _ => a.packet.header.isRepair = false
  /-- The frames last about as long as the codec's. -/
  pace : 2 ≤ sent.length → p.codec.frameDurationMs.toNat ≤ 2 * p.frameDurationMs.toNat ∧
    p.frameDurationMs.toNat ≤ 2 * p.codec.frameDurationMs.toNat
  /-- The timestamps do not wrap. -/
  unwrapped : (sent.length - 1) * p.frameDurationMs.toNat < 2 ^ 32
  /-- Headers included, no second exceeds the ceiling. -/
  ceiling : p.codec.isOpus = false →
    ∀ t, within Emission.time wireBytes t (t + second) sent ≤ ceilingBps p.codec / 8
  /-- Video also stays within the audio cap. -/
  cap : p.codec.isVideo = true →
    Curbed Emission.time wireBytes ConformanceMeter.capacity ConformanceMeter.rate sent

/-! ## The tiers -/

namespace ConformanceMeter
variable {m : ConformanceMeter} {bucket : TokenBucket} {e : Emission} {es : List Emission}

/-- The sequence number and timestamp of a packet. -/
def stamps (e : Emission) : UInt32 × UInt32 := (e.packet.header.seq, e.packet.header.timestamp)

/-- Packets this far apart do not drift. -/
def Steady (codec : CodecId) (a b : UInt32 × UInt32) : Prop := driftsApart codec a b = false

def smoothed (y : ℚ) (e : Emission) : ℚ :=
  1 / 20 * e.packet.payload.length + (1 - 1 / 20) * y

def Smooth (codec : CodecId) (y : ℚ) (e : Emission) : Prop :=
  smoothed y e ≤ (payloadSizeBound codec * 2 : ℕ)

/-- The five tiers, each with its own state. -/
abbrev Tiers := Window × Window × List (UInt32 × UInt32) × ℚ × Bucket

def tiers (m : ConformanceMeter) : Tiers :=
  (⟨m.windowStart, m.bytesInWindow⟩, ⟨m.windowStart, m.packetsInWindow⟩, m.driftWindow,
    m.ewmaPayloadSize, (m.tokenBucket.map fun b => ⟨b.tokens, b.lastRefill⟩).getD ⟨0, 0⟩)

def nextTiers : Tiers → Emission → Tiers :=
  both (Window.add Emission.time wireBytes second)
    (both (Window.add Emission.time (fun _ => 1) second)
      (both (fun q e => trail driftWindowSize q (stamps e))
        (both smoothed (Bucket.draw Emission.time wireBytes capacity rate))))

def TiersAccept (codec : CodecId) : Tiers → Emission → Prop :=
  BothAccept (Window.Fits Emission.time wireBytes second (ceilingBps codec / 8))
    (BothAccept (Window.Fits Emission.time (fun _ => 1) second (maxPps codec * 3 / 2))
      (BothAccept (fun q e => EndsNear (Steady codec) (trail driftWindowSize q (stamps e)))
        (BothAccept (Smooth codec) (Bucket.Affords Emission.time wireBytes capacity rate))))

/-- The bucket is the one of an audio session. -/
def Capped (m : ConformanceMeter) : Prop :=
  ∃ b, m.tokenBucket = some b ∧ b.capacity = 1920000 ∧ b.refillPerSec = 32000

theorem drifts_eq_false {codec : CodecId} {q : List (UInt32 × UInt32)} :
    drifts codec q = false ↔ EndsNear (Steady codec) q := by
  unfold drifts EndsNear Steady
  cases hhead : q.head? with
  | none => exact ⟨fun _ _ _ _ h => (nomatch h), fun _ => rfl⟩
  | some a =>
      cases hlast : q.getLast? with
      | none => exact ⟨fun _ _ _ _ _ h => (nomatch h), fun _ => rfl⟩
      | some b =>
          constructor
          · intro h a' b' hlen ha hb
            obtain rfl := Option.some.inj ha
            obtain rfl := Option.some.inj hb
            simpa only [decide_eq_true hlen, Bool.true_and] using h
          · intro h
            by_cases hlen : 2 ≤ q.length
            · change (decide (2 ≤ q.length) && driftsApart codec a b) = false
              rw [h a b hlen rfl rfl, Bool.and_false]
            · change (decide (2 ≤ q.length) && driftsApart codec a b) = false
              rw [decide_eq_false hlen, Bool.false_and]

theorem second_le_durationSince {now earlier : ℤ} :
    second ≤ durationSince now earlier ↔ (second : ℤ) ≤ now - earlier := by
  unfold durationSince second
  omega

/-- The counters of a window after a packet. -/
theorem rollWindow_add (m : ConformanceMeter) (size : ℕ) (e : Emission) :
    (⟨(m.rollWindow e.time).windowStart, (m.rollWindow e.time).bytesInWindow + size⟩ : Window) =
        Window.add Emission.time (fun _ => size) second ⟨m.windowStart, m.bytesInWindow⟩ e ∧
      (⟨(m.rollWindow e.time).windowStart, (m.rollWindow e.time).packetsInWindow + 1⟩ : Window) =
        Window.add Emission.time (fun _ => 1) second ⟨m.windowStart, m.packetsInWindow⟩ e := by
  unfold rollWindow Window.add
  by_cases hroll : second ≤ durationSince e.time m.windowStart
  · rw [if_pos hroll, if_pos (second_le_durationSince.mp hroll),
      if_pos (second_le_durationSince.mp hroll), Nat.zero_add, Nat.zero_add]
    exact ⟨rfl, rfl⟩
  · rw [if_neg hroll, if_neg fun h => hroll (second_le_durationSince.mpr h),
      if_neg fun h => hroll (second_le_durationSince.mpr h)]
    exact ⟨rfl, rfl⟩

theorem refill_tokens (hcapacity : bucket.capacity = 1920000) (hrate : bucket.refillPerSec = 32000)
    (now : ℤ) : (bucket.refill now).tokens =
      Bucket.refilled capacity rate ⟨bucket.tokens, bucket.lastRefill⟩ now := by
  have hfull : ((1920000 : ℕ) : ℚ) = capacity := by norm_num [capacity]
  have hsecond : ((32000 : ℕ) : ℚ) / second = rate := by norm_num [rate, second]
  rw [bucket.refill_tokens now, hcapacity, hrate, hfull, hsecond]

theorem rollWindow_rest (m : ConformanceMeter) (now : ℤ) :
    (m.rollWindow now).tokenBucket = m.tokenBucket ∧
      (m.rollWindow now).driftWindow = m.driftWindow ∧
      (m.rollWindow now).ewmaPayloadSize = m.ewmaPayloadSize := by
  unfold rollWindow
  split <;> exact ⟨rfl, rfl, rfl⟩

/-- The meter after a packet that every tier accepts. -/
def accepted (m : ConformanceMeter) (bucket : TokenBucket) (e : Emission) : ConformanceMeter where
  windowStart := (m.rollWindow e.time).windowStart
  bytesInWindow := (m.rollWindow e.time).bytesInWindow + wireBytes e
  packetsInWindow := (m.rollWindow e.time).packetsInWindow + 1
  driftWindow := trail driftWindowSize m.driftWindow (stamps e)
  ewmaPayloadSize := smoothed m.ewmaPayloadSize e
  tokenBucket := some { bucket.refill e.time with
    tokens := (bucket.refill e.time).tokens - wireBytes e }

theorem observe_spec (hbucket : m.tokenBucket = some bucket) :
    (Accepts m e ↔
      (m.rollWindow e.time).bytesInWindow + wireBytes e ≤ ceilingBps e.packet.header.codecId / 8 ∧
      (m.rollWindow e.time).packetsInWindow + 1 ≤ maxPps e.packet.header.codecId * 3 / 2 ∧
      drifts e.packet.header.codecId (trail driftWindowSize m.driftWindow (stamps e)) = false ∧
      Smooth e.packet.header.codecId m.ewmaPayloadSize e ∧
      (wireBytes e : ℚ) ≤ (bucket.refill e.time).tokens) ∧
    (Accepts m e → m.afterPacket e = m.accepted bucket e) := by
  obtain ⟨htokens, hdrift, hewma⟩ := rollWindow_rest m e.time
  unfold Accepts afterPacket observe TokenBucket.tryConsume
  dsimp only
  rw [htokens, hdrift, hewma, hbucket]
  by_cases hbytes : ceilingBps e.packet.header.codecId / 8 <
      (m.rollWindow e.time).bytesInWindow + (MediaHeader.wireSize + e.packet.payload.length)
  · rw [if_pos hbytes]
    exact ⟨⟨fun h => absurd h Bool.false_ne_true, fun h => absurd h.1 (Nat.not_le.mpr hbytes)⟩,
      fun h => absurd h Bool.false_ne_true⟩
  rw [if_neg hbytes]
  by_cases hpackets : maxPps e.packet.header.codecId * 3 / 2 <
      (m.rollWindow e.time).packetsInWindow + 1
  · rw [if_pos hpackets]
    exact ⟨⟨fun h => absurd h Bool.false_ne_true, fun h => absurd h.2.1 (Nat.not_le.mpr hpackets)⟩,
      fun h => absurd h Bool.false_ne_true⟩
  rw [if_neg hpackets]
  by_cases hdrifts : drifts e.packet.header.codecId
      (trail driftWindowSize m.driftWindow (e.packet.header.seq, e.packet.header.timestamp)) = true
  · rw [if_pos hdrifts]
    exact ⟨⟨fun h => absurd h Bool.false_ne_true,
      fun h => absurd (h.2.2.1.symm.trans hdrifts) Bool.false_ne_true⟩,
      fun h => absurd h Bool.false_ne_true⟩
  rw [if_neg hdrifts]
  by_cases hsize : ((payloadSizeBound e.packet.header.codecId * 2 : ℕ) : ℚ) <
      1 / 20 * e.packet.payload.length + (1 - 1 / 20) * m.ewmaPayloadSize
  · rw [if_pos hsize]
    exact ⟨⟨fun h => absurd h Bool.false_ne_true, fun h => absurd h.2.2.2.1 (not_le.mpr hsize)⟩,
      fun h => absurd h Bool.false_ne_true⟩
  rw [if_neg hsize]
  dsimp only
  by_cases hafford : ((MediaHeader.wireSize + e.packet.payload.length : ℕ) : ℚ) ≤
      (bucket.refill e.time).tokens
  · rw [if_pos hafford]
    exact ⟨⟨fun _ => ⟨Nat.not_lt.mp hbytes, Nat.not_lt.mp hpackets, Bool.not_eq_true _ ▸ hdrifts,
      not_lt.mp hsize, hafford⟩, fun _ => rfl⟩, fun _ => rfl⟩
  · rw [if_neg hafford]
    exact ⟨⟨fun h => absurd h Bool.false_ne_true, fun h => absurd h.2.2.2.2 hafford⟩,
      fun h => absurd h Bool.false_ne_true⟩

/-- A packet is accepted if every tier accepts it, and then every tier moves on. -/
theorem observe_tiers (hcap : Capped m) :
    (Accepts m e ↔ TiersAccept e.packet.header.codecId m.tiers e) ∧
      (Accepts m e → Capped (m.afterPacket e) ∧ (m.afterPacket e).tiers = nextTiers m.tiers e) := by
  obtain ⟨bucket, hbucket, hcapacity, hrate⟩ := hcap
  obtain ⟨haccepts, hafter⟩ := observe_spec (e := e) hbucket
  have htokens := refill_tokens hcapacity hrate e.time
  obtain ⟨hbytes, hpackets⟩ := rollWindow_add m (wireBytes e) e
  have hown : m.tiers.2.2.2.2 = ⟨bucket.tokens, bucket.lastRefill⟩ := by
    rw [tiers, hbucket]
    rfl
  constructor
  · rw [haccepts, drifts_eq_false, htokens]
    refine and_congr ?_ (and_congr ?_ (and_congr Iff.rfl (and_congr Iff.rfl ?_)))
    · exact Iff.of_eq (congrArg (fun w : Window => w.total ≤ _) hbytes)
    · exact Iff.of_eq (congrArg (fun w : Window => w.total ≤ _) hpackets)
    · rw [hown]
      exact Iff.rfl
  · intro haccept
    rw [hafter haccept]
    refine ⟨⟨_, rfl, hcapacity, hrate⟩, ?_⟩
    refine Prod.ext hbytes (Prod.ext hpackets (Prod.ext rfl (Prod.ext rfl ?_)))
    change (⟨(bucket.refill e.time).tokens - wireBytes e, e.time⟩ : Bucket) =
      Bucket.draw Emission.time wireBytes capacity rate m.tiers.2.2.2.2 e
    rw [htokens, hown]
    rfl

/-- A flow of one codec is accepted if it passes each of the tiers. -/
theorem accepts_iff {codec : CodecId} (hcodec : ∀ e ∈ es, e.packet.header.codecId = codec)
    (lead : ℕ) : EachStep afterPacket Accepts (start lead) es ↔
      EachStep (Window.add Emission.time wireBytes second)
        (Window.Fits Emission.time wireBytes second (ceilingBps codec / 8)) ⟨-lead, 0⟩ es ∧
      EachStep (Window.add Emission.time (fun _ => 1) second)
        (Window.Fits Emission.time (fun _ => 1) second (maxPps codec * 3 / 2)) ⟨-lead, 0⟩ es ∧
      EachStep (trail driftWindowSize)
        (fun q x => EndsNear (Steady codec) (trail driftWindowSize q x)) [] (es.map stamps) ∧
      EachStep smoothed (Smooth codec) 0 es ∧
      EachStep (Bucket.draw Emission.time wireBytes capacity rate)
        (Bucket.Affords Emission.time wireBytes capacity rate) ⟨capacity, -lead⟩ es := by
  have himage : EachStep afterPacket Accepts (start lead) es ↔
      EachStep nextTiers (TiersAccept codec) (start lead).tiers es :=
    eachStep_image Capped tiers
      (fun s e _ hs haccept => ((observe_tiers hs).2 haccept).1)
      (fun s e he hs => by rw [(observe_tiers hs).1, hcodec e he])
      (fun s e _ hs haccept => ((observe_tiers hs).2 haccept).2) ⟨_, rfl, rfl, rfl⟩
  rw [himage, nextTiers, TiersAccept, eachStep_both, eachStep_both, eachStep_both, eachStep_both]
  exact and_congr Iff.rfl (and_congr Iff.rfl (and_congr (eachStep_map (trail driftWindowSize)
    (fun q x => EndsNear (Steady codec) (trail driftWindowSize q x)) stamps) Iff.rfl))

/-! ## The stream -/

section Stream
variable {p : QualityProfile} {seq : UInt32} {k : ℕ} {sent : List Emission}

theorem numbered_codec {P : Buf → Prop} (h : Numbered p P seq k sent) :
    ∀ e ∈ sent, e.packet.header.codecId = p.codec := by
  induction sent generalizing seq k with
  | nil => exact fun e he => (nomatch he)
  | cons e es ih =>
      obtain ⟨hcodec, -, -, hrest⟩ := h
      have hes : ∀ x ∈ es, x.packet.header.codecId = p.codec := by
        split at hrest
        · exact ih hrest.2.2.2.2
        · exact ih hrest.2.2
      exact List.forall_mem_cons.mpr ⟨hcodec, hes⟩

/-- The packets come in order, none before the last captured frame. -/
theorem numbered_inOrder {P : Buf → Prop} (h : Numbered p P seq k sent) :
    (∀ e ∈ sent, ((k - 1 : ℕ) * frameTime p : ℤ) ≤ e.time) ∧ InOrder Emission.time sent := by
  induction sent generalizing seq k with
  | nil => exact ⟨fun e he => (nomatch he), List.Pairwise.nil⟩
  | cons e es ih =>
      obtain ⟨-, -, -, hrest⟩ := h
      split at hrest
      · obtain ⟨-, -, htime, -, hrest⟩ := hrest
        obtain ⟨hlow, horder⟩ := ih hrest
        refine ⟨List.forall_mem_cons.mpr ⟨htime.ge, hlow⟩, List.pairwise_cons.mpr ⟨?_, horder⟩⟩
        rw [htime]
        exact hlow
      · obtain ⟨htime, -, hrest⟩ := hrest
        obtain ⟨hlow, horder⟩ := ih hrest
        rw [Nat.add_sub_cancel] at hlow
        have hle : ((k - 1 : ℕ) * frameTime p : ℤ) ≤ k * frameTime p :=
          mul_le_mul_of_nonneg_right (Nat.cast_le.mpr (Nat.sub_le k 1)) (Nat.cast_nonneg _)
        refine ⟨List.forall_mem_cons.mpr ⟨hle.trans htime.ge, fun x hx => hle.trans (hlow x hx)⟩,
          List.pairwise_cons.mpr ⟨?_, horder⟩⟩
        rw [htime]
        exact hlow

def isSource (e : Emission) : Bool := !e.packet.header.isRepair

/-- Source packets are a frame apart. -/
theorem numbered_spaced {P : Buf → Prop} (h : Numbered p P seq k sent) :
    (∀ e ∈ sent.filter isSource, (k * frameTime p : ℤ) ≤ e.time) ∧
      (sent.filter isSource).Pairwise fun a b => a.time + (frameTime p : ℤ) ≤ b.time := by
  induction sent generalizing seq k with
  | nil => exact ⟨fun e he => (nomatch he), List.Pairwise.nil⟩
  | cons e es ih =>
      obtain ⟨-, -, -, hrest⟩ := h
      by_cases hrepair : e.packet.header.isRepair = true
      · rw [if_pos hrepair] at hrest
        have hnot : ¬ isSource e = true := by
          rw [isSource, hrepair]
          exact Bool.false_ne_true
        rw [List.filter_cons_of_neg hnot]
        exact ih hrest.2.2.2.2
      · rw [if_neg hrepair] at hrest
        have hsource : isSource e = true := by
          rw [isSource, eq_false_of_ne_true hrepair]
          rfl
        obtain ⟨htime, -, hrest⟩ := hrest
        obtain ⟨hlow, hspaced⟩ := ih hrest
        have hnext : ∀ x ∈ es.filter isSource, e.time + (frameTime p : ℤ) ≤ x.time := by
          intro x hx
          have hx' := hlow x hx
          rw [Nat.cast_add, Nat.cast_one, add_mul, one_mul] at hx'
          rwa [htime]
        rw [List.filter_cons_of_pos hsource]
        refine ⟨List.forall_mem_cons.mpr ⟨htime.ge, fun x hx => ?_⟩,
          List.pairwise_cons.mpr ⟨hnext, hspaced⟩⟩
        rw [← htime]
        exact (le_add_of_nonneg_right (Nat.cast_nonneg _)).trans (hnext x hx)

/-- What is sent is a payload of speech or a repair symbol. -/
theorem numbered_payload {P : Buf → Prop} (h : Numbered p P seq k sent) :
    ∀ e ∈ sent, if e.packet.header.isRepair then p.codec.isOpus = false ∧
      e.packet.payload.length = AdaptiveFec.defaultSymbolSize.toNat else P e.packet.payload := by
  induction sent generalizing seq k with
  | nil => exact fun e he => (nomatch he)
  | cons e es ih =>
      obtain ⟨-, -, -, hrest⟩ := h
      by_cases hrepair : e.packet.header.isRepair = true
      · rw [if_pos hrepair] at hrest
        refine List.forall_mem_cons.mpr ⟨?_, ih hrest.2.2.2.2⟩
        rw [if_pos hrepair]
        exact ⟨hrest.1, hrest.2.2.2.1⟩
      · rw [if_neg hrepair] at hrest
        refine List.forall_mem_cons.mpr ⟨?_, ih hrest.2.2⟩
        rw [if_neg hrepair]
        exact hrest.2.1

/-! ## Drift -/

theorem steady_iff {codec : CodecId} {a b : UInt32 × UInt32} :
    Steady codec a b ↔ (b.1 - a.1).toNat = 0 ∨
      (codec.frameDurationMs.toNat * (b.1 - a.1).toNat ≤ 2 * (b.2 - a.2).toNat ∧
        (b.2 - a.2).toNat ≤ 2 * codec.frameDurationMs.toNat * (b.1 - a.1).toNat) := by
  unfold Steady driftsApart
  dsimp only
  generalize (b.1 - a.1).toNat = ds
  generalize (b.2 - a.2).toNat = dt
  generalize codec.frameDurationMs.toNat = f
  rcases Nat.eq_zero_or_pos ds with rfl | hpos
  · exact ⟨fun _ => Or.inl rfl, fun _ => rfl⟩
  · have hpos' : (0 : ℚ) < ds := Nat.cast_pos.mpr hpos
    rw [decide_eq_true hpos, Bool.true_and, Bool.or_eq_false_iff, decide_eq_false_iff_not,
      decide_eq_false_iff_not, not_lt, not_lt, le_div_iff₀ hpos', div_le_iff₀ hpos']
    have hlow : (f : ℚ) * (1 / 2) * ds ≤ dt ↔ f * ds ≤ 2 * dt := by
      rw [← Nat.cast_le (α := ℚ)]
      push_cast
      constructor <;> intro h <;> linarith
    have hhigh : (dt : ℚ) ≤ f * 2 * ds ↔ dt ≤ 2 * f * ds := by
      rw [← Nat.cast_le (α := ℚ)]
      push_cast
      constructor <;> intro h <;> linarith
    rw [hlow, hhigh]
    exact ⟨Or.inr, fun h => h.resolve_left (Nat.ne_of_gt hpos)⟩

theorem frameDuration_pos (codec : CodecId) : 0 < codec.frameDurationMs.toNat := by
  cases codec <;> decide

/-- A repair packet drifts apart from the packet after it. -/
theorem repairLast_of_steady {P : Buf → Prop} (h : Numbered p P seq k sent)
    (hsteady : sent.Pairwise fun a b => Steady p.codec (stamps a) (stamps b)) :
    sent.Pairwise fun a _ => a.packet.header.isRepair = false := by
  induction sent generalizing seq k with
  | nil => exact List.Pairwise.nil
  | cons e es ih =>
      obtain ⟨hhead, htail⟩ := List.pairwise_cons.mp hsteady
      obtain ⟨-, hseq, hstamp, hrest⟩ := h
      by_cases hrepair : e.packet.header.isRepair = true
      · rw [if_pos hrepair] at hrest
        obtain ⟨-, -, -, -, hrest⟩ := hrest
        refine List.pairwise_cons.mpr ⟨fun x hx => ?_, ih hrest htail⟩
        cases es with
        | nil => cases hx
        | cons y es =>
            exfalso
            obtain ⟨-, hseq', hstamp', -⟩ := hrest
            have hpos := frameDuration_pos p.codec
            have hnear := steady_iff.mp (hhead y List.mem_cons_self)
            rw [stamps, stamps, hseq, hseq', hstamp, hstamp', UInt32.sub_self,
              UInt32.add_comm seq 1, UInt32.add_sub_cancel] at hnear
            change 1 = 0 ∨ p.codec.frameDurationMs.toNat * 1 ≤ 2 * 0 ∧ _ at hnear
            omega
      · rw [if_neg hrepair] at hrest
        exact List.pairwise_cons.mpr
          ⟨fun _ _ => eq_false_of_ne_true hrepair, ih hrest.2.2 htail⟩

/-- If nothing follows a repair packet, then a packet's place says its number and
its timestamp. -/
theorem numbered_getElem {P : Buf → Prop} (h : Numbered p P seq k sent)
    (hlast : sent.Pairwise fun a _ => a.packet.header.isRepair = false) {i : ℕ} {e : Emission}
    (hi : sent[i]? = some e) : stamps e =
      (seq + UInt32.ofNat i, UInt32.ofNat ((k + i) * p.frameDurationMs.toNat)) := by
  induction sent generalizing seq k i with
  | nil => cases hi
  | cons x es ih =>
      obtain ⟨hnone, htail⟩ := List.pairwise_cons.mp hlast
      obtain ⟨-, hseq, hstamp, hrest⟩ := h
      cases i with
      | zero =>
          obtain rfl := Option.some.inj hi
          rw [stamps, hseq, hstamp, show UInt32.ofNat 0 = 0 from rfl, UInt32.add_zero, Nat.add_zero]
      | succ i =>
          rw [List.getElem?_cons_succ] at hi
          have hsource := hnone e (List.mem_of_getElem? hi)
          rw [if_neg (by rw [hsource]; exact Bool.false_ne_true)] at hrest
          rw [ih hrest.2.2 htail hi, Nat.add_right_comm, Nat.add_assoc, Nat.add_comm i 1,
            UInt32.ofNat_add, UInt32.add_assoc]
          rfl

theorem toNat_sub_ofNat (a n : ℕ) :
    (UInt32.ofNat (a + n) - UInt32.ofNat a).toNat = n % 2 ^ 32 := by
  rw [UInt32.ofNat_add, UInt32.add_comm, UInt32.add_sub_cancel]
  exact UInt32.toNat_ofNat'

/-- Two packets that are `n` packets apart. -/
theorem steady_apart (codec : CodecId) (i n d : ℕ) :
    Steady codec (0 + UInt32.ofNat i, UInt32.ofNat ((0 + i) * d))
      (0 + UInt32.ofNat (i + n), UInt32.ofNat ((0 + (i + n)) * d)) ↔ n % 2 ^ 32 = 0 ∨
        (codec.frameDurationMs.toNat * (n % 2 ^ 32) ≤ 2 * (n * d % 2 ^ 32) ∧
          n * d % 2 ^ 32 ≤ 2 * codec.frameDurationMs.toNat * (n % 2 ^ 32)) := by
  rw [steady_iff, UInt32.zero_add, UInt32.zero_add, Nat.zero_add, Nat.zero_add, Nat.add_mul,
    toNat_sub_ofNat, toNat_sub_ofNat]

/-- Just after the timestamps wrap, less time seems to have passed than one frame. -/
theorem wrapped_apart {d f : ℕ} (hlow : 10 ≤ d) (hhigh : d ≤ 80) (hf : 20 ≤ f) :
    ∃ n, 0 < n ∧ (∀ m, 2 ^ 32 ≤ m * d → n ≤ m) ∧ n % 2 ^ 32 ≠ 0 ∧
      2 * (n * d % 2 ^ 32) < f * (n % 2 ^ 32) := by
  obtain ⟨n, r, hr, hmul⟩ : ∃ n r, r < d ∧ n * d = 2 ^ 32 + r := by
    refine ⟨(2 ^ 32 + d - 1) / d, d - 1 - (2 ^ 32 + d - 1) % d, by omega, ?_⟩
    have hdiv := Nat.div_add_mod' (2 ^ 32 + d - 1) d
    have hmod := Nat.mod_lt (2 ^ 32 + d - 1) (by omega : 0 < d)
    omega
  have htens : n * 10 ≤ n * d := Nat.mul_le_mul_left n hlow
  have heighties : n * d ≤ n * 80 := Nat.mul_le_mul_left n hhigh
  have hframes : 20 * n ≤ f * n := Nat.mul_le_mul_right n hf
  have hsmall : n < 2 ^ 32 := by omega
  refine ⟨n, by omega, fun m hm => ?_, ?_, ?_⟩
  · by_contra hlt
    have hle : (m + 1) * d ≤ n * d := Nat.mul_le_mul_right d (by omega)
    rw [Nat.succ_mul] at hle
    omega
  · rw [Nat.mod_eq_of_lt hsmall]
    omega
  · rw [Nat.mod_eq_of_lt hsmall, hmul, Nat.add_mod_left, Nat.mod_eq_of_lt (by omega : r < 2 ^ 32)]
    omega

/-- A stream without drift keeps the pace of its codec, and its timestamps do
not wrap. -/
theorem paced_of_steady {P : Buf → Prop} (h : Numbered p P 0 0 sent)
    (hsteady : sent.Pairwise fun a b => Steady p.codec (stamps a) (stamps b)) :
    (2 ≤ sent.length → p.codec.frameDurationMs.toNat ≤ 2 * p.frameDurationMs.toNat ∧
      p.frameDurationMs.toNat ≤ 2 * p.codec.frameDurationMs.toNat) ∧
    (sent.length - 1) * p.frameDurationMs.toNat < 2 ^ 32 := by
  have hlast := repairLast_of_steady h hsteady
  have hd : p.frameDurationMs.toNat < 2 ^ 8 := p.frameDurationMs.toNat_lt
  have hf : 20 ≤ p.codec.frameDurationMs.toNat ∧ p.codec.frameDurationMs.toNat ≤ 40 := by
    cases p.codec <;> decide
  -- the first packet is steady with the one `n` packets later
  have hfirst : ∀ n, 0 < n → n < sent.length → n % 2 ^ 32 = 0 ∨
      (p.codec.frameDurationMs.toNat * (n % 2 ^ 32) ≤
          2 * (n * p.frameDurationMs.toNat % 2 ^ 32) ∧
        n * p.frameDurationMs.toNat % 2 ^ 32 ≤
          2 * p.codec.frameDurationMs.toNat * (n % 2 ^ 32)) := by
    intro n hpos hn
    have hzero : 0 < sent.length := hpos.trans hn
    have hnear := List.pairwise_iff_getElem.mp hsteady 0 n hzero hn hpos
    rw [numbered_getElem h hlast (List.getElem?_eq_getElem hzero),
      numbered_getElem h hlast (List.getElem?_eq_getElem hn), ← Nat.zero_add n] at hnear
    exact (steady_apart _ 0 n _).mp (by rwa [Nat.zero_add] at hnear ⊢)
  generalize p.frameDurationMs.toNat = d at *
  generalize p.codec.frameDurationMs.toNat = f at *
  have hpace : 2 ≤ sent.length → f ≤ 2 * d ∧ d ≤ 2 * f := by
    intro hlen
    have hnext := hfirst 1 one_pos hlen
    rw [Nat.one_mul, Nat.mod_eq_of_lt (by omega : d < 2 ^ 32)] at hnext
    omega
  refine ⟨hpace, ?_⟩
  by_contra hwrap
  have hlen : 2 ≤ sent.length := by
    by_contra hshort
    rw [show sent.length - 1 = 0 by omega, Nat.zero_mul] at hwrap
    omega
  obtain ⟨hlow, hhigh⟩ := hpace hlen
  obtain ⟨n, hpos, hleast, hne, hapart⟩ :=
    @wrapped_apart d f (by omega) (by omega) hf.1
  have hn := hleast (sent.length - 1) (Nat.not_lt.mp hwrap)
  have hnear := (hfirst n hpos (by omega)).resolve_left hne
  omega

/-- A stream that keeps the pace does not drift. -/
theorem steady_of_paced {P : Buf → Prop} (h : Numbered p P 0 0 sent)
    (hlast : sent.Pairwise fun a _ => a.packet.header.isRepair = false)
    (hpace : 2 ≤ sent.length → p.codec.frameDurationMs.toNat ≤ 2 * p.frameDurationMs.toNat ∧
      p.frameDurationMs.toNat ≤ 2 * p.codec.frameDurationMs.toNat)
    (hunwrapped : (sent.length - 1) * p.frameDurationMs.toNat < 2 ^ 32) :
    sent.Pairwise fun a b => Steady p.codec (stamps a) (stamps b) := by
  rw [List.pairwise_iff_getElem]
  intro i j hi hj hij
  have hpos := frameDuration_pos p.codec
  obtain ⟨hlow, hhigh⟩ := hpace (by omega)
  rw [numbered_getElem h hlast (List.getElem?_eq_getElem hi),
    numbered_getElem h hlast (List.getElem?_eq_getElem hj)]
  obtain ⟨n, rfl⟩ := Nat.exists_eq_add_of_le hij.le
  rw [steady_apart]
  have hspan : n * p.frameDurationMs.toNat ≤ (sent.length - 1) * p.frameDurationMs.toNat :=
    Nat.mul_le_mul_right _ (by omega)
  have hone : n ≤ n * p.frameDurationMs.toNat := Nat.le_mul_of_pos_right n (by omega)
  rw [Nat.mod_eq_of_lt (by omega : n < 2 ^ 32), Nat.mod_eq_of_lt (by omega)]
  right
  constructor
  · calc p.codec.frameDurationMs.toNat * n ≤ 2 * p.frameDurationMs.toNat * n :=
          Nat.mul_le_mul_right n hlow
      _ = 2 * (n * p.frameDurationMs.toNat) := by ring
  · calc n * p.frameDurationMs.toNat ≤ n * (2 * p.codec.frameDurationMs.toNat) :=
          Nat.mul_le_mul_left n hhigh
      _ = 2 * p.codec.frameDurationMs.toNat * n := by ring

/-! ## Rates -/

theorem repairs_length (hlast : sent.Pairwise fun a _ => a.packet.header.isRepair = false) :
    (sent.filter fun e => !isSource e).length ≤ 1 := by
  have hrest := hlast.sublist (List.filter_sublist (p := fun e => !isSource e))
  have hrepair : ∀ e ∈ sent.filter fun e => !isSource e, e.packet.header.isRepair = true := by
    intro e he
    simpa only [isSource, Bool.not_not] using (List.mem_filter.mp he).2
  generalize sent.filter (fun e => !isSource e) = l at *
  match l, hrest, hrepair with
  | [], _, _ => exact Nat.zero_le 1
  | [_], _, _ => exact le_rfl
  | a :: b :: l, hrest, hrepair =>
      have hnot := List.rel_of_pairwise_cons hrest (List.mem_cons_self (a := b) (l := l))
      exact absurd ((hrepair a List.mem_cons_self).symm.trans hnot).symm Bool.false_ne_true

/-- What arrives in an interval: source packets a frame apart, and a repair packet. -/
theorem within_le {P : Buf → Prop} {weight : Emission → ℕ} {c r : ℕ} (h : Numbered p P seq k sent)
    (hlast : sent.Pairwise fun a _ => a.packet.header.isRepair = false)
    (hsource : ∀ e ∈ sent, e.packet.header.isRepair = false → weight e ≤ c)
    (hrepair : ∀ e ∈ sent, e.packet.header.isRepair = true → weight e ≤ r) (t u : ℤ) :
    ∃ n : ℕ, within Emission.time weight t u sent ≤ n * c + r ∧
      (n = 0 ∨ (n * frameTime p : ℤ) + t < u + frameTime p) := by
  have hlight : ∀ e ∈ sent.filter isSource, weight e ≤ c := fun e he =>
    hsource e (List.mem_filter.mp he).1
      (by simpa only [isSource, Bool.not_eq_true'] using (List.mem_filter.mp he).2)
  obtain ⟨n, hle, hn⟩ := within_le_of_spaced (numbered_spaced h).2 hlight t u
  have hone : within Emission.time weight t u (sent.filter fun e => !isSource e) ≤ 1 * r := by
    refine (within_le_mul fun e he => hrepair e (List.mem_filter.mp he).1
      (by simpa only [isSource, Bool.not_not] using (List.mem_filter.mp he).2)).trans ?_
    exact Nat.mul_le_mul_right r ((List.length_filter_le _ _).trans (repairs_length hlast))
  refine ⟨n, ?_, hn⟩
  rw [← within_filter_add isSource]
  omega

/-- A single packet. -/
theorem within_le_of_short {weight : Emission → ℕ} {c : ℕ} (hshort : sent.length ≤ 1)
    (hweight : ∀ e ∈ sent, weight e ≤ c) (t u : ℤ) :
    within Emission.time weight t u sent ≤ c := by
  refine (within_le_mul hweight).trans ?_
  have hone := Nat.mul_le_mul_right c ((List.length_filter_le
    (fun e => t ≤ Emission.time e ∧ Emission.time e < u) sent).trans hshort)
  rwa [Nat.one_mul] at hone

/-- The source packets of a second. -/
theorem frames_of_second {n : ℕ} {t : ℤ}
    (hn : n = 0 ∨ (n * frameTime p : ℤ) + t < t + second + frameTime p) :
    n * p.frameDurationMs.toNat < 1000 + p.frameDurationMs.toNat := by
  unfold frameTime second at hn
  rcases hn with rfl | hn
  · omega
  · push_cast at hn
    have hms : (n * p.frameDurationMs.toNat : ℤ) * 1000000 <
        (1000 + p.frameDurationMs.toNat) * 1000000 := by linarith
    exact_mod_cast lt_of_mul_lt_mul_right hms (by norm_num)

/-- At the pace of the codec, a second has room for few frames. -/
theorem few_frames {n : ℕ} (hlow : p.codec.frameDurationMs.toNat ≤ 2 * p.frameDurationMs.toNat)
    (hn : n * p.frameDurationMs.toNat < 1000 + p.frameDurationMs.toNat) :
    n * p.codec.frameDurationMs.toNat ≤ 1998 + p.codec.frameDurationMs.toNat := by
  cases n with
  | zero => omega
  | succ n =>
      have hframes : n * p.codec.frameDurationMs.toNat ≤ n * (2 * p.frameDurationMs.toNat) :=
        Nat.mul_le_mul_left n hlow
      rw [Nat.succ_mul] at hn ⊢
      rw [Nat.mul_left_comm] at hframes
      omega

theorem packet_limit (codec : CodecId) :
    (codec.frameDurationMs.toNat = 20 ∧ maxPps codec * 3 / 2 = 225) ∨
      (codec.frameDurationMs.toNat = 40 ∧ maxPps codec * 3 / 2 = 112) ∨
      (codec.frameDurationMs.toNat = 33 ∧ maxPps codec * 3 / 2 = 135) := by
  cases codec <;> decide

theorem opus_limit {codec : CodecId} (hopus : codec.isOpus = true) :
    (codec.frameDurationMs.toNat = 20 ∧ 16000 ≤ codec.bitrateBps.toNat ∨
      codec.frameDurationMs.toNat = 40 ∧ 6000 ≤ codec.bitrateBps.toNat) ∧
    codec.bitrateBps.toNat * 43 / 100 ≤ ceilingBps codec / 8 ∧
    16 + payloadSizeBound codec ≤ ceilingBps codec / 8 := by
  revert hopus
  cases codec <;> decide

theorem packets_of_second {P : Buf → Prop} (h : Numbered p P seq k sent)
    (hlast : sent.Pairwise fun a _ => a.packet.header.isRepair = false)
    (hlow : 2 ≤ sent.length → p.codec.frameDurationMs.toNat ≤ 2 * p.frameDurationMs.toNat) (t : ℤ) :
    within Emission.time (fun _ => 1) t (t + second) sent ≤ maxPps p.codec * 3 / 2 := by
  by_cases hshort : sent.length ≤ 1
  · refine (within_le_of_short hshort (fun _ _ => le_rfl) t _).trans ?_
    have hlimit := packet_limit p.codec
    omega
  · obtain ⟨n, hle, hn⟩ := within_le h hlast (fun _ _ _ => le_refl 1) (fun _ _ _ => le_refl 1) t
      (t + second)
    have hfew := few_frames (hlow (by omega)) (frames_of_second hn)
    refine hle.trans ?_
    rcases packet_limit p.codec with ⟨hframe, hlimit⟩ | ⟨hframe, hlimit⟩ | ⟨hframe, hlimit⟩ <;>
      rw [hframe] at hfew <;> omega

/-- What the packets of a stream of speech weigh. -/
theorem wireBytes_source (h : Numbered p (SpeechPayload p) seq k sent) :
    ∀ e ∈ sent, e.packet.header.isRepair = false →
      wireBytes e ≤ 16 + payloadSizeBound p.codec ∧
        wireBytes e ≤ 16 + p.codec.bitrateBps.toNat * p.frameDurationMs.toNat / 8000 := by
  intro e he hsource
  have hpayload := numbered_payload h e he
  rw [if_neg (by rw [hsource]; exact Bool.false_ne_true)] at hpayload
  obtain ⟨hbound, hnominal⟩ := hpayload
  rw [Nat.mul_assoc] at hnominal
  exact ⟨Nat.add_le_add_left hbound 16,
    Nat.add_le_add_left ((Nat.le_div_iff_mul_le (by decide)).mpr hnominal) 16⟩

theorem wireBytes_repair (h : Numbered p (SpeechPayload p) seq k sent) :
    ∀ e ∈ sent, e.packet.header.isRepair = true → p.codec.isOpus = false ∧ wireBytes e = 272 := by
  intro e he hrepair
  have hpayload := numbered_payload h e he
  rw [if_pos hrepair] at hpayload
  exact ⟨hpayload.1, congrArg (16 + ·) hpayload.2⟩

/-- Opus speech never reaches the ceiling. -/
theorem opus_ceiling (h : Numbered p (SpeechPayload p) seq k sent) (hopus : p.codec.isOpus = true)
    (hlast : sent.Pairwise fun a _ => a.packet.header.isRepair = false)
    (hpace : 2 ≤ sent.length → p.codec.frameDurationMs.toNat ≤ 2 * p.frameDurationMs.toNat ∧
      p.frameDurationMs.toNat ≤ 2 * p.codec.frameDurationMs.toNat) (t : ℤ) :
    within Emission.time wireBytes t (t + second) sent ≤ ceilingBps p.codec / 8 := by
  have hnone : ∀ e ∈ sent, ¬ e.packet.header.isRepair = true := fun e he hrepair =>
    absurd (hopus.symm.trans (wireBytes_repair h e he hrepair).1).symm Bool.false_ne_true
  by_cases hshort : sent.length ≤ 1
  · refine (within_le_of_short hshort (fun e he => (wireBytes_source h e he
      (eq_false_of_ne_true (hnone e he))).1) t _).trans ?_
    exact (opus_limit hopus).2.2
  · obtain ⟨hlow, hhigh⟩ := hpace (by omega)
    obtain ⟨n, hle, hn⟩ := within_le (r := 0) h hlast
      (fun e he hsource => (wireBytes_source h e he hsource).2)
      (fun e he hrepair => absurd hrepair (hnone e he)) t (t + second)
    have hms := frames_of_second hn
    have hfew := few_frames hlow hms
    have hbytes : n * (16 + p.codec.bitrateBps.toNat * p.frameDurationMs.toNat / 8000) * 8000 ≤
        n * 128000 + p.codec.bitrateBps.toNat * (n * p.frameDurationMs.toNat) := by
      have hdiv := Nat.div_mul_le_self (p.codec.bitrateBps.toNat * p.frameDurationMs.toNat) 8000
      calc n * (16 + p.codec.bitrateBps.toNat * p.frameDurationMs.toNat / 8000) * 8000
          = n * 128000 + n * (p.codec.bitrateBps.toNat * p.frameDurationMs.toNat / 8000 * 8000) := by
            ring
        _ ≤ n * 128000 + n * (p.codec.bitrateBps.toNat * p.frameDurationMs.toNat) :=
            Nat.add_le_add_left (Nat.mul_le_mul_left n hdiv) _
        _ = n * 128000 + p.codec.bitrateBps.toNat * (n * p.frameDurationMs.toNat) := by ring
    obtain ⟨hframe, hceiling, -⟩ := opus_limit hopus
    have hspan : p.codec.bitrateBps.toNat * (n * p.frameDurationMs.toNat) ≤
        p.codec.bitrateBps.toNat * (999 + p.frameDurationMs.toNat) :=
      Nat.mul_le_mul_left _ (by omega)
    refine hle.trans (le_trans ?_ hceiling)
    rcases hframe with ⟨hframe, hrate⟩ | ⟨hframe, hrate⟩
    · have hlong : p.codec.bitrateBps.toNat * (999 + p.frameDurationMs.toNat) ≤
          p.codec.bitrateBps.toNat * 1039 := Nat.mul_le_mul_left _ (by omega)
      rw [hframe] at hfew
      omega
    · have hlong : p.codec.bitrateBps.toNat * (999 + p.frameDurationMs.toNat) ≤
          p.codec.bitrateBps.toNat * 1079 := Nat.mul_le_mul_left _ (by omega)
      rw [hframe] at hfew
      omega

/-- Speech stays within the bucket of an audio session. -/
theorem audio_curbed (h : Numbered p (SpeechPayload p) seq k sent)
    (hvideo : p.codec.isVideo = false)
    (hlast : sent.Pairwise fun a _ => a.packet.header.isRepair = false)
    (hlow : 2 ≤ sent.length → p.codec.frameDurationMs.toNat ≤ 2 * p.frameDurationMs.toNat) :
    Curbed Emission.time wireBytes capacity rate sent := by
  intro t u htu
  have hbitrate : p.codec.bitrateBps.toNat ≤ 64000 ∧ payloadSizeBound p.codec ≤ 320 ∧
      20 ≤ p.codec.frameDurationMs.toNat := by
    revert hvideo
    cases p.codec <;> decide
  have hbytes : (within Emission.time wireBytes t (u + 1) sent : ℤ) * 1000000 ≤
      1920000 * 1000000 + 32 * (u - t) := by
    by_cases hshort : sent.length ≤ 1
    · have hlight : ∀ e ∈ sent, wireBytes e ≤ 336 := by
        intro e he
        by_cases hrepair : e.packet.header.isRepair = true
        · rw [(wireBytes_repair h e he hrepair).2]
          decide
        · have hsource := (wireBytes_source h e he (eq_false_of_ne_true hrepair)).1
          omega
      have hle := within_le_of_short hshort hlight t (u + 1)
      omega
    · have hframe := hlow (by omega)
      -- a frame refills the bucket by more than it takes
      have hlight : ∀ e ∈ sent, e.packet.header.isRepair = false →
          wireBytes e ≤ 32 * p.frameDurationMs.toNat := by
        intro e he hsource
        have hnominal := (wireBytes_source h e he hsource).2
        have hrate : p.codec.bitrateBps.toNat * p.frameDurationMs.toNat ≤
            64000 * p.frameDurationMs.toNat := Nat.mul_le_mul_right _ hbitrate.1
        omega
      obtain ⟨n, hle, hn⟩ := within_le h hlast hlight
        (fun e he hrepair => (wireBytes_repair h e he hrepair).2.le) t (u + 1)
      have hms : p.frameDurationMs.toNat < 256 := p.frameDurationMs.toNat_lt
      unfold frameTime at hn
      have hpaid : (n * (32 * p.frameDurationMs.toNat) : ℤ) * 1000000 ≤
          32 * (u + 1 - t + p.frameDurationMs.toNat * 1000000) := by
        rcases hn with rfl | hn
        · push_cast
          omega
        · push_cast at hn
          linarith
      have hle' : (within Emission.time wireBytes t (u + 1) sent : ℤ) ≤
          n * (32 * p.frameDurationMs.toNat) + 272 := by exact_mod_cast hle
      omega
  have hcast : (within Emission.time wireBytes t (u + 1) sent : ℚ) * 1000000 ≤
      1920000 * 1000000 + 32 * (u - t) := by exact_mod_cast hbytes
  unfold capacity rate
  linarith

/-! ## Smoothed sizes -/

theorem smooth_passes {codec : CodecId} {y : ℚ} (hy : y ≤ payloadSizeBound codec)
    (hlast : sent.Pairwise fun a _ => a.packet.header.isRepair = false)
    (hsource : ∀ e ∈ sent, e.packet.header.isRepair = false →
      e.packet.payload.length ≤ payloadSizeBound codec)
    (hrepair : ∀ e ∈ sent, e.packet.header.isRepair = true →
      e.packet.payload.length ≤ 21 * payloadSizeBound codec) :
    EachStep smoothed (Smooth codec) y sent := by
  induction sent generalizing y with
  | nil => trivial
  | cons e es ih =>
      obtain ⟨hnone, htail⟩ := List.pairwise_cons.mp hlast
      have hbound : (0 : ℚ) ≤ payloadSizeBound codec := Nat.cast_nonneg _
      by_cases hrep : e.packet.header.isRepair = true
      · -- nothing follows
        have hnil : es = [] := List.eq_nil_iff_forall_not_mem.mpr fun x hx =>
          absurd ((hrep.symm.trans (hnone x hx)).symm) Bool.false_ne_true
        subst hnil
        have hlen : (e.packet.payload.length : ℚ) ≤ 21 * payloadSizeBound codec := by
          exact_mod_cast hrepair e List.mem_cons_self hrep
        refine ⟨?_, trivial⟩
        unfold Smooth smoothed
        push_cast
        linarith
      · have hlen : (e.packet.payload.length : ℚ) ≤ payloadSizeBound codec := by
          exact_mod_cast hsource e List.mem_cons_self (eq_false_of_ne_true hrep)
        have hnext : smoothed y e ≤ payloadSizeBound codec := by
          unfold smoothed
          linarith
        refine ⟨?_, ih hnext htail (fun x hx => hsource x (List.mem_cons_of_mem e hx))
          (fun x hx => hrepair x (List.mem_cons_of_mem e hx))⟩
        unfold Smooth
        push_cast
        linarith

/-! ## Streams that are never flagged -/

theorem numbered_nonneg {P : Buf → Prop} (h : Numbered p P 0 0 sent) : ∀ e ∈ sent, 0 ≤ e.time := by
  intro e he
  have hlow := (numbered_inOrder h).1 e he
  rwa [Nat.zero_sub, Nat.cast_zero, zero_mul] at hlow

theorem meterable_of_neverFlags {P : Buf → Prop} (h : Numbered p P 0 0 sent)
    (hnever : NeverFlags sent) : Meterable p sent := by
  have hcodec := numbered_codec h
  have htiers := fun lead observed (hsub : observed.Sublist sent) =>
    (accepts_iff (fun e he => hcodec e (hsub.subset he)) lead).mp (hnever lead observed hsub)
  have horder := (numbered_inOrder h).2
  have hnonneg := numbered_nonneg h
  -- any two packets may be the only ones that arrive
  have hsteady : sent.Pairwise fun a b => Steady p.codec (stamps a) (stamps b) :=
    List.pairwise_iff_forall_sublist.mpr fun hab =>
      near_of_passes (by decide) (htiers 0 _ hab).2.2.1
  obtain ⟨hpace, hunwrapped⟩ := paced_of_steady h hsteady
  constructor
  · exact repairLast_of_steady h hsteady
  · exact hpace
  · exact hunwrapped
  · intro _ t
    refine within_le_of_passes horder (fun e he => ?_) (htiers second _ List.filter_sublist).1
    have := hnonneg e he
    change -(second : ℤ) + second ≤ e.time
    omega
  · intro _
    exact curbed_of_bucket_passes (by unfold capacity; norm_num) (by unfold rate; norm_num) horder
      hnonneg (htiers 0 sent (List.Sublist.refl sent)).2.2.2.2

theorem neverFlags_of_meterable (h : Numbered p (SpeechPayload p) 0 0 sent)
    (hmeter : Meterable p sent) : NeverFlags sent := by
  intro lead observed hsub
  have hcodec := numbered_codec h
  have hlast := hmeter.repairLast
  have horder := (numbered_inOrder h).2.sublist hsub
  have hstart : ∀ e ∈ observed, -(lead : ℤ) ≤ e.time := fun e he => by
    have := numbered_nonneg h e (hsub.subset he)
    omega
  have hceiling : ∀ t, within Emission.time wireBytes t (t + second) sent ≤
      ceilingBps p.codec / 8 := by
    cases hopus : p.codec.isOpus with
    | false => exact hmeter.ceiling hopus
    | true => exact opus_ceiling h hopus hlast hmeter.pace
  have hcurbed : Curbed Emission.time wireBytes capacity rate sent := by
    cases hvideo : p.codec.isVideo with
    | false => exact audio_curbed h hvideo hlast fun hlen => (hmeter.pace hlen).1
    | true => exact hmeter.cap hvideo
  have hpackets := packets_of_second h hlast fun hlen => (hmeter.pace hlen).1
  have hsmall : ∀ e ∈ observed, e.packet.header.isRepair = true →
      e.packet.payload.length ≤ 21 * payloadSizeBound p.codec := by
    intro e he hrepair
    have hbytes := (wireBytes_repair h e (hsub.subset he) hrepair).2
    have hbound : 16 ≤ payloadSizeBound p.codec := by cases p.codec <;> decide
    unfold wireBytes MediaHeader.wireSize at hbytes
    omega
  rw [accepts_iff (fun e he => hcodec e (hsub.subset he))]
  refine ⟨?_, ?_, ?_, ?_, ?_⟩
  · exact window_passes (by decide) horder hstart
      (fun t => (within_le_of_sublist hsub).trans (hceiling t))
      (by rw [Nat.zero_add]; exact (within_le_of_sublist hsub).trans (hceiling _))
  · exact window_passes (by decide) horder hstart
      (fun t => (within_le_of_sublist hsub).trans (hpackets t))
      (by rw [Nat.zero_add]; exact (within_le_of_sublist hsub).trans (hpackets _))
  · have hsteady := (steady_of_paced h hlast hmeter.pace hmeter.unwrapped).sublist hsub
    exact trail_passes (List.pairwise_map.mpr hsteady)
  · exact smooth_passes (Nat.cast_nonneg _) (hlast.sublist hsub)
      (fun e he hsource => Nat.le_of_add_le_add_left
        (wireBytes_source h e (hsub.subset he) hsource).1) hsmall
  · exact bucket_passes_of_paid horder hstart (hcurbed.sublist hsub) fun u =>
      hcurbed.sublist hsub (-lead) u

end Stream

/-- Speech is never flagged exactly when it keeps the pace of its codec, sends no
repair packet but at its very end, lasts less than the timestamps count and, if
it is not Opus, fits the ceiling with its headers. -/
theorem neverFlags_iff {rq : RaptorQ} (hrq : RepairSized rq) (config : CallConfig)
    (fs : List SpeechFrame) (hspeech : ∀ f ∈ fs, SpeechPayload config.profile f.payload) :
    NeverFlags (CallEncoder.emit rq config fs) ↔
      Meterable config.profile (CallEncoder.emit rq config fs) :=
  have h := numbered_emit hrq config hspeech
  ⟨meterable_of_neverFlags h, neverFlags_of_meterable h⟩

/-- Opus frames of 60 bytes at 24 kbps. -/
theorem opus_never_flagged : NeverFlags (CallEncoder.emit blankRepair .default
    (List.replicate 3 ⟨none, List.replicate 60 0⟩)) :=
  (neverFlags_iff blankRepair_sized .default (List.replicate 3 ⟨none, List.replicate 60 0⟩)
    (by decide)).mpr
    ⟨by decide, fun _ => by decide, by decide, fun h => (nomatch h), fun h => (nomatch h)⟩

/-- With the profile for the worst networks, the second repair packet of the
first block is flagged. -/
theorem repair_flagged :
    (∀ f ∈ List.replicate 8 (⟨none, List.replicate 6 0⟩ : SpeechFrame),
      SpeechPayload .catastrophic f.payload) ∧
    ¬ NeverFlags (CallEncoder.emit blankRepair { CallConfig.default with profile := .catastrophic }
      (List.replicate 8 ⟨none, List.replicate 6 0⟩)) := by
  refine ⟨by decide, fun h => absurd (h 0 _ (List.Sublist.refl _)) ?_⟩
  decide +kernel

end ConformanceMeter
end Wzp.Relay
