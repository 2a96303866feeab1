import Wzp.Client.CallPlayer
import Wzp.Proto.CompactStream

/-!
# The compact framing of a call

The encoder of a call frames its packets compactly if the configuration says so, else it
sends them as they are. The decoder takes every datagram for a compact frame.
-/
namespace Wzp.Client
open Bytes Proto MediaPacket

/-- What the encoder of a call serializes its packets by. -/
structure CallSerializer where
  miniContext : MiniFrameContext
  miniFramesEnabled : Bool
  framesSinceFull : UInt32

namespace CallSerializer

def new (miniFramesEnabled : Bool) : CallSerializer := ⟨{}, miniFramesEnabled, 0⟩

def serializeCompact (s : CallSerializer) (packet : MediaPacket) : Buf × CallSerializer :=
  if s.miniFramesEnabled then
    let (buf, miniContext, framesSinceFull) :=
      packet.encodeCompact s.miniContext s.framesSinceFull
    (buf, { s with miniContext, framesSinceFull })
  else (packet.toBytes, s)

end CallSerializer

/-! ## A call's packets in order -/
section
variable (config : CallConfig) (miniFramesEnabled : Bool) (sent : ℕ → MediaPacket)

/-- The encoder before packet `i`. -/
def serializerAt : ℕ → CallSerializer
  | 0 => .new miniFramesEnabled
  | i + 1 => ((serializerAt i).serializeCompact (sent i)).2

def wire (i : ℕ) : Buf := ((serializerAt miniFramesEnabled sent i).serializeCompact (sent i)).1

/-- The decoder before datagram `i`. -/
def playerAt : ℕ → CallPlayer
  | 0 => .new config
  | i + 1 => ((playerAt i).deserializeCompact (wire miniFramesEnabled sent i)).2

def deserialized (i : ℕ) : Option MediaPacket :=
  ((playerAt config miniFramesEnabled sent i).deserializeCompact (wire miniFramesEnabled sent i)).1

/-- The first `n` packets come out as they went in. -/
def RoundTrips (n : ℕ) : Prop :=
  ∀ i < n, deserialized config miniFramesEnabled sent i = some (sent i)

/-- The packet survives the frame it is put into: a full one as long as its header announces
its report, a mini one if it has no report and the payload's length fits. -/
def Survives (i : ℕ) : Prop :=
  if i % 50 = 0 then (sent i).WellFormed
  else (sent i).qualityReport = none ∧ (sent i).payload.length < 2 ^ 16

variable {config miniFramesEnabled sent}

/-! ### Compact frames -/

theorem serializerAt_mini (i : ℕ) :
    serializerAt true sent i = ⟨(encoderAt sent i).1, true, (encoderAt sent i).2⟩ := by
  induction i with
  | zero => rfl
  | succ i ih =>
      rw [serializerAt, ih]
      rfl

theorem wire_mini (i : ℕ) : wire true sent i = datagram sent i := by
  rw [wire, serializerAt_mini]
  rfl

variable (config) in
theorem playerAt_mini (i : ℕ) :
    (playerAt config true sent i).miniContext = receiverAt sent (fun _ => true) i := by
  induction i with
  | zero => rfl
  | succ i ih =>
      rw [playerAt, wire_mini, receiverAt_keep sent _ rfl, ← ih]
      rfl

theorem deserialized_mini (i : ℕ) :
    deserialized config true sent i = received sent (fun _ => true) i := by
  rw [deserialized, wire_mini, received_keep sent _ rfl, ← playerAt_mini config]
  rfl

theorem received_full_iff {i : ℕ} (hi : i % 50 = 0) :
    received sent (fun _ => true) i = some (sent i) ↔ (sent i).WellFormed := by
  rw [received_full sent _ rfl hi, fromBytes_eq_some_iff]
  exact and_iff_left rfl

/-- A mini frame over its predecessor's header. -/
theorem received_mini_iff {i : ℕ} (hi : (i + 1) % 50 ≠ 0)
    (hsteady : Continues (sent i).header (sent (i + 1)).header)
    (hbaseline : (receiverAt sent (fun _ => true) (i + 1)).last = some (sent i).header) :
    received sent (fun _ => true) (i + 1) = some (sent (i + 1)) ↔
      (sent (i + 1)).qualityReport = none ∧ (sent (i + 1)).payload.length < 2 ^ 16 := by
  have hlength : ((sent (i + 1)).miniHeader (sent i).header).payloadLen.toNat =
      (sent (i + 1)).payload.length % 2 ^ 16 := UInt16.toNat_ofNat'
  have htake : (sent (i + 1)).payload.take ((sent (i + 1)).payload.length % 2 ^ 16) =
      (sent (i + 1)).payload ↔ (sent (i + 1)).payload.length < 2 ^ 16 := by
    constructor
    · intro h
      have hlengths := congrArg List.length h
      rw [List.length_take] at hlengths
      omega
    · exact fun h => List.take_of_length_le (Nat.mod_eq_of_lt h).ge
  rw [received_mini sent _ rfl hi hbaseline, (applyDelta_eq_iff _ _).mpr hsteady, hlength,
    Option.some_inj, ← htake]
  constructor
  · intro h
    exact ⟨(congrArg MediaPacket.qualityReport h).symm, congrArg MediaPacket.payload h⟩
  · rintro ⟨hreport, hpayload⟩
    rw [hpayload, ← hreport]

/-- The baseline of each packet comes from those before it being right. -/
theorem roundTrips_mini {n : ℕ}
    (hsteady : ∀ i, i + 1 < n → Continues (sent i).header (sent (i + 1)).header) :
    (∀ i < n, received sent (fun _ => true) i = some (sent i)) ↔ ∀ i < n, Survives sent i := by
  have hone : ∀ i < n, (∀ j < i, received sent (fun _ => true) j = some (sent j)) →
      (received sent (fun _ => true) i = some (sent i) ↔ Survives sent i) := by
    intro i hi hbefore
    rw [Survives]
    split
    · next hfull => exact received_full_iff hfull
    · next hmini =>
        obtain ⟨j, rfl⟩ : ∃ j, i = j + 1 := ⟨i - 1, by omega⟩
        exact received_mini_iff hmini (hsteady j hi) (lossFree_baseline sent hbefore)
  constructor
  · intro h i hi
    exact (hone i hi fun j hj => h j (by omega)).mp (h i hi)
  · intro h i
    induction i using Nat.strongRecOn with
    | ind i ih =>
        intro hi
        exact (hone i hi fun j hj => ih j hj (by omega)).mpr (h i hi)

/-! ### Packets as they are -/

/-- A mini frame finds no baseline, and other types are refused. -/
theorem decodeCompact_first {frameType : UInt8} (h : frameType ≠ frameTypeFull) (rest : Buf) :
    (decodeCompact (frameType :: rest) {}).1 = none := by
  rw [decodeCompact]
  dsimp only
  rw [if_neg h]
  split
  · split
    · rfl
    · cases MiniHeader.readFrom rest with
      | none => rfl
      | some found =>
          dsimp only
          split <;> rfl
  · rfl

/-- The version stands where the frame type is looked for. Where it is the type of a full
frame, what is decoded has the version that headers are read with. -/
theorem decodeCompact_toBytes (p : MediaPacket) : (decodeCompact p.toBytes {}).1 ≠ some p := by
  have hcons : p.toBytes = p.header.version :: p.toBytes.tail := rfl
  rw [hcons]
  by_cases hfull : p.header.version = frameTypeFull
  · rw [hfull, decodeCompact]
    dsimp only
    rw [if_pos rfl]
    cases hdecoded : fromBytes p.toBytes.tail with
    | none => exact fun h => Option.some_ne_none p h.symm
    | some pkt =>
        intro h
        obtain rfl := Option.some.inj h
        rw [(fromBytes_wellFormed hdecoded).version] at hfull
        exact absurd hfull (by decide)
  · rw [decodeCompact_first hfull]
    exact fun h => Option.some_ne_none p h.symm

theorem deserialized_plain : deserialized config false sent 0 ≠ some (sent 0) :=
  decodeCompact_toBytes (sent 0)

end

/-- Packets whose headers continue one another come back exactly if there are none, or if mini
frames are enabled and each survives its frame. -/
theorem roundTrips_iff (config : CallConfig) (miniFramesEnabled : Bool) (sent : ℕ → MediaPacket)
    (n : ℕ) (hsteady : ∀ i, i + 1 < n → Continues (sent i).header (sent (i + 1)).header) :
    RoundTrips config miniFramesEnabled sent n ↔
      n = 0 ∨ miniFramesEnabled = true ∧ ∀ i < n, Survives sent i := by
  cases miniFramesEnabled with
  | true =>
      simp only [RoundTrips, deserialized_mini, true_and]
      rw [roundTrips_mini hsteady]
      refine (or_iff_right_of_imp ?_).symm
      rintro rfl i hi
      exact absurd hi (Nat.not_lt_zero i)
  | false =>
      rw [or_iff_left fun h => Bool.false_ne_true h.1]
      constructor
      · intro h
        by_contra hn
        exact deserialized_plain (h 0 (Nat.pos_of_ne_zero hn))
      · rintro rfl i hi
        exact absurd hi (Nat.not_lt_zero i)

theorem steadyStream_roundTrips : RoundTrips .default true steadyStream 60 :=
  (roundTrips_iff .default true steadyStream 60 fun i _ => steadyStream_continues i).mpr
    (Or.inr ⟨rfl, fun i _ => by
      rw [Survives]
      split
      · exact steadyStream_wellFormed i
      · exact ⟨rfl, (by decide : 3 < 2 ^ 16)⟩⟩)

/-- Without mini frames not even the first packet comes back. -/
theorem plain_not_roundTrips : ¬ RoundTrips .default false steadyStream 1 := by
  intro h
  exact absurd (h 0 Nat.one_pos) (by decide)

end Wzp.Client
