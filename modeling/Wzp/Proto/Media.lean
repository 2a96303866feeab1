import Mathlib.Tactic.Common

/-!
# Media types and codec identifiers

The two byte-sized enumerations of the v2 media header. Both decoders are
partial: an unassigned byte is refused, never mapped to a default.
-/
namespace Wzp.Proto

inductive MediaType where
  | audio
  | video
  | data
  | control
  deriving DecidableEq, Repr

def MediaType.toWire : MediaType → UInt8
  | .audio => 0
  | .video => 1
  | .data => 2
  | .control => 3

def MediaType.fromWire (v : UInt8) : Option MediaType :=
  match v with
  | 0 => some .audio
  | 1 => some .video
  | 2 => some .data
  | 3 => some .control
  | _ => none

@[simp] theorem MediaType.fromWire_toWire (m : MediaType) : fromWire m.toWire = some m := by
  cases m <;> rfl

theorem MediaType.toWire_of_fromWire {v : UInt8} {m : MediaType} (h : fromWire v = some m) :
    m.toWire = v := by
  unfold fromWire at h
  split at h
  all_goals cases h
  all_goals rfl

inductive CodecId where
  | opus24k
  | opus16k
  | opus6k
  | codec2_3200
  | codec2_1200
  | comfortNoise
  | opus32k
  | opus48k
  | opus64k
  | h264Baseline
  | av1Main
  | h265Main
  deriving DecidableEq, Repr

/-- The discriminants; 10 and everything from 13 on are reserved. -/
def CodecId.toWire : CodecId → UInt8
  | .opus24k => 0
  | .opus16k => 1
  | .opus6k => 2
  | .codec2_3200 => 3
  | .codec2_1200 => 4
  | .comfortNoise => 5
  | .opus32k => 6
  | .opus48k => 7
  | .opus64k => 8
  | .h264Baseline => 9
  | .av1Main => 12
  | .h265Main => 11

def CodecId.fromWire (val : UInt8) : Option CodecId :=
  match val with
  | 0 => some .opus24k
  | 1 => some .opus16k
  | 2 => some .opus6k
  | 3 => some .codec2_3200
  | 4 => some .codec2_1200
  | 5 => some .comfortNoise
  | 6 => some .opus32k
  | 7 => some .opus48k
  | 8 => some .opus64k
  | 9 => some .h264Baseline
  | 11 => some .h265Main
  | 12 => some .av1Main
  | _ => none

@[simp] theorem CodecId.fromWire_toWire (c : CodecId) : fromWire c.toWire = some c := by
  cases c <;> rfl

theorem CodecId.toWire_of_fromWire {v : UInt8} {c : CodecId} (h : fromWire v = some c) :
    c.toWire = v := by
  unfold fromWire at h
  split at h
  all_goals cases h
  all_goals rfl

end Wzp.Proto
