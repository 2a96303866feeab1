import Wzp.Lib.Rings
import Wzp.Lib.Runs

/-!
# The echo canceller

Far-end samples pass a delay line before they reach the reference of the
adaptive filter. Both are circular buffers.
-/
namespace Wzp.Codec
open Runs

structure EchoCanceller where
  filter : List Float32
  filterLen : ℕ
  farBuf : List Float32
  farPos : ℕ
  mu : Float32
  leak : Float32
  enabled : Bool
  delayRing : List Float32
  delayWrite : ℕ
  delayRead : ℕ
  delaySamples : ℕ
  delayCap : ℕ
  farPeak : Float32
  geigelThreshold : Float32
  dtdHoldover : ℕ
  dtdHoldFrames : ℕ

/-- The samples in so many milliseconds. -/
def samplesIn (sampleRate ms : ℕ) : ℕ := sampleRate * ms / 1000

def sampleF32 (s : Int16) : Float32 := Float32.ofInt s.toInt

namespace EchoCanceller

def withDelay (sampleRate filterMs delayMs : ℕ) : EchoCanceller :=
  let filterLen := samplesIn sampleRate filterMs
  let delaySamples := samplesIn sampleRate delayMs
  let delayCap := delaySamples + sampleRate / 10
  { filter := List.replicate filterLen 0
    filterLen
    farBuf := List.replicate filterLen 0
    farPos := 0
    mu := 0.01
    leak := 0.0001
    enabled := true
    delayRing := List.replicate delayCap 0
    delayWrite := 0
    delayRead := 0
    delaySamples
    delayCap
    farPeak := 0
    geigelThreshold := 0.7
    dtdHoldover := 0
    dtdHoldFrames := 5 }

def reset (aec : EchoCanceller) : EchoCanceller :=
  { aec with
    filter := List.replicate aec.filter.length 0
    farBuf := List.replicate aec.farBuf.length 0
    farPos := 0
    farPeak := 0
    delayRing := List.replicate aec.delayRing.length 0
    delayWrite := 0
    delayRead := 0
    dtdHoldover := 0 }

def setEnabled (aec : EchoCanceller) (enabled : Bool) : EchoCanceller := { aec with enabled }

/-! ## Feeding the far end -/

def writeRaw (aec : EchoCanceller) (s : Int16) : EchoCanceller :=
  { aec with
    delayRing := aec.delayRing.set (aec.delayWrite % aec.delayCap) (sampleF32 s)
    delayWrite := aec.delayWrite + 1 }

def delayAvailable (aec : EchoCanceller) : ℕ := aec.delayWrite - aec.delayRead - aec.delaySamples

def oldest (aec : EchoCanceller) : Float32 :=
  aec.delayRing.getD (aec.delayRead % aec.delayCap) 0

def release (aec : EchoCanceller) : EchoCanceller :=
  { aec with
    delayRead := aec.delayRead + 1
    farBuf := aec.farBuf.set aec.farPos aec.oldest
    farPos := (aec.farPos + 1) % aec.filterLen
    farPeak := if aec.oldest.abs > aec.farPeak then aec.oldest.abs else aec.farPeak }

/-- The loop of releases, while a sample is available. -/
def drain : ℕ → EchoCanceller → EchoCanceller
  | 0, aec => aec
  | fuel + 1, aec => if 1 ≤ aec.delayAvailable then drain fuel aec.release else aec

/-- What the loop writes into the reference. -/
def drained : ℕ → EchoCanceller → List Float32
  | 0, _ => []
  | fuel + 1, aec => if 1 ≤ aec.delayAvailable then aec.oldest :: drained fuel aec.release else []

def writeAll (aec : EchoCanceller) (farend : List Int16) : EchoCanceller :=
  farend.foldl writeRaw aec

/-- Each release leaves one sample fewer, so the loop needs no more rounds than there are samples. -/
def feedFarend (aec : EchoCanceller) (farend : List Int16) : EchoCanceller :=
  let aec := aec.writeAll farend
  let aec := drain aec.delayAvailable aec
  { aec with farPeak := aec.farPeak * 0.9995 }

/-- The samples one call releases. -/
def releases (aec : EchoCanceller) (farend : List Int16) : List Float32 :=
  drained (aec.writeAll farend).delayAvailable (aec.writeAll farend)

/-! ## Processing the near end -/

/-- The cell of the far end's "now" for sample `i` of `n`. -/
def base (aec : EchoCanceller) (n i : ℕ) : ℕ :=
  (aec.farPos + aec.filterLen * (n / aec.filterLen + 2) + i - n) % aec.filterLen

def feIdx (aec : EchoCanceller) (n i k : ℕ) : ℕ :=
  (aec.base n i + aec.filterLen - k) % aec.filterLen

/-- The far-end value that goes with `filter[k]`. -/
def fe (aec : EchoCanceller) (n i k : ℕ) : Float32 := aec.farBuf.getD (aec.feIdx n i k) 0

/-- The echo estimate and the power of the reference. -/
def estimate (aec : EchoCanceller) (n i : ℕ) : Float32 × Float32 :=
  (List.range aec.filterLen).foldl
    (fun acc k => (acc.1 + aec.filter.getD k 0 * aec.fe n i k, acc.2 + aec.fe n i k * aec.fe n i k))
    (0, 0)

def adapt (aec : EchoCanceller) (n i : ℕ) (step : Float32) : EchoCanceller :=
  { aec with filter := aec.filter.mapIdx fun k c => c + step * aec.fe n i k }

def clampSample (x : Float32) : Float32 :=
  if x < -32768 then -32768 else if x > 32767 then 32767 else x

/-- What the loop over the near end carries along. -/
structure Progress where
  aec : EchoCanceller
  out : List Int16
  sumNearSq : Float
  sumErrSq : Float

def processSample (adapting : Bool) (n : ℕ) (p : Progress) (i : ℕ) (sample : Int16) : Progress :=
  let near := sampleF32 sample
  let estimate := p.aec.estimate n i
  let error := near - estimate.1
  let aec := if adapting ∧ estimate.2 > 10
    then p.aec.adapt n i (p.aec.mu * error / (estimate.2 + 1)) else p.aec
  let out := clampSample error
  { aec
    out := p.out ++ [out.toInt16]
    sumNearSq := p.sumNearSq + near.toFloat * near.toFloat
    sumErrSq := p.sumErrSq + out.toFloat * out.toFloat }

def processSamples (adapting : Bool) (n : ℕ) : Progress → ℕ → List Int16 → Progress
  | p, _, [] => p
  | p, i, s :: rest => processSamples adapting n (processSample adapting n p i s) (i + 1) rest

/-- The holdover is set by a near end too loud for an echo, and lasts a few frames. -/
def detectDoubletalk (aec : EchoCanceller) (nearend : List Int16) : Bool × EchoCanceller :=
  let loud := nearend.any fun s =>
    (sampleF32 s).abs > aec.geigelThreshold * aec.farPeak ∧ aec.farPeak > 100
  let held : Bool := aec.dtdHoldover > 0
  let holdover := if !held && loud then aec.dtdHoldFrames else aec.dtdHoldover
  (held || loud, { aec with dtdHoldover := holdover - 1 })

/-- Whether the filter adapts in this frame, and the canceller its first sample finds. -/
def beginFrame (aec : EchoCanceller) (nearend : List Int16) : Bool × EchoCanceller :=
  let detected := aec.detectDoubletalk nearend
  let aec := detected.2
  let decay := 1 - aec.leak
  (aec.farPeak > 100 ∧ !detected.1, { aec with filter := aec.filter.map (· * decay) })

/-- The loop, stopped before sample `i`. -/
def progressAt (aec : EchoCanceller) (nearend : List Int16) (i : ℕ) : Progress :=
  let begun := aec.beginFrame nearend
  processSamples begun.1 nearend.length ⟨begun.2, [], 0, 0⟩ 0 (nearend.take i)

/-- The echo return loss, the canceller afterwards and the frame it leaves. -/
def processFrame (aec : EchoCanceller) (nearend : List Int16) :
    Float32 × EchoCanceller × List Int16 :=
  if !aec.enabled then (1, aec, nearend)
  else
    let p := aec.progressAt nearend nearend.length
    (if p.sumErrSq < 1 then 100 else (p.sumNearSq / p.sumErrSq).sqrt.toFloat32, p.aec, p.out)

/-! ## What processing leaves alone -/

/-- The delay line and the reference. -/
structure SameLine (aec aec' : EchoCanceller) : Prop where
  filterLen : aec'.filterLen = aec.filterLen
  farBuf : aec'.farBuf = aec.farBuf
  farPos : aec'.farPos = aec.farPos
  delayRing : aec'.delayRing = aec.delayRing
  delayWrite : aec'.delayWrite = aec.delayWrite
  delayRead : aec'.delayRead = aec.delayRead
  delaySamples : aec'.delaySamples = aec.delaySamples
  delayCap : aec'.delayCap = aec.delayCap

variable {aec aec' aec'' : EchoCanceller}

theorem SameLine.rfl : SameLine aec aec := by constructor <;> exact Eq.refl _

theorem SameLine.trans (h : SameLine aec aec') (h' : SameLine aec' aec'') : SameLine aec aec'' where
  filterLen := h'.filterLen.trans h.filterLen
  farBuf := h'.farBuf.trans h.farBuf
  farPos := h'.farPos.trans h.farPos
  delayRing := h'.delayRing.trans h.delayRing
  delayWrite := h'.delayWrite.trans h.delayWrite
  delayRead := h'.delayRead.trans h.delayRead
  delaySamples := h'.delaySamples.trans h.delaySamples
  delayCap := h'.delayCap.trans h.delayCap

theorem processSample_sameLine (adapting : Bool) (n : ℕ) (p : Progress) (i : ℕ) (s : Int16) :
    SameLine p.aec (processSample adapting n p i s).aec := by
  simp only [processSample]
  split
  · exact ⟨rfl, rfl, rfl, rfl, rfl, rfl, rfl, rfl⟩
  · exact SameLine.rfl

theorem processSamples_sameLine (adapting : Bool) (n : ℕ) (p : Progress) (i : ℕ) (l : List Int16) :
    SameLine p.aec (processSamples adapting n p i l).aec := by
  induction l generalizing p i with
  | nil => exact SameLine.rfl
  | cons s rest ih => exact (processSample_sameLine adapting n p i s).trans (ih _ _)

theorem progressAt_sameLine (aec : EchoCanceller) (nearend : List Int16) (i : ℕ) :
    SameLine aec (aec.progressAt nearend i).aec := by
  refine SameLine.trans ?_ (processSamples_sameLine _ _ _ _ _)
  exact ⟨rfl, rfl, rfl, rfl, rfl, rfl, rfl, rfl⟩

theorem processFrame_sameLine (aec : EchoCanceller) (nearend : List Int16) :
    SameLine aec (aec.processFrame nearend).2.1 := by
  rw [processFrame]
  split
  · exact SameLine.rfl
  · exact progressAt_sameLine aec nearend nearend.length

end EchoCanceller

/-! ## A run of the canceller -/

inductive Call where
  | feed (farend : List Int16)
  | process (nearend : List Int16)
  | setEnabled (enabled : Bool)
  | reset

/-- The call feeds at most `room` samples. -/
def Call.Fits (room : ℕ) (c : Call) : Prop := ∀ farend, c = .feed farend → farend.length ≤ room

/-- The canceller, with what was fed to it and what it has released since the last reset. -/
structure Line where
  aec : EchoCanceller
  fed : List Float32
  released : List Float32

namespace Line
open EchoCanceller

def start (sampleRate filterMs delayMs : ℕ) : Line := ⟨withDelay sampleRate filterMs delayMs, [], []⟩

def step (l : Line) : Call → Line
  | .feed farend =>
      { aec := l.aec.feedFarend farend
        fed := l.fed ++ farend.map sampleF32
        released := l.released ++ l.aec.releases farend }
  | .process nearend => { l with aec := (l.aec.processFrame nearend).2.1 }
  | .setEnabled enabled => { l with aec := l.aec.setEnabled enabled }
  | .reset => ⟨l.aec.reset, [], []⟩

/-! ## The reference holds what was released -/

/-- The reference of the filter is a circular buffer of the released samples. -/
structure Referenced (n : ℕ) (aec : EchoCanceller) (released : List Float32) : Prop where
  filterLen : aec.filterLen = n
  farBuf_length : aec.farBuf.length = n
  farPos : aec.farPos = released.length % n
  holds : Rings.Holds 0 aec.farBuf released

variable {n : ℕ} {aec aec' : EchoCanceller} {released : List Float32}

theorem Referenced.of_sameLine (h : Referenced n aec released) (hsame : SameLine aec aec') :
    Referenced n aec' released where
  filterLen := hsame.filterLen.trans h.filterLen
  farBuf_length := by
    rw [hsame.farBuf]
    exact h.farBuf_length
  farPos := hsame.farPos.trans h.farPos
  holds := by
    rw [hsame.farBuf]
    exact h.holds

theorem Referenced.release (h : Referenced n aec released) :
    Referenced n aec.release (released ++ [aec.oldest]) where
  filterLen := h.filterLen
  farBuf_length := by
    rw [EchoCanceller.release, List.length_set]
    exact h.farBuf_length
  farPos := by
    rw [EchoCanceller.release, h.filterLen, h.farPos, Nat.mod_add_mod, List.length_append,
      List.length_singleton]
  holds := by
    have hpush := h.holds.push aec.oldest
    rw [h.farBuf_length, ← h.farPos] at hpush
    exact hpush

theorem Referenced.drain (h : Referenced n aec released) (fuel : ℕ) :
    Referenced n (drain fuel aec) (released ++ drained fuel aec) := by
  induction fuel generalizing aec released with
  | zero =>
      rw [drained, List.append_nil]
      exact h
  | succ fuel ih =>
      rw [EchoCanceller.drain, drained]
      split
      · have hnext := ih h.release
        rw [List.append_assoc] at hnext
        exact hnext
      · rw [List.append_nil]
        exact h

theorem Referenced.writeAll (h : Referenced n aec released) (farend : List Int16) :
    Referenced n (aec.writeAll farend) released := by
  induction farend generalizing aec with
  | nil => exact h
  | cons s rest ih => exact ih ⟨h.filterLen, h.farBuf_length, h.farPos, h.holds⟩

theorem referenced_start (sampleRate filterMs delayMs : ℕ) :
    Referenced (samplesIn sampleRate filterMs) (withDelay sampleRate filterMs delayMs) [] where
  filterLen := rfl
  farBuf_length := List.length_replicate
  farPos := (Nat.zero_mod _).symm
  holds := Rings.holds_nil _ 0

theorem Referenced.reset (h : Referenced n aec released) : Referenced n aec.reset [] where
  filterLen := h.filterLen
  farBuf_length := by
    rw [EchoCanceller.reset, List.length_replicate]
    exact h.farBuf_length
  farPos := (Nat.zero_mod _).symm
  holds := Rings.holds_nil _ 0

theorem referenced_step {l : Line} (h : Referenced n l.aec l.released) (c : Call) :
    Referenced n (l.step c).aec (l.step c).released := by
  cases c with
  | feed farend =>
      have hdrain := (h.writeAll farend).drain (l.aec.writeAll farend).delayAvailable
      exact ⟨hdrain.filterLen, hdrain.farBuf_length, hdrain.farPos, hdrain.holds⟩
  | process nearend => exact h.of_sameLine (processFrame_sameLine l.aec nearend)
  | setEnabled enabled => exact ⟨h.filterLen, h.farBuf_length, h.farPos, h.holds⟩
  | reset => exact h.reset

theorem referenced_run {l : Line} (h : Referenced n l.aec l.released) (calls : List Call) :
    Referenced n (run step l calls).aec (run step l calls).released := by
  induction calls generalizing l with
  | nil => exact h
  | cons c calls ih => exact ih (referenced_step h c)

/-! ## The delay line releases what was fed, a fixed number of samples late -/

/-- While the loop of releases runs, no sample it has not released is overwritten. -/
structure Draining (fed : List Float32) (aec : EchoCanceller) (released : List Float32) : Prop where
  delayRing_length : aec.delayRing.length = aec.delayCap
  delayWrite : aec.delayWrite = fed.length
  delayRead : aec.delayRead = released.length
  holds : Rings.Holds 0 aec.delayRing fed
  inOrder : released = fed.take released.length
  retained : fed.length ≤ released.length + aec.delayCap

variable {fed : List Float32} {delay room fuel : ℕ} {l : Line}

theorem Draining.oldest (h : Draining fed aec released) (hlt : released.length < fed.length) :
    released ++ [aec.oldest] = fed.take (released.length + 1) := by
  have hcell := h.holds.recent released.length hlt (by
    rw [h.delayRing_length]
    exact h.retained)
  have holdest : aec.oldest = fed[released.length] := by
    rw [EchoCanceller.oldest, h.delayRead, ← h.delayRing_length, List.getD_eq_getElem?_getD, hcell,
      List.getElem?_eq_getElem hlt, Option.getD_some]
  rw [holdest, List.take_add_one, List.getElem?_eq_getElem hlt, ← h.inOrder]
  rfl

theorem Draining.release (h : Draining fed aec released) (hlt : released.length < fed.length) :
    Draining fed aec.release (released ++ [aec.oldest]) where
  delayRing_length := h.delayRing_length
  delayWrite := h.delayWrite
  delayRead := by
    rw [EchoCanceller.release, List.length_append, List.length_singleton, h.delayRead]
  holds := h.holds
  inOrder := by
    rw [List.length_append, List.length_singleton]
    exact h.oldest hlt
  retained := by
    have hretained := h.retained
    rw [List.length_append, List.length_singleton]
    change fed.length ≤ released.length + 1 + aec.delayCap
    omega

theorem Draining.available (h : Draining fed aec released) :
    aec.delayAvailable = fed.length - released.length - aec.delaySamples := by
  rw [delayAvailable, h.delayWrite, h.delayRead]

/-- The loop stops when exactly the delay is left. -/
theorem Draining.drain (h : Draining fed aec released)
    (hle : released.length ≤ fed.length - aec.delaySamples) (hfuel : aec.delayAvailable ≤ fuel) :
    Draining fed (drain fuel aec) (released ++ drained fuel aec) ∧
      (released ++ drained fuel aec).length = fed.length - aec.delaySamples := by
  induction fuel generalizing aec released with
  | zero =>
      have havail := h.available
      rw [drained, List.append_nil]
      exact ⟨h, by omega⟩
  | succ fuel ih =>
      have havail := h.available
      rw [EchoCanceller.drain, drained]
      split
      · next hpos =>
          have hnext := h.release (by omega)
          have havail' := hnext.available
          have hlength : (released ++ [aec.oldest]).length = released.length + 1 := by
            rw [List.length_append, List.length_singleton]
          have hsamples : aec.release.delaySamples = aec.delaySamples := rfl
          have hrest := ih hnext (by omega) (by omega)
          rw [List.append_assoc] at hrest
          exact hrest
      · rw [List.append_nil]
        exact ⟨h, by omega⟩

/-- Between calls: the line holds back the delay, and has room for one more call. -/
structure Delayed (delay room : ℕ) (l : Line) : Prop where
  delaySamples : l.aec.delaySamples = delay
  delayCap : l.aec.delayCap = delay + room
  delayRing_length : l.aec.delayRing.length = l.aec.delayCap
  delayWrite : l.aec.delayWrite = l.fed.length
  delayRead : l.aec.delayRead = l.released.length
  holds : Rings.Holds 0 l.aec.delayRing l.fed
  released : l.released = l.fed.take (l.fed.length - delay)

theorem Delayed.released_length (h : Delayed delay room l) :
    l.released.length = l.fed.length - delay := by
  have hlength := congrArg List.length h.released
  rw [List.length_take] at hlength
  omega

theorem writeAll_eq (aec : EchoCanceller) (hlen : aec.delayRing.length = aec.delayCap)
    (farend : List Int16) :
    aec.writeAll farend = { aec with
      delayRing := Rings.write aec.delayRing aec.delayWrite (farend.map sampleF32)
      delayWrite := aec.delayWrite + farend.length } := by
  induction farend generalizing aec with
  | nil => rfl
  | cons s rest ih =>
      have hset : (aec.writeRaw s).delayRing.length = (aec.writeRaw s).delayCap := by
        rw [writeRaw, List.length_set]
        exact hlen
      have hrest := ih (aec.writeRaw s) hset
      rw [EchoCanceller.writeAll, List.foldl_cons]
      rw [EchoCanceller.writeAll] at hrest
      rw [hrest, List.map_cons, Rings.write, List.length_cons, hlen, writeRaw, Nat.add_assoc,
        Nat.add_comm 1]

/-- Writing the whole call before anything is released overwrites nothing that waits. -/
theorem Delayed.writeAll (h : Delayed delay room l) {farend : List Int16} (hroom : farend.length ≤ room) :
    Draining (l.fed ++ farend.map sampleF32) (l.aec.writeAll farend) l.released := by
  have hcount := h.released_length
  have hcap := h.delayCap
  have hle : l.released.length ≤ l.fed.length := by omega
  rw [writeAll_eq l.aec h.delayRing_length]
  refine ⟨?_, ?_, h.delayRead, ?_, ?_, ?_⟩
  · rw [Rings.write_length]
    exact h.delayRing_length
  · rw [List.length_append, List.length_map, h.delayWrite]
  · rw [h.delayWrite]
    exact h.holds.write _
  · rw [List.take_append_of_le_length hle, hcount]
    exact h.released
  · rw [List.length_append, List.length_map]
    change _ ≤ l.released.length + l.aec.delayCap
    omega

theorem drain_delaySamples (fuel : ℕ) (aec : EchoCanceller) :
    (EchoCanceller.drain fuel aec).delaySamples = aec.delaySamples ∧
      (EchoCanceller.drain fuel aec).delayCap = aec.delayCap := by
  induction fuel generalizing aec with
  | zero => exact ⟨rfl, rfl⟩
  | succ fuel ih =>
      rw [EchoCanceller.drain]
      split
      · exact ih aec.release
      · exact ⟨rfl, rfl⟩

theorem Delayed.feed (h : Delayed delay room l) {farend : List Int16} (hroom : farend.length ≤ room) :
    Delayed delay room (l.step (.feed farend)) := by
  have hsamples : (l.aec.writeAll farend).delaySamples = l.aec.delaySamples := by
    rw [writeAll_eq l.aec h.delayRing_length]
  have hcap : (l.aec.writeAll farend).delayCap = l.aec.delayCap := by
    rw [writeAll_eq l.aec h.delayRing_length]
  have hcount := h.released_length
  have hstart : l.released.length ≤
      (l.fed ++ farend.map sampleF32).length - (l.aec.writeAll farend).delaySamples := by
    rw [List.length_append, hsamples, h.delaySamples]
    omega
  obtain ⟨hdrained, hlength⟩ := (h.writeAll hroom).drain hstart (Nat.le_refl _)
  obtain ⟨hsamples', hcap'⟩ :=
    drain_delaySamples (l.aec.writeAll farend).delayAvailable (l.aec.writeAll farend)
  refine ⟨(hsamples'.trans hsamples).trans h.delaySamples, (hcap'.trans hcap).trans h.delayCap,
    hdrained.delayRing_length, hdrained.delayWrite, hdrained.delayRead, hdrained.holds, ?_⟩
  have hreleased := hdrained.inOrder
  rw [hlength, hsamples, h.delaySamples] at hreleased
  exact hreleased

theorem Delayed.of_sameLine (h : Delayed delay room l) (hsame : SameLine l.aec aec) :
    Delayed delay room { l with aec } where
  delaySamples := hsame.delaySamples.trans h.delaySamples
  delayCap := hsame.delayCap.trans h.delayCap
  delayRing_length := by
    rw [hsame.delayRing, hsame.delayCap]
    exact h.delayRing_length
  delayWrite := hsame.delayWrite.trans h.delayWrite
  delayRead := hsame.delayRead.trans h.delayRead
  holds := by
    rw [hsame.delayRing]
    exact h.holds
  released := h.released

theorem delayed_step (h : Delayed delay room l) {c : Call} (hc : c.Fits room) : Delayed delay room (l.step c) := by
  cases c with
  | feed farend => exact h.feed (hc farend rfl)
  | process nearend => exact h.of_sameLine (processFrame_sameLine l.aec nearend)
  | setEnabled enabled => exact h.of_sameLine ⟨rfl, rfl, rfl, rfl, rfl, rfl, rfl, rfl⟩
  | reset =>
      refine ⟨h.delaySamples, h.delayCap, ?_, rfl, rfl, Rings.holds_nil _ 0, List.take_nil.symm⟩
      change (List.replicate _ _).length = _
      rw [List.length_replicate]
      exact h.delayRing_length

theorem delayed_start (sampleRate filterMs delayMs : ℕ) :
    Delayed (samplesIn sampleRate delayMs) (sampleRate / 10) (start sampleRate filterMs delayMs) :=
  ⟨rfl, rfl, List.length_replicate, rfl, rfl, Rings.holds_nil _ 0, List.take_nil.symm⟩

/-- The samples released are the first of those fed, the others wait in the ring,
and the reference holds the last released. -/
structure Exact (filterLen delaySamples : ℕ) (l : Line) : Prop where
  released : l.released = l.fed.take (l.fed.length - delaySamples)
  waiting : ∀ j < l.fed.length, l.released.length ≤ j →
    l.aec.delayRing[j % l.aec.delayCap]? = l.fed[j]?
  farBuf_length : l.aec.farBuf.length = filterLen
  farPos_lt : l.aec.farPos < filterLen
  last : Rings.EndsAt l.aec.farBuf l.aec.farPos l.released

theorem Delayed.exact (h : Delayed delay room l) (href : Referenced n l.aec l.released) (hn : 1 ≤ n) :
    Exact n delay l where
  released := h.released
  waiting j hj hwaits := by
    have hcount := h.released_length
    have hcap := h.delayCap
    rw [← h.delayRing_length]
    exact h.holds.recent j hj (by
      rw [h.delayRing_length]
      omega)
  farBuf_length := href.farBuf_length
  farPos_lt := by
    rw [href.farPos]
    exact Nat.mod_lt _ hn
  last := by
    have hends := href.holds.endsAt
    rw [href.farBuf_length, ← href.farPos] at hends
    exact hends

theorem delayLine_exact (sampleRate filterMs delayMs : ℕ) (hrate : 10 ≤ sampleRate)
    (hfilter : 1 ≤ samplesIn sampleRate filterMs) (calls : List Call)
    (hcalls : ∀ c ∈ calls, c.Fits (sampleRate / 10)) :
    Throughout step
      (fun l => 0 < l.aec.delayCap ∧
        Exact (samplesIn sampleRate filterMs) (samplesIn sampleRate delayMs) l)
      (start sampleRate filterMs delayMs) calls := by
  have hrun : Throughout step
      (fun l => Delayed (samplesIn sampleRate delayMs) (sampleRate / 10) l ∧
        Referenced (samplesIn sampleRate filterMs) l.aec l.released)
      (start sampleRate filterMs delayMs) calls := by
    have hfits : EachStep step (fun _ c => c.Fits (sampleRate / 10))
        (start sampleRate filterMs delayMs) calls := eachStep_of_forall fun c hc _ => hcalls c hc
    refine throughout_of_eachStep ?_ ?_ hfits
    · intro l c h hc
      exact ⟨delayed_step h.1 hc, referenced_step h.2 c⟩
    · exact ⟨delayed_start sampleRate filterMs delayMs, referenced_start sampleRate filterMs delayMs⟩
  refine hrun.mono fun l h => ⟨?_, h.1.exact h.2 hfilter⟩
  have hcap := h.1.delayCap
  omega

theorem delayLine_exact_calls :
    Throughout step (fun l => 0 < l.aec.delayCap ∧ Exact 20 40 l) (start 1000 20 40)
      [.feed (List.replicate 60 1), .process [5, 6], .feed (List.replicate 100 2), .reset,
        .feed (List.replicate 41 3)] := by
  refine delayLine_exact 1000 20 40 (by decide) (by decide) _ fun c hc farend heq => ?_
  subst heq
  simp only [List.mem_cons, List.not_mem_nil, Call.feed.injEq, reduceCtorEq, false_or, or_false] at hc
  rcases hc with rfl | rfl | rfl <;> decide

end Line
end Wzp.Codec
