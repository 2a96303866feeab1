import Mathlib.Algebra.Order.Ring.Rat
import Mathlib.Data.List.ReduceOption
import Wzp.Lib.Answers
import Wzp.Lib.Rings
import Wzp.Lib.Windows

/-!
# The audio worklets of the browser client

The capture worklet cuts what the microphone delivers into frames of 20 ms. The playback
worklet keeps what comes from the network in a ring until the loudspeaker asks for it.
Samples are the rationals that single-precision numbers are.
-/
namespace Wzp.Web
open Answers

def frameSize : ℕ := 960

/-- A sample for the network; the product is cut off towards zero. -/
def toInt16 (s : ℚ) : Int16 :=
  if s < -1 then -32768
  else if 1 < s then 32767
  else Int16.ofInt ((s * 32767).num.tdiv (s * 32767).den)

def toFloat (sample : Int16) : ℚ := sample.toInt / 32768

/-! ## Capture -/

structure CaptureProcessor where
  ring : List ℚ
  writePos : ℕ
  deriving DecidableEq

namespace CaptureProcessor

def new : CaptureProcessor := ⟨List.replicate (frameSize * 4) 0, 0⟩

/-- Twice the room, for what has been written. -/
def enlarge (p : CaptureProcessor) : CaptureProcessor :=
  let kept := p.ring.take p.writePos
  { p with ring := kept ++ List.replicate (p.ring.length * 2 - kept.length) 0 }

/-- Writes a block, which must fit. -/
def set (p : CaptureProcessor) (samples : List ℚ) : Option CaptureProcessor :=
  if p.ring.length < p.writePos + samples.length then none
  else some
    { ring := p.ring.take p.writePos ++ samples ++ p.ring.drop (p.writePos + samples.length)
      writePos := p.writePos + samples.length }

/-- Moves `count` samples from `source` on to the start of the ring. -/
def copyWithin (ring : List ℚ) (source count : ℕ) : List ℚ :=
  (ring.drop source).take count ++ ring.drop count

/-- The loop that posts the whole frames; each turn takes at least one sample. -/
def drainLoop : ℕ → CaptureProcessor → CaptureProcessor × List (List Int16)
  | 0, p => (p, [])
  | fuel + 1, p =>
      if frameSize ≤ p.writePos then
        let pcm := (p.ring.take frameSize).map toInt16
        let writePos := p.writePos - frameSize
        let ring := if 0 < writePos then copyWithin p.ring frameSize writePos else p.ring
        let (rest, frames) := drainLoop fuel ⟨ring, writePos⟩
        (rest, pcm :: frames)
      else (p, [])

def drain (p : CaptureProcessor) : CaptureProcessor × List (List Int16) := drainLoop p.writePos p

/-- One call with the samples of the first channel, if there is an input. It fails where
the worklet throws. -/
def process (p : CaptureProcessor) : Option (List ℚ) →
    Option (CaptureProcessor × List (List Int16))
  | none => some (p, [])
  | some samples =>
      let p := if p.ring.length < p.writePos + samples.length then p.enlarge else p
      (p.set samples).map drain

end CaptureProcessor

/-! ## Playback -/

structure PlaybackProcessor where
  ring : List ℚ
  readPos : ℕ
  writePos : ℕ
  deriving DecidableEq

namespace PlaybackProcessor

/-- About 120 ms. -/
def maxBuffered : ℕ := frameSize * 6

def new : PlaybackProcessor := ⟨List.replicate (frameSize * 8) 0, 0, 0⟩

def available (p : PlaybackProcessor) : ℕ :=
  if p.readPos ≤ p.writePos then p.writePos - p.readPos
  else p.ring.length - p.readPos + p.writePos

/-- The cell behind cell `i`. -/
def next (size i : ℕ) : ℕ := if size ≤ i + 1 then 0 else i + 1

/-- Twice the room. The caller says how many samples are taken to be in it. -/
def enlarge (p : PlaybackProcessor) (count : ℕ) : PlaybackProcessor :=
  let kept := if p.readPos ≤ p.writePos then (p.ring.take p.writePos).drop p.readPos
    else p.ring.drop p.readPos ++ p.ring.take p.writePos
  { ring := kept ++ List.replicate (p.ring.length * 2 - kept.length) 0
    readPos := 0
    writePos := count }

def store (p : PlaybackProcessor) : List ℚ → PlaybackProcessor
  | [] => p
  | x :: rest =>
      store { p with ring := p.ring.set p.writePos x, writePos := next p.ring.length p.writePos } rest

/-- A message from the network. What is buffered is counted before the overflow drops it,
and the ring is enlarged for that count. -/
def onMessage (p : PlaybackProcessor) (pcm : List Int16) : PlaybackProcessor :=
  let available := p.available
  let p := if maxBuffered < available + pcm.length then { p with readPos := p.writePos } else p
  let p := if p.ring.length < pcm.length + available + 128 then p.enlarge available else p
  p.store (pcm.map toFloat)

/-- The next samples, with the cell behind them. -/
def load (ring : List ℚ) : ℕ → ℕ → List ℚ × ℕ
  | r, 0 => ([], r)
  | r, n + 1 =>
      let (rest, last) := load ring (next ring.length r) n
      (ring.getD r 0 :: rest, last)

/-- Fills an output of this many samples, with silence behind what there is. -/
def process (p : PlaybackProcessor) (needed : ℕ) : PlaybackProcessor × List ℚ :=
  let count := min needed p.available
  let (samples, readPos) := load p.ring p.readPos count
  ({ p with readPos }, samples ++ List.replicate (needed - count) 0)

end PlaybackProcessor

/-! ## What the capture worklet posts -/
namespace CaptureProcessor
open Windows (blocks rest blocks_of_lt blocks_of_le blocks_append rest_length)

theorem frameSize_pos : 0 < frameSize := by decide

/-- The ring begins with the samples that wait. -/
structure CaptureView (p : CaptureProcessor) (pending : List ℚ) : Prop where
  writePos : p.writePos = pending.length
  front : p.ring.take pending.length = pending
  size : frameSize * 4 ≤ p.ring.length

variable {p : CaptureProcessor} {pending : List ℚ}

theorem captureView_new : CaptureView new [] where
  writePos := rfl
  front := rfl
  size := by rw [new, List.length_replicate]

theorem CaptureView.fits (h : CaptureView p pending) : pending.length ≤ p.ring.length := by
  have hlen := congrArg List.length h.front
  rw [List.length_take] at hlen
  omega

theorem CaptureView.enlarge (h : CaptureView p pending) :
    CaptureView p.enlarge pending ∧ p.enlarge.ring.length = p.ring.length * 2 := by
  have hfits := h.fits
  have hkept : p.ring.take p.writePos = pending := by rw [h.writePos, h.front]
  have hlen : p.enlarge.ring.length = p.ring.length * 2 := by
    simp only [CaptureProcessor.enlarge, hkept, List.length_append, List.length_replicate]
    omega
  refine ⟨⟨h.writePos, ?_, ?_⟩, hlen⟩
  · simp only [CaptureProcessor.enlarge, hkept, List.take_left']
  · have hsize := h.size
    omega

theorem CaptureView.set (h : CaptureView p pending) {samples : List ℚ}
    (hroom : pending.length + samples.length ≤ p.ring.length) :
    ∃ p', p.set samples = some p' ∧ CaptureView p' (pending ++ samples) := by
  have hkept : p.ring.take p.writePos = pending := by rw [h.writePos, h.front]
  refine ⟨_, if_neg (by rw [h.writePos]; omega), ?_, ?_, ?_⟩
  · rw [h.writePos, List.length_append]
  · simp only [hkept, List.take_left']
  · have hsize := h.size
    simp only [hkept]
    simp only [h.writePos, List.length_append, List.length_drop]
    omega

/-- One turn of the loop takes the first frame off. -/
theorem CaptureView.shift (h : CaptureView p pending) (hle : frameSize ≤ pending.length) :
    CaptureView
      ⟨if 0 < p.writePos - frameSize then copyWithin p.ring frameSize (p.writePos - frameSize)
        else p.ring, p.writePos - frameSize⟩
      (pending.drop frameSize) := by
  have hfits := h.fits
  have hsize := h.size
  refine ⟨?_, ?_, ?_⟩
  · rw [h.writePos, List.length_drop]
  · rw [h.writePos, List.length_drop]
    split
    · have hfront : (p.ring.drop frameSize).take (pending.length - frameSize) =
          pending.drop frameSize := by
        rw [← List.drop_take, h.front]
      rw [copyWithin, hfront, List.take_left' (by rw [List.length_drop])]
    · have hnil : pending.length - frameSize = 0 := by omega
      rw [hnil, List.take_zero, List.drop_eq_nil_of_le (by omega)]
  · rw [h.writePos]
    split
    · simp only [copyWithin, List.length_append, List.length_take, List.length_drop]
      omega
    · exact hsize

theorem drainLoop_eq (h : CaptureView p pending) {fuel : ℕ} (hfuel : p.writePos ≤ fuel) :
    (drainLoop fuel p).2 = (blocks frameSize pending).map (List.map toInt16) ∧
      CaptureView (drainLoop fuel p).1 (rest frameSize pending) := by
  have hpos := frameSize_pos
  induction fuel generalizing p pending with
  | zero =>
      have hnil : pending = [] := List.eq_nil_of_length_eq_zero (by
        rw [← h.writePos]
        omega)
      subst hnil
      obtain ⟨hblocks, hrest⟩ := blocks_of_lt (s := ([] : List ℚ)) hpos
      rw [hblocks, hrest]
      exact ⟨rfl, h⟩
  | succ fuel ih =>
      rw [drainLoop]
      by_cases hle : frameSize ≤ p.writePos
      · rw [h.writePos] at hle
        obtain ⟨hblocks, hrest⟩ := blocks_of_le hpos hle
        obtain ⟨hframes, hview⟩ := ih (h.shift hle) (by
          simp only
          omega)
        rw [if_pos (by rw [h.writePos]; exact hle), hblocks, hrest, List.map_cons, ← hframes,
          ← h.front, List.take_take, Nat.min_eq_left hle, h.front]
        exact ⟨rfl, hview⟩
      · rw [if_neg hle]
        rw [h.writePos] at hle
        obtain ⟨hblocks, hrest⟩ := blocks_of_lt (Nat.lt_of_not_le hle)
        rw [hblocks, hrest]
        exact ⟨rfl, h⟩

/-- One block: the frames that are whole now are posted, the rest waits. -/
theorem process_block (h : CaptureView p pending) (hshort : pending.length < frameSize)
    {samples : List ℚ} (hlen : samples.length ≤ frameSize * 7) :
    ∃ p', p.process (some samples) =
        some (p', (blocks frameSize (pending ++ samples)).map (List.map toInt16)) ∧
      CaptureView p' (rest frameSize (pending ++ samples)) := by
  have hsize := h.size
  have hroomy : ∃ q, CaptureView q pending ∧ pending.length + samples.length ≤ q.ring.length ∧
      p.process (some samples) = (q.set samples).map drain := by
    by_cases hfull : p.ring.length < p.writePos + samples.length
    · obtain ⟨hview, hlarger⟩ := h.enlarge
      exact ⟨p.enlarge, hview, by omega, by simp only [process, if_pos hfull]⟩
    · rw [h.writePos] at hfull
      exact ⟨p, h, by omega, by simp only [process, h.writePos, if_neg hfull]⟩
  obtain ⟨q, hview, hroom, hprocess⟩ := hroomy
  obtain ⟨q', hset, hview'⟩ := hview.set hroom
  obtain ⟨hframes, hlast⟩ := drainLoop_eq hview' (Nat.le_refl q'.writePos)
  refine ⟨(drain q').1, ?_, hlast⟩
  rw [hprocess, hset, Option.map_some, ← hframes]
  rfl

/-- A run from any state: what waits goes before the input. -/
theorem answers_process {calls : List (Option (List ℚ))} (h : CaptureView p pending)
    (hshort : pending.length < frameSize)
    (hlen : ∀ samples, some samples ∈ calls → samples.length ≤ frameSize * 7) :
    ∃ p' posted, answers process p calls = some (p', posted) ∧
      posted.flatten =
        (blocks frameSize (pending ++ calls.reduceOption.flatten)).map (List.map toInt16) ∧
      p'.ring.take p'.writePos = rest frameSize (pending ++ calls.reduceOption.flatten) := by
  induction calls generalizing p pending with
  | nil =>
      obtain ⟨hblocks, hrest⟩ := blocks_of_lt hshort
      refine ⟨p, [], rfl, ?_, ?_⟩
      · simp only [List.reduceOption_nil, List.flatten_nil, List.append_nil, hblocks, List.map_nil]
      · simp only [List.reduceOption_nil, List.flatten_nil, List.append_nil, hrest, h.writePos,
          h.front]
  | cons call calls ih =>
      have hlater : ∀ samples, some samples ∈ calls → samples.length ≤ frameSize * 7 :=
        fun samples hmem => hlen samples (List.mem_cons_of_mem _ hmem)
      cases call with
      | none =>
          obtain ⟨p', posted, hanswers, hposted, hring⟩ := ih h hshort hlater
          refine ⟨p', [] :: posted, ?_, hposted, hring⟩
          rw [answers, process, Option.bind_some, hanswers]
          rfl
      | some samples =>
          obtain ⟨q, hprocess, hview⟩ := process_block h hshort (hlen samples List.mem_cons_self)
          obtain ⟨hblocks, hrest⟩ := blocks_append frameSize_pos (pending ++ samples)
            calls.reduceOption.flatten
          have hwaits : (rest frameSize (pending ++ samples)).length < frameSize := by
            rw [rest_length]
            exact Nat.mod_lt _ frameSize_pos
          obtain ⟨p', posted, hanswers, hposted, hring⟩ := ih hview hwaits hlater
          refine ⟨p', (blocks frameSize (pending ++ samples)).map (List.map toInt16) :: posted,
            ?_, ?_, ?_⟩
          · rw [answers, hprocess, Option.bind_some, hanswers]
            rfl
          · simp only [List.reduceOption_cons_of_some, List.flatten_cons]
            rw [← List.append_assoc, hblocks, List.map_append, hposted]
          · simp only [List.reduceOption_cons_of_some, List.flatten_cons]
            rw [← List.append_assoc, hrest, hring]

/-- However the input is cut into blocks of up to seven frames: the frames posted are the
whole frames of the input in order, and less than a frame waits. -/
theorem capture_frames (calls : List (Option (List ℚ)))
    (hlen : ∀ samples, some samples ∈ calls → samples.length ≤ frameSize * 7) :
    ∃ p posted, answers process new calls = some (p, posted) ∧
      posted.flatten = (blocks frameSize calls.reduceOption.flatten).map (List.map toInt16) ∧
      p.ring.take p.writePos = rest frameSize calls.reduceOption.flatten := by
  have hrun := answers_process captureView_new frameSize_pos hlen
  rwa [List.nil_append] at hrun

/-- Blocks of 128 samples, as browsers have them. -/
theorem capture_frames_quantum :
    ∃ p posted, answers process new (List.replicate 16 (some (List.replicate 128 0))) =
        some (p, posted) ∧
      posted.flatten = (blocks frameSize (List.replicate 16
        (some (List.replicate 128 (0 : ℚ)))).reduceOption.flatten).map (List.map toInt16) ∧
      p.ring.take p.writePos = rest frameSize (List.replicate 16
        (some (List.replicate 128 (0 : ℚ)))).reduceOption.flatten := by
  refine capture_frames (List.replicate 16 (some (List.replicate 128 0))) ?_
  intro samples hmem
  obtain rfl := Option.some.inj (List.eq_of_mem_replicate hmem)
  rw [List.length_replicate]
  decide

end CaptureProcessor

/-! ## What the playback worklet plays -/

inductive PlaybackCall where
  | message (pcm : List Int16)
  | process (output : Option ℕ)
  deriving DecidableEq

/-- The samples put into the output. -/
def PlaybackProcessor.call (p : PlaybackProcessor) :
    PlaybackCall → Option (PlaybackProcessor × List ℚ)
  | .message pcm => some (p.onMessage pcm, [])
  | .process none => some (p, [])
  | .process (some needed) => some (p.process needed)

/-- What waits to be played, and the size of the ring. -/
structure PlaybackQueue where
  samples : List ℚ
  room : ℕ
  deriving DecidableEq

namespace PlaybackQueue
open PlaybackProcessor (maxBuffered)

/-- A message that would make the queue too long takes its place. Where the ring is too
small for both, as much silence as was waiting goes before the message. -/
def onMessage (q : PlaybackQueue) (pcm : List Int16) : PlaybackQueue :=
  if maxBuffered < q.samples.length + pcm.length then
    if q.room < pcm.length + q.samples.length + 128 then
      ⟨List.replicate q.samples.length 0 ++ pcm.map toFloat, q.room * 2⟩
    else { q with samples := pcm.map toFloat }
  else { q with samples := q.samples ++ pcm.map toFloat }

def call (q : PlaybackQueue) : PlaybackCall → PlaybackQueue × List ℚ
  | .message pcm => (q.onMessage pcm, [])
  | .process none => (q, [])
  | .process (some needed) =>
      ({ q with samples := q.samples.drop needed },
        q.samples.take needed ++ List.replicate (needed - q.samples.length) 0)

def new : PlaybackQueue := ⟨[], frameSize * 8⟩

end PlaybackQueue

namespace PlaybackProcessor

/-- The ring and the stream that went through it. -/
structure PlaybackView (p : PlaybackProcessor) (room : ℕ) (stream : List ℚ) (taken : ℕ) : Prop where
  length : p.ring.length = room
  large : frameSize * 8 ≤ room
  holds : Rings.Holds 0 p.ring stream
  writePos : p.writePos = stream.length % room
  readPos : p.readPos = taken % room
  taken_le : taken ≤ stream.length
  space : stream.length < taken + room

variable {p : PlaybackProcessor} {room taken : ℕ} {stream : List ℚ}

theorem playbackView_new : PlaybackView new (frameSize * 8) [] 0 where
  length := List.length_replicate
  large := Nat.le_refl _
  holds := Rings.holds_nil _ 0
  writePos := (Nat.zero_mod _).symm
  readPos := (Nat.zero_mod _).symm
  taken_le := Nat.le_refl 0
  space := by decide

theorem next_eq {size i : ℕ} (h : i < size) : next size i = (i + 1) % size := by
  unfold next
  split
  · have hlast : i + 1 = size := by omega
    rw [hlast, Nat.mod_self]
  · rw [Nat.mod_eq_of_lt (by omega)]

theorem available_eq (h : PlaybackView p room stream taken) :
    p.available = stream.length - taken := by
  have hcases := Rings.mod_cases h.taken_le h.space
  have hspace := h.space
  have htaken := h.taken_le
  have hread : taken % room < room := Nat.mod_lt _ (by omega)
  rw [available, h.writePos, h.readPos, h.length]
  split <;> omega

theorem store_eq (xs : List ℚ) (hw : p.writePos < p.ring.length) :
    p.store xs = { p with
      ring := Rings.write p.ring p.writePos xs
      writePos := (p.writePos + xs.length) % p.ring.length } := by
  induction xs generalizing p with
  | nil => simp only [store, Rings.write, List.length_nil, Nat.add_zero, Nat.mod_eq_of_lt hw]
  | cons x xs ih =>
      have hnext : next p.ring.length p.writePos < p.ring.length := by
        rw [next_eq hw]
        exact Nat.mod_lt _ (by omega)
      have hmod := Rings.write_mod (p.ring.set p.writePos x) (p.writePos + 1) xs
      rw [List.length_set, ← next_eq hw] at hmod
      rw [store, ih (by rwa [List.length_set]), hmod, List.length_set, Rings.write,
        Nat.mod_eq_of_lt hw, next_eq hw, Nat.mod_add_mod, List.length_cons, Nat.add_assoc,
        Nat.add_comm 1]

theorem load_eq {ring : List ℚ} {n r : ℕ} (hr : r < ring.length) {samples : List ℚ}
    (hread : Rings.read ring r n = some samples) :
    load ring r n = (samples, (r + n) % ring.length) := by
  induction n generalizing r samples with
  | zero =>
      obtain rfl := Option.some.inj hread
      rw [load, Nat.add_zero, Nat.mod_eq_of_lt hr]
  | succ n ih =>
      rw [Rings.read, Nat.mod_eq_of_lt hr, List.getElem?_eq_getElem hr, Option.bind_some,
        Option.map_eq_some_iff] at hread
      obtain ⟨later, hlater, rfl⟩ := hread
      have hnext : next ring.length r < ring.length := by
        rw [next_eq hr]
        exact Nat.mod_lt _ (by omega)
      have hmod := Rings.read_mod ring (r + 1) n
      rw [← next_eq hr, hlater] at hmod
      simp only [load, ih hnext hmod]
      rw [List.getD_eq_getElem?_getD, List.getElem?_eq_getElem hr, Option.getD_some, next_eq hr,
        Nat.mod_add_mod, Nat.add_assoc, Nat.add_comm 1]

/-- A message that fits goes behind the stream. -/
theorem PlaybackView.store (h : PlaybackView p room stream taken) {xs : List ℚ}
    (hfits : stream.length + xs.length < taken + room) :
    PlaybackView (p.store xs) room (stream ++ xs) taken := by
  have hspace := h.space
  have htaken := h.taken_le
  have hcell : p.writePos < p.ring.length := by
    rw [h.writePos, h.length]
    exact Nat.mod_lt _ (by omega)
  have hwrite := Rings.write_mod p.ring stream.length xs
  rw [h.length, ← h.writePos] at hwrite
  rw [store_eq xs hcell]
  refine ⟨?_, h.large, ?_, ?_, h.readPos, ?_, ?_⟩
  · rw [Rings.write_length, h.length]
  · simp only [hwrite]
    exact h.holds.write xs
  · rw [h.writePos, h.length, Nat.mod_add_mod, List.length_append]
  · rw [List.length_append]
    omega
  · rw [List.length_append]
    exact hfits

/-- The overflow leaves nothing to be read. -/
theorem PlaybackView.drop (h : PlaybackView p room stream taken) :
    PlaybackView { p with readPos := p.writePos } room stream stream.length where
  length := h.length
  large := h.large
  holds := h.holds
  writePos := h.writePos
  readPos := h.writePos
  taken_le := Nat.le_refl _
  space := by
    have hspace := h.space
    have htaken := h.taken_le
    omega

/-- After the overflow a larger ring has only silence in it. -/
theorem PlaybackView.enlarge (h : PlaybackView p room stream taken) {count : ℕ}
    (hcount : count < room * 2) :
    PlaybackView (enlarge { p with readPos := p.writePos } count) (room * 2)
      (List.replicate count 0) 0 := by
  have hring : (PlaybackProcessor.enlarge { p with readPos := p.writePos } count).ring =
      List.replicate (room * 2) 0 := by
    simp only [PlaybackProcessor.enlarge, Nat.le_refl, if_true, h.length]
    rw [List.drop_eq_nil_of_le (List.length_take_le _ _)]
    rfl
  refine ⟨?_, ?_, ?_, ?_, ?_, Nat.zero_le _, ?_⟩
  · rw [hring, List.length_replicate]
  · have hlarge := h.large
    omega
  · rw [hring]
    constructor
    · intro j hj _
      rw [List.length_replicate] at hj
      rw [List.length_replicate, List.getElem?_replicate, List.getElem?_replicate, if_pos hj,
        if_pos (Nat.mod_lt _ (by omega))]
    · intro c _ hc
      rw [List.length_replicate] at hc
      rw [List.getElem?_replicate, if_pos hc]
  · rw [List.length_replicate, Nat.mod_eq_of_lt hcount]
    rfl
  · rw [Nat.zero_mod]
    rfl
  · rw [List.length_replicate, Nat.zero_add]
    exact hcount

/-- What has not been taken from the stream is the queue. -/
def Follows (p : PlaybackProcessor) (q : PlaybackQueue) : Prop :=
  ∃ stream taken, PlaybackView p q.room stream taken ∧ stream.drop taken = q.samples

variable {q : PlaybackQueue}

theorem onMessage_follows (h : Follows p q) {pcm : List Int16} (hlen : pcm.length ≤ frameSize * 8) :
    Follows (p.onMessage pcm) (q.onMessage pcm) := by
  obtain ⟨stream, taken, hview, hqueue⟩ := h
  have hwaits : q.samples.length = stream.length - taken := by
    rw [← hqueue, List.length_drop]
  have hlarge := hview.large
  have hspace := hview.space
  have htaken := hview.taken_le
  have hmax : maxBuffered + 128 ≤ frameSize * 8 := by decide
  simp only [onMessage, PlaybackQueue.onMessage, available_eq hview, ← hwaits]
  by_cases hover : maxBuffered < q.samples.length + pcm.length
  · simp only [if_pos hover, hview.length]
    by_cases hsmall : q.room < pcm.length + q.samples.length + 128
    · simp only [if_pos hsmall]
      refine ⟨_, 0, (hview.enlarge (by omega)).store ?_, ?_⟩
      · rw [List.length_replicate, List.length_map, Nat.zero_add]
        omega
      · rw [List.drop_zero]
    · simp only [if_neg hsmall]
      refine ⟨_, stream.length, hview.drop.store ?_, ?_⟩
      · rw [List.length_map]
        omega
      · rw [List.drop_left]
  · have hroomy : ¬ p.ring.length < pcm.length + q.samples.length + 128 := by
      rw [hview.length]
      omega
    simp only [if_neg hover, if_neg hroomy]
    refine ⟨_, taken, hview.store ?_, ?_⟩
    · rw [List.length_map]
      omega
    · rw [List.drop_append_of_le_length htaken, hqueue]

theorem process_follows (h : Follows p q) (needed : ℕ) :
    (p.process needed).2 =
        q.samples.take needed ++ List.replicate (needed - q.samples.length) 0 ∧
      Follows (p.process needed).1 { q with samples := q.samples.drop needed } := by
  obtain ⟨stream, taken, hview, hqueue⟩ := h
  have hwaits : q.samples.length = stream.length - taken := by
    rw [← hqueue, List.length_drop]
  have hspace := hview.space
  have htaken := hview.taken_le
  have hread := hview.holds.read (r := taken) (n := min needed q.samples.length)
    (by rw [hview.length]; omega) (by omega)
  rw [← Rings.read_mod, hview.length, ← hview.readPos, hqueue] at hread
  have hcell : p.readPos < p.ring.length := by
    rw [hview.readPos, hview.length]
    exact Nat.mod_lt _ (by omega)
  simp only [process, available_eq hview, ← hwaits, load_eq hcell hread]
  constructor
  · have hsilence : needed - min needed q.samples.length = needed - q.samples.length := by omega
    rw [hsilence, ← List.take_take, List.take_length]
  · refine ⟨stream, taken + min needed q.samples.length, ?_, ?_⟩
    · refine ⟨hview.length, hview.large, hview.holds, hview.writePos, ?_, by omega, ?_⟩
      · rw [hview.readPos, hview.length, Nat.mod_add_mod]
      · exact hspace.trans_le (by simp only; omega)
    · rw [← List.drop_drop, hqueue]
      rcases Nat.le_total needed q.samples.length with hle | hle
      · rw [Nat.min_eq_left hle]
      · rw [Nat.min_eq_right hle, List.drop_length, List.drop_eq_nil_of_le hle]

/-- A message is no longer than the first ring. -/
def Bounded (_ : PlaybackQueue) : PlaybackCall → Prop
  | .message pcm => pcm.length ≤ frameSize * 8
  | .process _ => True

theorem call_follows (p : PlaybackProcessor) (q : PlaybackQueue) (e : PlaybackCall)
    (h : Follows p q) (hok : Bounded q e) :
    ∃ p', p.call e = some (p', (q.call e).2) ∧ Follows p' (q.call e).1 := by
  cases e with
  | message pcm => exact ⟨_, rfl, onMessage_follows h hok⟩
  | process output =>
      cases output with
      | none => exact ⟨p, rfl, h⟩
      | some needed =>
          obtain ⟨hout, hnext⟩ := process_follows h needed
          exact ⟨_, congrArg some (Prod.ext rfl hout), hnext⟩

/-- In every run with messages of at most eight frames the ring plays what the queue plays. -/
theorem playback_refines (calls : List PlaybackCall)
    (hlen : ∀ pcm, .message pcm ∈ calls → pcm.length ≤ frameSize * 8) :
    ∃ p, answers call new calls = some (p, (specAnswers PlaybackQueue.call .new calls).2) ∧
      Follows p (specAnswers PlaybackQueue.call .new calls).1 := by
  refine answers_refine call_follows ⟨[], 0, playbackView_new, rfl⟩
    (Runs.eachStep_of_forall fun e he q => ?_)
  cases e with
  | message pcm => exact hlen pcm he
  | process output => trivial

/-- Two frames, of which the loudspeaker takes a part. -/
theorem playback_refines_frames :
    ∃ p, answers call new [.message (List.replicate 960 1), .process (some 128),
        .message (List.replicate 960 2), .process none] =
      some (p, (specAnswers PlaybackQueue.call .new [.message (List.replicate 960 1),
        .process (some 128), .message (List.replicate 960 2), .process none]).2) ∧
      Follows p (specAnswers PlaybackQueue.call .new [.message (List.replicate 960 1),
        .process (some 128), .message (List.replicate 960 2), .process none]).1 := by
  refine playback_refines _ ?_
  intro pcm hmem
  simp only [List.mem_cons, List.not_mem_nil, or_false, PlaybackCall.message.injEq,
    reduceCtorEq, false_or] at hmem
  rcases hmem with rfl | rfl
  · rw [List.length_replicate]
    decide
  · rw [List.length_replicate]
    decide

end PlaybackProcessor

/-! ## Frames of ordinary size -/
namespace PlaybackQueue
open PlaybackProcessor (maxBuffered)

/-- The samples of the messages that are in the queue, none of them added by the worklet. -/
def flush (queue : List ℚ) : PlaybackCall → List ℚ × List ℚ
  | .message pcm =>
      (if maxBuffered < queue.length + pcm.length then pcm.map toFloat
        else queue ++ pcm.map toFloat, [])
  | .process none => (queue, [])
  | .process (some needed) =>
      (queue.drop needed, queue.take needed ++ List.replicate (needed - queue.length) 0)

/-- With frames this short the ring never has to grow. -/
theorem call_flush {q : PlaybackQueue} (hqueue : q.samples.length ≤ maxBuffered)
    (hroom : frameSize * 8 ≤ q.room) (e : PlaybackCall)
    (hlen : ∀ pcm, e = .message pcm → pcm.length + maxBuffered + 128 ≤ frameSize * 8) :
    (q.call e).2 = (flush q.samples e).2 ∧ (q.call e).1.samples = (flush q.samples e).1 ∧
      (q.call e).1.samples.length ≤ maxBuffered ∧ (q.call e).1.room = q.room := by
  cases e with
  | message pcm =>
      have hshort := hlen pcm rfl
      have hframe : frameSize * 8 = maxBuffered + frameSize * 2 := by decide
      have hfits : frameSize * 2 ≤ maxBuffered := by decide
      simp only [call, onMessage, flush]
      by_cases hover : maxBuffered < q.samples.length + pcm.length
      · have hroomy : ¬ q.room < pcm.length + q.samples.length + 128 := by omega
        simp only [if_pos hover, if_neg hroomy, List.length_map, true_and, and_true]
        omega
      · simp only [if_neg hover, List.length_append, List.length_map, true_and, and_true]
        omega
  | process output =>
      cases output with
      | none => exact ⟨rfl, rfl, hqueue, rfl⟩
      | some needed =>
          refine ⟨rfl, rfl, ?_, rfl⟩
          simp only [call, List.length_drop]
          omega

theorem specAnswers_flush {q : PlaybackQueue} (hqueue : q.samples.length ≤ maxBuffered)
    (hroom : frameSize * 8 ≤ q.room) {calls : List PlaybackCall}
    (hlen : ∀ pcm, .message pcm ∈ calls → pcm.length + maxBuffered + 128 ≤ frameSize * 8) :
    (specAnswers call q calls).2 = (specAnswers flush q.samples calls).2 ∧
      (specAnswers call q calls).1.samples.length ≤ maxBuffered := by
  induction calls generalizing q with
  | nil => exact ⟨rfl, hqueue⟩
  | cons e calls ih =>
      obtain ⟨hout, hsamples, hnext, hsame⟩ := call_flush hqueue hroom e
        fun pcm he => hlen pcm (he ▸ List.mem_cons_self)
      obtain ⟨houts, hlast⟩ := ih hnext (hsame ▸ hroom)
        fun pcm hmem => hlen pcm (List.mem_cons_of_mem e hmem)
      refine ⟨?_, hlast⟩
      simp only [specAnswers, hout, houts, hsamples]

end PlaybackQueue

/-- With frames of at most 1792 samples the worklet plays the messages one after another,
leaving out all that waits when more than 120 ms would wait, and adds no silence to them. -/
theorem PlaybackProcessor.playback_flushes (calls : List PlaybackCall)
    (hlen : ∀ pcm, .message pcm ∈ calls → pcm.length ≤ 1792) :
    ∃ p, answers call new calls = some (p, (specAnswers PlaybackQueue.flush [] calls).2) ∧
      p.available ≤ maxBuffered := by
  have hframe : 1792 + maxBuffered + 128 = frameSize * 8 := by decide
  obtain ⟨p, hanswers, stream, taken, hview, hqueue⟩ := playback_refines calls
    fun pcm hmem => (hlen pcm hmem).trans (by omega)
  obtain ⟨houts, hshort⟩ := PlaybackQueue.specAnswers_flush (q := .new) (Nat.zero_le _)
    (Nat.le_refl _) (fun pcm hmem => by
      have hpcm := hlen pcm hmem
      omega)
  refine ⟨p, by rw [hanswers, houts]; rfl, ?_⟩
  rw [available_eq hview, ← List.length_drop, hqueue]
  exact hshort

/-- Seven frames at once, of which the last takes the place of the others. -/
theorem PlaybackProcessor.playback_flushes_burst :
    ∃ p, answers call new (List.replicate 7 (.message (List.replicate 960 1))) =
        some (p, (specAnswers PlaybackQueue.flush []
          (List.replicate 7 (.message (List.replicate 960 1)))).2) ∧
      p.available ≤ maxBuffered := by
  refine playback_flushes _ ?_
  intro pcm hmem
  obtain rfl := PlaybackCall.message.inj (List.eq_of_mem_replicate hmem)
  rw [List.length_replicate]
  decide

end Wzp.Web
