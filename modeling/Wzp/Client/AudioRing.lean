import Wzp.Lib.Rings

/-!
# The audio ring of the client

The producer writes over what has not been read. The consumer finds out when it compares the
cursors, and goes on at the oldest sample that is left. The cursors never come back to the
start of the ring, only the cells do.
-/
namespace Wzp.Client

def ringCapacity : UInt64 := 16384
def ringMask : UInt64 := ringCapacity - 1

structure AudioRing where
  buf : List Int16
  writePos : UInt64
  readPos : UInt64
  overflowCount : UInt64
  underrunCount : UInt64

namespace AudioRing

def new : AudioRing := ⟨List.replicate ringCapacity.toNat 0, 0, 0, 0, 0⟩

/-- The cell of the `i`-th sample from a cursor on. -/
def cell (pos : UInt64) (i : ℕ) : ℕ := ((pos + UInt64.ofNat i) &&& ringMask).toNat

def storeFrom (w : UInt64) : ℕ → List Int16 → List Int16 → Option (List Int16)
  | _, [], buf => some buf
  | i, sample :: rest, buf => (Rings.store buf (cell w i) sample).bind (storeFrom w (i + 1) rest)

def loadFrom (buf : List Int16) (r : UInt64) : ℕ → ℕ → Option (List Int16)
  | _, 0 => some []
  | i, n + 1 => buf[cell r i]?.bind fun sample => (loadFrom buf r (i + 1) n).map (sample :: ·)

def available (ring : AudioRing) : UInt64 := min (ring.writePos - ring.readPos) ringCapacity

def write (ring : AudioRing) (samples : List Int16) : Option (AudioRing × ℕ) :=
  let count := min samples.length ringCapacity.toNat
  (storeFrom ring.writePos 0 (samples.take count) ring.buf).map fun buf =>
    ({ ring with buf, writePos := ring.writePos + UInt64.ofNat count }, count)

/-- The rest of a read, once it is known where the unread samples begin. -/
def readFrom (ring : AudioRing) (r avail : UInt64) (out : List Int16) :
    Option (AudioRing × List Int16 × ℕ) :=
  let count := min out.length avail.toNat
  if count = 0 then
    if ring.writePos = r then
      some ({ ring with underrunCount := ring.underrunCount + 1 }, out, 0)
    else some (ring, out, 0)
  else
    (loadFrom ring.buf r 0 count).map fun samples =>
      ({ ring with readPos := r + UInt64.ofNat count }, samples ++ out.drop count, count)

def read (ring : AudioRing) (out : List Int16) : Option (AudioRing × List Int16 × ℕ) :=
  let avail := ring.writePos - ring.readPos
  if avail > ringCapacity then
    { ring with overflowCount := ring.overflowCount + 1 }.readFrom
      (ring.writePos - ringCapacity) ringCapacity out
  else ring.readFrom ring.readPos avail out

end AudioRing

/-! ## Calls -/

inductive AudioCall where
  | write (samples : List Int16)
  | read (out : List Int16)

inductive AudioAnswer where
  | wrote (count : ℕ)
  | filled (out : List Int16) (count : ℕ)
  deriving DecidableEq

def AudioRing.call (ring : AudioRing) : AudioCall → Option (AudioRing × AudioAnswer)
  | .write samples => (ring.write samples).map fun r => (r.1, .wrote r.2)
  | .read out => (ring.read out).map fun r => (r.1, .filled r.2.1 r.2.2)

/-- What a write takes of its samples. -/
def AudioCall.written : AudioCall → List Int16
  | .write samples => samples.take ringCapacity.toNat
  | .read _ => []

/-- A queue that forgets its oldest samples. -/
structure LossyQueue where
  written : List Int16
  /-- The position of the next unread sample in the stream. -/
  next : ℕ
  /-- The positions of the samples that reads returned. -/
  returned : List ℕ
  /-- The reads that skipped samples. -/
  skips : ℕ

namespace LossyQueue

def empty : LossyQueue := ⟨[], 0, [], 0⟩

/-- The next unread sample, or the oldest of those that are left. -/
def start (queue : LossyQueue) : ℕ := max queue.next (queue.written.length - ringCapacity.toNat)

def call (queue : LossyQueue) : AudioCall → LossyQueue × AudioAnswer
  | .write samples =>
      let taken := samples.take ringCapacity.toNat
      ({ queue with written := queue.written ++ taken }, .wrote taken.length)
  | .read out =>
      let samples := (queue.written.drop queue.start).take out.length
      ({ queue with
          next := queue.start + samples.length
          returned := queue.returned ++ List.range' queue.start samples.length
          skips := queue.skips + if queue.next < queue.start then 1 else 0 },
        .filled (samples ++ out.drop samples.length) samples.length)

end LossyQueue

end Wzp.Client
