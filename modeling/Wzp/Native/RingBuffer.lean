import Wzp.Lib.Rings

/-!
# The ring buffer of the native backend

Samples go between the audio callbacks and the call through a ring with two signed cursors.
One cell stays free, so that a full ring is not taken for an empty one.
-/
namespace Wzp.Native

structure RingBuffer where
  buf : List Int16
  capacity : ℕ
  writeIdx : Int32
  readIdx : Int32

/-- The cast to a 64-bit size, which keeps the sign bits. -/
def asUsize (x : Int32) : ℕ := (x.toInt % 2 ^ 64).toNat

/-- A subtraction of sizes, which must not underflow. -/
def checkedSub (a b : ℕ) : Option ℕ := if b ≤ a then some (a - b) else none

/-- The cursor behind cell `i`. -/
def advance (cap i : ℕ) : ℕ := if cap ≤ i + 1 then 0 else i + 1

def storeFrom (cap : ℕ) : List Int16 → ℕ → List Int16 → Option (List Int16 × ℕ)
  | buf, w, [] => some (buf, w)
  | buf, w, sample :: rest =>
      (Rings.store buf w sample).bind fun buf => storeFrom cap buf (advance cap w) rest

/-- The samples of `n` reads through the raw pointer. -/
def loadFrom (cap : ℕ) (buf : List Int16) : ℕ → ℕ → Option (List Int16 × ℕ)
  | r, 0 => some ([], r)
  | r, n + 1 =>
      buf[r]?.bind fun sample =>
        (loadFrom cap buf (advance cap r) n).map fun rest => (sample :: rest.1, rest.2)

namespace RingBuffer

def new (capacity : ℕ) : RingBuffer := ⟨List.replicate capacity 0, capacity, 0, 0⟩

def availableRead (rb : RingBuffer) : ℕ :=
  let avail := rb.writeIdx - rb.readIdx
  if avail < 0 then asUsize (avail + Int32.ofNat rb.capacity) else asUsize avail

def availableWrite (rb : RingBuffer) : Option ℕ :=
  (checkedSub rb.capacity 1).bind fun n => checkedSub n rb.availableRead

def write (rb : RingBuffer) (data : List Int16) : Option (RingBuffer × ℕ) :=
  rb.availableWrite.bind fun room =>
    let count := min data.length room
    if count = 0 then some (rb, 0)
    else
      (storeFrom rb.capacity rb.buf (asUsize rb.writeIdx) (data.take count)).map fun r =>
        ({ rb with buf := r.1, writeIdx := Int32.ofNat r.2 }, count)

/-- Fills the first samples of `out`, as many as there are. -/
def read (rb : RingBuffer) (out : List Int16) : Option (RingBuffer × List Int16 × ℕ) :=
  let count := min out.length rb.availableRead
  if count = 0 then some (rb, out, 0)
  else
    (loadFrom rb.capacity rb.buf (asUsize rb.readIdx) count).map fun r =>
      ({ rb with readIdx := Int32.ofNat r.2 }, r.1 ++ out.drop count, count)

end RingBuffer

/-! ## Calls -/

inductive RingCall where
  | write (data : List Int16)
  | read (out : List Int16)

inductive RingAnswer where
  | wrote (count : ℕ)
  | filled (out : List Int16) (count : ℕ)
  deriving DecidableEq

def RingBuffer.call (rb : RingBuffer) : RingCall → Option (RingBuffer × RingAnswer)
  | .write data => (rb.write data).map fun r => (r.1, .wrote r.2)
  | .read out => (rb.read out).map fun r => (r.1, .filled r.2.1 r.2.2)

/-- The queue: what fits of the data is appended, what is read is removed from the front. -/
def queueCall (limit : ℕ) (queue : List Int16) : RingCall → List Int16 × RingAnswer
  | .write data =>
      let fits := data.take (limit - queue.length)
      (queue ++ fits, .wrote fits.length)
  | .read out =>
      let oldest := queue.take out.length
      (queue.drop out.length, .filled (oldest ++ out.drop oldest.length) oldest.length)

end Wzp.Native
