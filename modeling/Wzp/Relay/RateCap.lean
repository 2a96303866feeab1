import Mathlib.Tactic.Ring
import Wzp.Lib.BucketBounds
import Wzp.Relay.Conformance

/-!
# The rate cap of a session

What the token bucket accepts in any interval is bounded, and it refuses nothing that the
bound would allow.
-/
namespace Wzp.Relay
open Runs RateMeters

structure ConsumeCall where
  bytes : ℕ
  now : ℤ

/-- A bucket, and the calls so far with whether they were accepted. -/
structure CappedSession where
  bucket : TokenBucket
  calls : List (ConsumeCall × Bool)

def acceptedBytes (calls : List (ConsumeCall × Bool)) : ℕ :=
  (calls.map fun c => if c.2 then c.1.bytes else 0).sum

/-- A full bucket and the refill of an interval. -/
def allowance (capacity refillPerSec : ℕ) (t u : ℤ) : ℚ :=
  capacity + refillPerSec * ((u - t) / second)

namespace CappedSession

def new (capacity refillPerSec : ℕ) (now : ℤ) : CappedSession :=
  ⟨.new capacity refillPerSec now, []⟩

def tryConsume (s : CappedSession) (c : ConsumeCall) : CappedSession :=
  let r := s.bucket.tryConsume c.bytes c.now
  ⟨r.1, s.calls ++ [(c, r.2.isOk)]⟩

/-- The intervals from an earlier call, or from this one, to this one. The bucket is full at
the first call, so that creation begins no interval of its own. -/
def KeepsCap (capacity refillPerSec : ℕ) (s : CappedSession) (c : ConsumeCall) : Prop :=
  (∀ first rest, first :: rest <:+ (s.tryConsume c).calls →
    (acceptedBytes (first :: rest) : ℚ) ≤ allowance capacity refillPerSec first.1.now c.now) ∧
  ((s.bucket.tryConsume c.bytes c.now).2.isOk = false →
    ∃ first rest, first :: rest <:+ (s.tryConsume c).calls ∧
      allowance capacity refillPerSec first.1.now c.now <
        (acceptedBytes (first :: rest) : ℚ) + c.bytes)

end CappedSession

/-! ## The bucket over a nanosecond -/

theorem TokenBucket.refill_tokens (b : TokenBucket) (now : ℤ) :
    (b.refill now).tokens =
      Bucket.refilled b.capacity (b.refillPerSec / second) ⟨b.tokens, b.lastRefill⟩ now := by
  unfold TokenBucket.refill Bucket.refilled
  dsimp only
  have hsum : b.tokens + (durationSince now b.lastRefill : ℚ) / (second : ℕ) * b.refillPerSec =
      b.tokens + b.refillPerSec / (second : ℕ) * durationSince now b.lastRefill := by
    ring
  rw [hsum]
  split
  · next hlt => exact (min_eq_left hlt.le).symm
  · next hle => exact (min_eq_right (not_lt.mp hle)).symm

/-- What is accepted is paid for, and a refusal costs nothing. -/
theorem TokenBucket.tryConsume_spec (b : TokenBucket) (bytes : ℕ) (now : ℤ) :
    (b.tryConsume bytes now).2.isOk = decide ((bytes : ℚ) ≤ (b.refill now).tokens) ∧
      (b.tryConsume bytes now).1 = { b.refill now with
        tokens := (b.refill now).tokens -
          ((if (b.tryConsume bytes now).2.isOk then bytes else 0 : ℕ) : ℚ) } := by
  unfold TokenBucket.tryConsume
  by_cases hle : (bytes : ℚ) ≤ (b.refill now).tokens
  · simp only [if_pos hle]
    exact ⟨(decide_eq_true hle).symm, rfl⟩
  · simp only [if_neg hle]
    refine ⟨(decide_eq_false hle).symm, ?_⟩
    change b.refill now = { b.refill now with tokens := (b.refill now).tokens - ((0 : ℕ) : ℚ) }
    rw [Nat.cast_zero, sub_zero]

theorem allowance_eq (capacity refillPerSec : ℕ) :
    allowance capacity refillPerSec = budget capacity (refillPerSec / second) := by
  funext t u
  unfold allowance budget
  ring

namespace CappedSession
variable {capacity refillPerSec : ℕ} {s : CappedSession}

def account (s : CappedSession) : Account ConsumeCall :=
  ⟨⟨s.bucket.tokens, s.bucket.lastRefill⟩, s.calls⟩

/-- The parameters of a bucket stay. -/
structure Configured (capacity refillPerSec : ℕ) (s : CappedSession) : Prop where
  capacity_eq : s.bucket.capacity = capacity
  rate_eq : s.bucket.refillPerSec = refillPerSec

section
variable (h : Configured capacity refillPerSec s) (c : ConsumeCall)
include h

theorem refill_eq : (s.bucket.refill c.now).tokens =
    s.account.bucket.refilled capacity (refillPerSec / second) c.now := by
  have htokens := s.bucket.refill_tokens c.now
  rwa [h.capacity_eq, h.rate_eq] at htokens

theorem isOk_eq : (s.bucket.tryConsume c.bytes c.now).2.isOk =
    s.account.grants ConsumeCall.now ConsumeCall.bytes capacity (refillPerSec / second) c := by
  rw [(s.bucket.tryConsume_spec c.bytes c.now).1, refill_eq h]
  rfl

theorem tryConsume_account : (s.tryConsume c).account =
    s.account.ask ConsumeCall.now ConsumeCall.bytes capacity (refillPerSec / second) c := by
  obtain ⟨-, hbucket⟩ := s.bucket.tryConsume_spec c.bytes c.now
  have htokens := congrArg TokenBucket.tokens hbucket
  have hlast : (s.bucket.tryConsume c.bytes c.now).1.lastRefill = c.now :=
    congrArg TokenBucket.lastRefill hbucket
  dsimp only at htokens
  rw [refill_eq h, isOk_eq h] at htokens
  change (⟨⟨(s.bucket.tryConsume c.bytes c.now).1.tokens,
    (s.bucket.tryConsume c.bytes c.now).1.lastRefill⟩,
    s.calls ++ [(c, (s.bucket.tryConsume c.bytes c.now).2.isOk)]⟩ : Account ConsumeCall) = _
  rw [htokens, hlast, isOk_eq h]
  rfl

theorem configured_tryConsume : Configured capacity refillPerSec (s.tryConsume c) := by
  obtain ⟨-, hbucket⟩ := s.bucket.tryConsume_spec c.bytes c.now
  constructor
  · exact (congrArg TokenBucket.capacity hbucket).trans h.capacity_eq
  · exact (congrArg TokenBucket.refillPerSec hbucket).trans h.rate_eq

theorem keepsCap_iff : KeepsCap capacity refillPerSec s c ↔
    s.account.Bounded ConsumeCall.now ConsumeCall.bytes capacity (refillPerSec / second) c := by
  have hcalls := congrArg Account.asked (tryConsume_account h c)
  change (s.tryConsume c).calls = _ at hcalls
  unfold KeepsCap Account.Bounded
  rw [hcalls, isOk_eq h, allowance_eq]
  exact Iff.rfl

end

/-- In the order of their times, calls get what the cap allows and no more. -/
theorem keeps_cap (capacity refillPerSec : ℕ) (created : ℤ) {calls : List ConsumeCall}
    (horder : InOrder ConsumeCall.now calls) :
    EachStep tryConsume (KeepsCap capacity refillPerSec) (new capacity refillPerSec created)
      calls := by
  have hrate : (0 : ℚ) ≤ refillPerSec / second := div_nonneg (Nat.cast_nonneg _) (Nat.cast_nonneg _)
  have htight : (new capacity refillPerSec created).account.Tight ConsumeCall.now ConsumeCall.bytes
      capacity (refillPerSec / second) :=
    { nonneg := Nat.cast_nonneg capacity
      within := fun a rest hsuffix =>
        absurd (List.suffix_nil.mp hsuffix) (List.cons_ne_nil a rest)
      attained := .inl ⟨rfl, rfl⟩ }
  refine (eachStep_image (Configured capacity refillPerSec) account
    (fun _ c _ h _ => configured_tryConsume h c) (fun _ c _ h => keepsCap_iff h c)
    (fun _ c _ h _ => tryConsume_account h c) ⟨rfl, rfl⟩).mpr ?_
  exact Account.bounded_of_inOrder (Nat.cast_nonneg _) hrate htight horder (.inl rfl)

/-- After a full bucket is drained, a second brings the refill. -/
theorem cap_after_drain :
    EachStep tryConsume (KeepsCap 100000 32000) (new 100000 32000 0)
      [⟨100000, 0⟩, ⟨10000, 0⟩, ⟨30000, 1000000000⟩, ⟨40000, 1000000000⟩] :=
  keeps_cap 100000 32000 0 (by
    unfold InOrder
    decide)

end CappedSession

end Wzp.Relay
