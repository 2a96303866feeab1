import Wzp.Crypto.Session
import Mathlib.Data.List.Induction

/-!
# When a rekey is due

The session counters restart at a rekey, but the manager keeps the packet count
from before it. The next rekey is due later by that count.
-/
namespace Wzp.Crypto
open Primitives (zeroKey)
namespace ChaChaSession

/-- Packets sealed and opened since the last completed rekey, and packets in
the interval which that rekey closed. -/
structure Tally where
  sent : ℕ := 0
  opened : ℕ := 0
  prev : ℕ := 0
  deriving DecidableEq

namespace Tally

def since (t : Tally) : ℕ := t.sent + t.opened

def after (t : Tally) : Effect → Tally
  | .sealed _ => { t with sent := t.sent + 1 }
  | .opened _ => { t with opened := t.opened + 1 }
  | .rekeyed _ _ => { prev := t.since }
  | .nothing | .armed _ => t

/-- Fewer than 2^32 packets in each direction since the last rekey. -/
def Few (t : Tally) : Prop := t.sent < 2 ^ 32 ∧ t.opened < 2 ^ 32

end Tally

/-- One call, counted. -/
def countedStep (P : Primitives) (st : ChaChaSession × Tally) (op : Op) : ChaChaSession × Tally :=
  (st.1.apply P op, st.2.after (st.1.effect P op))

/-- The session and the tally after a list of calls on a new session. -/
def countedRun (P : Primitives) (key : Bytes32) (ops : List Op) : ChaChaSession × Tally :=
  ops.foldl (countedStep P) (new P key, {})

theorem countedRun_snoc (P : Primitives) (key : Bytes32) (ops : List Op) (op : Op) :
    countedRun P key (ops ++ [op]) = countedStep P (countedRun P key ops) op := by
  simp only [countedRun, List.foldl_append, List.foldl_cons, List.foldl_nil]

/-- The counters of the session are those of the tally. -/
structure Counts (s : ChaChaSession) (t : Tally) : Prop where
  sent : s.sendSeq.toNat = t.sent
  opened : s.recvSeq.toNat = t.opened
  prev : s.rekeyMgr.lastRekeyAt.toNat = t.prev

theorem toNat_succ {n : UInt32} {k : ℕ} (h : n.toNat = k) (hk : k + 1 < 2 ^ 32) :
    (n + 1).toNat = k + 1 := by
  rw [UInt32.toNat_add, h]
  exact Nat.mod_eq_of_lt hk

theorem total_toNat (a b : UInt32) : (a.toUInt64 + b.toUInt64).toNat = a.toNat + b.toNat := by
  have ha := a.toNat_lt
  have hb := b.toNat_lt
  rw [UInt64.toNat_add, UInt32.toNat_toUInt64, UInt32.toNat_toUInt64]
  exact Nat.mod_eq_of_lt (by omega)

theorem counts_after {P : Primitives} {s : ChaChaSession} {t : Tally} (h : Counts s t) (e : Effect)
    (hfew : (t.after e).Few) : Counts (s.after P e) (t.after e) := by
  obtain ⟨hsent, hopened, hprev⟩ := h
  cases e with
  | nothing => exact ⟨hsent, hopened, hprev⟩
  | sealed header => exact ⟨toNat_succ hsent hfew.1, hopened, hprev⟩
  | opened header => exact ⟨hsent, toNat_succ hopened hfew.2, hprev⟩
  | armed secret => exact ⟨hsent, hopened, hprev⟩
  | rekeyed secret peerPub =>
      refine ⟨rfl, rfl, ?_⟩
      simp only [after, rekeyed, total_toNat, hsent, hopened, Tally.after, Tally.since]

theorem counts_run {P : Primitives} {key : Bytes32} {ops : List Op}
    (hfew : ∀ pre, pre <+: ops → (countedRun P key pre).2.Few) :
    Counts (countedRun P key ops).1 (countedRun P key ops).2 := by
  induction ops using List.reverseRecOn with
  | nil => exact ⟨rfl, rfl, rfl⟩
  | append_singleton ops op ih =>
      have hops := ih fun pre hpre => hfew pre (hpre.trans (List.prefix_append _ _))
      have hlast := hfew _ (List.prefix_refl _)
      rw [countedRun_snoc] at hlast ⊢
      rw [countedStep, apply_eq]
      exact counts_after hops _ hlast

/-- What the manager really computes. -/
theorem shouldRekey_counts {s : ChaChaSession} {t : Tally} (h : Counts s t) :
    s.shouldRekey = true ↔ 2 ^ 16 + t.prev ≤ t.since := by
  obtain ⟨hsent, hopened, hprev⟩ := h
  have htotal : (s.sendSeq.toUInt64 + s.recvSeq.toUInt64).toNat = t.since := by
    rw [total_toNat, hsent, hopened, Tally.since]
  have hinterval : rekeyInterval.toNat = 2 ^ 16 := rfl
  have hbound := (s.sendSeq.toUInt64 + s.recvSeq.toUInt64).toNat_lt
  rw [shouldRekey, RekeyManager.shouldRekey]
  generalize s.sendSeq.toUInt64 + s.recvSeq.toUInt64 = total at htotal hbound ⊢
  rw [decide_eq_true_iff, UInt64.le_iff_toNat_le, hinterval]
  by_cases hle : s.rekeyMgr.lastRekeyAt ≤ total
  · rw [if_pos hle, UInt64.toNat_sub_of_le _ _ hle, htotal, hprev]
    have hle' := UInt64.le_iff_toNat_le.mp hle
    omega
  · rw [if_neg hle]
    have hlt : ¬ s.rekeyMgr.lastRekeyAt.toNat ≤ total.toNat :=
      fun hc => hle (UInt64.le_iff_toNat_le.mpr hc)
    rw [UInt64.toNat_zero]
    omega

theorem tally_le_length (P : Primitives) (key : Bytes32) (ops : List Op) :
    (countedRun P key ops).2.since ≤ ops.length := by
  induction ops using List.reverseRecOn with
  | nil => exact Nat.le_refl _
  | append_singleton ops op ih =>
      rw [countedRun_snoc, countedStep, List.length_append, List.length_singleton]
      generalize (countedRun P key ops).1.effect P op = e
      cases e <;> simp only [Tally.after, Tally.since] at ih ⊢ <;> omega

/-- A run of fewer than 2^32 calls stays below the bound on its own. -/
theorem few_of_length {P : Primitives} {key : Bytes32} {ops : List Op}
    (hlen : ops.length < 2 ^ 32) {pre : List Op} (hpre : pre <+: ops) :
    (countedRun P key pre).2.Few := by
  have hle := tally_le_length P key pre
  have hsub := hpre.length_le
  simp only [Tally.since] at hle
  exact ⟨by omega, by omega⟩

/-- A rekey is reported due from 2^16 packets on exactly when the count is not
among the first `prev` counts from 2^16 on. -/
theorem shouldRekey_interval_iff (P : Primitives) (key : Bytes32) (ops : List Op)
    (hfew : ∀ pre, pre <+: ops → (countedRun P key pre).2.Few) :
    ((countedRun P key ops).1.shouldRekey = true ↔ 2 ^ 16 ≤ (countedRun P key ops).2.since) ↔
      ¬ (2 ^ 16 ≤ (countedRun P key ops).2.since ∧
        (countedRun P key ops).2.since < 2 ^ 16 + (countedRun P key ops).2.prev) := by
  rw [shouldRekey_counts (counts_run hfew)]
  omega

/-! ## A rekey after one packet -/

/-- One packet, a rekey, then `n` packets. -/
def earlyRekey (n : ℕ) : List Op :=
  [send sampleHeader, .initiateRekey zeroKey, .completeRekey zeroKey] ++ List.replicate n (send sampleHeader)

theorem earlyRekey_tally (n : ℕ) : (countedRun .tagged zeroKey (earlyRekey n)).2 = ⟨n, 0, 1⟩ := by
  induction n with
  | zero =>
      simp only [earlyRekey, List.replicate_zero, List.append_nil, countedRun, List.foldl_cons,
        List.foldl_nil, countedStep, effect_send (rfl : sampleHeader.version = _), apply_eq]
      rfl
  | succ n ih =>
      have hsnoc : earlyRekey (n + 1) = earlyRekey n ++ [send sampleHeader] := by
        rw [earlyRekey, List.replicate_succ', ← List.append_assoc, earlyRekey]
      rw [hsnoc, countedRun_snoc, countedStep, effect_send (rfl : sampleHeader.version = _), ih]
      rfl

theorem earlyRekey_few {n : ℕ} (hn : n + 3 < 2 ^ 32) (pre : List Op) (hpre : pre <+: earlyRekey n) :
    (countedRun .tagged zeroKey pre).2.Few := by
  apply few_of_length ?_ hpre
  rw [earlyRekey, List.length_append, List.length_replicate]
  exact (Nat.add_comm _ _).trans_lt hn

/-- Two packets around a rekey, well before any rekey is due. -/
theorem shouldRekey_interval_iff_early :
    ((countedRun .tagged zeroKey (earlyRekey 1)).1.shouldRekey = true ↔
      2 ^ 16 ≤ (countedRun .tagged zeroKey (earlyRekey 1)).2.since) ↔
      ¬ (2 ^ 16 ≤ (countedRun .tagged zeroKey (earlyRekey 1)).2.since ∧
        (countedRun .tagged zeroKey (earlyRekey 1)).2.since <
          2 ^ 16 + (countedRun .tagged zeroKey (earlyRekey 1)).2.prev) :=
  shouldRekey_interval_iff .tagged zeroKey (earlyRekey 1) (earlyRekey_few (by decide))

/-- After one packet and a rekey, 2^16 further packets do not make the next
rekey due. -/
theorem shouldRekey_interval_late : ¬ ∀ (P : Primitives) (key : Bytes32) (ops : List Op),
    (∀ pre, pre <+: ops → (countedRun P key pre).2.Few) →
    ((countedRun P key ops).1.shouldRekey = true ↔ 2 ^ 16 ≤ (countedRun P key ops).2.since) := by
  intro h
  have hfew := earlyRekey_few (n := 2 ^ 16) (by decide)
  have hdue := h .tagged zeroKey (earlyRekey (2 ^ 16)) hfew
  rw [shouldRekey_counts (counts_run hfew), earlyRekey_tally] at hdue
  exact absurd (hdue.mpr (Nat.le_refl _)) (by decide)

end ChaChaSession
end Wzp.Crypto
