import Wzp.Crypto.Session

/-!
# Packets that are not delivered

A packet that is refused leaves the output as it was, and the session too, but for the
count of the packets received.
-/
namespace Wzp.Crypto
open Bytes Proto Primitives

namespace AntiReplayWindow
variable {w : AntiReplayWindow} {seq : UInt32}

/-- A window that refuses a number is left as it was. -/
theorem check_refused {e : CryptoError} (h : (w.checkAndUpdate seq).1 = .error e) :
    w.initialized = true ∧ (w.checkAndUpdate seq).2 = w := by
  unfold checkAndUpdate at h ⊢
  cases hinit : w.initialized with
  | false =>
      rw [hinit, if_pos rfl] at h
      exact nomatch h
  | true =>
      have hused : ¬ true = false := by decide
      rw [hinit, if_neg hused] at h
      rw [if_neg hused]
      refine ⟨rfl, ?_⟩
      dsimp only at h ⊢
      split
      · rfl
      · split
        · rename_i hdup hahead
          rw [if_neg hdup, if_pos hahead] at h
          exact nomatch h
        · split
          · rfl
          · split
            · rfl
            · rename_i hdup hbehind hold hseen
              rw [if_neg hdup, if_neg hbehind, if_neg hold, if_neg hseen] at h
              exact nomatch h

end AntiReplayWindow

namespace ChaChaSession
variable {P : Primitives} {s : ChaChaSession} {headerBytes ciphertext out : Buf} {e : CryptoError}

/-- The packet is one that was sealed under the key of the session. -/
def Authentic (P : Primitives) (s : ChaChaSession) (headerBytes ciphertext : Buf) : Prop :=
  ∃ header plaintext, parseHeader headerBytes = some header ∧
    P.aeadOpen s.cipher (s.nonceFor header) headerBytes ciphertext = some plaintext

/-- The window that refuses a packet is one of those the session has. -/
theorem received_refused {header : MediaHeader}
    (h : ((s.windowOf header).checkAndUpdate header.seq).1 = .error e) :
    s.received header = { s with recvSeq := s.recvSeq + 1 } := by
  obtain ⟨hinit, hsame⟩ := AntiReplayWindow.check_refused h
  have hwindow : s.antiReplay (streamOf header) = some (s.windowOf header) := by
    unfold windowOf at hinit ⊢
    cases hslot : s.antiReplay (streamOf header) with
    | some w => rfl
    | none =>
        rw [hslot] at hinit
        exact absurd hinit Bool.false_ne_true
  rw [received, hsame, ← hwindow, Function.update_eq_self]

/-- A packet that is not authentic leaves everything as it was. -/
theorem decrypt_unauthentic (h : ¬ Authentic P s headerBytes ciphertext) :
    (s.decrypt P headerBytes ciphertext out).2 = (s, out) := by
  unfold decrypt
  cases hparse : parseHeader headerBytes with
  | none => rfl
  | some header =>
      cases hopen : P.aeadOpen s.cipher (s.nonceFor header) headerBytes ciphertext with
      | none =>
          dsimp only
          rw [hopen]
      | some plaintext => exact absurd ⟨header, plaintext, hparse, hopen⟩ h

/-- A packet that is authentic but refused is counted, and leaves the rest as it was. -/
theorem decrypt_refused (h : (s.decrypt P headerBytes ciphertext out).1 = .error e)
    (hauthentic : Authentic P s headerBytes ciphertext) :
    (s.decrypt P headerBytes ciphertext out).2 = ({ s with recvSeq := s.recvSeq + 1 }, out) := by
  obtain ⟨header, plaintext, hparse, hopen⟩ := hauthentic
  rw [decrypt_authentic hparse hopen] at h ⊢
  dsimp only at h ⊢
  rw [received_refused h, h]

theorem add_one_ne (n : UInt32) : n + 1 ≠ n := by
  intro h
  have hnat := congrArg UInt32.toNat h
  have hlt := n.toNat_lt
  rw [UInt32.toNat_add, UInt32.toNat_one] at hnat
  omega

/-- A call that fails leaves the session and the output as they were exactly if the packet
is not authentic. -/
theorem decrypt_unchanged_iff (h : (s.decrypt P headerBytes ciphertext out).1 = .error e) :
    (s.decrypt P headerBytes ciphertext out).2 = (s, out) ↔
      ¬ Authentic P s headerBytes ciphertext := by
  constructor
  · intro hsame hauthentic
    have hcounted := hsame.symm.trans (decrypt_refused h hauthentic)
    exact add_one_ne s.recvSeq (congrArg (fun r => r.1.recvSeq) hcounted).symm
  · exact decrypt_unauthentic

/-- Too short for a header. -/
theorem decrypt_unchanged_short : ((new tagged zeroKey).decrypt tagged [1] [] [7]).2 =
    (new tagged zeroKey, [7]) := by
  have hshort : parseHeader [1] = none := by decide
  refine (decrypt_unchanged_iff rfl).mpr ?_
  rintro ⟨header, plaintext, hparse, -⟩
  exact absurd (hshort.symm.trans hparse) (Option.some_ne_none header).symm

/-- A packet that is received again is refused and counted. -/
theorem replay_counted :
    let packet := sampleHeader.writeTo
    let sealedPacket := tagBytes zeroKey ((new tagged zeroKey).nonceFor sampleHeader)
    let first := (new tagged zeroKey).apply tagged (.decrypt packet sealedPacket)
    (first.decrypt tagged packet sealedPacket []).1 = .error (.replayDetected 0) ∧
      first.recvSeq = 1 ∧ (first.decrypt tagged packet sealedPacket []).2.1.recvSeq = 2 ∧
      (first.decrypt tagged packet sealedPacket []).2 ≠ (first, []) := by
  intro packet sealedPacket first
  have hcounts : first.recvSeq = 1 ∧
      (first.decrypt tagged packet sealedPacket []).2.1.recvSeq = 2 := by decide
  refine ⟨by decide, hcounts.1, hcounts.2, fun hsame => ?_⟩
  have hcount := congrArg (fun r => r.1.recvSeq) hsame
  rw [hcounts.2, hcounts.1] at hcount
  exact absurd hcount (by decide)

end ChaChaSession
end Wzp.Crypto
