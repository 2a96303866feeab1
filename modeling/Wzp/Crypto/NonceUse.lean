import Wzp.Crypto.Call

/-!
# Nonces used under one key

A nonce is made of the session id, the sequence number and a direction that is
the same on both sides. Two packets sealed under one key share a nonce exactly
when they share the sequence number.
-/
namespace Wzp.Crypto
open Proto
open Primitives (zeroKey)

/-- One use of the cipher for sealing. -/
structure Encryption where
  key : Bytes32
  nonce : NonceBytes
  header : MediaHeader
  deriving DecidableEq

namespace ChaChaSession

def encryption (s : ChaChaSession) : Effect → Option Encryption
  | .sealed header => some ⟨s.cipher, s.nonceFor header, header⟩
  | _ => none

/-- All packets sealed in a run, in order. -/
def encryptions (P : Primitives) : ChaChaSession → List Op → List Encryption
  | _, [] => []
  | s, op :: ops => (s.encryption (s.effect P op)).toList ++ encryptions P (s.apply P op) ops

theorem encryption_eq_some {s : ChaChaSession} {e : Effect} {x : Encryption}
    (h : s.encryption e = some x) :
    x.key = s.cipher ∧ x.nonce = buildNonce s.sessionId x.header.seq .send := by
  cases e with
  | «sealed» header =>
      obtain rfl := Option.some.inj h
      exact ⟨rfl, rfl⟩
  | nothing | opened | armed | rekeyed => exact nomatch h

/-- Only a completed rekey changes the cipher and the session id. -/
theorem apply_key (P : Primitives) (s : ChaChaSession) (op : Op)
    (hop : ∀ peerPub, op ≠ .completeRekey peerPub) :
    (s.apply P op).cipher = s.cipher ∧ (s.apply P op).sessionId = s.sessionId := by
  rw [apply_eq]
  cases op with
  | encrypt headerBytes plaintext =>
      obtain ⟨hcipher, hid, _⟩ := after_traffic P s (effect_encrypt_traffic P s headerBytes plaintext)
      exact ⟨hcipher, hid⟩
  | decrypt headerBytes ciphertext =>
      obtain ⟨hcipher, hid, _⟩ := after_traffic P s (effect_decrypt_traffic P s headerBytes ciphertext)
      exact ⟨hcipher, hid⟩
  | initiateRekey secret => exact ⟨rfl, rfl⟩
  | completeRekey peerPub => exact absurd rfl (hop peerPub)

theorem encryptions_nonce {P : Primitives} {s : ChaChaSession} {ops : List Op}
    (hkey : ∀ peerPub, Op.completeRekey peerPub ∉ ops) {x : Encryption}
    (hx : x ∈ s.encryptions P ops) :
    x.nonce = buildNonce s.sessionId x.header.seq .send := by
  induction ops generalizing s with
  | nil => exact absurd hx List.not_mem_nil
  | cons op ops ih =>
      have hop := apply_key P s op fun peerPub heq => hkey peerPub (heq ▸ List.mem_cons_self)
      rw [encryptions, List.mem_append, Option.mem_toList] at hx
      rcases hx with hhead | htail
      · exact (encryption_eq_some hhead).2
      · rw [← hop.2]
        exact ih (fun peerPub hmem => hkey peerPub (List.mem_cons_of_mem _ hmem)) htail

/-- Under one key, packets that are distinct to the receiver's replay windows
get distinct nonces exactly when no two streams use the same number. -/
theorem nonces_distinct_iff (P : Primitives) (s : ChaChaSession) (ops : List Op)
    (hkey : ∀ peerPub, Op.completeRekey peerPub ∉ ops)
    (hid : (s.encryptions P ops).Pairwise fun x y =>
      (x.header.mediaType, x.header.streamId, x.header.seq) ≠
        (y.header.mediaType, y.header.streamId, y.header.seq)) :
    ((s.encryptions P ops).Pairwise fun x y => x.nonce ≠ y.nonce) ↔
      (s.encryptions P ops).Pairwise fun x y =>
        streamOf x.header ≠ streamOf y.header → x.header.seq ≠ y.header.seq := by
  have hnonce : ((s.encryptions P ops).Pairwise fun x y => x.nonce ≠ y.nonce) ↔
      (s.encryptions P ops).Pairwise fun x y => x.header.seq ≠ y.header.seq := by
    apply List.Pairwise.iff_of_mem
    intro x y hx hy
    rw [encryptions_nonce hkey hx, encryptions_nonce hkey hy, Ne, buildNonce_inj, and_iff_left rfl]
  rw [hnonce]
  constructor
  · intro h
    apply h.imp
    intro x y hne _
    exact hne
  · intro h
    refine hid.imp₂ ?_ h
    intro x y hxy hstream hseq
    apply hstream ?_ hseq
    intro heq
    obtain ⟨hsid, hmt⟩ := Prod.mk.inj heq
    exact hxy (by rw [hsid, hmt, hseq])

/-- Two audio packets in a row. -/
theorem nonces_distinct_iff_audio :
    ((new .tagged zeroKey).encryptions .tagged
        [send sampleHeader, send { sampleHeader with seq := 1 }]).Pairwise
      fun x y => x.nonce ≠ y.nonce :=
  (nonces_distinct_iff .tagged (new .tagged zeroKey) _ (by simp [send]) (by decide)).mpr (by decide)

/-- The first audio packet and the first video packet share a nonce. -/
theorem nonces_repeat_across_streams : ¬ ∀ (P : Primitives) (s : ChaChaSession) (ops : List Op),
    (∀ peerPub, Op.completeRekey peerPub ∉ ops) →
    ((s.encryptions P ops).Pairwise fun x y =>
      (x.header.mediaType, x.header.streamId, x.header.seq) ≠
        (y.header.mediaType, y.header.streamId, y.header.seq)) →
    (s.encryptions P ops).Pairwise fun x y => x.nonce ≠ y.nonce := by
  intro h
  have hpair := h .tagged (new .tagged zeroKey)
    [send sampleHeader, send { sampleHeader with mediaType := .video }] (by simp [send]) (by decide)
  revert hpair
  decide

end ChaChaSession

/-! ## Both sides of a call -/
namespace Call
open ChaChaSession

/-- A use of the cipher, the side that made it and that side's rekey count. -/
structure Use where
  party : Party
  epoch : ℕ
  encryption : Encryption
  deriving DecidableEq

namespace Use

def key (u : Use) : Bytes32 := u.encryption.key
def nonce (u : Use) : NonceBytes := u.encryption.nonce
def seq (u : Use) : UInt32 := u.encryption.header.seq

end Use

/-- All uses of the ciphers of both sides, in the order they are made. -/
def uses (P : Primitives) : Call → List (Party × Op) → List Use
  | _, [] => []
  | c, (who, op) :: rest =>
      (((c who).session.encryption ((c who).session.effect P op)).map
        (Use.mk who (c who).epoch)).toList ++ uses P (c.step P who op) rest

theorem uses_nonce {P : Primitives} {c : Call} (hc : c.Keyed P) {events : List (Party × Op)}
    {u : Use} (hu : u ∈ c.uses P events) :
    u.nonce = buildNonce (sessionIdOf P u.key) u.seq .send := by
  induction events generalizing c with
  | nil => exact absurd hu List.not_mem_nil
  | cons event events ih =>
      obtain ⟨who, op⟩ := event
      rw [uses, List.mem_append, Option.mem_toList, Option.map_eq_some_iff] at hu
      rcases hu with ⟨x, hx, rfl⟩ | htail
      · obtain ⟨hkey, hnonce⟩ := encryption_eq_some hx
        rw [Use.nonce, hnonce, Use.key, hkey, (hc who).ident]
        rfl
      · exact ih (keyed_step hc who op) htail

/-- When neither side repeats a sequence number between two of its rekeys, the
pairs of key and nonce are distinct exactly when no number is used under one
key on both sides, or in two epochs. -/
theorem uses_distinct_iff {P : Primitives} {a b : Bytes32} {c : Call}
    (hc : establish P a b = .ok c) (events : List (Party × Op))
    (hown : (c.uses P events).Pairwise fun u v =>
      u.party = v.party → u.epoch = v.epoch → u.seq ≠ v.seq) :
    ((c.uses P events).Pairwise fun u v => (u.key, u.nonce) ≠ (v.key, v.nonce)) ↔
      (c.uses P events).Pairwise fun u v =>
        u.key = v.key → (u.party, u.epoch) ≠ (v.party, v.epoch) → u.seq ≠ v.seq := by
  have hnonce : ((c.uses P events).Pairwise fun u v => (u.key, u.nonce) ≠ (v.key, v.nonce)) ↔
      (c.uses P events).Pairwise fun u v => u.key = v.key → u.seq ≠ v.seq := by
    apply List.Pairwise.iff_of_mem
    intro u v hu hv
    rw [Ne, Prod.mk.injEq, not_and, uses_nonce (keyed_establish hc) hu,
      uses_nonce (keyed_establish hc) hv]
    apply forall_congr'
    intro hkey
    rw [hkey, buildNonce_inj, and_iff_left rfl]
  rw [hnonce]
  constructor
  · intro h
    apply h.imp
    intro u v hne hkey _
    exact hne hkey
  · intro h
    refine hown.imp₂ ?_ h
    intro u v hsame hdiff hkey
    by_cases hwho : (u.party, u.epoch) = (v.party, v.epoch)
    · obtain ⟨hparty, hepoch⟩ := Prod.mk.inj hwho
      exact hsame hparty hepoch
    · exact hdiff hkey hwho

/-- The call of the sample secrets. -/
def sampleCall : Call := fun _ =>
  { session := (new .tagged zeroKey).setSas 0 }

theorem establish_sampleCall : establish .tagged zeroKey zeroKey = .ok sampleCall := by
  have hshared : Primitives.tagged.diffieHellman zeroKey zeroKey = zeroKey := by decide
  have hside : deriveSession .tagged (some zeroKey) (Primitives.tagged.publicKey zeroKey) =
      .ok ((new .tagged zeroKey).setSas 0) := by
    have hsas : (Bytes.getU32 (zeroKey.toList.take 4)).1 % 10000 = 0 := by decide
    simp only [deriveSession, Primitives.tagged, id, Option.elim_none] at hshared ⊢
    rw [hshared, hsas]
  simp only [establish, hside]
  apply congrArg Except.ok
  funext who
  cases who <;> rfl

/-- Two sides that keep to different numbers. -/
theorem uses_distinct_iff_disjoint :
    (sampleCall.uses .tagged [(.alice, send sampleHeader),
      (.bob, send { sampleHeader with seq := 1 })]).Pairwise
      fun u v => (u.key, u.nonce) ≠ (v.key, v.nonce) :=
  (uses_distinct_iff establish_sampleCall _ (by decide)).mpr (by decide)

/-- The first packet of either side is sealed with the same key and nonce. -/
theorem uses_repeat_across_parties : ¬ ∀ (P : Primitives), P.DhCommutes → P.AeadCorrect →
    ∀ (a b : Bytes32) (c : Call), establish P a b = .ok c → ∀ events : List (Party × Op),
    ((c.uses P events).Pairwise fun u v =>
      u.party = v.party → u.epoch = v.epoch → u.seq ≠ v.seq) →
    (c.uses P events).Pairwise fun u v => (u.key, u.nonce) ≠ (v.key, v.nonce) := by
  intro h
  have hpair := h .tagged Primitives.tagged_dhCommutes Primitives.tagged_aeadCorrect zeroKey zeroKey
    sampleCall establish_sampleCall [(.alice, send sampleHeader), (.bob, send sampleHeader)]
    (by decide)
  revert hpair
  decide

end Call
end Wzp.Crypto
