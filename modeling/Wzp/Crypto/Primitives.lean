import Wzp.Proto.Packet

/-!
# Cryptographic primitives

The functions the crypto layer takes from other packages are one record of
parameters. Nothing is assumed of them except where a result names it.
-/
namespace Wzp.Crypto
open Bytes

abbrev Bytes32 := Vector UInt8 32
abbrev SessionId := Vector UInt8 4
abbrev NonceBytes := Vector UInt8 12

inductive CryptoError where
  | decryptionFailed
  | invalidPublicKey
  | rekeyFailed (reason : String)
  | replayDetected (seq : UInt32)
  | internal (reason : String)
  deriving DecidableEq, Repr

/-- SHA-256, HKDF-SHA256 with an optional salt, X25519 and ChaCha20-Poly1305.
Sealing takes key, nonce, associated data and message, in this order. -/
structure Primitives where
  sha256 : Buf → Bytes32
  hkdf : Option Bytes32 → Bytes32 → Buf → Bytes32
  publicKey : Bytes32 → Bytes32
  diffieHellman : Bytes32 → Bytes32 → Bytes32
  aeadSeal : Bytes32 → NonceBytes → Buf → Buf → Option Buf
  aeadOpen : Bytes32 → NonceBytes → Buf → Buf → Option Buf

namespace Primitives

/-- Both ends of an exchange compute the same shared secret. -/
def DhCommutes (P : Primitives) : Prop :=
  ∀ a b, P.diffieHellman a (P.publicKey b) = P.diffieHellman b (P.publicKey a)

/-- Opening inverts sealing under the same key, nonce and associated data. -/
def AeadCorrect (P : Primitives) : Prop :=
  ∀ key nonce aad msg ct, P.aeadSeal key nonce aad msg = some ct →
    P.aeadOpen key nonce aad ct = some msg

/-! A stand-in with the shapes of the real functions: sealing appends a 16-byte
tag of nonce and key, and opening checks and strips it. -/

def zeroKey : Bytes32 := Vector.replicate 32 0

def sum32 (a b : Bytes32) : Bytes32 := Vector.ofFn fun i => a[i] + b[i]

def tagBytes (key : Bytes32) (nonce : NonceBytes) : Buf := nonce.toList ++ key.toList.take 4

def tagged : Primitives :=
  { sha256 := fun data => Vector.ofFn fun i => data.getD i 0
    hkdf := fun salt ikm _ => salt.elim ikm (sum32 ikm)
    publicKey := id
    diffieHellman := sum32
    aeadSeal := fun key nonce _ msg => some (msg ++ tagBytes key nonce)
    aeadOpen := fun key nonce _ ct =>
      if ct.drop (ct.length - 16) = tagBytes key nonce then some (ct.take (ct.length - 16))
      else none }

theorem tagBytes_length (key : Bytes32) (nonce : NonceBytes) : (tagBytes key nonce).length = 16 := by
  rw [tagBytes, List.length_append, List.length_take, Vector.length_toList, Vector.length_toList]
  rfl

theorem tagged_dhCommutes : tagged.DhCommutes := by
  intro a b
  apply Vector.ext
  intro i hi
  simp only [tagged, sum32, id, Vector.getElem_ofFn]
  exact UInt8.add_comm _ _

theorem tagged_aeadCorrect : tagged.AeadCorrect := by
  intro key nonce aad msg ct h
  obtain rfl := Option.some.inj h
  have hlen : (msg ++ tagBytes key nonce).length - 16 = msg.length := by
    rw [List.length_append, tagBytes_length, Nat.add_sub_cancel]
  simp only [tagged, hlen, List.drop_left, List.take_left, if_true]

end Primitives

/-- Packet direction; the discriminants enter the nonce. -/
inductive Direction where
  | send
  | recv
  deriving DecidableEq, Repr

def Direction.toByte : Direction → UInt8
  | .send => 0
  | .recv => 1

def seqBytes (seq : UInt32) : Vector UInt8 4 := ⟨(putU32 seq).toArray, rfl⟩

/-- Session id, big-endian sequence number, direction byte, three zero bytes. -/
def buildNonce (sessionId : SessionId) (seq : UInt32) (direction : Direction) : NonceBytes :=
  sessionId ++ (seqBytes seq ++ (#v[direction.toByte] ++ (#v[0, 0, 0] : Vector UInt8 3)))

theorem seqBytes_inj {s t : UInt32} (h : seqBytes s = seqBytes t) : s = t := by
  have hlist : putU32 s = putU32 t := by
    have harr := congrArg (fun v => v.toArray.toList) h
    simpa only [seqBytes] using harr
  exact putU32_inj hlist

theorem buildNonce_inj {sid : SessionId} {s t : UInt32} {d e : Direction} :
    buildNonce sid s d = buildNonce sid t e ↔ s = t ∧ d = e := by
  constructor
  · intro h
    obtain ⟨_, htail⟩ := Vector.append_inj (n := 4) (m := 8) h
    obtain ⟨hseq, htail⟩ := Vector.append_inj (n := 4) (m := 4) htail
    obtain ⟨hdir, _⟩ := Vector.append_inj (n := 1) (m := 3) htail
    refine ⟨seqBytes_inj hseq, ?_⟩
    cases d <;> cases e <;> first | rfl | exact absurd hdir (by decide)
  · rintro ⟨rfl, rfl⟩
    rfl

end Wzp.Crypto
