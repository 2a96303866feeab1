import Wzp.Crypto.AntiReplay
import Mathlib.Logic.Function.Basic

/-!
# The per-call media session

One session seals the packets it sends and opens those it receives. A rekey
replaces the key and the session id; the replay windows survive it.
-/
namespace Wzp.Crypto
open Bytes Proto

/-- Rekeying interval: every 2^16 packets. -/
def rekeyInterval : UInt64 := 65536

/-- Key chain of one side, and the packet count of its last rekey. -/
structure RekeyManager where
  currentKey : Bytes32
  lastRekeyAt : UInt64
  deriving DecidableEq

namespace RekeyManager

def new (initialKey : Bytes32) : RekeyManager := ⟨initialKey, 0⟩

def shouldRekey (m : RekeyManager) (packetCount : UInt64) : Bool :=
  -- saturating subtraction
  rekeyInterval ≤ if m.lastRekeyAt ≤ packetCount then packetCount - m.lastRekeyAt else 0

def rekeyInfo : Buf := "warzone-rekey".toUTF8.toList

/-- The old key salts the new one. -/
def performRekey (P : Primitives) (m : RekeyManager) (newPeerPub ourNewSecret : Bytes32)
    (packetCount : UInt64) : Bytes32 × RekeyManager :=
  let newKey := P.hkdf (some m.currentKey) (P.diffieHellman ourNewSecret newPeerPub) rekeyInfo
  (newKey, ⟨newKey, packetCount⟩)

end RekeyManager

/-- First four bytes of the hash of the key. -/
def sessionIdOf (P : Primitives) (key : Bytes32) : SessionId := (P.sha256 key.toList).take 4

/-- The cipher is represented by the key it was built from. -/
structure ChaChaSession where
  cipher : Bytes32
  sessionId : SessionId
  sendSeq : UInt32
  recvSeq : UInt32
  rekeyMgr : RekeyManager
  pendingRekeySecret : Option Bytes32
  sasCode : Option UInt32
  antiReplay : UInt8 × MediaType → Option AntiReplayWindow
  lastEncryptTimestamp : Option UInt32

namespace ChaChaSession

def new (P : Primitives) (sharedSecret : Bytes32) : ChaChaSession :=
  { cipher := sharedSecret
    sessionId := sessionIdOf P sharedSecret
    sendSeq := 0
    recvSeq := 0
    rekeyMgr := .new sharedSecret
    pendingRekeySecret := none
    sasCode := none
    antiReplay := fun _ => none
    lastEncryptTimestamp := none }

def setSas (s : ChaChaSession) (code : UInt32) : ChaChaSession := { s with sasCode := some code }

def installKey (P : Primitives) (s : ChaChaSession) (newKey : Bytes32) : ChaChaSession :=
  { s with sessionId := sessionIdOf P newKey, cipher := newKey }

end ChaChaSession

def parseHeader (headerBytes : Buf) : Option MediaHeader :=
  if headerBytes.length < MediaHeader.wireSize then none
  else (MediaHeader.readFrom headerBytes).map Prod.fst

theorem parseHeader_writeTo {h : MediaHeader} (hv : h.version = MediaHeader.versionByte) :
    parseHeader h.writeTo = some h := by
  have hread := MediaHeader.readFrom_writeTo hv []
  rw [List.append_nil] at hread
  rw [parseHeader, if_neg (by simp), hread, Option.map_some]

def defaultWindowSize : MediaType → UInt64
  | .audio => 64
  | .video => 1024
  | .data => 256
  | .control => 32

def defaultWindowForMediaType (mediaType : MediaType) : AntiReplayWindow :=
  .withWindow (defaultWindowSize mediaType)

/-- The anti-replay stream a header belongs to. -/
def streamOf (header : MediaHeader) : UInt8 × MediaType := (header.streamId, header.mediaType)

namespace ChaChaSession

/-- What a call returns, the session after it, and the output buffer after it. -/
abbrev Outcome := Except CryptoError Unit × ChaChaSession × Buf

def headerTooShort : CryptoError := .internal "header too short to derive nonce"

/-- The nonce of a packet, for both directions of the call. -/
def nonceFor (s : ChaChaSession) (header : MediaHeader) : NonceBytes :=
  buildNonce s.sessionId header.seq .send

/-- The timestamp check of debug builds is left out: release builds skip it. -/
def encrypt (P : Primitives) (s : ChaChaSession) (headerBytes plaintext out : Buf) : Outcome :=
  match parseHeader headerBytes with
  | none => (.error headerTooShort, s, out)
  | some header =>
      match P.aeadSeal s.cipher (s.nonceFor header) headerBytes plaintext with
      | none => (.error (.internal "encryption failed"), s, out)
      | some ciphertext =>
          (.ok (),
            { s with sendSeq := s.sendSeq + 1, lastEncryptTimestamp := some header.timestamp },
            out ++ ciphertext)

/-- The window of a stream, created on the first packet of the stream. -/
def windowOf (s : ChaChaSession) (header : MediaHeader) : AntiReplayWindow :=
  (s.antiReplay (streamOf header)).getD (defaultWindowForMediaType header.mediaType)

def decrypt (P : Primitives) (s : ChaChaSession) (headerBytes ciphertext out : Buf) : Outcome :=
  match parseHeader headerBytes with
  | none => (.error headerTooShort, s, out)
  | some header =>
      match P.aeadOpen s.cipher (s.nonceFor header) headerBytes ciphertext with
      | none => (.error .decryptionFailed, s, out)
      | some plaintext =>
          let extended := out ++ plaintext
          let checked := (s.windowOf header).checkAndUpdate header.seq
          let s := { s with
            recvSeq := s.recvSeq + 1
            antiReplay := Function.update s.antiReplay (streamOf header) (some checked.2) }
          match checked.1 with
          | .error e => (.error e, s, extended.take (extended.length - plaintext.length))
          | .ok () => (.ok (), s, extended)

/-- `secret` is the fresh random key; its public half goes to the peer. -/
def initiateRekey (P : Primitives) (s : ChaChaSession) (secret : Bytes32) :
    Bytes32 × ChaChaSession :=
  (P.publicKey secret, { s with pendingRekeySecret := some secret })

def completeRekey (P : Primitives) (s : ChaChaSession) (peerEphemeralPub : Bytes32) :
    Except CryptoError Unit × ChaChaSession :=
  match s.pendingRekeySecret with
  | none => (.error (.rekeyFailed "no pending rekey"), s)
  | some secret =>
      let totalPackets := s.sendSeq.toUInt64 + s.recvSeq.toUInt64
      let (newKey, rekeyMgr) := s.rekeyMgr.performRekey P peerEphemeralPub secret totalPackets
      let s := { s with pendingRekeySecret := none, rekeyMgr }
      (.ok (), { s.installKey P newKey with sendSeq := 0, recvSeq := 0 })

/-- The caller's test whether a rekey is due. -/
def shouldRekey (s : ChaChaSession) : Bool :=
  s.rekeyMgr.shouldRekey (s.sendSeq.toUInt64 + s.recvSeq.toUInt64)

end ChaChaSession

/-! ## The handshake -/

def sessionKeyInfo : Buf := "warzone-session-key".toUTF8.toList
def sasInfo : Buf := "warzone-sas-code".toUTF8.toList

/-- The session of a call, from our ephemeral secret and the peer's public key. -/
def deriveSession (P : Primitives) (ephemeralSecret : Option Bytes32) (peerEphemeralPub : Bytes32) :
    Except CryptoError ChaChaSession :=
  match ephemeralSecret with
  | none => .error (.internal "no ephemeral key generated; call generate_ephemeral first")
  | some secret =>
      let sharedSecret := P.diffieHellman secret peerEphemeralPub
      let sessionKey := P.hkdf none sharedSecret sessionKeyInfo
      let sasKey := (P.hkdf none sharedSecret sasInfo).toList.take 4
      let sasCode := (getU32 sasKey).1 % 10000
      .ok ((ChaChaSession.new P sessionKey).setSas sasCode)

theorem deriveSession_agree {P : Primitives} (hdh : P.DhCommutes) (a b : Bytes32) :
    deriveSession P (some a) (P.publicKey b) = deriveSession P (some b) (P.publicKey a) := by
  simp only [deriveSession, hdh a b]

/-! ## What one call can do -/
namespace ChaChaSession
variable {P : Primitives} {s : ChaChaSession} {headerBytes out : Buf}

/-- A successful encryption counts the packet; a failed one changes nothing. -/
theorem encrypt_cases (P : Primitives) (s : ChaChaSession) (headerBytes plaintext out : Buf) :
    (∃ header ciphertext, parseHeader headerBytes = some header ∧
      P.aeadSeal s.cipher (s.nonceFor header) headerBytes plaintext = some ciphertext ∧
      s.encrypt P headerBytes plaintext out = (.ok (),
        { s with sendSeq := s.sendSeq + 1, lastEncryptTimestamp := some header.timestamp },
        out ++ ciphertext)) ∨
    ∃ e, s.encrypt P headerBytes plaintext out = (.error e, s, out) := by
  cases hparse : parseHeader headerBytes with
  | none =>
      right
      exact ⟨_, by simp only [encrypt, hparse]; rfl⟩
  | some header =>
      cases hseal : P.aeadSeal s.cipher (s.nonceFor header) headerBytes plaintext with
      | none =>
          right
          exact ⟨_, by simp only [encrypt, hparse, hseal]; rfl⟩
      | some ciphertext =>
          left
          exact ⟨header, ciphertext, rfl, hseal, by simp only [encrypt, hparse, hseal]⟩

/-- The session after an authenticated packet, replayed or not. -/
def received (s : ChaChaSession) (header : MediaHeader) : ChaChaSession :=
  { s with
    recvSeq := s.recvSeq + 1
    antiReplay := Function.update s.antiReplay (streamOf header)
      (some ((s.windowOf header).checkAndUpdate header.seq).2) }

theorem received_antiReplay_self (s : ChaChaSession) (header : MediaHeader) :
    (s.received header).antiReplay (streamOf header) =
      some ((s.windowOf header).checkAndUpdate header.seq).2 := Function.update_self _ _ _

theorem received_antiReplay_other (s : ChaChaSession) (header : MediaHeader)
    {stream : UInt8 × MediaType} (hs : stream ≠ streamOf header) :
    (s.received header).antiReplay stream = s.antiReplay stream := Function.update_of_ne hs _ _

/-- An authenticated packet is delivered if its window accepts it, and leaves
the output buffer alone otherwise. -/
theorem decrypt_authentic {header : MediaHeader} {ciphertext plaintext : Buf}
    (hparse : parseHeader headerBytes = some header)
    (hopen : P.aeadOpen s.cipher (s.nonceFor header) headerBytes ciphertext = some plaintext) :
    s.decrypt P headerBytes ciphertext out =
      (((s.windowOf header).checkAndUpdate header.seq).1, s.received header,
        match ((s.windowOf header).checkAndUpdate header.seq).1 with
        | .ok () => out ++ plaintext
        | .error _ => out) := by
  simp only [decrypt, hparse, hopen, received]
  cases ((s.windowOf header).checkAndUpdate header.seq).1 with
  | ok _ => rfl
  | error e =>
      have hlen : (out ++ plaintext).length - plaintext.length = out.length := by
        rw [List.length_append, Nat.add_sub_cancel]
      simp only [hlen, List.take_left]

/-- The key after a completed rekey. -/
def nextKey (P : Primitives) (s : ChaChaSession) (secret peerPub : Bytes32) : Bytes32 :=
  P.hkdf (some s.rekeyMgr.currentKey) (P.diffieHellman secret peerPub) RekeyManager.rekeyInfo

/-- The session after a completed rekey. -/
def rekeyed (P : Primitives) (s : ChaChaSession) (secret peerPub : Bytes32) : ChaChaSession :=
  { s with
    cipher := s.nextKey P secret peerPub
    sessionId := sessionIdOf P (s.nextKey P secret peerPub)
    sendSeq := 0
    recvSeq := 0
    rekeyMgr := ⟨s.nextKey P secret peerPub, s.sendSeq.toUInt64 + s.recvSeq.toUInt64⟩
    pendingRekeySecret := none }

theorem completeRekey_pending {secret : Bytes32} (h : s.pendingRekeySecret = some secret)
    (peerPub : Bytes32) : s.completeRekey P peerPub = (.ok (), s.rekeyed P secret peerPub) := by
  simp only [completeRekey, h]
  rfl

theorem completeRekey_none (h : s.pendingRekeySecret = none) (peerPub : Bytes32) :
    s.completeRekey P peerPub = (.error (.rekeyFailed "no pending rekey"), s) := by
  simp only [completeRekey, h]

/-! ## Runs of one session -/

/-- The calls made on a session; `secret` is the key the rekey draws. -/
inductive Op where
  | encrypt (headerBytes plaintext : Buf)
  | decrypt (headerBytes ciphertext : Buf)
  | initiateRekey (secret : Bytes32)
  | completeRekey (peerPub : Bytes32)
  deriving DecidableEq

def apply (P : Primitives) (s : ChaChaSession) : Op → ChaChaSession
  | .encrypt headerBytes plaintext => (s.encrypt P headerBytes plaintext []).2.1
  | .decrypt headerBytes ciphertext => (s.decrypt P headerBytes ciphertext []).2.1
  | .initiateRekey secret => (s.initiateRekey P secret).2
  | .completeRekey peerPub => (s.completeRekey P peerPub).2

/-- What a call does to the session, failed calls doing nothing. -/
inductive Effect where
  | nothing
  | sealed (header : MediaHeader)
  | opened (header : MediaHeader)
  | armed (secret : Bytes32)
  | rekeyed (secret peerPub : Bytes32)

def effect (P : Primitives) (s : ChaChaSession) : Op → Effect
  | .encrypt headerBytes plaintext =>
      match parseHeader headerBytes with
      | none => .nothing
      | some header =>
          if (P.aeadSeal s.cipher (s.nonceFor header) headerBytes plaintext).isSome
          then .sealed header else .nothing
  | .decrypt headerBytes ciphertext =>
      match parseHeader headerBytes with
      | none => .nothing
      | some header =>
          if (P.aeadOpen s.cipher (s.nonceFor header) headerBytes ciphertext).isSome
          then .opened header else .nothing
  | .initiateRekey secret => .armed secret
  | .completeRekey peerPub => s.pendingRekeySecret.elim .nothing (.rekeyed · peerPub)

def after (P : Primitives) (s : ChaChaSession) : Effect → ChaChaSession
  | .nothing => s
  | .sealed header =>
      { s with sendSeq := s.sendSeq + 1, lastEncryptTimestamp := some header.timestamp }
  | .opened header => s.received header
  | .armed secret => { s with pendingRekeySecret := some secret }
  | .rekeyed secret peerPub => s.rekeyed P secret peerPub

/-- Every call changes the session by its effect. -/
theorem apply_eq (P : Primitives) (s : ChaChaSession) (op : Op) :
    s.apply P op = s.after P (s.effect P op) := by
  cases op with
  | encrypt headerBytes plaintext =>
      cases hp : parseHeader headerBytes with
      | none => simp only [apply, effect, encrypt, hp, after]
      | some header =>
          cases hs : P.aeadSeal s.cipher (s.nonceFor header) headerBytes plaintext with
          | none =>
              simp only [apply, effect, encrypt, hp, hs, Option.isSome_none, Bool.false_eq_true,
                if_false, after]
          | some ciphertext =>
              simp only [apply, effect, encrypt, hp, hs, Option.isSome_some, if_true, after]
  | decrypt headerBytes ciphertext =>
      cases hp : parseHeader headerBytes with
      | none => simp only [apply, effect, decrypt, hp, after]
      | some header =>
          cases ho : P.aeadOpen s.cipher (s.nonceFor header) headerBytes ciphertext with
          | none =>
              simp only [apply, effect, decrypt, hp, ho, Option.isSome_none, Bool.false_eq_true,
                if_false, after]
          | some plaintext =>
              simp only [apply, effect, hp, ho, decrypt_authentic hp ho, Option.isSome_some,
                if_true, after]
  | initiateRekey secret => rfl
  | completeRekey peerPub =>
      cases hs : s.pendingRekeySecret with
      | none =>
          simp only [apply, effect, hs, completeRekey_none hs, Option.elim_none, after]
      | some secret =>
          simp only [apply, effect, hs, completeRekey_pending hs, Option.elim_some, after]

/-- Sealing and opening packets, but not rekeying. -/
def Effect.IsTraffic : Effect → Prop
  | .nothing | .sealed _ | .opened _ => True
  | .armed _ | .rekeyed _ _ => False

theorem effect_encrypt_traffic (P : Primitives) (s : ChaChaSession) (headerBytes plaintext : Buf) :
    (s.effect P (.encrypt headerBytes plaintext)).IsTraffic := by
  rw [effect]
  cases parseHeader headerBytes with
  | none => trivial
  | some header => simp only; split <;> trivial

theorem effect_decrypt_traffic (P : Primitives) (s : ChaChaSession) (headerBytes ciphertext : Buf) :
    (s.effect P (.decrypt headerBytes ciphertext)).IsTraffic := by
  rw [effect]
  cases parseHeader headerBytes with
  | none => trivial
  | some header => simp only; split <;> trivial

/-- Traffic leaves the key material alone. -/
theorem after_traffic (P : Primitives) (s : ChaChaSession) {e : Effect} (he : e.IsTraffic) :
    (s.after P e).cipher = s.cipher ∧ (s.after P e).sessionId = s.sessionId ∧
      (s.after P e).pendingRekeySecret = s.pendingRekeySecret := by
  cases e with
  | nothing => exact ⟨rfl, rfl, rfl⟩
  | «sealed» header => exact ⟨rfl, rfl, rfl⟩
  | opened header => exact ⟨rfl, rfl, rfl⟩
  | armed secret => exact he.elim
  | rekeyed secret peerPub => exact he.elim

/-! ## A sample packet -/

def sampleHeader : MediaHeader := ⟨2, 0, .audio, .opus24k, 0, 0, 0, 0, 0⟩

/-- Send a header with an empty payload. -/
def send (header : MediaHeader) : Op := .encrypt header.writeTo []

theorem effect_send {header : MediaHeader} (hv : header.version = MediaHeader.versionByte)
    (s : ChaChaSession) : s.effect .tagged (send header) = .sealed header := by
  simp only [send, effect, parseHeader_writeTo hv]
  rfl

end ChaChaSession
end Wzp.Crypto
