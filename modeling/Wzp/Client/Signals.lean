import Wzp.Proto.Profile

/-!
# Signal messages of the clients

The messages the clients exchange over the relay, with the fields that one of the
two ends reads or fills in. Addresses travel as text.
-/
namespace Wzp.Client

def defaultSignalVersion : UInt8 := 1

/-- The text of an address, as the standard library writes and reads it. -/
class SocketAddr (A : Type) where
  toText : A → String
  parse : String → Option A

/-- An address that is its own text. -/
instance : SocketAddr String := ⟨id, some⟩

structure CandidateUpdate where
  version : UInt8
  callId : String
  reflexiveAddr : Option String
  localAddrs : List String
  mappedAddr : Option String
  generation : UInt32
  deriving DecidableEq, Repr

inductive CallAcceptMode where
  | reject
  | acceptTrusted
  | acceptGeneric
  deriving DecidableEq, Repr

structure DirectCallOffer where
  callerFingerprint : String
  callerAlias : Option String
  targetFingerprint : String
  callId : String
  callerReflexiveAddr : Option String
  callerLocalAddrs : List String
  callerMappedAddr : Option String
  deriving DecidableEq, Repr

structure DirectCallAnswer where
  callId : String
  acceptMode : CallAcceptMode
  calleeReflexiveAddr : Option String
  calleeLocalAddrs : List String
  calleeMappedAddr : Option String
  deriving DecidableEq, Repr

/-- Carries the addresses of the other party. -/
structure CallSetup where
  callId : String
  room : String
  relayAddr : String
  peerDirectAddr : Option String
  peerLocalAddrs : List String
  peerMappedAddr : Option String
  deriving DecidableEq, Repr

structure HardNatProbe where
  callId : String
  portSequence : List UInt16
  allocation : String
  externalIp : String
  deriving DecidableEq, Repr

structure HardNatBirthdayStart where
  callId : String
  acceptorPortCount : UInt16
  acceptorPorts : List UInt16
  externalIp : String
  deriving DecidableEq, Repr

open Proto in
inductive SignalMessage where
  | directCallOffer (offer : DirectCallOffer)
  | directCallAnswer (answer : DirectCallAnswer)
  | callRinging (callId : String)
  | callSetup (setup : CallSetup)
  | hangup (callId : Option String)
  | mediaPathReport (callId : String) (directOk : Bool) (raceWinner : String)
  | candidateUpdate (update : CandidateUpdate)
  | hardNatProbe (probe : HardNatProbe)
  | hardNatBirthdayStart (start : HardNatBirthdayStart)
  | upgradeProposal (callId proposalId : String)
  | upgradeResponse (callId proposalId : String) (accepted : Bool)
  | upgradeConfirm (callId proposalId : String) (profile : QualityProfile)
  | reflect

/-- The call a message names. -/
def SignalMessage.callId? : SignalMessage → Option String
  | .directCallOffer offer => some offer.callId
  | .directCallAnswer answer => some answer.callId
  | .callRinging callId => some callId
  | .callSetup setup => some setup.callId
  | .hangup callId => callId
  | .mediaPathReport callId _ _ => some callId
  | .candidateUpdate update => some update.callId
  | .hardNatProbe probe => some probe.callId
  | .hardNatBirthdayStart start => some start.callId
  | .upgradeProposal callId _ => some callId
  | .upgradeResponse callId _ _ => some callId
  | .upgradeConfirm callId _ _ => some callId
  | .reflect => none

end Wzp.Client
