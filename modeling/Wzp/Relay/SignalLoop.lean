import Wzp.Relay.CallRegistry

/-!
# The signal loop

How a relay handles the signals of its own clients and those that other relays
forward to it: the registered clients, the calls and what is sent to whom.
-/
namespace Wzp.Relay
open Bytes

/-! ## The hub -/

structure SignalClient (κ : Type) where
  fingerprint : Fingerprint
  «alias» : Option String
  transport : κ
  deriving DecidableEq

/-- The clients with a signal connection, by fingerprint. -/
abbrev SignalHub (κ : Type) := AList fun _ : Fingerprint => SignalClient κ

namespace SignalHub
variable {κ : Type}

def register (hub : SignalHub κ) (fp : Fingerprint) (transport : κ) («alias» : Option String) :
    SignalHub κ :=
  hub.insert fp ⟨fp, «alias», transport⟩

def unregister (hub : SignalHub κ) (fp : Fingerprint) : SignalHub κ := hub.erase fp

def isOnline (hub : SignalHub κ) (fp : Fingerprint) : Bool := (hub.lookup fp).isSome

/-- The connection a message to `fp` goes to. -/
def sendTarget (hub : SignalHub κ) (fp : Fingerprint) : Option κ :=
  (hub.lookup fp).map SignalClient.transport

end SignalHub

/-! ## What is sent -/

/-- The envelope in which relays pass on signals of their clients. -/
structure Forward (ι : Type) where
  inner : CallSignal
  originRelayFp : ι
  deriving DecidableEq

/-- A message to the client registered under a fingerprint, an answer on the
sender's own connection, or an envelope to a peer relay. -/
inductive Sent (ι : Type) where
  | toClient (fp : Fingerprint) (msg : CallSignal)
  | reply (msg : CallSignal)
  | toPeer (peer : ι) (forward : Forward ι)
  deriving DecidableEq

/-- What the signal handlers share. Without federation there are no `peers`,
with it these are the relays with an active link. -/
structure SignalRelay (ι κ : Type) where
  hub : SignalHub κ
  registry : CallRegistry ι
  peers : Option (List ι)
  tlsFp : ι
  advertisedAddr : String

/-- The relay after a message, and what it has sent. -/
structure SignalOutcome (ι κ : Type) where
  relay : SignalRelay ι κ
  sent : List (Sent ι)

/-- A client on its signal connection. -/
structure SignalPeer where
  clientFp : Fingerprint
  addr : String
  deriving DecidableEq

namespace SignalRelay
variable {ι κ : Type} [DecidableEq ι]

omit [DecidableEq ι] in
def sendTo (relay : SignalRelay ι κ) (fp : Fingerprint) (msg : CallSignal) : List (Sent ι) :=
  if relay.hub.isOnline fp then [.toClient fp msg] else []

def sendSignalToPeer (relay : SignalRelay ι κ) (peer : ι) (msg : CallSignal) : List (Sent ι) :=
  match relay.peers with
  | some peers => if peer ∈ peers then [.toPeer peer ⟨msg, relay.tlsFp⟩] else []
  | none => []

omit [DecidableEq ι] in
def broadcastSignal (relay : SignalRelay ι κ) (msg : CallSignal) : List (Sent ι) :=
  (relay.peers.getD []).map fun peer => .toPeer peer ⟨msg, relay.tlsFp⟩

/-- To the other party of a call: to its relay, or to itself if it is here. -/
def sendToParty (relay : SignalRelay ι κ) (c : DirectCall ι) (myFp : Fingerprint)
    (msg : CallSignal) : List (Sent ι) :=
  match c.peerRelayFp with
  | some origin => relay.sendSignalToPeer origin msg
  | none => relay.sendTo (c.peerFingerprint myFp) msg

/-! ## Signals of local clients -/

omit [DecidableEq ι] in
/-- Whether an offer of a local client becomes a call: its target is online or
there is a peer to ask. -/
def offerAccepted (relay : SignalRelay ι κ) (offer : DirectCallOffer) : Bool :=
  relay.hub.isOnline offer.targetFingerprint || relay.broadcastSignal (.directCallOffer offer) ≠ []

omit [DecidableEq ι] in
def handleOffer (relay : SignalRelay ι κ) (client : SignalPeer) (offer : DirectCallOffer) :
    SignalOutcome ι κ :=
  let registry := (relay.registry.createCall offer.callId client.clientFp
    offer.targetFingerprint).modify offer.callId (·.setCaller offer)
  if relay.hub.isOnline offer.targetFingerprint then
    ⟨{ relay with registry },
      relay.sendTo offer.targetFingerprint (.directCallOffer offer) ++
        [.reply (.callRinging offer.callId)]⟩
  else if relay.broadcastSignal (.directCallOffer offer) ≠ [] then
    ⟨{ relay with registry },
      relay.broadcastSignal (.directCallOffer offer) ++ [.reply (.callRinging offer.callId)]⟩
  else ⟨relay, [.reply (.hangup .normal none)]⟩

def handleAnswer (relay : SignalRelay ι κ) (client : SignalPeer) (answer : DirectCallAnswer) :
    SignalOutcome ι κ :=
  match relay.registry.get answer.callId with
  | none => ⟨relay, []⟩
  | some c =>
      let peerFp := c.peerFingerprint client.clientFp
      if answer.acceptMode = .reject then
        ⟨{ relay with registry := relay.registry.endCall answer.callId },
          relay.sendToParty c client.clientFp (.hangup .normal (some answer.callId))⟩
      else
        let answered := (c.setActive answer.acceptMode (callPrefix ++ answer.callId)).setCallee answer
        let setupForCallee := answered.setupForCallee answer.callId relay.advertisedAddr
        ⟨{ relay with registry := relay.registry.modify answer.callId fun c =>
            (c.setActive answer.acceptMode (callPrefix ++ answer.callId)).setCallee answer },
          match c.peerRelayFp with
          | some origin =>
              relay.sendSignalToPeer origin (.directCallAnswer answer) ++
                relay.sendTo client.clientFp (.callSetup setupForCallee)
          | none =>
              relay.sendTo peerFp (.directCallAnswer answer) ++
                relay.sendTo peerFp
                  (.callSetup (answered.setupForCaller answer.callId relay.advertisedAddr)) ++
                relay.sendTo client.clientFp (.callSetup setupForCallee)⟩

omit [DecidableEq ι] in
/-- The calls a hangup ends: the one it names, or all of the sender's. -/
def hangupCalls (relay : SignalRelay ι κ) (client : SignalPeer) (callId : Option CallId) :
    List (CallId × DirectCall ι) :=
  match callId with
  | some cid => (relay.registry.get cid).toList.map fun c => (cid, c)
  | none => relay.registry.callsForFingerprint client.clientFp

omit [DecidableEq ι] in
def handleHangup (relay : SignalRelay ι κ) (client : SignalPeer) (reason : HangupReason)
    (callId : Option CallId) : SignalOutcome ι κ :=
  let calls := relay.hangupCalls client callId
  ⟨{ relay with registry := (calls.map Prod.fst).foldl CallRegistry.endCall relay.registry },
    calls.flatMap fun e => relay.sendTo (e.2.peerFingerprint client.clientFp) (.hangup reason callId)⟩

def handleInCall (relay : SignalRelay ι κ) (client : SignalPeer) (callId : CallId)
    (msg : CallSignal) : SignalOutcome ι κ :=
  match relay.registry.get callId with
  | none => ⟨relay, []⟩
  | some c => ⟨relay, relay.sendToParty c client.clientFp msg⟩

/-- One round of the signal loop of a client. -/
def handleClientSignal (relay : SignalRelay ι κ) (client : SignalPeer) :
    CallSignal → SignalOutcome ι κ
  | .directCallOffer offer => relay.handleOffer client offer
  | .directCallAnswer answer => relay.handleAnswer client answer
  | .hangup reason callId => relay.handleHangup client reason callId
  | .inCall kind callId rest => relay.handleInCall client callId (.inCall kind callId rest)
  | .ping timestampMs => ⟨relay, [.reply (.pong timestampMs)]⟩
  | .reflect => ⟨relay, [.reply (.reflectResponse client.addr)]⟩
  | _ => ⟨relay, []⟩

section
variable (relay : SignalRelay ι κ) (client : SignalPeer)

@[simp] theorem handleClientSignal_offer (offer : DirectCallOffer) :
    relay.handleClientSignal client (.directCallOffer offer) = relay.handleOffer client offer := rfl

@[simp] theorem handleClientSignal_answer (answer : DirectCallAnswer) :
    relay.handleClientSignal client (.directCallAnswer answer) = relay.handleAnswer client answer := rfl

@[simp] theorem handleClientSignal_hangup (reason : HangupReason) (callId : Option CallId) :
    relay.handleClientSignal client (.hangup reason callId) =
      relay.handleHangup client reason callId := rfl

@[simp] theorem handleClientSignal_inCall (kind : InCallKind) (callId : CallId) (rest : Buf) :
    relay.handleClientSignal client (.inCall kind callId rest) =
      relay.handleInCall client callId (.inCall kind callId rest) := rfl

end

omit [DecidableEq ι] in
/-- When a signal connection closes, the calls of its fingerprint are ended. -/
def endCalls (relay : SignalRelay ι κ) (clientFp : Fingerprint) : SignalOutcome ι κ :=
  let calls := relay.registry.callsForFingerprint clientFp
  ⟨{ relay with registry := (calls.map Prod.fst).foldl CallRegistry.endCall relay.registry },
    calls.flatMap fun e => relay.sendTo (e.2.peerFingerprint clientFp) (.hangup .normal (some e.1))⟩

omit [DecidableEq ι] in
/-- Then the fingerprint leaves the hub. -/
def unregister (relay : SignalRelay ι κ) (clientFp : Fingerprint) : SignalRelay ι κ :=
  { relay with hub := relay.hub.unregister clientFp }

/-! ## Signals of other relays -/

/-- An envelope of our own that came back is dropped. -/
def acceptForward (relay : SignalRelay ι κ) (forward : Forward ι) : Option (CallSignal × ι) :=
  if forward.originRelayFp = relay.tlsFp then none else some (forward.inner, forward.originRelayFp)

omit [DecidableEq ι] in
/-- The dispatcher of forwarded signals. -/
def dispatch (relay : SignalRelay ι κ) (origin : ι) : CallSignal → SignalOutcome ι κ
  | .directCallOffer offer =>
      if relay.hub.isOnline offer.targetFingerprint then
        ⟨{ relay with registry := (relay.registry.createCall offer.callId offer.callerFingerprint
            offer.targetFingerprint).modify offer.callId fun c =>
              (c.setCaller offer).setPeerRelayFp (some origin) },
          relay.sendTo offer.targetFingerprint (.directCallOffer offer)⟩
      else ⟨relay, []⟩
  | .directCallAnswer answer =>
      match relay.registry.get answer.callId with
      | none => ⟨relay, []⟩
      | some c =>
          if answer.acceptMode = .reject then
            ⟨{ relay with registry := relay.registry.endCall answer.callId },
              relay.sendTo c.callerFingerprint (.hangup .normal none)⟩
          else
            let answered := ((c.setActive answer.acceptMode
              (callPrefix ++ answer.callId)).setPeerRelayFp (some origin)).setCallee answer
            ⟨{ relay with registry := relay.registry.modify answer.callId fun c =>
                ((c.setActive answer.acceptMode
                  (callPrefix ++ answer.callId)).setPeerRelayFp (some origin)).setCallee answer },
              relay.sendTo c.callerFingerprint (.directCallAnswer answer) ++
                relay.sendTo c.callerFingerprint
                  (.callSetup (answered.setupForCaller answer.callId relay.advertisedAddr))⟩
  | .callRinging callId =>
      match relay.registry.get callId with
      | none => ⟨relay, []⟩
      | some c => ⟨relay, relay.sendTo c.callerFingerprint (.callRinging callId)⟩
  | .inCall .mediaPathReport callId rest =>
      match relay.registry.get callId with
      | none => ⟨relay, []⟩
      | some c =>
          -- one of the two is local; sending to the other does nothing
          ⟨relay, relay.sendTo c.callerFingerprint (.inCall .mediaPathReport callId rest) ++
            relay.sendTo c.calleeFingerprint (.inCall .mediaPathReport callId rest)⟩
  -- a forwarded hangup is only logged, all else is ignored
  | _ => ⟨relay, []⟩

end SignalRelay
end Wzp.Relay
