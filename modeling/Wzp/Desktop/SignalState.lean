import Wzp.Client.Signals
import Wzp.Client.DualPath

/-!
# The signal state of the desktop client

The receive loop handles one message after the other. What it starts in the
background goes on as a task.
-/
namespace Wzp.Desktop
open Client Proto

/-- A one-shot channel, its sender in the signal state. Only while it is pending the
state holds the sender. -/
inductive Oneshot (α : Type) where
  | unset
  | pending
  | sent (value : α)
  | dropped
  deriving DecidableEq, Repr

namespace Oneshot
variable {α : Type}

/-- The sender is taken and fires, if there is one. -/
def fire (value : α) : Oneshot α → Oneshot α
  | .pending => .sent value
  | channel => channel

def drop : Oneshot α → Oneshot α
  | .pending => .dropped
  | channel => channel

end Oneshot

structure SignalState where
  /-- The client is registered at its relay. -/
  transport : Bool
  fingerprint : String
  signalStatus : String
  incomingCallId : Option String
  incomingCallerFp : Option String
  incomingCallerAlias : Option String
  ownReflexAddr : Option String
  pendingPathReport : Oneshot Bool
  /-- Call, proposal and profile. -/
  pendingUpgrade : Option (String × String × QualityProfile)

namespace SignalState

def new : SignalState := ⟨false, "", "idle", none, none, none, none, .unset, none⟩

/-- The end of the receive loop. What was learned of the own address is kept. -/
def loopExit (sig : SignalState) : SignalState :=
  { sig with signalStatus := "idle", transport := false }

def internalDeregister (sig : SignalState) : SignalState :=
  { sig with
    transport := false
    signalStatus := "idle"
    incomingCallId := none
    incomingCallerFp := none
    incomingCallerAlias := none
    pendingPathReport := sig.pendingPathReport.drop
    ownReflexAddr := none }

def registered (sig : SignalState) (fingerprint : String) : SignalState :=
  { sig with transport := true, fingerprint := fingerprint, signalStatus := "registered" }

end SignalState

/-- What goes on beside the receive loop until it ends. -/
inductive Task where
  /-- `place_call` and `answer_call` ask for the own address before they go on. -/
  | reflecting (next : Task)
  | offering (callId targetFp : String)
  | answering (callId : String) (mode : CallAcceptMode)
  /-- The port allocation is detected, to be told in a probe. -/
  | probing (callId : String)
  /-- Ports for the birthday attack are opened. -/
  | birthday (callId : String)
  /-- The two paths of `connect` race. -/
  | racing (callId : String)
  deriving DecidableEq, Repr

def Task.callId : Task → String
  | .reflecting next => next.callId
  | .offering callId _ => callId
  | .answering callId _ => callId
  | .probing callId => callId
  | .birthday callId => callId
  | .racing callId => callId

/-- What a step of the client sends and starts. -/
structure Effects where
  sends : List SignalMessage := []
  tasks : List Task := []

/-- The allocations of a peer that needs a birthday attack. -/
def needsBirthday (allocation : String) : Bool :=
  allocation = "random" || "sequential".toList.isPrefixOf allocation.toList

def handleUpgradeResponse (sig : SignalState) (callId proposalId : String) (accepted : Bool) :
    SignalState × Effects :=
  if accepted then
    match sig.pendingUpgrade with
    | some (_, pid, profile) =>
        ({ sig with pendingUpgrade := none },
          if pid = proposalId then { sends := [.upgradeConfirm callId proposalId profile] } else {})
    | none => (sig, {})
  else (sig, {})

/-- The receive loop. No message is compared with the call it names. -/
def recvSignal (sig : SignalState) : SignalMessage → SignalState × Effects
  | .callRinging _ => ({ sig with signalStatus := "ringing" }, {})
  | .directCallOffer offer =>
      ({ sig with
          signalStatus := "incoming"
          incomingCallId := some offer.callId
          incomingCallerFp := some offer.callerFingerprint
          incomingCallerAlias := offer.callerAlias }, {})
  | .callSetup _ => ({ sig with signalStatus := "setup" }, {})
  | .hangup _ =>
      ({ sig with
          signalStatus := "registered"
          incomingCallId := none
          pendingPathReport := sig.pendingPathReport.drop }, {})
  | .mediaPathReport _ directOk _ =>
      ({ sig with pendingPathReport := sig.pendingPathReport.fire directOk }, {})
  | .hardNatProbe probe =>
      (sig, if needsBirthday probe.allocation then { tasks := [.birthday probe.callId] } else {})
  | .upgradeProposal callId proposalId =>
      (sig, { sends := [.upgradeResponse callId proposalId true] })
  | .upgradeResponse callId proposalId accepted =>
      handleUpgradeResponse sig callId proposalId accepted
  | _ => (sig, {})

/-- The call a room is for, as `connect` reads it off the name. -/
def callOfRoom (room : String) : String :=
  if "call-".toList.isPrefixOf room.toList then String.ofList (room.toList.drop 5) else room

def winnerText : WinningPath → String
  | .direct => "Direct"
  | .relay => "Relay"

end Wzp.Desktop
