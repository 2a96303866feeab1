import Mathlib.Data.List.AList
import Wzp.Relay.Federation

/-!
# Direct calls

The registry of direct calls by call id, and the signals about calls that
clients and relays exchange.
-/
namespace Wzp.Relay
open Bytes

/-- A call id as its UTF-8 bytes. -/
abbrev CallId := Buf

abbrev Fingerprint := String

inductive DirectCallState where
  | pending
  | ringing
  | active
  | ended
  deriving DecidableEq, Repr

inductive CallAcceptMode where
  | reject
  | acceptTrusted
  | acceptGeneric
  deriving DecidableEq, Repr

/-! ## Signals about calls -/

structure DirectCallOffer where
  callerFingerprint : Fingerprint
  targetFingerprint : Fingerprint
  callId : CallId
  callerReflexiveAddr : Option String
  callerLocalAddrs : List String
  callerMappedAddr : Option String
  rest : Buf
  deriving DecidableEq, Repr

structure DirectCallAnswer where
  callId : CallId
  acceptMode : CallAcceptMode
  calleeReflexiveAddr : Option String
  calleeLocalAddrs : List String
  calleeMappedAddr : Option String
  rest : Buf
  deriving DecidableEq, Repr

structure CallSetup where
  callId : CallId
  room : RoomName
  relayAddr : String
  peerDirectAddr : Option String
  peerLocalAddrs : List String
  peerMappedAddr : Option String
  deriving DecidableEq, Repr

inductive HangupReason where
  | normal
  | other (reason : Buf)
  deriving DecidableEq, Repr

/-- Signals that are passed on during a call. -/
inductive InCallKind where
  | mediaPathReport
  | candidateUpdate
  | hardNatBirthdayStart
  | hardNatProbe
  | upgradeProposal
  | upgradeResponse
  | upgradeConfirm
  | qualityCapability
  deriving DecidableEq, Repr

/-- The signals of the signal connections. Relays do not read the `rest` of a
message, they only pass it on. -/
inductive CallSignal where
  | directCallOffer (offer : DirectCallOffer)
  | directCallAnswer (answer : DirectCallAnswer)
  | callSetup (setup : CallSetup)
  | callRinging (callId : CallId)
  | hangup (reason : HangupReason) (callId : Option CallId)
  | inCall (kind : InCallKind) (callId : CallId) (rest : Buf)
  | ping (timestampMs : UInt64)
  | pong (timestampMs : UInt64)
  | reflect
  | reflectResponse (observedAddr : String)
  | other (rest : Buf)
  deriving DecidableEq, Repr

/-- The call a signal names. -/
def CallSignal.callId? : CallSignal → Option CallId
  | .directCallOffer offer => some offer.callId
  | .directCallAnswer answer => some answer.callId
  | .callSetup setup => some setup.callId
  | .callRinging callId => some callId
  | .hangup _ callId => callId
  | .inCall _ callId _ => some callId
  | _ => none

/-! ## The registry -/

/-- A tracked call; `peerRelayFp` is the relay of the other party if that is
not this one. -/
structure DirectCall (ι : Type) where
  callerFingerprint : Fingerprint
  calleeFingerprint : Fingerprint
  state : DirectCallState
  acceptMode : Option CallAcceptMode
  roomName : Option RoomName
  callerReflexiveAddr : Option String
  calleeReflexiveAddr : Option String
  peerRelayFp : Option ι
  callerLocalAddrs : List String
  calleeLocalAddrs : List String
  callerMappedAddr : Option String
  calleeMappedAddr : Option String
  deriving DecidableEq

namespace DirectCall
variable {ι : Type}

def setCaller (c : DirectCall ι) (offer : DirectCallOffer) : DirectCall ι :=
  { c with
    callerReflexiveAddr := offer.callerReflexiveAddr
    callerLocalAddrs := offer.callerLocalAddrs
    callerMappedAddr := offer.callerMappedAddr }

def setCallee (c : DirectCall ι) (answer : DirectCallAnswer) : DirectCall ι :=
  { c with
    calleeReflexiveAddr := answer.calleeReflexiveAddr
    calleeLocalAddrs := answer.calleeLocalAddrs
    calleeMappedAddr := answer.calleeMappedAddr }

def setPeerRelayFp (c : DirectCall ι) (fp : Option ι) : DirectCall ι := { c with peerRelayFp := fp }

/-- Only a call that is pending or ringing becomes active. -/
def setActive (c : DirectCall ι) (mode : CallAcceptMode) (room : RoomName) : DirectCall ι :=
  if c.state = .pending ∨ c.state = .ringing then
    { c with state := .active, acceptMode := some mode, roomName := some room }
  else c

/-- The other party, seen from `myFp`; for anybody else the caller. -/
def peerFingerprint (c : DirectCall ι) (myFp : Fingerprint) : Fingerprint :=
  if c.callerFingerprint = myFp then c.calleeFingerprint else c.callerFingerprint

/-- Setup for the callee, with the addresses of the caller. -/
def setupForCallee (c : DirectCall ι) (callId : CallId) (relayAddr : String) : CallSetup :=
  ⟨callId, callPrefix ++ callId, relayAddr, c.callerReflexiveAddr, c.callerLocalAddrs, c.callerMappedAddr⟩

def setupForCaller (c : DirectCall ι) (callId : CallId) (relayAddr : String) : CallSetup :=
  ⟨callId, callPrefix ++ callId, relayAddr, c.calleeReflexiveAddr, c.calleeLocalAddrs, c.calleeMappedAddr⟩

/-- Whether the call is between exactly these two. -/
def Between (c : DirectCall ι) (caller callee : Fingerprint) : Prop :=
  c.callerFingerprint = caller ∧ c.calleeFingerprint = callee

instance (c : DirectCall ι) (caller callee : Fingerprint) : Decidable (c.Between caller callee) :=
  inferInstanceAs (Decidable (_ ∧ _))

/-- Whether `fp` is one of the two parties. -/
def HasParty (c : DirectCall ι) (fp : Fingerprint) : Prop :=
  c.callerFingerprint = fp ∨ c.calleeFingerprint = fp

instance (c : DirectCall ι) (fp : Fingerprint) : Decidable (c.HasParty fp) :=
  inferInstanceAs (Decidable (_ ∨ _))

@[simp] theorem setActive_callerFingerprint (c : DirectCall ι) (mode : CallAcceptMode)
    (room : RoomName) : (c.setActive mode room).callerFingerprint = c.callerFingerprint := by
  rw [setActive]
  split
  · rfl
  · rfl

@[simp] theorem setActive_calleeFingerprint (c : DirectCall ι) (mode : CallAcceptMode)
    (room : RoomName) : (c.setActive mode room).calleeFingerprint = c.calleeFingerprint := by
  rw [setActive]
  split
  · rfl
  · rfl

@[simp] theorem setActive_peerRelayFp (c : DirectCall ι) (mode : CallAcceptMode) (room : RoomName) :
    (c.setActive mode room).peerRelayFp = c.peerRelayFp := by
  rw [setActive]
  split
  · rfl
  · rfl

end DirectCall

/-- Direct calls by call id. -/
abbrev CallRegistry (ι : Type) := AList fun _ : CallId => DirectCall ι

namespace CallRegistry
variable {ι : Type}

def get (reg : CallRegistry ι) (callId : CallId) : Option (DirectCall ι) := reg.lookup callId

/-- A call that has just been created. -/
def pendingCall (callerFp calleeFp : Fingerprint) : DirectCall ι :=
  { callerFingerprint := callerFp, calleeFingerprint := calleeFp, state := .pending,
    acceptMode := none, roomName := none, callerReflexiveAddr := none, calleeReflexiveAddr := none,
    peerRelayFp := none, callerLocalAddrs := [], calleeLocalAddrs := [], callerMappedAddr := none,
    calleeMappedAddr := none }

/-- A new pending call, also over a call with the same id. -/
def createCall (reg : CallRegistry ι) (callId : CallId) (callerFp calleeFp : Fingerprint) :
    CallRegistry ι :=
  reg.insert callId (pendingCall callerFp calleeFp)

/-- The setters change a call that exists. -/
def modify (reg : CallRegistry ι) (callId : CallId) (f : DirectCall ι → DirectCall ι) :
    CallRegistry ι :=
  match reg.get callId with
  | some c => reg.insert callId (f c)
  | none => reg

def endCall (reg : CallRegistry ι) (callId : CallId) : CallRegistry ι := reg.erase callId

def callsForFingerprint (reg : CallRegistry ι) (fp : Fingerprint) : List (CallId × DirectCall ι) :=
  (reg.entries.filter fun e => e.2.state ≠ .ended ∧ e.2.HasParty fp).map fun e => (e.1, e.2)

/-- The admission check of `call-` rooms. -/
def authorized (reg : CallRegistry ι) (callId : CallId) (fp : Fingerprint) : Bool :=
  match reg.get callId with
  | some c => c.callerFingerprint = fp || c.calleeFingerprint = fp
  | none => false

variable {reg : CallRegistry ι} {callId other : CallId}

theorem get_createCall (reg : CallRegistry ι) (callId : CallId) (callerFp calleeFp : Fingerprint) :
    (reg.createCall callId callerFp calleeFp).get callId = some (pendingCall callerFp calleeFp) :=
  AList.lookup_insert _

theorem get_createCall_ne (hne : other ≠ callId) (callerFp calleeFp : Fingerprint) :
    (reg.createCall callId callerFp calleeFp).get other = reg.get other :=
  AList.lookup_insert_ne hne

theorem get_modify (reg : CallRegistry ι) (callId : CallId) (f : DirectCall ι → DirectCall ι) :
    (reg.modify callId f).get callId = (reg.get callId).map f := by
  rw [modify]
  cases h : reg.get callId with
  | some c => exact AList.lookup_insert _
  | none => exact h

theorem get_modify_ne (hne : other ≠ callId) (f : DirectCall ι → DirectCall ι) :
    (reg.modify callId f).get other = reg.get other := by
  rw [modify]
  cases reg.get callId with
  | some c => exact AList.lookup_insert_ne hne
  | none => rfl

/-- A call that is created and set up at once. -/
theorem get_createCall_modify (reg : CallRegistry ι) (id callId : CallId)
    (callerFp calleeFp : Fingerprint) (f : DirectCall ι → DirectCall ι) :
    ((reg.createCall id callerFp calleeFp).modify id f).get callId =
      if callId = id then some (f (pendingCall callerFp calleeFp)) else reg.get callId := by
  split
  · rename_i heq
    rw [heq, get_modify, get_createCall]
    rfl
  · rename_i hne
    rw [get_modify_ne hne, get_createCall_ne hne]

@[simp] theorem isSome_get_modify (reg : CallRegistry ι) (id callId : CallId)
    (f : DirectCall ι → DirectCall ι) :
    ((reg.modify id f).get callId).isSome = (reg.get callId).isSome := by
  by_cases heq : callId = id
  · rw [heq, get_modify, Option.isSome_map]
  · rw [get_modify_ne heq]

theorem get_endCall (reg : CallRegistry ι) (callId : CallId) : (reg.endCall callId).get callId = none :=
  AList.lookup_erase _ _

theorem get_endCall_ne (hne : other ≠ callId) : (reg.endCall callId).get other = reg.get other :=
  AList.lookup_erase_ne hne

theorem mem_callsForFingerprint {fp : Fingerprint} {c : DirectCall ι} :
    (callId, c) ∈ reg.callsForFingerprint fp ↔
      reg.get callId = some c ∧ c.state ≠ .ended ∧ c.HasParty fp := by
  rw [callsForFingerprint, List.mem_map]
  constructor
  · rintro ⟨⟨id, call⟩, he, heq⟩
    obtain ⟨rfl, rfl⟩ := Prod.mk.inj heq
    obtain ⟨hmem, hcond⟩ := List.mem_filter.mp he
    exact ⟨AList.mem_lookup_iff.mpr hmem, of_decide_eq_true hcond⟩
  · rintro ⟨hget, hcond⟩
    exact ⟨⟨callId, c⟩, List.mem_filter.mpr ⟨AList.mem_lookup_iff.mp hget, decide_eq_true hcond⟩, rfl⟩

/-- Ending several calls. -/
theorem get_foldl_endCall (reg : CallRegistry ι) (ids : List CallId) (callId : CallId) :
    (ids.foldl endCall reg).get callId = if callId ∈ ids then none else reg.get callId := by
  induction ids generalizing reg with
  | nil => rfl
  | cons id ids ih =>
      rw [List.foldl_cons, ih]
      by_cases hid : callId = id
      · subst hid
        rw [get_endCall, if_pos List.mem_cons_self, ite_self]
      · rw [get_endCall_ne hid]
        simp only [List.mem_cons, hid, false_or]

theorem authorized_iff {fp : Fingerprint} :
    reg.authorized callId fp = true ↔ ∃ c, reg.get callId = some c ∧ c.HasParty fp := by
  rw [authorized]
  cases reg.get callId with
  | some c =>
      simp only [Bool.or_eq_true, decide_eq_true_eq, Option.some.injEq, exists_eq_left']
      exact Iff.rfl
  | none =>
      constructor
      · intro h
        exact absurd h Bool.false_ne_true
      · rintro ⟨c, hc, _⟩
        exact absurd hc.symm (Option.some_ne_none c)

end CallRegistry
end Wzp.Relay
