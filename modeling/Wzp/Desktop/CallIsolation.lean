import Wzp.Client.DialCandidates
import Wzp.Desktop.CalleePrivacy
import Wzp.Desktop.PathAgreement
import Wzp.Desktop.QualityUpgrade

/-!
# One call after the other

A client makes and takes calls, one at a time. `connect` goes through its stages
while the receive loop goes on, and each stage reads what the loop has left in the
signal state.
-/
namespace Wzp.Desktop
open Client Proto Runs

structure PeerHardNatInfo where
  externalIp : IpAddr
  portSequence : List UInt16
  allocation : String

structure PeerBirthdayInfo where
  externalIp : IpAddr
  ports : List UInt16

/-- What the receive loop takes from the relay. -/
inductive Incoming where
  | signal (message : SignalMessage)
  | qualityCapability (callId : String) (maxProfile : QualityProfile)

namespace Incoming

def callId? : Incoming → Option String
  | .signal message => message.callId?
  | .qualityCapability callId _ => some callId

variable [IpText]

/-- A probe is kept if its address parses. -/
def hardNatProbe : Incoming → Option PeerHardNatInfo
  | .signal (.hardNatProbe probe) =>
      (IpText.parse probe.externalIp).map fun ip => ⟨ip, probe.portSequence, probe.allocation⟩
  | _ => none

def birthdayPorts : Incoming → Option PeerBirthdayInfo
  | .signal (.hardNatBirthdayStart start) =>
      (IpText.parse start.externalIp).map fun ip => ⟨ip, start.acceptorPorts⟩
  | _ => none

omit [IpText]

def confirmedProfile : Incoming → Option QualityProfile
  | .signal (.upgradeConfirm _ _ profile) => some profile
  | _ => none

def maxProfile : Incoming → Option QualityProfile
  | .qualityCapability _ profile => some profile
  | _ => none

/-- What it says to the one who waits for the report of the peer. -/
def verdict : Incoming → Option Bool
  | .signal message => ConnectRun.verdict message
  | _ => none

end Incoming

structure CallArgs extends ConnectArgs where
  peerMappedAddr : Option String
  directOnly : Bool

/-- How far `connect` has come. -/
inductive Stage where
  | predicting
  | spraying (predicted : List NetAddr)
  | racing (dialed : List NetAddr)
  | awaiting (dialed : List NetAddr) (result : RaceResult)
  | starting (dialed : List NetAddr) (chosen : Chosen)

/-- The report of the peer is waited for. -/
def Stage.listens : Stage → Bool
  | .racing _ => true
  | .awaiting _ _ => true
  | _ => false

/-- A `connect` under way, with the own address it has read. -/
structure Connecting where
  args : CallArgs
  ownReflexAddr : Option String
  stage : Stage

def Connecting.callId (k : Connecting) : String := callOfRoom k.args.room

/-- What became of a `connect`. The engine is handed the active profile and the
cap of the peer. -/
structure Outcome where
  callId : String
  dialed : List NetAddr
  path : Except String Chosen
  quality : Option (QualityProfile × Option QualityProfile)

/-- What a stage meets: random ports, the race and the media engine. -/
structure StageEnv where
  draw : ℕ → UInt16
  race : List NetAddr → Except String RaceResult
  engineStarts : Bool

inductive CallEvent where
  | recv (m : Incoming)
  | connect (args : CallArgs)
  /-- The `connect` of the call goes on to its next stage. -/
  | advance (callId : String) (env : StageEnv)
  | hangupCall
  | registered (fingerprint : String)
  | reflected (addr : String)
  | loopExit
  | deregister

/-- A client with the slots of its signal state. What the loop has received is
kept, the last message first. -/
structure CallClient where
  sig : SignalState
  peerHardNatProbe : Option PeerHardNatInfo
  peerBirthdayPorts : Option PeerBirthdayInfo
  activeQuality : QualityProfile
  peerMaxQuality : Option QualityProfile
  engine : Bool
  connecting : Option Connecting
  outcomes : List Outcome
  heard : List Incoming

/-- Ports are predicted from the first port of a probe. -/
def predictedAddrs (probe : Option PeerHardNatInfo) : List NetAddr :=
  match probe with
  | some probe =>
      match parseSequentialDelta probe.allocation, probe.portSequence.head? with
      | some delta, some lastPort =>
          (predictPorts lastPort delta 1 3).map fun p => ⟨probe.externalIp, p⟩
      | _, _ => []
  | none => []

def birthdayAddrs (ports : Option PeerBirthdayInfo) (draw : ℕ → UInt16) : List NetAddr :=
  match ports with
  | some bday => generateDialerTargets bday.externalIp.v4OrUnspecified bday.ports 64 draw
  | none => []

/-- Both have to agree on the direct path. -/
def decidePath (directOnly : Bool) (result : RaceResult) (peerDirectOk : Bool) :
    Except String Chosen :=
  let useDirect := result.directTransport && peerDirectOk
  if directOnly && !useDirect then
    .error ("direct_only: P2P failed (local_ok=" ++ toString result.directTransport ++
      ", peer_ok=" ++ toString peerDirectOk ++ ")")
  else if useDirect then .ok ⟨.direct, result.directTransport⟩
  else .ok ⟨.relay, result.relayTransport⟩

namespace CallClient

def new : CallClient := ⟨.new, none, none, .good, none, false, none, [], []⟩

section
variable [IpText]

/-- The receive loop. What it keeps is not kept for a call. -/
def recv (c : CallClient) (m : Incoming) : CallClient :=
  { c with
    sig := match m with
      | .signal message => (recvSignal c.sig message).1
      | .qualityCapability _ _ => c.sig
    peerHardNatProbe := m.hardNatProbe.or c.peerHardNatProbe
    peerBirthdayPorts := m.birthdayPorts.or c.peerBirthdayPorts
    activeQuality := match m with
      | .signal message => (QualityState.recvUpgrade ⟨c.sig, c.activeQuality⟩ message).1.activeQuality
      | .qualityCapability _ _ => c.activeQuality
    peerMaxQuality := m.maxProfile.or c.peerMaxQuality
    heard := m :: c.heard }

end

section
variable [SocketAddr NetAddr]

/-- Without a race the relay is dialed. Another `connect` has to wait. -/
def connect (c : CallClient) (args : CallArgs) : CallClient :=
  if c.engine || c.connecting.isSome then c
  else
    let stage : Stage :=
      if entersRace NetAddr c.sig args.toConnectArgs then .predicting
      else .starting [] ⟨.relay, false⟩
    { c with connecting := some ⟨args, c.sig.ownReflexAddr, stage⟩ }

def candidates (k : Connecting) (predicted birthday : List NetAddr) : PeerCandidates NetAddr where
  reflexive := k.args.peerDirectAddr.bind SocketAddr.parse
  hosts := k.args.peerLocalAddrs.filterMap SocketAddr.parse ++ predicted ++ birthday
  mapped := k.args.peerMappedAddr.bind SocketAddr.parse

def enter (c : CallClient) (k : Connecting) (stage : Stage) : CallClient :=
  { c with connecting := some { k with stage := stage } }

/-- The next stage of `connect`. -/
def advance (c : CallClient) (k : Connecting) (env : StageEnv) : CallClient :=
  match k.stage with
  | .predicting => c.enter k (.spraying (predictedAddrs c.peerHardNatProbe))
  | .spraying predicted =>
      let bundle := candidates k predicted (birthdayAddrs c.peerBirthdayPorts env.draw)
      let dialed := bundle.smartDialOrder (k.ownReflexAddr.bind SocketAddr.parse)
      { c with sig := { c.sig with pendingPathReport := .pending } }.enter k (.racing dialed)
  | .racing dialed =>
      match env.race dialed with
      | .ok result => c.enter k (.awaiting dialed result)
      | .error _ => c.enter k (.starting dialed ⟨.relay, false⟩)
  | .awaiting dialed result =>
      let peerDirectOk := ConnectRun.told c.sig.pendingPathReport
      let c := { c with sig := { c.sig with pendingPathReport := c.sig.pendingPathReport.drop } }
      match decidePath k.args.directOnly result peerDirectOk with
      | .ok chosen => c.enter k (.starting dialed chosen)
      | .error reason =>
          { c with
            connecting := none
            outcomes := c.outcomes ++ [⟨k.callId, dialed, .error reason, none⟩] }
  | .starting dialed chosen =>
      { c with
        connecting := none
        engine := env.engineStarts || c.engine
        outcomes := c.outcomes ++
          [⟨k.callId, dialed, .ok chosen, some (c.activeQuality, c.peerMaxQuality)⟩] }

variable [IpText]

def step (c : CallClient) : CallEvent → CallClient
  | .recv m => if c.sig.transport then c.recv m else c
  | .connect args => c.connect args
  | .advance callId env =>
      match c.connecting with
      | some k => if k.callId = callId then c.advance k env else c
      | none => c
  | .hangupCall => { c with engine := false }
  | .registered fingerprint => { c with sig := c.sig.registered fingerprint }
  | .reflected addr => { c with sig := { c.sig with ownReflexAddr := some addr } }
  | .loopExit => { c with sig := c.sig.loopExit }
  | .deregister => { c with sig := c.sig.internalDeregister }

end

/-! ## The promise of isolation -/

/-- What has to do with a call: its signals and its `connect`, and what happens to
the client itself. -/
def concerns (x : String) : CallEvent → Bool
  | .recv m => m.callId? = some x
  | .connect args => callOfRoom args.room = x
  | .advance callId _ => callId = x
  | _ => true

def outcomesOf (x : String) (c : CallClient) : List Outcome :=
  c.outcomes.filter fun o => o.callId = x

/-- A call is begun when the one before it has ended. -/
def OneByOne (c : CallClient) : CallEvent → Prop
  | .connect _ => c.engine = false ∧ c.connecting = none
  | _ => True

/-- The last message that has left something in a slot. -/
def writer {α : Type} (slot : Incoming → Option α) (c : CallClient) : Option Incoming :=
  c.heard.find? fun m => (slot m).isSome

/-- If anything is in the slot, it is from the call. -/
def Own {α : Type} (x : String) (slot : Incoming → Option α) (c : CallClient) : Prop :=
  ∀ m ∈ c.writer slot, m.callId? = some x

section
variable [SocketAddr NetAddr] [IpText]

/-- The outcomes of a call are those of the run without everything else. -/
def Isolated (x : String) (es : List CallEvent) : Prop :=
  outcomesOf x (run step new es) = outcomesOf x (run step new (es.filter (concerns x)))

end

section
variable [IpText]

/-- What a stage reads is from the call. -/
def ReadsOwn (x : String) (c : CallClient) : Stage → Prop
  | .predicting => c.Own x Incoming.hardNatProbe
  | .spraying _ => c.Own x Incoming.birthdayPorts
  | .starting _ _ => c.Own x Incoming.confirmedProfile ∧ c.Own x Incoming.maxProfile
  | _ => True

/-- A stage of the call reads its own, and nothing else tells it of the path. -/
def Unmixed (x : String) (c : CallClient) : CallEvent → Prop
  | .advance callId _ => callId = x → ∀ k ∈ c.connecting, k.callId = x → c.ReadsOwn x k.stage
  | .recv m => c.sig.transport = true → ∀ k ∈ c.connecting, k.callId = x →
      k.stage.listens = true → c.sig.pendingPathReport = .pending → m.verdict.isSome = true →
        m.callId? = some x
  | _ => True

end

instance (c : CallClient) (e : CallEvent) : Decidable (OneByOne c e) := by
  unfold OneByOne
  split <;> infer_instance

instance {α : Type} (x : String) (slot : Incoming → Option α) (c : CallClient) :
    Decidable (c.Own x slot) :=
  inferInstanceAs (Decidable (∀ m ∈ c.writer slot, m.callId? = some x))

instance [IpText] (x : String) (c : CallClient) (stage : Stage) :
    Decidable (c.ReadsOwn x stage) := by
  unfold ReadsOwn
  split <;> infer_instance

instance [IpText] (x : String) (c : CallClient) (e : CallEvent) : Decidable (Unmixed x c e) := by
  unfold Unmixed
  split <;> infer_instance

/-! ## The slots -/

section
variable {x : String}

/-- The decision of a run is `decidePath`, on which both sides have to agree: the runs of two
calls and the agreement of two sides are about one function of the source. -/
theorem negotiate_eq_decidePath (p : ConnectRun) (result : RaceResult) (peerDirectOk : Bool) :
    p.negotiate result peerDirectOk = decidePath p.directOnly result peerDirectOk := rfl

theorem recvSignal_keeps (sig : SignalState) (message : SignalMessage) :
    (recvSignal sig message).1.transport = sig.transport ∧
      (recvSignal sig message).1.ownReflexAddr = sig.ownReflexAddr := by
  cases message with
  | upgradeResponse callId proposalId accepted =>
      unfold recvSignal handleUpgradeResponse
      cases accepted with
      | false => exact ⟨rfl, rfl⟩
      | true => cases sig.pendingUpgrade <;> exact ⟨rfl, rfl⟩
  | _ => exact ⟨rfl, rfl⟩

/-- Without a proposal only a confirmation changes the quality. -/
theorem recvSignal_noProposal {sig : SignalState} (h : sig.pendingUpgrade = none)
    (message : SignalMessage) (quality : QualityProfile) :
    (recvSignal sig message).1.pendingUpgrade = none ∧
      (QualityState.recvUpgrade ⟨sig, quality⟩ message).1.activeQuality =
        ((Incoming.signal message).confirmedProfile).getD quality := by
  cases message with
  | upgradeResponse callId proposalId accepted =>
      unfold recvSignal QualityState.recvUpgrade QualityState.handleUpgradeResponse
        handleUpgradeResponse
      cases accepted with
      | false => exact ⟨h, rfl⟩
      | true =>
          rw [h]
          exact ⟨h, rfl⟩
  | _ => exact ⟨h, rfl⟩

theorem getD_findSome?_cons {α β : Type} (f : α → Option β) (a : α) (l : List α) (b : β) :
    ((a :: l).findSome? f).getD b = (f a).getD ((l.findSome? f).getD b) := by
  rw [List.findSome?_cons]
  cases f a <;> rfl

theorem findSome?_cons_or {α β : Type} (f : α → Option β) (a : α) (l : List α) :
    (a :: l).findSome? f = (f a).or (l.findSome? f) := by
  rw [List.findSome?_cons]
  cases f a <;> rfl

/-- A slot with something of the call is the same without the other messages. -/
theorem findSome?_own {α : Type} {slot : Incoming → Option α} {heard : List Incoming}
    (h : ∀ m ∈ heard.find? fun m => (slot m).isSome, m.callId? = some x) :
    (heard.filter fun m => m.callId? = some x).findSome? slot = heard.findSome? slot := by
  induction heard with
  | nil => rfl
  | cons m heard ih =>
      cases hm : slot m with
      | some a =>
          rw [List.find?_cons_of_pos (by rw [hm]; rfl)] at h
          have hown := h m rfl
          rw [List.filter_cons_of_pos (by simpa using hown), List.findSome?_cons,
            List.findSome?_cons, hm]
      | none =>
          rw [List.find?_cons_of_neg (by rw [hm]; exact Bool.false_ne_true)] at h
          rw [List.findSome?_cons, hm, ← ih h]
          by_cases hown : m.callId? = some x
          · rw [List.filter_cons_of_pos (by simpa using hown), List.findSome?_cons, hm]
          · rw [List.filter_cons_of_neg (by simpa using hown)]

end

section
variable [IpText] {c t : CallClient} {m : Incoming}

/-- The slots hold what the last message has left in them. No proposal is made. -/
structure Stashed (c : CallClient) : Prop where
  probe : c.peerHardNatProbe = c.heard.findSome? Incoming.hardNatProbe
  birthday : c.peerBirthdayPorts = c.heard.findSome? Incoming.birthdayPorts
  active : c.activeQuality = (c.heard.findSome? Incoming.confirmedProfile).getD .good
  cap : c.peerMaxQuality = c.heard.findSome? Incoming.maxProfile
  noProposal : c.sig.pendingUpgrade = none

theorem recv_keeps (c : CallClient) (m : Incoming) :
    (c.recv m).sig.transport = c.sig.transport ∧
      (c.recv m).sig.ownReflexAddr = c.sig.ownReflexAddr := by
  cases m with
  | signal message => exact recvSignal_keeps c.sig message
  | qualityCapability callId profile => exact ⟨rfl, rfl⟩

theorem stashed_recv (h : Stashed c) (m : Incoming) : Stashed (c.recv m) := by
  obtain ⟨hprobe, hbirthday, hactive, hcap, hnone⟩ := h
  constructor
  · exact (congrArg _ hprobe).trans (findSome?_cons_or _ m c.heard).symm
  · exact (congrArg _ hbirthday).trans (findSome?_cons_or _ m c.heard).symm
  · refine Eq.trans ?_ (getD_findSome?_cons _ m c.heard _).symm
    rw [← hactive]
    cases m with
    | signal message => exact (recvSignal_noProposal hnone message c.activeQuality).2
    | qualityCapability callId profile => rfl
  · exact (congrArg _ hcap).trans (findSome?_cons_or _ m c.heard).symm
  · cases m with
    | signal message => exact (recvSignal_noProposal hnone message c.activeQuality).1
    | qualityCapability callId profile => exact hnone

/-- The slots and the log are only changed by the loop. -/
theorem stashed_of_same (h : Stashed c) (hheard : t.heard = c.heard)
    (hprobe : t.peerHardNatProbe = c.peerHardNatProbe)
    (hbirthday : t.peerBirthdayPorts = c.peerBirthdayPorts)
    (hactive : t.activeQuality = c.activeQuality) (hcap : t.peerMaxQuality = c.peerMaxQuality)
    (hnone : t.sig.pendingUpgrade = c.sig.pendingUpgrade) : Stashed t := by
  constructor
  · rw [hprobe, hheard, h.probe]
  · rw [hbirthday, hheard, h.birthday]
  · rw [hactive, hheard, h.active]
  · rw [hcap, hheard, h.cap]
  · rw [hnone, h.noProposal]

end

/-! ## Two runs side by side -/

section
variable [IpText]

/-- A client `c`, and a client `t` that has only met what concerns the call. -/
structure Shadow (x : String) (c t : CallClient) : Prop where
  heard : t.heard = c.heard.filter fun m => m.callId? = some x
  stashed : Stashed c
  stashed' : Stashed t
  transport : t.sig.transport = c.sig.transport
  ownReflexAddr : t.sig.ownReflexAddr = c.sig.ownReflexAddr
  connecting : t.connecting = c.connecting.filter fun k => k.callId = x
  engine : t.engine = true → c.engine = true
  /-- The one that waits for the report sees the same slot. -/
  slot : ∀ k ∈ c.connecting, k.callId = x → k.stage.listens = true →
    t.sig.pendingPathReport = c.sig.pendingPathReport
  outcomes : t.outcomes = outcomesOf x c

variable {x : String} {c t : CallClient} {m : Incoming} {k : Connecting}

theorem shadow_new : Shadow x new new := by
  have hstashed : Stashed new := ⟨rfl, rfl, rfl, rfl, rfl⟩
  exact ⟨rfl, hstashed, hstashed, rfl, rfl, rfl, id, fun _ _ _ _ => rfl, rfl⟩

/-- What the slot of the path report becomes. -/
theorem recv_slot (c : CallClient) (m : Incoming) : (c.recv m).sig.pendingPathReport =
    match m with
    | .signal (.mediaPathReport _ directOk _) => c.sig.pendingPathReport.fire directOk
    | .signal (.hangup _) => c.sig.pendingPathReport.drop
    | _ => c.sig.pendingPathReport := by
  cases m with
  | qualityCapability callId profile => rfl
  | signal message =>
      refine (ConnectRun.recvSignal_pathReport c.sig message).trans ?_
      cases message <;> rfl

/-- It is only changed by a verdict, and only if it is pending. -/
theorem recv_slot_same (h : c.sig.pendingPathReport = .pending → m.verdict.isSome = false) :
    (c.recv m).sig.pendingPathReport = c.sig.pendingPathReport := by
  rw [recv_slot]
  cases hslot : c.sig.pendingPathReport with
  | pending =>
      have hverdict := h hslot
      cases m with
      | qualityCapability callId profile => rfl
      | signal message =>
          cases message with
          | mediaPathReport callId directOk raceWinner => cases hverdict
          | hangup callId => cases hverdict
          | _ => rfl
  | _ =>
      cases m with
      | qualityCapability callId profile => rfl
      | signal message => cases message <;> rfl

theorem recv_slot_congr (h : t.sig.pendingPathReport = c.sig.pendingPathReport) (m : Incoming) :
    (t.recv m).sig.pendingPathReport = (c.recv m).sig.pendingPathReport := by
  rw [recv_slot, recv_slot, h]

/-- A message that names the call is received by both. -/
theorem shadow_recv (h : Shadow x c t) (hm : m.callId? = some x) :
    Shadow x (c.recv m) (t.recv m) := by
  constructor
  · change m :: t.heard = (m :: c.heard).filter fun m => m.callId? = some x
    rw [List.filter_cons_of_pos (by simpa using hm), h.heard]
  · exact stashed_recv h.stashed m
  · exact stashed_recv h.stashed' m
  · rw [(recv_keeps t m).1, (recv_keeps c m).1, h.transport]
  · rw [(recv_keeps t m).2, (recv_keeps c m).2, h.ownReflexAddr]
  · exact h.connecting
  · exact h.engine
  · intro k hk hcall hlistens
    exact recv_slot_congr (h.slot k hk hcall hlistens) m
  · exact h.outcomes

/-- Another message is received by the client alone. -/
theorem shadow_recv_other (h : Shadow x c t) (hm : m.callId? ≠ some x)
    (hslot : ∀ k ∈ c.connecting, k.callId = x → k.stage.listens = true →
      c.sig.pendingPathReport = .pending → m.verdict.isSome = true → m.callId? = some x) :
    Shadow x (c.recv m) t := by
  constructor
  · change t.heard = (m :: c.heard).filter fun m => m.callId? = some x
    rw [List.filter_cons_of_neg (by simpa using hm), h.heard]
  · exact stashed_recv h.stashed m
  · exact h.stashed'
  · rw [(recv_keeps c m).1, h.transport]
  · rw [(recv_keeps c m).2, h.ownReflexAddr]
  · exact h.connecting
  · exact h.engine
  · intro k hk hcall hlistens
    rw [h.slot k hk hcall hlistens]
    refine (recv_slot_same fun hpending => ?_).symm
    exact eq_false_of_ne_true fun hverdict => hm (hslot k hk hcall hlistens hpending hverdict)
  · exact h.outcomes

/-- What both find in a slot that is the call's own. -/
theorem Shadow.slots (h : Shadow x c t) :
    (c.Own x Incoming.hardNatProbe → t.peerHardNatProbe = c.peerHardNatProbe) ∧
    (c.Own x Incoming.birthdayPorts → t.peerBirthdayPorts = c.peerBirthdayPorts) ∧
    (c.Own x Incoming.confirmedProfile → t.activeQuality = c.activeQuality) ∧
    (c.Own x Incoming.maxProfile → t.peerMaxQuality = c.peerMaxQuality) := by
  refine ⟨fun hown => ?_, fun hown => ?_, fun hown => ?_, fun hown => ?_⟩
  · rw [h.stashed'.probe, h.stashed.probe, h.heard, findSome?_own hown]
  · rw [h.stashed'.birthday, h.stashed.birthday, h.heard, findSome?_own hown]
  · rw [h.stashed'.active, h.stashed.active, h.heard, findSome?_own hown]
  · rw [h.stashed'.cap, h.stashed.cap, h.heard, findSome?_own hown]

/-- Both do the same to their signal state. -/
theorem shadow_sig (h : Shadow x c t) (f : SignalState → SignalState)
    (hnone : ∀ sig, (f sig).pendingUpgrade = sig.pendingUpgrade)
    (htransport : (f t.sig).transport = (f c.sig).transport)
    (hown : (f t.sig).ownReflexAddr = (f c.sig).ownReflexAddr)
    (hslot : t.sig.pendingPathReport = c.sig.pendingPathReport →
      (f t.sig).pendingPathReport = (f c.sig).pendingPathReport) :
    Shadow x { c with sig := f c.sig } { t with sig := f t.sig } where
  heard := h.heard
  stashed := stashed_of_same h.stashed rfl rfl rfl rfl rfl (hnone c.sig)
  stashed' := stashed_of_same h.stashed' rfl rfl rfl rfl rfl (hnone t.sig)
  transport := htransport
  ownReflexAddr := hown
  connecting := h.connecting
  engine := h.engine
  slot := fun k hk hcall hlistens => hslot (h.slot k hk hcall hlistens)
  outcomes := h.outcomes

/-- Both go on to the same stage. -/
theorem shadow_enter (h : Shadow x c t) (hcall : k.callId = x) {stage : Stage}
    (hslot : stage.listens = true → t.sig.pendingPathReport = c.sig.pendingPathReport) :
    Shadow x (c.enter k stage) (t.enter k stage) where
  heard := h.heard
  stashed := stashed_of_same h.stashed rfl rfl rfl rfl rfl rfl
  stashed' := stashed_of_same h.stashed' rfl rfl rfl rfl rfl rfl
  transport := h.transport
  ownReflexAddr := h.ownReflexAddr
  connecting := by
    change some { k with stage := stage } = Option.filter _ (some { k with stage := stage })
    rw [Option.filter_some]
    exact (if_pos (decide_eq_true hcall)).symm
  engine := h.engine
  slot := fun k' hk' _ hlistens => by
    obtain rfl := Option.some.inj hk'
    exact hslot hlistens
  outcomes := h.outcomes

/-- Both end their `connect` with the same outcome. -/
theorem shadow_finish (h : Shadow x c t) {o : Outcome} (ho : o.callId = x) (started : Bool) :
    Shadow x
      { c with connecting := none, engine := started || c.engine, outcomes := c.outcomes ++ [o] }
      { t with connecting := none, engine := started || t.engine, outcomes := t.outcomes ++ [o] } where
  heard := h.heard
  stashed := stashed_of_same h.stashed rfl rfl rfl rfl rfl rfl
  stashed' := stashed_of_same h.stashed' rfl rfl rfl rfl rfl rfl
  transport := h.transport
  ownReflexAddr := h.ownReflexAddr
  connecting := rfl
  engine := fun hengine => by
    rw [Bool.or_eq_true] at hengine ⊢
    exact hengine.imp_right h.engine
  slot := fun _ hk => (nomatch hk)
  outcomes := by
    change t.outcomes ++ [o] = List.filter _ (c.outcomes ++ [o])
    rw [List.filter_append, List.filter_cons_of_pos (by simpa using ho), List.filter_nil, h.outcomes]
    rfl

/-- A stage of another call. -/
theorem shadow_enter_other (h : Shadow x c t) (hk : c.connecting = some k) (hcall : k.callId ≠ x)
    (stage : Stage) (channel : Oneshot Bool) :
    Shadow x ({ c with sig := { c.sig with pendingPathReport := channel } }.enter k stage) t where
  heard := h.heard
  stashed := stashed_of_same h.stashed rfl rfl rfl rfl rfl rfl
  stashed' := h.stashed'
  transport := h.transport
  ownReflexAddr := h.ownReflexAddr
  connecting := by
    rw [h.connecting, hk]
    change Option.filter _ (some k) = Option.filter _ (some { k with stage := stage })
    rw [Option.filter_some, Option.filter_some]
    have hnot : ¬ decide (k.callId = x) = true := fun heq => hcall (of_decide_eq_true heq)
    exact (if_neg hnot).trans (if_neg hnot).symm
  engine := h.engine
  slot := fun k' hk' hcall' _ => by
    obtain rfl := Option.some.inj hk'
    exact absurd hcall' hcall
  outcomes := h.outcomes

theorem shadow_finish_other (h : Shadow x c t) (hk : c.connecting = some k) (hcall : k.callId ≠ x)
    (channel : Oneshot Bool) {o : Outcome} (ho : o.callId ≠ x) (started : Bool) :
    Shadow x
      { c with
        sig := { c.sig with pendingPathReport := channel }
        connecting := none
        engine := started || c.engine
        outcomes := c.outcomes ++ [o] } t where
  heard := h.heard
  stashed := stashed_of_same h.stashed rfl rfl rfl rfl rfl rfl
  stashed' := h.stashed'
  transport := h.transport
  ownReflexAddr := h.ownReflexAddr
  connecting := by
    rw [h.connecting, hk, Option.filter_some]
    exact if_neg (by simpa using hcall)
  engine := fun hengine => by
    rw [h.engine hengine, Bool.or_true]
  slot := fun _ hk' => (nomatch hk')
  outcomes := by
    rw [h.outcomes]
    change List.filter _ c.outcomes = List.filter _ (c.outcomes ++ [o])
    rw [List.filter_append, List.filter_cons_of_neg (by simpa using ho), List.filter_nil,
      List.append_nil]

end

section
variable [SocketAddr NetAddr] {c : CallClient}

theorem connect_of_idle (hengine : c.engine = false) (hidle : c.connecting = none)
    (args : CallArgs) : c.connect args = { c with connecting := some ⟨args, c.sig.ownReflexAddr,
      if entersRace NetAddr c.sig args.toConnectArgs then .predicting
      else .starting [] ⟨.relay, false⟩⟩ } := by
  rw [connect, hengine, hidle]
  rfl

/-- The race is entered with the own address only. -/
theorem entersRace_congr {sig sig' : SignalState} (h : sig.ownReflexAddr = sig'.ownReflexAddr)
    (args : ConnectArgs) : entersRace NetAddr sig args = entersRace NetAddr sig' args := by
  rw [entersRace, entersRace, h]

end

theorem connect_stage_listens (b : Bool) :
    (if b then Stage.predicting else .starting [] ⟨.relay, false⟩).listens = false := by
  cases b <;> rfl

section
variable [SocketAddr NetAddr] [IpText] {x : String} {c t : CallClient} {k : Connecting}
  {env : StageEnv} {e : CallEvent}

/-- A stage of the call itself. -/
theorem shadow_advance (h : Shadow x c t) (hk : c.connecting = some k) (hcall : k.callId = x)
    (hunmixed : Unmixed x c (.advance x env)) : Shadow x (c.advance k env) (t.advance k env) := by
  have hread := hunmixed rfl k hk hcall
  have hslot := h.slot k hk hcall
  obtain ⟨hprobe, hbirthday, hactive, hcap⟩ := h.slots
  unfold advance
  cases hstage : k.stage with
  | predicting =>
      rw [hstage] at hread
      dsimp only
      rw [hprobe hread]
      exact shadow_enter h hcall fun hlistens => (nomatch hlistens)
  | spraying predicted =>
      rw [hstage] at hread
      have hsame : birthdayAddrs t.peerBirthdayPorts env.draw =
          birthdayAddrs c.peerBirthdayPorts env.draw := by rw [hbirthday hread]
      dsimp only
      rw [hsame]
      have hsig := shadow_sig h (fun sig => { sig with pendingPathReport := .pending })
        (fun _ => rfl) h.transport h.ownReflexAddr fun _ => rfl
      exact shadow_enter hsig hcall fun _ => rfl
  | racing dialed =>
      rw [hstage] at hslot
      dsimp only
      cases env.race dialed with
      | ok result => exact shadow_enter h hcall fun _ => hslot rfl
      | error reason => exact shadow_enter h hcall fun hlistens => (nomatch hlistens)
  | awaiting dialed result =>
      rw [hstage] at hslot
      have hsig := shadow_sig h
        (fun sig => { sig with pendingPathReport := sig.pendingPathReport.drop })
        (fun _ => rfl) h.transport h.ownReflexAddr fun heq => congrArg Oneshot.drop heq
      have hsame : ConnectRun.told t.sig.pendingPathReport =
          ConnectRun.told c.sig.pendingPathReport := congrArg ConnectRun.told (hslot rfl)
      dsimp only
      rw [hsame]
      cases decidePath k.args.directOnly result (ConnectRun.told c.sig.pendingPathReport) with
      | ok chosen => exact shadow_enter hsig hcall fun hlistens => (nomatch hlistens)
      | error reason =>
          have ho : Outcome.callId ⟨k.callId, dialed, .error reason, none⟩ = x := hcall
          exact shadow_finish hsig ho false
  | starting dialed chosen =>
      rw [hstage] at hread
      have hsame : (t.activeQuality, t.peerMaxQuality) = (c.activeQuality, c.peerMaxQuality) := by
        rw [hactive hread.1, hcap hread.2]
      have ho : Outcome.callId ⟨k.callId, dialed, .ok chosen,
          some (c.activeQuality, c.peerMaxQuality)⟩ = x := hcall
      dsimp only
      rw [hsame]
      exact shadow_finish h ho env.engineStarts

/-- A stage of another call. -/
theorem shadow_advance_other (h : Shadow x c t) (hk : c.connecting = some k)
    (hcall : k.callId ≠ x) : Shadow x (c.advance k env) t := by
  have hstay := fun stage => shadow_enter_other h hk hcall stage c.sig.pendingPathReport
  unfold advance
  cases k.stage with
  | predicting => exact hstay _
  | spraying predicted => exact shadow_enter_other h hk hcall _ .pending
  | racing dialed =>
      dsimp only
      cases env.race dialed with
      | ok result => exact hstay _
      | error reason => exact hstay _
  | awaiting dialed result =>
      dsimp only
      cases decidePath k.args.directOnly result (ConnectRun.told c.sig.pendingPathReport) with
      | ok chosen => exact shadow_enter_other h hk hcall _ _
      | error reason =>
          have ho : Outcome.callId ⟨k.callId, dialed, .error reason, none⟩ ≠ x := hcall
          exact shadow_finish_other h hk hcall _ ho false
  | starting dialed chosen =>
      have ho : Outcome.callId ⟨k.callId, dialed, .ok chosen,
          some (c.activeQuality, c.peerMaxQuality)⟩ ≠ x := hcall
      exact shadow_finish_other h hk hcall _ ho env.engineStarts

theorem shadow_connect (h : Shadow x c t) {args : CallArgs} (hcall : callOfRoom args.room = x)
    (hengine : c.engine = false) (hidle : c.connecting = none) :
    Shadow x (c.connect args) (t.connect args) := by
  have hengine' : t.engine = false := eq_false_of_ne_true fun hon => by
    rw [h.engine hon] at hengine
    exact absurd hengine.symm Bool.false_ne_true
  have hidle' : t.connecting = none := by rw [h.connecting, hidle, Option.filter_none]
  rw [connect_of_idle hengine hidle, connect_of_idle hengine' hidle',
    entersRace_congr h.ownReflexAddr, h.ownReflexAddr]
  exact shadow_enter (k := ⟨args, c.sig.ownReflexAddr, .predicting⟩) h hcall fun hlistens =>
    absurd ((connect_stage_listens _).symm.trans hlistens) Bool.false_ne_true

theorem shadow_connect_other (h : Shadow x c t) {args : CallArgs} (hcall : callOfRoom args.room ≠ x)
    (hengine : c.engine = false) (hidle : c.connecting = none) : Shadow x (c.connect args) t := by
  rw [connect_of_idle hengine hidle]
  exact
    { heard := h.heard
      stashed := stashed_of_same h.stashed rfl rfl rfl rfl rfl rfl
      stashed' := h.stashed'
      transport := h.transport
      ownReflexAddr := h.ownReflexAddr
      connecting := by
        rw [h.connecting, hidle]
        exact (if_neg fun heq => hcall (of_decide_eq_true heq)).symm
      engine := h.engine
      slot := fun k hk hcall' _ => by
        obtain rfl := Option.some.inj hk
        exact absurd hcall' hcall
      outcomes := h.outcomes }

/-! ## One step -/

theorem shadow_step (h : Shadow x c t) (hunmixed : Unmixed x c e) (hone : OneByOne c e)
    (hkeep : concerns x e = true) : Shadow x (c.step e) (t.step e) := by
  cases e with
  | recv m =>
      have hm : m.callId? = some x := of_decide_eq_true hkeep
      change Shadow x (if c.sig.transport then c.recv m else c)
        (if t.sig.transport then t.recv m else t)
      rw [h.transport]
      split
      · exact shadow_recv h hm
      · exact h
  | connect args => exact shadow_connect h (of_decide_eq_true hkeep) hone.1 hone.2
  | advance callId env =>
      obtain rfl : callId = x := of_decide_eq_true hkeep
      unfold step
      dsimp only
      rw [h.connecting]
      cases hk : c.connecting with
      | none => exact h
      | some k =>
          by_cases hcall : k.callId = callId
          · rw [Option.filter_some, if_pos (decide_eq_true hcall)]
            dsimp only
            rw [if_pos hcall, if_pos hcall]
            exact shadow_advance h hk hcall hunmixed
          · rw [Option.filter_some, if_neg (by simpa using hcall)]
            dsimp only
            rw [if_neg hcall]
            exact h
  | hangupCall =>
      exact
        { h with
          stashed := stashed_of_same h.stashed rfl rfl rfl rfl rfl rfl
          stashed' := stashed_of_same h.stashed' rfl rfl rfl rfl rfl rfl
          engine := fun hon => (nomatch hon) }
  | registered fingerprint =>
      exact shadow_sig h (fun sig => sig.registered fingerprint) (fun _ => rfl) rfl
        h.ownReflexAddr id
  | reflected addr =>
      exact shadow_sig h (fun sig => { sig with ownReflexAddr := some addr }) (fun _ => rfl)
        h.transport rfl id
  | loopExit =>
      exact shadow_sig h SignalState.loopExit (fun _ => rfl) rfl h.ownReflexAddr id
  | deregister =>
      exact shadow_sig h SignalState.internalDeregister (fun _ => rfl) rfl rfl
        fun heq => congrArg Oneshot.drop heq

theorem shadow_step_other (h : Shadow x c t) (hunmixed : Unmixed x c e) (hone : OneByOne c e)
    (hdrop : concerns x e = false) : Shadow x (c.step e) t := by
  cases e with
  | recv m =>
      have hm : m.callId? ≠ some x := of_decide_eq_false hdrop
      change Shadow x (if c.sig.transport then c.recv m else c) t
      split
      · next htransport => exact shadow_recv_other h hm (hunmixed htransport)
      · exact h
  | connect args => exact shadow_connect_other h (of_decide_eq_false hdrop) hone.1 hone.2
  | advance callId env =>
      have hother : callId ≠ x := of_decide_eq_false hdrop
      unfold step
      dsimp only
      cases hk : c.connecting with
      | none => exact h
      | some k =>
          dsimp only
          split
          · next hcall => exact shadow_advance_other h hk (hcall ▸ hother)
          · exact h
  | hangupCall => cases hdrop
  | registered fingerprint => cases hdrop
  | reflected addr => cases hdrop
  | loopExit => cases hdrop
  | deregister => cases hdrop

/-- Calls that come one after the other and are not mixed up with others are
isolated. -/
theorem isolated_of_unmixed (x : String) (es : List CallEvent)
    (hone : EachStep step OneByOne new es) (hunmixed : EachStep step (Unmixed x) new es) :
    Isolated x es := by
  have hboth : EachStep step (fun c e => Unmixed x c e ∧ OneByOne c e) new es :=
    eachStep_and.mpr ⟨hunmixed, hone⟩
  have hkept : ∀ c t e, Shadow x c t → (Unmixed x c e ∧ OneByOne c e) → concerns x e = true →
      Shadow x (step c e) (step t e) :=
    fun _ _ _ h hok hkeep => shadow_step h hok.1 hok.2 hkeep
  have hdropped : ∀ c t e, Shadow x c t → (Unmixed x c e ∧ OneByOne c e) →
      concerns x e = false → Shadow x (step c e) t :=
    fun _ _ _ h hok hdrop => shadow_step_other h hok.1 hok.2 hdrop
  have h := related_of_filter (concerns x) hkept hdropped shadow_new hboth
  have hsame : outcomesOf x (run step new (es.filter (concerns x))) =
      outcomesOf x (run step new es) := by
    rw [outcomesOf, h.outcomes, outcomesOf, List.filter_filter]
    simp only [Bool.and_self]
  exact hsame.symm

end

/-! ## A call behind a carrier, and a call at home -/

def homeIp : IpAddr := .v4 0xC6336409

/-- The addresses of the two calls, with their texts. -/
def knownAddrs : List (NetAddr × String) :=
  [(⟨homeIp, 5000⟩, "198.51.100.9:5000"), (⟨homeIp, 7000⟩, "198.51.100.9:7000"),
    (⟨.v4 0xC0000201, 4433⟩, "192.0.2.1:4433")]

instance : SocketAddr NetAddr where
  toText a := (knownAddrs.lookup a).getD ""
  parse text := (knownAddrs.find? fun known => known.2 = text).map Prod.fst

instance : IpText where
  parse text :=
    if text = "203.0.113.7" then some (.v4 0xCB007107)
    else if text = "198.51.100.9" then some homeIp
    else none

def setupOf (callId : String) : CallArgs where
  relay := "192.0.2.1:4433"
  room := "call-" ++ callId
  peerDirectAddr := some "198.51.100.9:5000"
  peerLocalAddrs := []
  peerMappedAddr := none
  directOnly := false

def bothUp : StageEnv := ⟨fun i => 1024 + .ofNat i, fun _ => .ok ⟨true, true, .direct⟩, true⟩

/-- What the peer of a call has to say of itself. -/
def introduction (callId externalIp : String) : List CallEvent :=
  [.recv (.signal (.hardNatProbe ⟨callId, [6000], "sequential(delta=1)", externalIp⟩)),
    .recv (.signal (.hardNatBirthdayStart ⟨callId, 1, [6100], externalIp⟩)),
    .recv (.signal (.upgradeConfirm callId "p" .studio48k)),
    .recv (.qualityCapability callId .catastrophic)]

def callThrough (callId : String) : List CallEvent :=
  [.connect (setupOf callId), .advance callId bothUp, .advance callId bothUp,
    .advance callId bothUp, .recv (.signal (.mediaPathReport callId true "Direct")),
    .advance callId bothUp, .advance callId bothUp, .hangupCall,
    .recv (.signal (.hangup (some callId)))]

def firstCall : List CallEvent :=
  [.registered "fp", .reflected "198.51.100.9:7000"] ++ introduction "a" "203.0.113.7" ++
    callThrough "a"

theorem introduced_isolated :
    Isolated "x" (firstCall ++ introduction "x" "198.51.100.9" ++ callThrough "x") :=
  isolated_of_unmixed "x" _ (by decide +kernel) (by decide +kernel)

/-- A call whose peer says nothing of itself dials the ports of the call before. -/
theorem silent_not_isolated :
    EachStep step OneByOne new (firstCall ++ callThrough "x") ∧
      ¬ Isolated "x" (firstCall ++ callThrough "x") := by
  refine ⟨by decide +kernel, fun h => ?_⟩
  have hdialed := congrArg (List.map Outcome.dialed) h
  revert hdialed
  decide +kernel

end CallClient
end Wzp.Desktop
