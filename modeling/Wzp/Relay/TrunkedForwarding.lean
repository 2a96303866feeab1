import Wzp.Relay.RoomConsistency
import Wzp.Relay.Trunk

/-!
# The forwarding loops

A participant's packets are forwarded to the others in its room, either each in
a datagram of its own, or in batches for each peer. Datagrams are taken to fit
the path and not to be lost.
-/
namespace Wzp.Relay.Sfu
open Bytes Proto Runs

/-- What one loop is started with. `mtu` is the datagram size a transport knows
at a time, `sha` the hash of room names. -/
structure LoopSetup (Addr : Type) where
  room : RoomName
  id : ParticipantId
  remoteAddress : ParticipantId → Addr
  sessionTag : UInt8 × UInt8
  federationTx : Bool
  federationRoomHash : Option Buf
  sha : Hash

/-- A datagram from the participant arrives, the flush timer fires, or something
else happens in the rooms. -/
inductive LoopEvent where
  | datagram (data : Buf) (now : ℕ) (mtu : ParticipantId → Option ℕ)
  | tick
  | rooms (op : RoomOp)

structure FederationMediaOut where
  roomName : RoomName
  roomHash : Buf
  data : Buf
  deriving DecidableEq, Repr

/-! ## What the loops have in common -/
section
variable {Addr : Type} (cfg : LoopSetup Addr)

/-- The rooms, and whether the loop has not stopped. -/
structure LoopState where
  manager : RoomManager
  running : Bool

namespace LoopState

/-- The packet that the loop forwards. A datagram that is no packet is skipped. -/
def accepts (s : LoopState) : LoopEvent → Option MediaPacket
  | .datagram data _ _ =>
      if s.running && s.manager.containsParticipant cfg.room cfg.id then MediaPacket.fromBytes data
      else none
  | _ => none

/-- The rooms after a packet of the participant, before it is forwarded. -/
def observePacket (m : RoomManager) (pkt : MediaPacket) (now : ℕ) : RoomManager :=
  let m := m.updateKeyframeCache cfg.room cfg.id pkt
  let m := m.registerStream cfg.room cfg.id pkt
  match pkt.qualityReport with
  | some report =>
      let m := m.updateReceiverState cfg.room cfg.id report.bitrateCapKbps.toUInt32 report.lossPct now
      (m.observeQuality cfg.room cfg.id now report).1
  | none => m

/-- A participant that is not in the room any more has its loop stopped by the
next packet. -/
def next (s : LoopState) : LoopEvent → LoopState
  | .datagram data now _ =>
      match MediaPacket.fromBytes data with
      | none => s
      | some pkt =>
          if s.running && s.manager.containsParticipant cfg.room cfg.id then
            { s with manager := observePacket cfg s.manager pkt now }
          else { s with running := false }
  | .tick => s
  | .rooms op => { s with manager := s.manager.step op }

/-- The others a packet goes to: all, or for video those whose layer it is on. -/
def targets (s : LoopState) (pkt : MediaPacket) : List Participant :=
  (s.manager.othersWithId cfg.room cfg.id).filter fun other =>
    pkt.header.mediaType ≠ .video ||
      (videoRouteReason pkt (s.manager.selectedLayer cfg.room other.id)).isSome

end LoopState

/-! ## Plain forwarding -/

/-- `sent` are the datagrams to participants on QUIC, in order. -/
structure PlainLoop where
  state : LoopState
  sent : List (ParticipantId × Buf)
  webSocket : List (ParticipantId × Buf)
  federation : List FederationMediaOut

namespace PlainLoop

def start (m : RoomManager) : PlainLoop := ⟨⟨m, true⟩, [], [], []⟩

def forward (s : PlainLoop) (pkt : MediaPacket) : PlainLoop :=
  let targets := s.state.targets cfg pkt
  { s with
    sent := s.sent ++ (targets.filter (·.sender = .quic)).map fun p =>
      (p.id, (withOutboundVideoStreamId pkt cfg.id).toBytes)
    webSocket := s.webSocket ++ (targets.filter (·.sender = .webSocket)).map fun p =>
      (p.id, pkt.payload)
    federation := s.federation ++ if cfg.federationTx then
        [⟨cfg.room, cfg.federationRoomHash.getD (roomHash cfg.sha cfg.room), pkt.toBytes⟩]
      else [] }

def step (s : PlainLoop) (e : LoopEvent) : PlainLoop :=
  let next := { s with state := s.state.next cfg e }
  match s.state.accepts cfg e with
  | some pkt => next.forward cfg pkt
  | none => next

end PlainLoop

/-! ## Trunked forwarding -/

/-- One forwarder for each remote address. The loop has no federation channel. -/
structure TrunkedLoop (Addr : Type) [DecidableEq Addr] where
  state : LoopState
  forwarders : Table Addr TrunkedForwarder
  sent : List (ParticipantId × Buf)
  webSocket : List (ParticipantId × Buf)

namespace TrunkedLoop
variable [DecidableEq Addr]

def start (m : RoomManager) : TrunkedLoop Addr := ⟨⟨m, true⟩, ∅, [], []⟩

/-- The datagram with a frame, if there is one, on a forwarder's transport. -/
def datagrams (f : TrunkedForwarder) (frame : Option TrunkFrame) : List (ParticipantId × Buf) :=
  frame.toList.map fun frame => (f.transport, frame.encode)

/-- A packet is put into the batch for a participant. -/
def sendTo (pkt : MediaPacket) (mtu : ParticipantId → Option ℕ) (s : TrunkedLoop Addr)
    (p : Participant) : TrunkedLoop Addr :=
  let addr := cfg.remoteAddress p.id
  let fwd := (s.forwarders.lookup addr).getD (.new p.id cfg.sessionTag (mtu p.id))
  let (fwd, frame) := fwd.send (withOutboundVideoStreamId pkt cfg.id) (mtu fwd.transport)
  { s with
    forwarders := s.forwarders.insert addr fwd
    sent := s.sent ++ datagrams fwd frame }

def forward (s : TrunkedLoop Addr) (pkt : MediaPacket) (mtu : ParticipantId → Option ℕ) :
    TrunkedLoop Addr :=
  let targets := s.state.targets cfg pkt
  let s := (targets.filter (·.sender = .quic)).foldl (sendTo cfg pkt mtu) s
  { s with
    webSocket := s.webSocket ++ (targets.filter (·.sender = .webSocket)).map fun p =>
      (p.id, pkt.payload) }

def flushOne (s : TrunkedLoop Addr) (addr : Addr) : TrunkedLoop Addr :=
  match s.forwarders.lookup addr with
  | none => s
  | some fwd =>
      let (fwd, frame) := fwd.flush
      { s with
        forwarders := s.forwarders.insert addr fwd
        sent := s.sent ++ datagrams fwd frame }

/-- All batches are sent, one forwarder after another. -/
def flush (s : TrunkedLoop Addr) : TrunkedLoop Addr := s.forwarders.keys.foldl flushOne s

def step (s : TrunkedLoop Addr) (e : LoopEvent) : TrunkedLoop Addr :=
  let next := { s with state := s.state.next cfg e }
  match e with
  | .datagram _ _ mtu =>
      match s.state.accepts cfg e with
      | some pkt => next.forward cfg pkt mtu
      | none => next
  | .tick => if s.state.running then next.flush else next
  | .rooms _ => next

end TrunkedLoop
/-! ## What the peers receive -/

/-- What a participant's transport yields: datagrams that are no media packet
are skipped. -/
def received (sent : List (ParticipantId × Buf)) (peer : ParticipantId) : List MediaPacket :=
  (sent.filter (·.1 = peer)).filterMap fun d => MediaPacket.fromBytes d.2

theorem received_eq_nil {sent : List (ParticipantId × Buf)}
    (h : ∀ d ∈ sent, MediaPacket.fromBytes d.2 = none) (peer : ParticipantId) :
    received sent peer = [] :=
  List.filterMap_eq_nil_iff.mpr fun d hd => h d (List.mem_of_mem_filter hd)

/-- Datagrams that are packets are received by somebody. -/
theorem received_forall_eq_nil {sent : List (ParticipantId × Buf)}
    (h : ∀ d ∈ sent, (MediaPacket.fromBytes d.2).isSome) :
    (∀ peer, received sent peer = []) ↔ sent = [] := by
  constructor
  · intro hnone
    refine List.eq_nil_iff_forall_not_mem.mpr fun d hd => ?_
    have hmem : d ∈ sent.filter (·.1 = d.1) := List.mem_filter.mpr ⟨hd, decide_eq_true rfl⟩
    have hfail := List.filterMap_eq_nil_iff.mp (hnone d.1) d hmem
    exact Option.isSome_iff_ne_none.mp (h d hd) hfail
  · rintro rfl peer
    rfl

/-! ### Plain forwarding -/

theorem wellFormed_withOutbound {pkt : MediaPacket} (h : pkt.WellFormed) (id : ParticipantId) :
    (withOutboundVideoStreamId pkt id).WellFormed := by
  rw [withOutboundVideoStreamId]
  split
  · exact ⟨h.version, h.quality⟩
  · exact h

variable {cfg}

theorem LoopState.accepts_wellFormed {s : LoopState} {e : LoopEvent} {pkt : MediaPacket}
    (h : s.accepts cfg e = some pkt) : pkt.WellFormed := by
  cases e with
  | datagram data now mtu =>
      rw [LoopState.accepts] at h
      split at h
      · exact MediaPacket.fromBytes_wellFormed h
      · exact nomatch h
  | tick => exact nomatch h
  | rooms op => exact nomatch h

namespace PlainLoop

/-- What is sent to participants on QUIC are packets. -/
def SendsPackets (s : PlainLoop) : Prop := ∀ d ∈ s.sent, (MediaPacket.fromBytes d.2).isSome

/-- A packet that is forwarded goes to no federation and to nobody on QUIC. -/
def Quiet (cfg : LoopSetup Addr) (s : PlainLoop) (e : LoopEvent) : Prop :=
  ∀ pkt, s.state.accepts cfg e = some pkt →
    cfg.federationTx = false ∧ ∀ p ∈ (s.state.next cfg e).targets cfg pkt, p.sender ≠ .quic

def Silent (s : PlainLoop) : Prop := s.sent = [] ∧ s.federation = []

variable {s : PlainLoop} {e : LoopEvent}

theorem sendsPackets_step (h : s.SendsPackets) : (s.step cfg e).SendsPackets := by
  rw [step]
  cases haccepts : s.state.accepts cfg e with
  | none => exact h
  | some pkt =>
      intro d hd
      rcases List.mem_append.mp hd with hold | hnew
      · exact h d hold
      · obtain ⟨p, -, rfl⟩ := List.mem_map.mp hnew
        have hwell := wellFormed_withOutbound (LoopState.accepts_wellFormed haccepts) cfg.id
        rw [MediaPacket.fromBytes_toBytes hwell]
        rfl

theorem silent_step : (s.step cfg e).Silent ↔ s.Silent ∧ s.Quiet cfg e := by
  rw [step, Quiet]
  cases haccepts : s.state.accepts cfg e with
  | none => exact (and_iff_left fun pkt hpkt => nomatch hpkt).symm
  | some pkt =>
      have hfederation : (if cfg.federationTx then
          [(⟨cfg.room, cfg.federationRoomHash.getD (roomHash cfg.sha cfg.room), pkt.toBytes⟩ :
            FederationMediaOut)]
          else []) = [] ↔ cfg.federationTx = false := by
        cases cfg.federationTx with
        | true => exact iff_of_false (List.cons_ne_nil _ _) (fun h => nomatch h)
        | false => exact iff_of_true rfl rfl
      dsimp only
      rw [Silent, forward, List.append_eq_nil_iff, List.append_eq_nil_iff, hfederation,
        List.map_eq_nil_iff, List.filter_eq_nil_iff]
      constructor
      · rintro ⟨⟨hsent, htargets⟩, hfed, htx⟩
        refine ⟨⟨hsent, hfed⟩, fun pkt' hpkt => ?_⟩
        obtain rfl := Option.some.inj hpkt
        exact ⟨htx, fun p hp hquic => htargets p hp (decide_eq_true hquic)⟩
      · rintro ⟨⟨hsent, hfed⟩, hquiet⟩
        obtain ⟨htx, htargets⟩ := hquiet pkt rfl
        exact ⟨⟨hsent, fun p hp hquic => htargets p hp (of_decide_eq_true hquic)⟩, hfed, htx⟩

theorem silent_run (events : List LoopEvent) :
    (run (step cfg) s events).Silent ↔ s.Silent ∧ EachStep (step cfg) (Quiet cfg) s events := by
  induction events generalizing s with
  | nil => exact (and_iff_left trivial).symm
  | cons e events ih =>
      rw [run_cons, ih, silent_step, EachStep, and_assoc]

theorem sendsPackets_run (h : s.SendsPackets) (events : List LoopEvent) :
    (run (step cfg) s events).SendsPackets := by
  induction events generalizing s with
  | nil => exact h
  | cons e events ih => exact ih (sendsPackets_step h)

end PlainLoop

/-! ### Trunked forwarding -/

namespace TrunkedLoop
variable [DecidableEq Addr]

/-- Batches are within their limit, and no datagram is a packet. -/
structure Batched (s : TrunkedLoop Addr) : Prop where
  forwarders : s.forwarders.All fun _ f => f.batcher.Limited
  sent : ∀ d ∈ s.sent, MediaPacket.fromBytes d.2 = none

variable {s : TrunkedLoop Addr}

/-- A forwarder is stored, and its frame is sent. -/
theorem Batched.store (h : s.Batched) {addr : Addr} {f : TrunkedForwarder}
    {frame : Option TrunkFrame} (hlimited : f.batcher.Limited)
    (hframe : ∀ g, frame = some g → g.len ≤ 10) :
    Batched { s with
      forwarders := s.forwarders.insert addr f
      sent := s.sent ++ datagrams f frame } where
  forwarders := h.forwarders.insert hlimited
  sent := by
    intro d hd
    rcases List.mem_append.mp hd with hold | hnew
    · exact h.sent d hold
    · obtain ⟨g, hg, rfl⟩ := List.mem_map.mp hnew
      have hlen := hframe g (Option.mem_toList.mp hg)
      exact TrunkFrame.fromBytes_encode (Nat.lt_of_le_of_lt hlen (by decide))

theorem batched_sendTo (h : s.Batched) (pkt : MediaPacket) (mtu : ParticipantId → Option ℕ)
    (p : Participant) : (sendTo cfg pkt mtu s p).Batched := by
  have hlimited : ((s.forwarders.lookup (cfg.remoteAddress p.id)).getD
      (.new p.id cfg.sessionTag (mtu p.id))).batcher.Limited := by
    cases hlookup : s.forwarders.lookup (cfg.remoteAddress p.id) with
    | none => exact ⟨rfl, Nat.zero_le 10⟩
    | some f => exact h.forwarders _ f hlookup
  exact h.store (hlimited.send _ _).1 (hlimited.send _ _).2

theorem batched_forward (h : s.Batched) (pkt : MediaPacket) (mtu : ParticipantId → Option ℕ) :
    (s.forward cfg pkt mtu).Batched := by
  have hfold : ∀ (targets : List Participant) (s : TrunkedLoop Addr), s.Batched →
      (targets.foldl (sendTo cfg pkt mtu) s).Batched := by
    intro targets
    induction targets with
    | nil => exact fun _ h => h
    | cons p targets ih => exact fun s h => ih _ (batched_sendTo h pkt mtu p)
  have hsent := hfold ((s.state.targets cfg pkt).filter (·.sender = .quic)) s h
  exact ⟨hsent.forwarders, hsent.sent⟩

theorem batched_flush (h : s.Batched) : s.flush.Batched := by
  rw [flush]
  generalize s.forwarders.keys = addrs
  induction addrs generalizing s with
  | nil => exact h
  | cons addr addrs ih =>
      refine ih ?_
      rw [flushOne]
      cases hlookup : s.forwarders.lookup addr with
      | none => exact h
      | some f =>
          have hflush := (h.forwarders addr f hlookup).flush
          exact h.store (f := f.flush.1) hflush.1 hflush.2

theorem batched_step (h : s.Batched) (e : LoopEvent) : (s.step cfg e).Batched := by
  have hnext : Batched { s with state := s.state.next cfg e } := ⟨h.forwarders, h.sent⟩
  cases e with
  | datagram data now mtu =>
      rw [step]
      split
      · exact batched_forward hnext _ _
      · exact hnext
  | tick =>
      rw [step]
      split
      · exact batched_flush hnext
      · exact hnext
  | rooms op => exact hnext

theorem batched_run (h : s.Batched) (events : List LoopEvent) :
    (run (step cfg) s events).Batched := by
  induction events generalizing s with
  | nil => exact h
  | cons e events ih => exact ih (batched_step h e)

/-- The loop is not given the channel to the federation. -/
def federation (_ : TrunkedLoop Addr) : List FederationMediaOut := []

end TrunkedLoop

/-! ## The two loops compared -/

variable [DecidableEq Addr]

/-- Every peer receives the same packets from both loops, and the federation
gets the same. -/
def LoopsAgree (cfg : LoopSetup Addr) (m₀ : RoomManager) (events : List LoopEvent) : Prop :=
  let plain := run (PlainLoop.step cfg) (.start m₀) events
  let trunked := (run (TrunkedLoop.step cfg) (.start m₀) events).flush
  (∀ peer, received trunked.sent peer = received plain.sent peer) ∧
    trunked.federation = plain.federation

/-- The loops agree exactly when there is nothing to forward. -/
theorem loops_agree_iff (cfg : LoopSetup Addr) (m₀ : RoomManager) (events : List LoopEvent) :
    LoopsAgree cfg m₀ events ↔
      EachStep (PlainLoop.step cfg) (PlainLoop.Quiet cfg) (.start m₀) events := by
  have hbatched : (TrunkedLoop.start m₀ : TrunkedLoop Addr).Batched :=
    ⟨Table.all_empty, fun d hd => absurd hd List.not_mem_nil⟩
  have htrunked : ∀ d ∈ (run (TrunkedLoop.step cfg) (.start m₀) events).flush.sent,
      MediaPacket.fromBytes d.2 = none :=
    (TrunkedLoop.batched_flush (TrunkedLoop.batched_run hbatched events)).sent
  have hplain : (run (PlainLoop.step cfg) (.start m₀) events).SendsPackets :=
    PlainLoop.sendsPackets_run (fun d hd => absurd hd List.not_mem_nil) events
  have hsilent : (run (PlainLoop.step cfg) (.start m₀) events).Silent ↔
      (PlainLoop.start m₀).Silent ∧ EachStep (PlainLoop.step cfg) (PlainLoop.Quiet cfg) (.start m₀)
        events := PlainLoop.silent_run events
  rw [and_iff_right ⟨rfl, rfl⟩] at hsilent
  rw [← hsilent, LoopsAgree, PlainLoop.Silent, ← received_forall_eq_nil hplain]
  refine and_congr (forall_congr' fun peer => ?_) eq_comm
  rw [received_eq_nil htrunked peer]
  exact eq_comm

/-! ### A call of two -/

/-- A room with two participants on QUIC. -/
def twoInRoom : RoomManager :=
  run RoomManager.step (.new 1) [.join [1] .quic none none, .join [1] .quic none none]

def firstOfTwo : LoopSetup ParticipantId where
  room := [1]
  id := 1
  remoteAddress := fun id => id
  sessionTag := (0, 7)
  federationTx := false
  federationRoomHash := none
  sha := fun _ => Vector.replicate 32 0

def audioPacket : MediaPacket := ⟨⟨2, 0, .audio, .opus24k, 0, 0, 7, 40, 0⟩, [5], none⟩

theorem trunked_packet_lost :
    ¬ LoopsAgree firstOfTwo twoInRoom [.datagram audioPacket.toBytes 0 fun _ => none] := by
  intro h
  exact absurd (h.1 2) (by decide)

end
end Wzp.Relay.Sfu
