import Wzp.Lib.Leases
import Wzp.Lib.Records
import Wzp.Proto.Session
import Wzp.Relay.Pipeline
import Wzp.Relay.Rooms

/-!
# The session manager

The relay keeps two kinds of sessions: those of forward mode with their pipelines, and those of
the connections in rooms, of which it keeps only what they are. One limit is for both.
-/
namespace Wzp.Relay
open Bytes Records Leases Runs

abbrev SessionId := Buf

inductive SessionState where
  | active
  | closing
  deriving DecidableEq, Repr

structure SessionInfo where
  roomName : RoomName
  fingerprint : Option String
  connectedAt : ℕ
  state : SessionState
  deriving DecidableEq, Repr

structure RelaySession where
  state : Proto.Session
  upstreamPipeline : RelayPipeline
  downstreamPipeline : RelayPipeline
  profile : Proto.QualityProfile
  lastActivityMs : UInt64

namespace RelaySession

def new (sessionId : SessionId) (config : PipelineConfig) : RelaySession where
  state := .new sessionId
  upstreamPipeline := .new config
  downstreamPipeline := .new config
  profile := config.initialProfile
  lastActivityMs := 0

def isActive (s : RelaySession) : Bool := s.state.isMediaActive

end RelaySession

/-- `nextSession` is the counter of the process that session ids are made from. -/
structure SessionManager where
  sessions : Table SessionId RelaySession
  tracked : Table SessionId SessionInfo
  maxSessions : ℕ
  nextSession : UInt64

/-- The number that was drawn, and the time in the upper half. -/
def sessionIdOf (ctr nanos : UInt64) : SessionId :=
  leBytes 8 ctr.toNat ++ leBytes 8 nanos.toNat

namespace SessionManager
variable (m : SessionManager)

def new (maxSessions : ℕ) : SessionManager := ⟨∅, ∅, maxSessions, 1⟩

def totalCount : ℕ := m.sessions.entries.length + m.tracked.entries.length

/-! ### Pipelines -/

def getSession (id : SessionId) : Option RelaySession := m.sessions.lookup id

/-- A session that is there already is returned as it is, if there is room for one more. -/
def createPipelineSession (sessionId : SessionId) (config : PipelineConfig) :
    SessionManager × Option RelaySession :=
  if m.totalCount ≥ m.maxSessions then (m, none)
  else
    let m := { m with sessions := m.sessions.orInsert sessionId (.new sessionId config) }
    (m, m.getSession sessionId)

def removePipelineSession (id : SessionId) : SessionManager × Option RelaySession :=
  ({ m with sessions := m.sessions.erase id }, m.sessions.lookup id)

def pipelineActiveCount : ℕ := m.sessions.values.countP RelaySession.isActive

def pipelineTotalCount : ℕ := m.sessions.entries.length

/-- Also returns how many sessions were removed. -/
def expireIdle (nowMs timeoutMs : UInt64) : SessionManager × ℕ :=
  let sessions := m.sessions.retain fun _ s =>
    nowMs.toNat - s.lastActivityMs.toNat < timeoutMs.toNat
  ({ m with sessions }, m.sessions.entries.length - sessions.entries.length)

/-! ### Rooms -/

def randSessionId (nanos : UInt64) : SessionManager × SessionId :=
  ({ m with nextSession := m.nextSession + 1 }, sessionIdOf m.nextSession nanos)

def createSession (room : RoomName) (fingerprint : Option String) (now : ℕ) (nanos : UInt64) :
    SessionManager × Except String SessionId :=
  if m.totalCount ≥ m.maxSessions then
    (m, .error ("max sessions (" ++ toString m.maxSessions ++ ") exceeded"))
  else
    let (m, id) := m.randSessionId nanos
    ({ m with tracked := m.tracked.insert id ⟨room, fingerprint, now, .active⟩ }, .ok id)

def removeSession (id : SessionId) : SessionManager := { m with tracked := m.tracked.erase id }

def activeCount : ℕ := m.tracked.values.countP (·.state = .active)

def sessionsInRoom (room : RoomName) : List SessionId :=
  (m.tracked.entries.filter (·.2.roomName = room)).map Sigma.fst

def sessionInfo (id : SessionId) : Option SessionInfo := m.tracked.lookup id

end SessionManager

inductive SessionOp where
  | createPipelineSession (sessionId : SessionId) (config : PipelineConfig)
  | removePipelineSession (id : SessionId)
  | expireIdle (nowMs timeoutMs : UInt64)
  | createSession (room : RoomName) (fingerprint : Option String) (now : ℕ) (nanos : UInt64)
  | removeSession (id : SessionId)

namespace SessionManager

def step (m : SessionManager) : SessionOp → SessionManager
  | .createPipelineSession id config => (m.createPipelineSession id config).1
  | .removePipelineSession id => (m.removePipelineSession id).1
  | .expireIdle nowMs timeoutMs => (m.expireIdle nowMs timeoutMs).1
  | .createSession room fingerprint now nanos => (m.createSession room fingerprint now nanos).1
  | .removeSession id => m.removeSession id

/-- Both kinds of sessions together keep to the limit. -/
def WithinLimit (m : SessionManager) : Prop := m.totalCount ≤ m.maxSessions

variable {m : SessionManager} {room : RoomName} {fingerprint : Option String} {now : ℕ}
  {nanos : UInt64} {id : SessionId}

theorem totalCount_eq (m : SessionManager) :
    m.totalCount = (issued m.sessions).card + (issued m.tracked).card := by
  rw [totalCount, card_issued, card_issued]

theorem createSession_full (h : m.maxSessions ≤ m.totalCount) :
    m.createSession room fingerprint now nanos =
      (m, .error ("max sessions (" ++ toString m.maxSessions ++ ") exceeded")) := by
  rw [createSession, if_pos h]

theorem createSession_free (h : m.totalCount < m.maxSessions) :
    m.createSession room fingerprint now nanos =
      ({ m with
          nextSession := m.nextSession + 1
          tracked := m.tracked.insert (sessionIdOf m.nextSession nanos)
            ⟨room, fingerprint, now, .active⟩ }, .ok (sessionIdOf m.nextSession nanos)) := by
  rw [createSession, if_neg (not_le.mpr h)]
  rfl

theorem WithinLimit.createSession (h : m.WithinLimit) :
    (m.createSession room fingerprint now nanos).1.WithinLimit := by
  rcases Nat.lt_or_ge m.totalCount m.maxSessions with hfree | hfull
  · rw [createSession_free hfree]
    rw [totalCount_eq] at hfree
    have hcard := Finset.card_insert_le (sessionIdOf m.nextSession nanos) (issued m.tracked)
    rw [WithinLimit, totalCount_eq, issued_insert]
    dsimp only
    omega
  · rwa [createSession_full hfull]

theorem WithinLimit.removeSession (h : m.WithinLimit) (id : SessionId) :
    (m.removeSession id).WithinLimit := by
  rw [WithinLimit, totalCount_eq] at h ⊢
  rw [SessionManager.removeSession, issued_erase]
  have hcard := Finset.card_erase_le (s := issued m.tracked) (a := id)
  dsimp only
  omega

/-- Sessions of forward mode may go at any time. -/
theorem WithinLimit.of_subset (h : m.WithinLimit) {sessions : Table SessionId RelaySession}
    (hsub : issued sessions ⊆ issued m.sessions) : WithinLimit { m with sessions } := by
  rw [WithinLimit, totalCount_eq] at h ⊢
  have hcard := Finset.card_le_card hsub
  dsimp only
  omega

theorem WithinLimit.createPipelineSession (h : m.WithinLimit) (id : SessionId)
    (config : PipelineConfig) : (m.createPipelineSession id config).1.WithinLimit := by
  rw [SessionManager.createPipelineSession]
  split
  · exact h
  · rename_i hfree
    dsimp only [Table.orInsert]
    split
    · exact h
    · rw [totalCount_eq] at hfree
      have hcard := Finset.card_insert_le id (issued m.sessions)
      rw [WithinLimit, totalCount_eq, issued_insert]
      dsimp only
      omega

theorem withinLimit_step (h : m.WithinLimit) (op : SessionOp) : (m.step op).WithinLimit := by
  cases op with
  | createPipelineSession id config => exact h.createPipelineSession id config
  | removePipelineSession id =>
      refine h.of_subset ?_
      rw [issued_erase]
      exact Finset.erase_subset id (issued m.sessions)
  | expireIdle nowMs timeoutMs =>
      refine h.of_subset fun id hid => ?_
      rw [mem_issued, ← AList.lookup_isSome] at hid ⊢
      obtain ⟨s, hs⟩ := Option.isSome_iff_exists.mp hid
      exact Option.isSome_of_eq_some (Table.lookup_retain_eq_some.mp hs).1
  | createSession room fingerprint now nanos => exact h.createSession
  | removeSession id => exact h.removeSession id

/-- Whatever is done with the sessions, there are never more than the limit. -/
theorem withinLimit_run (maxSessions : ℕ) (ops : List SessionOp) :
    Throughout step WithinLimit (new maxSessions) ops := by
  have hsteps : EachStep step (fun _ _ => True) (new maxSessions) ops :=
    eachStep_of_forall fun _ _ _ => trivial
  exact throughout_of_eachStep (fun m op h _ => withinLimit_step h op) (Nat.zero_le maxSessions) hsteps

theorem expireIdle_count (m : SessionManager) (nowMs timeoutMs : UInt64) :
    (m.expireIdle nowMs timeoutMs).2 = m.sessions.values.countP fun s =>
      timeoutMs.toNat ≤ nowMs.toNat - s.lastActivityMs.toNat := by
  rw [expireIdle, Table.values, List.countP_map]
  have hsplit := List.length_eq_countP_add_countP
    (fun e : Sigma fun _ : SessionId => RelaySession =>
      decide (nowMs.toNat - e.2.lastActivityMs.toNat < timeoutMs.toNat)) (l := m.sessions.entries)
  rw [hsplit, Table.retain, ← List.countP_eq_length_filter, Nat.add_sub_cancel_left]
  refine List.countP_congr fun e _ => ?_
  simp

end SessionManager
end Wzp.Relay
