import Mathlib.Data.List.Basic
import Mathlib.Data.List.Induction

/-!
# The session of a call

A call is set up in three stages, changes its keys from time to time, and ends. Events that
do not belong to the stage the session is in are refused.
-/
namespace Wzp.Proto

inductive SessionState where
  | idle
  | connecting
  | handshaking
  | active
  | rekeying
  | closed
  deriving DecidableEq, Repr

inductive TerminateReason where
  | localHangup
  | remoteHangup
  | timeout
  | error
  deriving DecidableEq, Repr

inductive SessionEvent where
  | initiate
  | connected
  | handshakeComplete
  | rekeyStart
  | rekeyComplete
  | terminate (reason : TerminateReason)
  | connectionLost
  deriving DecidableEq, Repr

def TerminateReason.debug : TerminateReason → String
  | .localHangup => "LocalHangup"
  | .remoteHangup => "RemoteHangup"
  | .timeout => "Timeout"
  | .error => "Error"

def SessionEvent.debug : SessionEvent → String
  | .initiate => "Initiate"
  | .connected => "Connected"
  | .handshakeComplete => "HandshakeComplete"
  | .rekeyStart => "RekeyStart"
  | .rekeyComplete => "RekeyComplete"
  | .terminate reason => "Terminate \x7b reason: " ++ reason.debug ++ " \x7d"
  | .connectionLost => "ConnectionLost"

structure TransitionError where
  «from» : SessionState
  event : String
  deriving DecidableEq, Repr

structure Session where
  state : SessionState
  sessionId : List UInt8
  lastTransitionMs : UInt64
  rekeyCount : UInt32
  deriving DecidableEq, Repr

namespace Session

def new (sessionId : List UInt8) : Session := ⟨.idle, sessionId, 0, 0⟩

/-- The session after an event that it accepts is in the state that is returned. An event that
it refuses changes nothing. -/
def transition (s : Session) (event : SessionEvent) (nowMs : UInt64) :
    Session × Except TransitionError SessionState :=
  let moved (s : Session) (state : SessionState) : Session × Except TransitionError SessionState :=
    ({ s with state, lastTransitionMs := nowMs }, .ok state)
  match s.state, event with
  | .idle, .initiate => moved s .connecting
  | .connecting, .connected => moved s .handshaking
  | .connecting, .terminate _ | .connecting, .connectionLost => moved s .closed
  | .handshaking, .handshakeComplete => moved s .active
  | .handshaking, .terminate _ | .handshaking, .connectionLost => moved s .closed
  | .active, .rekeyStart => moved s .rekeying
  | .active, .terminate _ => moved s .closed
  | .active, .connectionLost => moved s .closed
  | .rekeying, .rekeyComplete => moved { s with rekeyCount := s.rekeyCount + 1 } .active
  | .rekeying, .terminate _ | .rekeying, .connectionLost => moved s .closed
  | state, event => (s, .error ⟨state, event.debug⟩)

def isMediaActive (s : Session) : Bool :=
  match s.state with
  | .active | .rekeying => true
  | _ => false

/-- The session after some events, whether it accepts them or not. -/
def run (s : Session) (es : List (SessionEvent × UInt64)) : Session :=
  es.foldl (fun s e => (s.transition e.1 e.2).1) s

/-- The events among them that it accepts. -/
def accepted (s : Session) : List (SessionEvent × UInt64) → List (SessionEvent × UInt64)
  | [] => []
  | e :: es =>
      let (s', result) := s.transition e.1 e.2
      if result.isOk then e :: s'.accepted es else s'.accepted es

end Session

/-! ## The histories of calls -/

namespace SessionEvent

def ends : SessionEvent → Bool
  | .terminate _ | .connectionLost => true
  | _ => false

def opened : List SessionEvent := [.initiate, .connected, .handshakeComplete]

def rekeys (k : ℕ) : List SessionEvent := (List.replicate k [.rekeyStart, .rekeyComplete]).flatten

end SessionEvent

open SessionEvent

/-- The history of a call that goes on, after `k` changes of its keys. -/
def Ongoing (k : ℕ) (h : List SessionEvent) : SessionState → Prop
  | .idle => k = 0 ∧ h = []
  | .connecting => k = 0 ∧ h = [.initiate]
  | .handshaking => k = 0 ∧ h = [.initiate, .connected]
  | .active => h = opened ++ rekeys k
  | .rekeying => h = opened ++ rekeys k ++ [.rekeyStart]
  | .closed => False

/-- A call that has begun may end at any time. -/
def History (k : ℕ) (h : List SessionEvent) (state : SessionState) : Prop :=
  Ongoing k h state ∨ state = .closed ∧ ∃ h' state' e, Ongoing k h' state' ∧ state' ≠ .idle ∧
    e.ends = true ∧ h = h' ++ [e]

/-- What an event does to the state alone. -/
def nextState (state : SessionState) (event : SessionEvent) : Option SessionState :=
  match ((⟨state, [], 0, 0⟩ : Session).transition event 0).2 with
  | .ok state => some state
  | .error _ => none

variable {s : Session} {e : SessionEvent} {nowMs : UInt64} {k : ℕ} {h : List SessionEvent}
  {state : SessionState} {es : List (SessionEvent × UInt64)}

theorem rekeys_succ (k : ℕ) : rekeys (k + 1) = rekeys k ++ [.rekeyStart, .rekeyComplete] := by
  rw [rekeys, List.replicate_succ', List.flatten_append]
  rfl

namespace Session

theorem transition_ok (nowMs : UInt64) (hnext : nextState s.state e = some state) :
    (s.transition e nowMs).2 = .ok state ∧ (s.transition e nowMs).1.state = state ∧
      (s.transition e nowMs).1.lastTransitionMs = nowMs ∧
        (s.transition e nowMs).1.rekeyCount = if e = .rekeyComplete then s.rekeyCount + 1 else s.rekeyCount := by
  obtain ⟨st, id, last, count⟩ := s
  cases st <;> cases e <;> cases hnext <;> exact ⟨rfl, rfl, rfl, rfl⟩

theorem transition_error (hnext : nextState s.state e = none) :
    s.transition e nowMs = (s, .error ⟨s.state, e.debug⟩) := by
  obtain ⟨st, id, last, count⟩ := s
  cases st <;> cases e <;> first | rfl | cases hnext

end Session

/-- The events that are accepted: an end, or the next stage. -/
theorem nextState_cases {state' : SessionState} (hnext : nextState state e = some state') :
    (e.ends = true ∧ e ≠ .rekeyComplete ∧ state ≠ .idle ∧ state' = .closed) ∨
      (state = .idle ∧ e = .initiate ∧ state' = .connecting) ∨
      (state = .connecting ∧ e = .connected ∧ state' = .handshaking) ∨
      (state = .handshaking ∧ e = .handshakeComplete ∧ state' = .active) ∨
      (state = .active ∧ e = .rekeyStart ∧ state' = .rekeying) ∨
      (state = .rekeying ∧ e = .rekeyComplete ∧ state' = .active) := by
  cases state <;> cases e <;> cases hnext <;> simp [ends]

/-- An event that is accepted continues the history. -/
theorem History.step (hist : History k h state) {state' : SessionState}
    (hnext : nextState state e = some state') :
    History (if e = .rekeyComplete then k + 1 else k) (h ++ [e]) state' := by
  have hongoing : Ongoing k h state := by
    rcases hist with hist | ⟨rfl, -⟩
    · exact hist
    · cases e <;> cases hnext
  rcases nextState_cases hnext with ⟨hends, hne, hidle, rfl⟩ | ⟨rfl, rfl, rfl⟩ | ⟨rfl, rfl, rfl⟩ |
    ⟨rfl, rfl, rfl⟩ | ⟨rfl, rfl, rfl⟩ | ⟨rfl, rfl, rfl⟩
  · rw [if_neg hne]
    exact Or.inr ⟨rfl, h, state, e, hongoing, hidle, hends, rfl⟩
  · obtain ⟨rfl, rfl⟩ := hongoing
    exact Or.inl ⟨rfl, rfl⟩
  · obtain ⟨rfl, rfl⟩ := hongoing
    exact Or.inl ⟨rfl, rfl⟩
  · obtain ⟨rfl, rfl⟩ := hongoing
    exact Or.inl rfl
  · obtain rfl := hongoing
    exact Or.inl rfl
  · obtain rfl := hongoing
    left
    simp [Ongoing, rekeys_succ]

/-- Only the events of a history lead to its state. -/
theorem History.foldlM (hist : History k h state) : h.foldlM nextState .idle = some state := by
  have hongoing : ∀ {k h state}, Ongoing k h state → h.foldlM nextState .idle = some state := by
    intro k h state hist
    have hactive : ∀ k, (opened ++ rekeys k).foldlM nextState .idle = some .active := by
      intro k
      induction k with
      | zero => rfl
      | succ k ih =>
          rw [rekeys_succ, ← List.append_assoc, List.foldlM_append, ih]
          rfl
    cases state with
    | idle =>
        obtain ⟨rfl, rfl⟩ := hist
        rfl
    | connecting =>
        obtain ⟨rfl, rfl⟩ := hist
        rfl
    | handshaking =>
        obtain ⟨rfl, rfl⟩ := hist
        rfl
    | active =>
        obtain rfl := hist
        exact hactive k
    | rekeying =>
        obtain rfl := hist
        rw [List.foldlM_append, hactive]
        rfl
    | closed => cases hist
  rcases hist with hist | ⟨rfl, h', state', e, hist, hidle, hends, rfl⟩
  · exact hongoing hist
  · rw [List.foldlM_append, hongoing hist]
    cases state' with
    | idle => exact absurd rfl hidle
    | closed => cases hist
    | _ => cases e <;> cases hends <;> rfl

/-! ## Runs -/

theorem run_append_singleton (s : Session) (es : List (SessionEvent × UInt64)) (e : SessionEvent × UInt64) :
    s.run (es ++ [e]) = ((s.run es).transition e.1 e.2).1 := by
  simp [Session.run]

theorem isOk_transition (s : Session) (e : SessionEvent) (nowMs : UInt64) :
    (s.transition e nowMs).2.isOk = (nextState s.state e).isSome := by
  cases hnext : nextState s.state e with
  | none => simp [Session.transition_error hnext, Except.isOk, Except.toBool]
  | some state => simp [(Session.transition_ok nowMs hnext).1, Except.isOk, Except.toBool]

theorem accepted_append_singleton (s : Session) (es : List (SessionEvent × UInt64))
    (e : SessionEvent × UInt64) :
    s.accepted (es ++ [e]) =
      if (nextState (s.run es).state e.1).isSome then s.accepted es ++ [e] else s.accepted es := by
  induction es generalizing s with
  | nil =>
      rw [show s.run [] = s from rfl]
      simp [Session.accepted, isOk_transition]
  | cons x es ih =>
      simp only [List.cons_append, Session.accepted, ih, isOk_transition]
      have hrun : s.run (x :: es) = (s.transition x.1 x.2).1.run es := rfl
      rw [hrun]
      split
      · split
        · rfl
        · rfl
      · rfl

/-- What a session has accepted is the history of a call, in the state it says, with as many
changes of the keys as it has counted; the time it gives is that of the last event accepted. -/
theorem run_history (sessionId : List UInt8) (es : List (SessionEvent × UInt64)) :
    let s := Session.new sessionId
    ∃ k, History k ((s.accepted es).map Prod.fst) (s.run es).state ∧
      (s.run es).rekeyCount = UInt32.ofNat k ∧
        (s.run es).lastTransitionMs = ((s.accepted es).getLast?.map Prod.snd).getD 0 := by
  intro s
  induction es using List.reverseRecOn with
  | nil => exact ⟨0, Or.inl ⟨rfl, rfl⟩, rfl, rfl⟩
  | append_singleton es e ih =>
      obtain ⟨k, hist, hcount, hlast⟩ := ih
      rw [run_append_singleton, accepted_append_singleton]
      cases hnext : nextState (s.run es).state e.1 with
      | none =>
          rw [Session.transition_error hnext]
          exact ⟨k, hist, hcount, hlast⟩
      | some state =>
          obtain ⟨-, hstate, htime, hrekey⟩ := Session.transition_ok e.2 hnext
          refine ⟨if e.1 = .rekeyComplete then k + 1 else k, ?_, ?_, ?_⟩
          · rw [hstate, Option.isSome_some, if_pos rfl, List.map_append]
            exact hist.step hnext
          · rw [hrekey, hcount]
            split
            · rw [UInt32.ofNat_add]
              rfl
            · rfl
          · simp [htime]

theorem ends_of_mem_opened (he : e ∈ opened) : e.ends = false := by
  revert he e
  decide

theorem ends_of_mem_rekeys (he : e ∈ rekeys k) : e.ends = false := by
  obtain ⟨pair, hpair, hmem⟩ := List.mem_flatten.mp he
  obtain rfl := List.eq_of_mem_replicate hpair
  have hcases : e = .rekeyStart ∨ e = .rekeyComplete := by simpa using hmem
  rcases hcases with rfl | rfl
  · rfl
  · rfl

/-- The stages in which media flows. -/
theorem History.media (hist : History k h state) : (state = .active ∨ state = .rekeying) ↔
    .handshakeComplete ∈ h ∧ ∀ e ∈ h, e.ends = false := by
  rcases hist with hist | ⟨rfl, h', state', e, -, -, hends, rfl⟩
  · cases state with
    | idle =>
        obtain ⟨-, rfl⟩ := hist
        simp
    | connecting =>
        obtain ⟨-, rfl⟩ := hist
        simp
    | handshaking =>
        obtain ⟨-, rfl⟩ := hist
        simp
    | active =>
        obtain rfl := hist
        refine iff_of_true (Or.inl rfl) ⟨by simp [opened], fun e he => ?_⟩
        rcases List.mem_append.mp he with he | he
        · exact ends_of_mem_opened he
        · exact ends_of_mem_rekeys he
    | rekeying =>
        obtain rfl := hist
        refine iff_of_true (Or.inr rfl) ⟨by simp [opened], fun e he => ?_⟩
        rcases List.mem_append.mp he with he | he
        · rcases List.mem_append.mp he with he | he
          · exact ends_of_mem_opened he
          · exact ends_of_mem_rekeys he
        · rw [List.mem_singleton.mp he]
          rfl
    | closed => cases hist
  · refine iff_of_false (by simp) fun hlive => ?_
    have hfalse := hlive.2 e (by simp)
    rw [hends] at hfalse
    cases hfalse

/-- A session is the history of a call: what it has accepted is one, the next event is accepted
exactly if it continues this history, and media flows exactly after the handshake and before
the end. -/
theorem session_accepts_histories (sessionId : List UInt8) (es : List (SessionEvent × UInt64)) :
    let s := Session.new sessionId
    let past := (s.accepted es).map Prod.fst
    (∃ k, History k past (s.run es).state ∧ (s.run es).rekeyCount = UInt32.ofNat k ∧
      (s.run es).lastTransitionMs = ((s.accepted es).getLast?.map Prod.snd).getD 0) ∧
    (∀ e nowMs, ((s.run es).transition e nowMs).2.isOk ↔ ∃ k state, History k (past ++ [e]) state) ∧
    ((s.run es).isMediaActive ↔ .handshakeComplete ∈ past ∧ ∀ e ∈ past, e.ends = false) := by
  intro s past
  obtain ⟨k, hist, hcount, hlast⟩ := run_history sessionId es
  refine ⟨⟨k, hist, hcount, hlast⟩, fun e nowMs => ?_, ?_⟩
  · rw [isOk_transition]
    constructor
    · intro hsome
      obtain ⟨state, hnext⟩ := Option.isSome_iff_exists.mp hsome
      exact ⟨_, _, hist.step hnext⟩
    · rintro ⟨k', state, hist'⟩
      have hfold := hist'.foldlM
      rw [List.foldlM_append, hist.foldlM] at hfold
      exact Option.isSome_iff_exists.mpr ⟨state, by simpa using hfold⟩
  · rw [← hist.media]
    cases hstate : (s.run es).state <;> simp [Session.isMediaActive, hstate]

end Wzp.Proto
