import Mathlib.Data.List.Basic
import Mathlib.Logic.Function.Basic
import Wzp.Lib.Runs

/-!
# Signal registration

The commands of the user, the receive loops of the connections and the supervisors that
reconnect share one signal state under a lock. Each of them does its work in sections,
between which any other may run.
-/
namespace Wzp.Desktop
open Runs

/-- The sections of `register_signal`; its attempt to connect may fail. -/
inductive RegisterStage where
  | check
  | deregister
  | announce
  | connect
  | install (conn : ℕ)
  deriving DecidableEq, Repr

structure RegisterCommand where
  relay : String
  stage : RegisterStage
  deriving DecidableEq, Repr

/-- The sections of the supervisor. It waits between `check` and `release`. -/
inductive SupervisorStage where
  | claim
  | check
  | release
  | attempt
  | install (conn : ℕ)
  | reclaim
  | cleanup
  deriving DecidableEq, Repr

structure ReconnectSupervisor where
  currentRelay : String
  stage : SupervisorStage
  deriving DecidableEq, Repr

/-- The signal state, the connections by their numbers, with the relay and whether a
receive loop runs, and what is under way: the commands, and the supervisors by the
connection whose loop has spawned them. -/
structure Registration where
  transport : Option ℕ
  desiredRelayAddr : Option String
  reconnectInProgress : Bool
  relay : ℕ → Option String
  isOpen : ℕ → Bool
  recvLoop : ℕ → Bool
  nextConn : ℕ
  command : ℕ → Option RegisterCommand
  supervisor : ℕ → Option ReconnectSupervisor

inductive RegistrationEvent where
  | register (id : ℕ) (relay : String)
  | deregister
  /-- The next section of a command; `connected` is the outcome of an attempt. -/
  | command (id : ℕ) (connected : Bool)
  | supervisor (id : ℕ) (connected : Bool)
  | lose (conn : ℕ)
  | loopExit (conn : ℕ)

namespace Registration

def start : Registration where
  transport := none
  desiredRelayAddr := none
  reconnectInProgress := false
  relay _ := none
  isOpen _ := false
  recvLoop _ := false
  nextConn := 0
  command _ := none
  supervisor _ := none

def setCommand (s : Registration) (id : ℕ) (cmd : Option RegisterCommand) : Registration :=
  { s with command := Function.update s.command id cmd }

def setSupervisor (s : Registration) (id : ℕ) (sup : Option ReconnectSupervisor) : Registration :=
  { s with supervisor := Function.update s.supervisor id sup }

def close (s : Registration) (conn : ℕ) : Registration :=
  { s with isOpen := Function.update s.isOpen conn false }

/-- The connection in the slot is closed. -/
def internalDeregister (s : Registration) : Registration :=
  { s with
    transport := none
    desiredRelayAddr := none
    isOpen := match s.transport with
      | some conn => Function.update s.isOpen conn false
      | none => s.isOpen }

/-- A new connection, on which the relay has acknowledged the registration. -/
def connect (s : Registration) (relay : String) : Registration :=
  { s with
    relay := Function.update s.relay s.nextConn (some relay)
    isOpen := Function.update s.isOpen s.nextConn true
    nextConn := s.nextConn + 1 }

def install (s : Registration) (conn : ℕ) : Registration :=
  { s with transport := some conn, recvLoop := Function.update s.recvLoop conn true }

def stepCommand (s : Registration) (id : ℕ) (cmd : RegisterCommand) (connected : Bool) :
    Registration :=
  match cmd.stage with
  | .check =>
      if s.transport.isSome ∧ s.desiredRelayAddr = some cmd.relay then s.setCommand id none
      else s.setCommand id (some { cmd with stage := .deregister })
  | .deregister => s.internalDeregister.setCommand id (some { cmd with stage := .announce })
  | .announce =>
      { s with desiredRelayAddr := some cmd.relay }.setCommand id (some { cmd with stage := .connect })
  | .connect =>
      if connected then
        (s.connect cmd.relay).setCommand id (some { cmd with stage := .install s.nextConn })
      else s.setCommand id none
  | .install conn => (s.install conn).setCommand id none

def stepSupervisor (s : Registration) (id : ℕ) (sup : ReconnectSupervisor) (connected : Bool) :
    Registration :=
  match sup.stage with
  | .claim =>
      if s.reconnectInProgress then s.setSupervisor id none
      else { s with reconnectInProgress := true }.setSupervisor id (some { sup with stage := .check })
  | .check =>
      match s.desiredRelayAddr with
      | none => s.setSupervisor id (some { sup with stage := .cleanup })
      | some desired =>
          if s.transport.isSome then s.setSupervisor id (some { sup with stage := .cleanup })
          else s.setSupervisor id (some ⟨desired, .release⟩)
  | .release =>
      { s with reconnectInProgress := false }.setSupervisor id (some { sup with stage := .attempt })
  | .attempt =>
      if connected then
        (s.connect sup.currentRelay).setSupervisor id (some { sup with stage := .install s.nextConn })
      else s.setSupervisor id (some { sup with stage := .reclaim })
  | .install conn => (s.install conn).setSupervisor id none
  | .reclaim =>
      { s with reconnectInProgress := true }.setSupervisor id (some { sup with stage := .check })
  | .cleanup => { s with reconnectInProgress := false }.setSupervisor id none

/-- The exit of a loop clears the slot, whatever is in it. -/
def loopExit (s : Registration) (conn : ℕ) : Registration :=
  let s := { s with recvLoop := Function.update s.recvLoop conn false, transport := none }
  match s.desiredRelayAddr with
  | some relay =>
      if s.reconnectInProgress then s else s.setSupervisor conn (some ⟨relay, .claim⟩)
  | none => s

def step (s : Registration) : RegistrationEvent → Registration
  | .register id relay =>
      if (s.command id).isNone then s.setCommand id (some ⟨relay, .check⟩) else s
  | .deregister => s.internalDeregister
  | .command id connected =>
      match s.command id with
      | some cmd => s.stepCommand id cmd connected
      | none => s
  | .supervisor id connected =>
      match s.supervisor id with
      | some sup => s.stepSupervisor id sup connected
      | none => s
  | .lose conn => s.close conn
  | .loopExit conn => if s.recvLoop conn && !s.isOpen conn then s.loopExit conn else s

end Registration

/-- Connecting, or about to install a connection. -/
def RegisterStage.connecting : RegisterStage → Bool
  | .connect => true
  | .install _ => true
  | _ => false

def SupervisorStage.connecting : SupervisorStage → Bool
  | .attempt => true
  | .install _ => true
  | _ => false

/-- Past the check that somebody wants to be registered. -/
def SupervisorStage.committed : SupervisorStage → Bool
  | .release => true
  | stage => stage.connecting

/-- The single-flight flag is this supervisor's. -/
def SupervisorStage.holdsFlag : SupervisorStage → Bool
  | .check | .release | .cleanup => true
  | _ => false

namespace Registration

def Connecting (s : Registration) (id : ℕ) : Prop :=
  ∃ cmd, s.command id = some cmd ∧ cmd.stage.connecting = true

/-- No attempt is in progress. -/
structure Quiet (s : Registration) : Prop where
  commands : ∀ id, ¬ s.Connecting id
  supervisors : ∀ i sup, s.supervisor i = some sup → sup.stage.connecting = false

/-- The connection in the slot is lost and its loop has yet to see to that. -/
def Lost (s : Registration) (conn : ℕ) : Prop :=
  s.recvLoop conn = true ∧ s.isOpen conn = false ∧ s.transport = some conn

structure Supervised (s : Registration) : Prop where
  single : s.Quiet → ∀ c d, s.isOpen c = true → s.isOpen d = true → c = d
  installed : s.Quiet → ∀ c, s.isOpen c = true →
    s.transport = some c ∧ s.desiredRelayAddr.isSome ∧ s.desiredRelayAddr = s.relay c
  closed : s.Quiet → s.desiredRelayAddr = none → ∀ c, s.isOpen c = false
  running : s.Quiet → s.desiredRelayAddr.isSome → (∀ c, s.isOpen c = false) →
    (∃ i sup, s.supervisor i = some sup ∧ sup.stage ≠ .cleanup) ∨ ∃ c, s.Lost c

/-- No command is connecting and no supervisor is past its check. -/
structure MayDeregister (s : Registration) : Prop where
  commands : ∀ id, ¬ s.Connecting id
  supervisors : ∀ i sup, s.supervisor i = some sup → sup.stage.committed = false

/-- No loop has yet to exit, no supervisor runs and no command is connecting. -/
structure Vacant (s : Registration) : Prop where
  loops : ∀ c, s.recvLoop c = false
  supervisors : ∀ i, s.supervisor i = none
  commands : ∀ id, ¬ s.Connecting id

/-- A registration is given up only while no attempt is made or about to be made, a relay is
announced only when all of the earlier registrations is over, and the attempts of the user
succeed. -/
def Orderly (s : Registration) : RegistrationEvent → Prop
  | .deregister => s.MayDeregister
  | .command id connected => ∀ cmd, s.command id = some cmd →
      (cmd.stage = .deregister → s.MayDeregister) ∧ (cmd.stage = .announce → s.Vacant) ∧
        (cmd.stage = .connect → connected = true)
  | _ => True

/-! ## One activity at a time -/

/-- What there is of a registration, when steps are orderly. -/
inductive Activity where
  | idle
  | registered (conn : ℕ)
  | leaving (conn : ℕ)
  | dialling (id : ℕ)
  | supervising (id : ℕ)

/-- The only loop, the only command that is connecting, and the only supervisor. -/
structure Alone (s : Registration) (loop cmd sup : Option ℕ) : Prop where
  loops : ∀ c, s.recvLoop c = true ↔ loop = some c
  commands : ∀ id, s.Connecting id ↔ cmd = some id
  supervisors : ∀ i, (s.supervisor i).isSome ↔ sup = some i

structure Idle (s : Registration) : Prop where
  alone : s.Alone none none none
  transport : s.transport = none
  desired : s.desiredRelayAddr = none
  flag : s.reconnectInProgress = false
  closed : ∀ c, s.isOpen c = false

/-- The loop of the connection runs, whether or not the connection is lost. -/
structure Registered (s : Registration) (conn : ℕ) : Prop where
  alone : s.Alone (some conn) none none
  transport : s.transport = some conn
  desired : s.desiredRelayAddr.isSome
  relay : s.desiredRelayAddr = s.relay conn
  flag : s.reconnectInProgress = false
  only : ∀ c, s.isOpen c = true → c = conn

/-- The connection is closed on request and its loop has yet to exit. -/
structure Leaving (s : Registration) (conn : ℕ) : Prop where
  alone : s.Alone (some conn) none none
  transport : s.transport = none
  desired : s.desiredRelayAddr = none
  flag : s.reconnectInProgress = false
  closed : ∀ c, s.isOpen c = false

structure Dialling (s : Registration) (id : ℕ) (cmd : RegisterCommand) : Prop where
  alone : s.Alone none (some id) none
  command : s.command id = some cmd
  transport : s.transport = none
  desired : s.desiredRelayAddr = some cmd.relay
  flag : s.reconnectInProgress = false
  only : ∀ c, s.isOpen c = true → cmd.stage = .install c
  relay : ∀ c, cmd.stage = .install c → s.relay c = some cmd.relay

structure Supervising (s : Registration) (id : ℕ) (sup : ReconnectSupervisor) : Prop where
  alone : s.Alone none none (some id)
  supervisor : s.supervisor id = some sup
  transport : s.transport = none
  flag : s.reconnectInProgress = sup.stage.holdsFlag
  committed : sup.stage.committed = true → s.desiredRelayAddr = some sup.currentRelay
  cleanup : sup.stage = .cleanup → s.desiredRelayAddr = none
  only : ∀ c, s.isOpen c = true → sup.stage = .install c
  relay : ∀ c, sup.stage = .install c → s.relay c = some sup.currentRelay

def Is (s : Registration) : Activity → Prop
  | .idle => s.Idle
  | .registered conn => s.Registered conn
  | .leaving conn => s.Leaving conn
  | .dialling id => ∃ cmd, s.Dialling id cmd
  | .supervising id => ∃ sup, s.Supervising id sup

variable {s : Registration} {a : Activity}

theorem setCommand_self (id : ℕ) (cmd : Option RegisterCommand) :
    (s.setCommand id cmd).command id = cmd := Function.update_self _ _ _

theorem setCommand_other {id j : ℕ} (cmd : Option RegisterCommand) (h : j ≠ id) :
    (s.setCommand id cmd).command j = s.command j := Function.update_of_ne h _ _

theorem setSupervisor_self (id : ℕ) (sup : Option ReconnectSupervisor) :
    (s.setSupervisor id sup).supervisor id = sup := Function.update_self _ _ _

theorem setSupervisor_other {id j : ℕ} (sup : Option ReconnectSupervisor) (h : j ≠ id) :
    (s.setSupervisor id sup).supervisor j = s.supervisor j := Function.update_of_ne h _ _

theorem isOpen_of_close {conn c : ℕ} (h : (s.close conn).isOpen c = true) : s.isOpen c = true := by
  by_cases heq : c = conn
  · subst heq
    have hself : (s.close c).isOpen c = false := Function.update_self _ _ _
    exact absurd (hself.symm.trans h) (by decide)
  · have hother : (s.close conn).isOpen c = s.isOpen c := Function.update_of_ne heq _ _
    exact hother.symm.trans h

theorem Alone.no_loop {cmd sup : Option ℕ} (h : s.Alone none cmd sup) (c : ℕ) :
    s.recvLoop c = false := by
  refine Bool.eq_false_iff.mpr fun hc => ?_
  cases (h.loops c).mp hc

theorem Alone.not_connecting {loop sup : Option ℕ} (h : s.Alone loop none sup) (id : ℕ) :
    ¬ s.Connecting id := fun hid => nomatch (h.commands id).mp hid

theorem Alone.no_supervisor {loop cmd : Option ℕ} (h : s.Alone loop cmd none) (i : ℕ) :
    s.supervisor i = none := by
  refine Option.not_isSome_iff_eq_none.mp fun hi => ?_
  cases (h.supervisors i).mp hi

/-! ## The promise -/

/-- Without a transport nothing is left but to run, if a relay is wanted. -/
theorem supervised_of_closed (hclosed : s.Quiet → ∀ c, s.isOpen c = false)
    (hrunning : s.Quiet → s.desiredRelayAddr.isSome →
      ∃ i sup, s.supervisor i = some sup ∧ sup.stage ≠ .cleanup) : s.Supervised where
  single hquiet c _ hc := absurd ((hclosed hquiet c).symm.trans hc) Bool.false_ne_true
  installed hquiet c hc := absurd ((hclosed hquiet c).symm.trans hc) Bool.false_ne_true
  closed hquiet _ := hclosed hquiet
  running hquiet hdesired _ := Or.inl (hrunning hquiet hdesired)

/-- Whatever there is of a registration, it is supervised. -/
theorem Is.supervised (h : s.Is a) : s.Supervised := by
  cases a with
  | idle =>
      refine supervised_of_closed (fun _ => h.closed) fun _ hdesired => ?_
      rw [h.desired] at hdesired
      cases hdesired
  | registered conn =>
      constructor
      · exact fun _ c d hc hd => (h.only c hc).trans (h.only d hd).symm
      · intro _ c hc
        obtain rfl := h.only c hc
        exact ⟨h.transport, h.desired, h.relay⟩
      · intro _ hnone
        have hdesired := h.desired
        rw [hnone] at hdesired
        cases hdesired
      · intro _ _ hclosed
        exact Or.inr ⟨conn, (h.alone.loops conn).mpr rfl, hclosed conn, h.transport⟩
  | leaving conn =>
      refine supervised_of_closed (fun _ => h.closed) fun _ hdesired => ?_
      rw [h.desired] at hdesired
      cases hdesired
  | dialling id =>
      obtain ⟨cmd, h⟩ := h
      have hbusy : ¬ s.Quiet := fun hquiet =>
        hquiet.commands id ((h.alone.commands id).mpr rfl)
      exact supervised_of_closed (fun hquiet => absurd hquiet hbusy)
        fun hquiet => absurd hquiet hbusy
  | supervising id =>
      obtain ⟨sup, h⟩ := h
      refine supervised_of_closed (fun hquiet c => Bool.eq_false_iff.mpr fun hc => ?_)
        fun _ hdesired => ⟨id, sup, h.supervisor, fun hcleanup => ?_⟩
      · have hstage := hquiet.supervisors id sup h.supervisor
        rw [h.only c hc] at hstage
        cases hstage
      · rw [h.cleanup hcleanup] at hdesired
        cases hdesired

/-! ## Commands that do not connect -/

theorem connecting_setCommand {id : ℕ} {cmd : Option RegisterCommand}
    (hcmd : ∀ k, cmd = some k → k.stage.connecting = false) (hid : ¬ s.Connecting id) (j : ℕ) :
    (s.setCommand id cmd).Connecting j ↔ s.Connecting j := by
  unfold Connecting
  by_cases hj : j = id
  · subst hj
    rw [setCommand_self]
    constructor
    · rintro ⟨k, hk, hstage⟩
      exact absurd (hstage.symm.trans (hcmd k hk)) (by decide)
    · exact fun hconnecting => absurd hconnecting hid
  · rw [setCommand_other cmd hj]

/-- A command that does not connect goes on to a stage in which it does not. -/
theorem Is.setCommand (h : s.Is a) {id : ℕ} {cmd : Option RegisterCommand}
    (hcmd : ∀ k, cmd = some k → k.stage.connecting = false) (hid : ¬ s.Connecting id) :
    (s.setCommand id cmd).Is a := by
  have halone : ∀ {l c p}, s.Alone l c p → (s.setCommand id cmd).Alone l c p := by
    intro l c p hold
    exact ⟨hold.loops, fun j => (connecting_setCommand hcmd hid j).trans (hold.commands j),
      hold.supervisors⟩
  cases a with
  | idle => exact ⟨halone h.alone, h.transport, h.desired, h.flag, h.closed⟩
  | registered conn =>
      exact ⟨halone h.alone, h.transport, h.desired, h.relay, h.flag, h.only⟩
  | leaving conn => exact ⟨halone h.alone, h.transport, h.desired, h.flag, h.closed⟩
  | dialling j =>
      obtain ⟨k, h⟩ := h
      have hne : j ≠ id := by
        rintro rfl
        exact hid ((h.alone.commands j).mpr rfl)
      exact ⟨k, halone h.alone, (setCommand_other cmd hne).trans h.command, h.transport,
        h.desired, h.flag, h.only, h.relay⟩
  | supervising i =>
      obtain ⟨sup, h⟩ := h
      exact ⟨sup, halone h.alone, h.supervisor, h.transport, h.flag, h.committed, h.cleanup, h.only,
        h.relay⟩

/-! ## Connections -/

theorem Is.close (h : s.Is a) (conn : ℕ) : (s.close conn).Is a := by
  have hclosed : (∀ c, s.isOpen c = false) → ∀ c, (s.close conn).isOpen c = false := fun hall c =>
    Bool.eq_false_iff.mpr fun hc => Bool.false_ne_true ((hall c).symm.trans (isOpen_of_close hc))
  cases a with
  | idle => exact ⟨⟨h.alone.1, h.alone.2, h.alone.3⟩, h.transport, h.desired, h.flag, hclosed h.closed⟩
  | registered c =>
      exact ⟨⟨h.alone.1, h.alone.2, h.alone.3⟩, h.transport, h.desired, h.relay, h.flag,
        fun d hd => h.only d (isOpen_of_close hd)⟩
  | leaving c =>
      exact ⟨⟨h.alone.1, h.alone.2, h.alone.3⟩, h.transport, h.desired, h.flag, hclosed h.closed⟩
  | dialling id =>
      obtain ⟨cmd, h⟩ := h
      exact ⟨cmd, ⟨h.alone.1, h.alone.2, h.alone.3⟩, h.command, h.transport, h.desired, h.flag,
        fun d hd => h.only d (isOpen_of_close hd), h.relay⟩
  | supervising id =>
      obtain ⟨sup, h⟩ := h
      exact ⟨sup, ⟨h.alone.1, h.alone.2, h.alone.3⟩, h.supervisor, h.transport, h.flag, h.committed,
        h.cleanup, fun d hd => h.only d (isOpen_of_close hd), h.relay⟩

/-- To give up a registration closes it and leaves its loop to exit. -/
theorem Is.internalDeregister (h : s.Is a) (hmay : s.MayDeregister) :
    ∃ b, s.internalDeregister.Is b := by
  cases a with
  | idle =>
      refine ⟨.idle, ⟨h.alone.1, h.alone.2, h.alone.3⟩, rfl, rfl, h.flag, ?_⟩
      simp only [Registration.internalDeregister, h.transport]
      exact h.closed
  | registered conn =>
      refine ⟨.leaving conn, ⟨h.alone.1, h.alone.2, h.alone.3⟩, rfl, rfl, h.flag, fun c => ?_⟩
      simp only [Registration.internalDeregister, h.transport]
      by_cases hc : c = conn
      · subst hc
        exact Function.update_self _ _ _
      · rw [Function.update_of_ne hc]
        exact Bool.eq_false_iff.mpr fun hopen => hc (h.only c hopen)
  | leaving conn =>
      refine ⟨.leaving conn, ⟨h.alone.1, h.alone.2, h.alone.3⟩, rfl, rfl, h.flag, ?_⟩
      simp only [Registration.internalDeregister, h.transport]
      exact h.closed
  | dialling id =>
      obtain ⟨cmd, h⟩ := h
      exact absurd ((h.alone.commands id).mpr rfl) (hmay.commands id)
  | supervising id =>
      obtain ⟨sup, h⟩ := h
      have hstage := hmay.supervisors id sup h.supervisor
      refine ⟨.supervising id, sup, ⟨h.alone.1, h.alone.2, h.alone.3⟩, h.supervisor, rfl, h.flag, ?_,
        fun _ => rfl, ?_, h.relay⟩
      · exact fun hcommitted => absurd (hstage.symm.trans hcommitted) (by decide)
      · simp only [Registration.internalDeregister, h.transport]
        exact h.only

/-- In a vacant state there is nothing of a registration. -/
theorem Is.of_vacant (h : s.Is a) (hvacant : s.Vacant) : s.Idle := by
  have hloop : ∀ {conn cmd sup}, s.Alone (some conn) cmd sup → False := by
    intro conn cmd sup halone
    exact Bool.false_ne_true ((hvacant.loops conn).symm.trans ((halone.loops conn).mpr rfl))
  cases a with
  | idle => exact h
  | registered conn => exact (hloop h.alone).elim
  | leaving conn => exact (hloop h.alone).elim
  | dialling id =>
      obtain ⟨cmd, h⟩ := h
      exact absurd ((h.alone.commands id).mpr rfl) (hvacant.commands id)
  | supervising id =>
      obtain ⟨sup, h⟩ := h
      have hnone := hvacant.supervisors id
      rw [h.supervisor] at hnone
      cases hnone

theorem Is.of_connecting (h : s.Is a) {id : ℕ} {cmd : RegisterCommand}
    (hcmd : s.command id = some cmd) (hstage : cmd.stage.connecting = true) :
    s.Dialling id cmd := by
  have hid : s.Connecting id := ⟨cmd, hcmd, hstage⟩
  cases a with
  | idle => exact absurd hid (h.alone.not_connecting id)
  | registered conn => exact absurd hid (h.alone.not_connecting id)
  | leaving conn => exact absurd hid (h.alone.not_connecting id)
  | dialling j =>
      obtain ⟨k, h⟩ := h
      obtain rfl : j = id := Option.some.inj ((h.alone.commands id).mp hid)
      obtain rfl : k = cmd := Option.some.inj (h.command.symm.trans hcmd)
      exact h
  | supervising i =>
      obtain ⟨sup, h⟩ := h
      exact absurd hid (h.alone.not_connecting id)

theorem Is.of_supervisor (h : s.Is a) {id : ℕ} {sup : ReconnectSupervisor}
    (hsup : s.supervisor id = some sup) : s.Supervising id sup := by
  have hsome : (s.supervisor id).isSome := by
    rw [hsup]
    rfl
  have hnone : ∀ {loop cmd}, s.Alone loop cmd none → False :=
    fun halone => nomatch (halone.supervisors id).mp hsome
  cases a with
  | idle => exact (hnone h.alone).elim
  | registered conn => exact (hnone h.alone).elim
  | leaving conn => exact (hnone h.alone).elim
  | dialling j =>
      obtain ⟨k, h⟩ := h
      exact (hnone h.alone).elim
  | supervising i =>
      obtain ⟨k, h⟩ := h
      obtain rfl : i = id := Option.some.inj ((h.alone.supervisors id).mp hsome)
      obtain rfl : k = sup := Option.some.inj (h.supervisor.symm.trans hsup)
      exact h

/-! ## Commands that connect -/

theorem connecting_of_set {id j : ℕ} {k : RegisterCommand} (hk : k.stage.connecting = true) :
    (s.setCommand id (some k)).Connecting j ↔ j = id ∨ s.Connecting j := by
  unfold Connecting
  by_cases hj : j = id
  · subst hj
    exact iff_of_true ⟨k, setCommand_self _ _, hk⟩ (Or.inl rfl)
  · rw [setCommand_other _ hj]
    exact (or_iff_right hj).symm

theorem connecting_of_end {id j : ℕ} :
    (s.setCommand id none).Connecting j ↔ j ≠ id ∧ s.Connecting j := by
  unfold Connecting
  by_cases hj : j = id
  · subst hj
    rw [setCommand_self]
    exact iff_of_false (fun ⟨k, hk, _⟩ => nomatch hk) fun h => h.1 rfl
  · rw [setCommand_other _ hj]
    exact (and_iff_right hj).symm

theorem Idle.announce (h : s.Idle) (id : ℕ) (relay : String) :
    ({ s with desiredRelayAddr := some relay }.setCommand id (some ⟨relay, .connect⟩)).Dialling id
      ⟨relay, .connect⟩ := by
  have hcommand : ∀ j, ({ s with desiredRelayAddr := some relay }.setCommand id
      (some ⟨relay, .connect⟩)).Connecting j ↔ some id = some j := by
    intro j
    rw [connecting_of_set rfl, Option.some_inj, eq_comm (b := j)]
    exact or_iff_left (h.alone.not_connecting j)
  refine ⟨⟨h.alone.loops, hcommand, h.alone.supervisors⟩, setCommand_self _ _, h.transport, rfl,
    h.flag, fun c hc => ?_, fun c hc => nomatch hc⟩
  exact absurd ((h.closed c).symm.trans hc) (by decide)

theorem isOpen_of_connect (relay : String) {c : ℕ} (hnone : ∀ c, s.isOpen c = false)
    (h : (s.connect relay).isOpen c = true) : c = s.nextConn := by
  by_contra hne
  have hother : (s.connect relay).isOpen c = s.isOpen c := Function.update_of_ne hne _ _
  exact Bool.false_ne_true ((hother.trans (hnone c)).symm.trans h)

theorem relay_of_connect (relay : String) :
    (s.connect relay).relay s.nextConn = some relay := Function.update_self _ _ _

/-- An attempt that succeeds leaves one connection, to be installed. -/
theorem Dialling.connect {id : ℕ} {relay : String} (h : s.Dialling id ⟨relay, .connect⟩) :
    ((s.connect relay).setCommand id (some ⟨relay, .install s.nextConn⟩)).Dialling id
      ⟨relay, .install s.nextConn⟩ := by
  have hclosed : ∀ c, s.isOpen c = false :=
    fun c => Bool.eq_false_iff.mpr fun hc => nomatch h.only c hc
  have hcommand : ∀ j, ((s.connect relay).setCommand id
      (some ⟨relay, .install s.nextConn⟩)).Connecting j ↔ some id = some j := by
    intro j
    rw [connecting_of_set rfl, Option.some_inj, eq_comm (b := j)]
    refine or_iff_left_of_imp fun hj => ?_
    exact (Option.some.inj ((h.alone.commands j).mp hj)).symm
  refine ⟨⟨h.alone.loops, hcommand, h.alone.supervisors⟩, setCommand_self _ _, h.transport,
    h.desired, h.flag, fun c hc => ?_, fun c hc => ?_⟩
  · exact congrArg RegisterStage.install (isOpen_of_connect relay hclosed hc).symm
  · obtain rfl : s.nextConn = c := by injection hc
    exact relay_of_connect relay

theorem recvLoop_install {conn : ℕ} (hnone : ∀ c, s.recvLoop c = false) (c : ℕ) :
    (s.install conn).recvLoop c = true ↔ some conn = some c := by
  unfold install
  by_cases hc : c = conn
  · subst hc
    exact iff_of_true (Function.update_self _ _ _) rfl
  · refine iff_of_false (fun h => ?_) fun heq => hc (Option.some.inj heq).symm
    have hother : (s.install conn).recvLoop c = s.recvLoop c := Function.update_of_ne hc _ _
    exact Bool.false_ne_true ((hother.trans (hnone c)).symm.trans h)

theorem Dialling.install {id conn : ℕ} {relay : String} (h : s.Dialling id ⟨relay, .install conn⟩) :
    ((s.install conn).setCommand id none).Registered conn := by
  have hcommand : ∀ j, ((s.install conn).setCommand id none).Connecting j ↔ none = some j := by
    intro j
    rw [connecting_of_end]
    refine iff_of_false (fun hj => ?_) fun heq => nomatch heq
    exact hj.1 (Option.some.inj ((h.alone.commands j).mp hj.2)).symm
  refine ⟨⟨recvLoop_install h.alone.no_loop, hcommand, h.alone.supervisors⟩, rfl, ?_, ?_, h.flag, ?_⟩
  · change s.desiredRelayAddr.isSome
    rw [h.desired]
    rfl
  · exact h.desired.trans (h.relay conn rfl).symm
  · intro c hc
    have hstage := h.only c hc
    injection hstage with heq
    exact heq.symm

theorem not_connecting_of_stage {id : ℕ} {cmd : RegisterCommand} (hcmd : s.command id = some cmd)
    (hstage : cmd.stage.connecting = false) : ¬ s.Connecting id := by
  rintro ⟨k, hk, hk'⟩
  obtain rfl : cmd = k := Option.some.inj (hcmd.symm.trans hk)
  exact Bool.false_ne_true (hstage.symm.trans hk')

theorem Is.stepCommand (h : s.Is a) {id : ℕ} {cmd : RegisterCommand} {connected : Bool}
    (hcmd : s.command id = some cmd)
    (hok : (cmd.stage = .deregister → s.MayDeregister) ∧ (cmd.stage = .announce → s.Vacant) ∧
      (cmd.stage = .connect → connected = true)) :
    ∃ b, (s.stepCommand id cmd connected).Is b := by
  obtain ⟨relay, stage⟩ := cmd
  cases stage with
  | check =>
      have hid := not_connecting_of_stage hcmd rfl
      refine ⟨a, ?_⟩
      unfold Registration.stepCommand
      dsimp only
      split
      · exact h.setCommand (fun k hk => nomatch hk) hid
      · refine h.setCommand (fun k hk => ?_) hid
        obtain rfl := Option.some.inj hk
        rfl
  | deregister =>
      have hid := not_connecting_of_stage hcmd rfl
      obtain ⟨b, hb⟩ := h.internalDeregister (hok.1 rfl)
      refine ⟨b, hb.setCommand (fun k hk => ?_) hid⟩
      obtain rfl := Option.some.inj hk
      rfl
  | announce => exact ⟨.dialling id, _, (h.of_vacant (hok.2.1 rfl)).announce id relay⟩
  | connect =>
      obtain rfl := hok.2.2 rfl
      exact ⟨.dialling id, _, (h.of_connecting hcmd rfl).connect⟩
  | install conn => exact ⟨.registered conn, (h.of_connecting hcmd rfl).install⟩

/-! ## Supervisors and loops -/

theorem Alone.setSupervisor {id : ℕ} (h : s.Alone none none (some id)) (sup : ReconnectSupervisor) :
    (s.setSupervisor id (some sup)).Alone none none (some id) := by
  refine ⟨h.loops, h.commands, fun i => ?_⟩
  by_cases hi : i = id
  · subst hi
    rw [setSupervisor_self]
    exact iff_of_true rfl rfl
  · rw [setSupervisor_other _ hi]
    exact h.supervisors i

theorem Alone.spawn (h : s.Alone none none none) (id : ℕ) (sup : ReconnectSupervisor) :
    (s.setSupervisor id (some sup)).Alone none none (some id) := by
  refine ⟨h.loops, h.commands, fun i => ?_⟩
  by_cases hi : i = id
  · subst hi
    rw [setSupervisor_self]
    exact iff_of_true rfl rfl
  · rw [setSupervisor_other _ hi, h.no_supervisor i]
    exact iff_of_false Bool.false_ne_true fun heq => hi (Option.some.inj heq).symm

theorem Alone.endSupervisor {loop : Option ℕ} {id : ℕ} (h : s.Alone loop none (some id)) :
    (s.setSupervisor id none).Alone loop none none := by
  refine ⟨h.loops, h.commands, fun i => iff_of_false ?_ fun heq => nomatch heq⟩
  by_cases hi : i = id
  · subst hi
    rw [setSupervisor_self]
    exact fun hsome => nomatch hsome
  · rw [setSupervisor_other _ hi, h.supervisors i]
    exact fun heq => hi (Option.some.inj heq).symm

/-- A supervisor goes on to a stage without a connection. -/
theorem Alone.goOn {id : ℕ} {sup : ReconnectSupervisor} (h : s.Alone none none (some id))
    (htransport : s.transport = none) (hclosed : ∀ c, s.isOpen c = false)
    (hstage : ∀ c, sup.stage ≠ .install c) (hflag : s.reconnectInProgress = sup.stage.holdsFlag)
    (hcommitted : sup.stage.committed = true → s.desiredRelayAddr = some sup.currentRelay)
    (hcleanup : sup.stage = .cleanup → s.desiredRelayAddr = none) :
    (s.setSupervisor id (some sup)).Supervising id sup := by
  refine ⟨h.setSupervisor sup, setSupervisor_self _ _, htransport, hflag, hcommitted, hcleanup,
    fun c hc => ?_, fun c hc => absurd hc (hstage c)⟩
  exact absurd ((hclosed c).symm.trans hc) (by decide)

/-- Unless it installs, nothing is open while a supervisor runs. -/
theorem Supervising.closed {id : ℕ} {sup : ReconnectSupervisor} (h : s.Supervising id sup)
    (hstage : ∀ c, sup.stage ≠ .install c) (c : ℕ) : s.isOpen c = false :=
  Bool.eq_false_iff.mpr fun hc => hstage c (h.only c hc)

theorem Supervising.check {id : ℕ} {relay : String} (h : s.Supervising id ⟨relay, .check⟩)
    (connected : Bool) : ∃ sup, (s.stepSupervisor id ⟨relay, .check⟩ connected).Supervising id sup := by
  have hclosed := h.closed fun c hc => nomatch hc
  cases hdesired : s.desiredRelayAddr with
  | none =>
      refine ⟨⟨relay, .cleanup⟩, ?_⟩
      simp only [Registration.stepSupervisor, hdesired]
      exact h.alone.goOn h.transport hclosed (fun c hc => nomatch hc) h.flag
        (fun hstage => nomatch hstage) fun _ => hdesired
  | some desired =>
      refine ⟨⟨desired, .release⟩, ?_⟩
      simp only [Registration.stepSupervisor, hdesired, h.transport, Option.isSome_none,
        Bool.false_eq_true, if_false]
      exact h.alone.goOn h.transport hclosed (fun c hc => nomatch hc) h.flag (fun _ => hdesired)
        fun hstage => nomatch hstage

theorem Supervising.attempt {id : ℕ} {relay : String} (h : s.Supervising id ⟨relay, .attempt⟩)
    (connected : Bool) :
    ∃ sup, (s.stepSupervisor id ⟨relay, .attempt⟩ connected).Supervising id sup := by
  have hclosed := h.closed fun c hc => nomatch hc
  cases connected with
  | false =>
      exact ⟨⟨relay, .reclaim⟩, h.alone.goOn h.transport hclosed (fun c hc => nomatch hc) h.flag
        (fun hstage => nomatch hstage) fun hstage => nomatch hstage⟩
  | true =>
      have halone : (s.connect relay).Alone none none (some id) :=
        ⟨h.alone.loops, h.alone.commands, h.alone.supervisors⟩
      refine ⟨⟨relay, .install s.nextConn⟩, halone.setSupervisor _, setSupervisor_self _ _,
        h.transport, h.flag, fun _ => h.committed rfl, fun hstage => (nomatch hstage), ?_, ?_⟩
      · intro c hc
        exact congrArg SupervisorStage.install (isOpen_of_connect relay hclosed hc).symm
      · intro c hc
        obtain rfl : s.nextConn = c := by injection hc
        exact relay_of_connect relay

theorem Supervising.install {id conn : ℕ} {relay : String}
    (h : s.Supervising id ⟨relay, .install conn⟩) :
    ((s.install conn).setSupervisor id none).Registered conn := by
  have halone : (s.install conn).Alone (some conn) none (some id) :=
    ⟨recvLoop_install h.alone.no_loop, h.alone.commands, h.alone.supervisors⟩
  refine ⟨halone.endSupervisor, rfl, ?_, ?_, h.flag, ?_⟩
  · change s.desiredRelayAddr.isSome
    rw [h.committed rfl]
    rfl
  · exact (h.committed rfl).trans (h.relay conn rfl).symm
  · intro c hc
    have hstage := h.only c hc
    injection hstage with heq
    exact heq.symm

/-- A supervisor goes on, has installed a connection, or is done with nothing desired. -/
theorem Supervising.step {id : ℕ} {sup : ReconnectSupervisor} (h : s.Supervising id sup)
    (connected : Bool) : ∃ b, (s.stepSupervisor id sup connected).Is b := by
  obtain ⟨relay, stage⟩ := sup
  have hset : ∀ flag, { s with reconnectInProgress := flag }.Alone none none (some id) :=
    fun flag => ⟨h.alone.loops, h.alone.commands, h.alone.supervisors⟩
  cases stage with
  | claim =>
      have hflag : s.reconnectInProgress = false := h.flag
      refine ⟨.supervising id, ⟨relay, .check⟩, ?_⟩
      simp only [Registration.stepSupervisor, hflag, Bool.false_eq_true, if_false]
      exact (hset true).goOn h.transport (h.closed fun c hc => nomatch hc) (fun c hc => nomatch hc) rfl
        (fun hstage => nomatch hstage) fun hstage => nomatch hstage
  | check =>
      obtain ⟨sup, hsup⟩ := h.check connected
      exact ⟨.supervising id, sup, hsup⟩
  | release =>
      refine ⟨.supervising id, ⟨relay, .attempt⟩, ?_⟩
      exact (hset false).goOn h.transport (h.closed fun c hc => nomatch hc) (fun c hc => nomatch hc)
        rfl (fun _ => h.committed rfl) fun hstage => nomatch hstage
  | attempt =>
      obtain ⟨sup, hsup⟩ := h.attempt connected
      exact ⟨.supervising id, sup, hsup⟩
  | install conn => exact ⟨.registered conn, h.install⟩
  | reclaim =>
      refine ⟨.supervising id, ⟨relay, .check⟩, ?_⟩
      exact (hset true).goOn h.transport (h.closed fun c hc => nomatch hc) (fun c hc => nomatch hc)
        rfl (fun hstage => nomatch hstage) fun hstage => nomatch hstage
  | cleanup =>
      exact ⟨.idle, (hset false).endSupervisor, h.transport, h.cleanup rfl, rfl,
        h.closed fun c hc => nomatch hc⟩

theorem no_loop_of_exit {conn : ℕ} (hone : ∀ c, s.recvLoop c = true ↔ some conn = some c) (c : ℕ) :
    Function.update s.recvLoop conn false c = true ↔ none = some c := by
  refine iff_of_false (fun hc => ?_) fun heq => nomatch heq
  by_cases heq : c = conn
  · subst heq
    rw [Function.update_self] at hc
    cases hc
  · rw [Function.update_of_ne heq] at hc
    exact heq (Option.some.inj ((hone c).mp hc)).symm

/-- The loop of a lost connection spawns a supervisor, that of a closed one just ends. -/
theorem Is.loopExit (h : s.Is a) {conn : ℕ} (hloop : s.recvLoop conn = true)
    (hclosed : s.isOpen conn = false) : ∃ b, (s.loopExit conn).Is b := by
  cases a with
  | idle => cases (h.alone.loops conn).mp hloop
  | registered c =>
      obtain rfl : c = conn := Option.some.inj ((h.alone.loops conn).mp hloop)
      obtain ⟨relay, hrelay⟩ := Option.isSome_iff_exists.mp h.desired
      have hnone : ∀ d, s.isOpen d = false := by
        refine fun d => Bool.eq_false_iff.mpr fun hd => ?_
        rw [h.only d hd, hclosed] at hd
        cases hd
      have halone : { s with recvLoop := Function.update s.recvLoop c false, transport := none }.Alone
          none none none := ⟨no_loop_of_exit h.alone.loops, h.alone.commands, h.alone.supervisors⟩
      have hexit : s.loopExit c = { s with
          recvLoop := Function.update s.recvLoop c false
          transport := none }.setSupervisor c (some ⟨relay, .claim⟩) := by
        simp only [Registration.loopExit, hrelay, h.flag, Bool.false_eq_true, if_false]
      refine ⟨.supervising c, ⟨relay, .claim⟩, ?_⟩
      rw [hexit]
      refine ⟨halone.spawn c _, setSupervisor_self _ _, rfl, h.flag, fun hstage => (nomatch hstage),
        fun hstage => (nomatch hstage), fun d hd => ?_, fun d hd => (nomatch hd)⟩
      exact absurd ((hnone d).symm.trans hd) (by decide)
  | leaving c =>
      obtain rfl : c = conn := Option.some.inj ((h.alone.loops conn).mp hloop)
      refine ⟨.idle, ?_⟩
      simp only [Registration.loopExit, h.desired]
      exact ⟨⟨no_loop_of_exit h.alone.loops, h.alone.commands, h.alone.supervisors⟩, rfl, rfl, h.flag,
        h.closed⟩
  | dialling id =>
      obtain ⟨cmd, h⟩ := h
      cases (h.alone.loops conn).mp hloop
  | supervising id =>
      obtain ⟨sup, h⟩ := h
      cases (h.alone.loops conn).mp hloop

/-! ## Every run -/

theorem start_is : start.Is .idle := by
  refine ⟨⟨fun c => ?_, fun id => ?_, fun i => ?_⟩, rfl, rfl, rfl, fun _ => rfl⟩
  · exact iff_of_false Bool.false_ne_true fun heq => nomatch heq
  · exact iff_of_false (fun ⟨k, hk, _⟩ => nomatch hk) fun heq => nomatch heq
  · exact iff_of_false Bool.false_ne_true fun heq => nomatch heq

/-- An orderly step leads from one activity to one. -/
theorem Is.step (h : s.Is a) (e : RegistrationEvent) (hok : s.Orderly e) :
    ∃ b, (s.step e).Is b := by
  cases e with
  | register id relay =>
      rw [Registration.step]
      split
      · rename_i hnone
        refine ⟨a, h.setCommand (fun k hk => ?_) ?_⟩
        · obtain rfl := Option.some.inj hk
          rfl
        · rintro ⟨k, hk, _⟩
          rw [hk] at hnone
          cases hnone
      · exact ⟨a, h⟩
  | deregister => exact h.internalDeregister hok
  | command id connected =>
      rw [Registration.step]
      cases hcmd : s.command id with
      | none => exact ⟨a, h⟩
      | some cmd => exact h.stepCommand hcmd (hok cmd hcmd)
  | supervisor id connected =>
      rw [Registration.step]
      cases hsup : s.supervisor id with
      | none => exact ⟨a, h⟩
      | some sup => exact (h.of_supervisor hsup).step connected
  | lose conn => exact ⟨a, h.close conn⟩
  | loopExit conn =>
      rw [Registration.step]
      split
      · rename_i hexit
        obtain ⟨hloop, hclosed⟩ := Bool.and_eq_true_iff.mp hexit
        exact h.loopExit hloop ((Bool.not_eq_true' _).mp hclosed)
      · exact ⟨a, h⟩

/-- The registration is supervised throughout the orderly runs. -/
theorem supervised_of_orderly (events : List RegistrationEvent)
    (h : EachStep step Orderly start events) : Throughout step Supervised start events := by
  have hall := throughout_of_eachStep (P := fun s => ∃ a, s.Is a)
    (fun s e ⟨_, ha⟩ hok => ha.step e hok) ⟨.idle, start_is⟩ h
  exact hall.mono fun s ⟨_, ha⟩ => ha.supervised

/-- All sections of a registration that succeeds. -/
def registering (id : ℕ) (relay : String) : List RegistrationEvent :=
  [.register id relay, .command id false, .command id false, .command id false, .command id true,
    .command id false]

theorem registration_supervised : Throughout step Supervised start
    (registering 0 "relay:4433" ++ [.lose 0, .loopExit 0]) := by
  apply supervised_of_orderly
  refine ⟨trivial, ?_, ?_, ?_, ?_, ?_, trivial, trivial, trivial⟩
  · intro cmd hcmd
    obtain rfl := Option.some.inj hcmd
    exact ⟨fun h => (nomatch h), fun h => (nomatch h), fun h => (nomatch h)⟩
  · intro cmd hcmd
    obtain rfl := Option.some.inj hcmd
    refine ⟨fun _ => ⟨fun id => ?_, fun _ _ hsup => (nomatch hsup)⟩, fun h => (nomatch h),
      fun h => (nomatch h)⟩
    rintro ⟨k, hk, hstage⟩
    rcases id with _ | id
    · obtain rfl := Option.some.inj hk
      cases hstage
    · cases hk
  · intro cmd hcmd
    obtain rfl := Option.some.inj hcmd
    refine ⟨fun h => (nomatch h), fun _ => ⟨fun _ => rfl, fun _ => rfl, fun id => ?_⟩,
      fun h => (nomatch h)⟩
    rintro ⟨k, hk, hstage⟩
    rcases id with _ | id
    · obtain rfl := Option.some.inj hk
      cases hstage
    · cases hk
  · intro cmd hcmd
    obtain rfl := Option.some.inj hcmd
    exact ⟨fun h => (nomatch h), fun h => (nomatch h), fun _ => rfl⟩
  · intro cmd hcmd
    obtain rfl := Option.some.inj hcmd
    exact ⟨fun h => (nomatch h), fun h => (nomatch h), fun h => (nomatch h)⟩

/-- The loop of the first registration clears the slot of the second. -/
theorem old_loop_clears : ¬ Throughout step Supervised start
    (registering 0 "a:4433" ++ registering 1 "b:4433" ++ [.loopExit 0]) := by
  intro h
  have hlast := h.last
  generalize hs : run step start
    (registering 0 "a:4433" ++ registering 1 "b:4433" ++ [.loopExit 0]) = s at hlast
  have hquiet : s.Quiet := by
    subst hs
    constructor
    · rintro id ⟨k, hk, _⟩
      rcases id with _ | _ | id
      · cases hk
      · cases hk
      · cases hk
    · intro i sup hsup
      rcases i with _ | i
      · obtain rfl := Option.some.inj hsup
        rfl
      · cases hsup
  have hopen : s.isOpen 1 = true := by
    subst hs
    rfl
  have hslot := (hlast.installed hquiet 1 hopen).1
  subst hs
  cases hslot

end Registration
end Wzp.Desktop
