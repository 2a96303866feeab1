import Wzp.Desktop.SignalState
import Wzp.Lib.Runs

/-!
# What a call learns of the addresses of the callee

The client takes signals and commands and finishes its tasks in any order. What it
finds out about its own addresses and ports on the way is kept apart from what
happens, so that two runs can differ in nothing else.
-/
namespace Wzp.Desktop
open Client Runs

/-- What `open_acceptor_ports` comes back with. -/
structure AcceptorPorts where
  externalIp : Option String
  ports : List UInt16
  succeeded : UInt16

structure PortAllocationResult where
  allocation : String
  observedPorts : List UInt16
  externalIp : Option String

/-- What the client finds out about itself during a step. -/
structure Surroundings where
  /-- The answer of the relay to `Reflect`. -/
  reflected : Option String
  stun : Option String
  localAddrs : List String
  mappedAddr : Option String
  portAllocation : PortAllocationResult
  acceptorPorts : AcceptorPorts
  race : Except String RaceResult

/-- A task with the own address that it has been given. -/
structure Running where
  task : Task
  own : Option String
  deriving DecidableEq

structure ConnectArgs where
  relay : String
  room : String
  peerDirectAddr : Option String
  peerLocalAddrs : List String

/-- What happens to a client: the signals of its relay, the commands of its user,
the end of a task, the media engine and the registration going up and down. -/
inductive Event where
  | recv (message : SignalMessage)
  | placeCall (targetFp callId : String)
  | answerCall (callId : String) (mode : Int)
  | connect (args : ConnectArgs)
  | hangupCall
  | finish (task : Task)
  | engine (up : Bool)
  | registered (fingerprint : String)
  | loopExit
  | deregister

inductive Role where
  | acceptor
  | dialer
  deriving DecidableEq, Repr

def determineRole : Option String → Option String → Option Role
  | some own, some peer =>
      match compare own peer with
      | .lt => some .acceptor
      | .gt => some .dialer
      | .eq => none
  | _, _ => none

/-- The direct path is raced if there is a role and an address to dial. -/
def entersRace (A : Type) [SocketAddr A] (sig : SignalState) (args : ConnectArgs) : Bool :=
  let parses (text : String) : Bool := (SocketAddr.parse text : Option A).isSome
  (determineRole sig.ownReflexAddr args.peerDirectAddr).isSome && parses args.relay &&
    (args.peerDirectAddr.any parses || args.peerLocalAddrs.any parses)

/-- The number of the user interface for a mode. -/
def acceptMode : Int → CallAcceptMode
  | 0 => .reject
  | 1 => .acceptTrusted
  | _ => .acceptGeneric

structure DesktopClient where
  sig : SignalState
  engine : Bool
  tasks : List Running
  sent : List SignalMessage
  /-- The calls whose `connect` has entered the race. -/
  raced : List String

namespace DesktopClient

def new : DesktopClient := ⟨.new, false, [], [], []⟩

def start (c : DesktopClient) (task : Task) (own : Option String) : DesktopClient :=
  { c with tasks := c.tasks ++ [⟨task, own⟩] }

/-- Goes out if the client is registered. -/
def send (c : DesktopClient) (message : SignalMessage) : DesktopClient :=
  if c.sig.transport then { c with sent := c.sent ++ [message] } else c

def recv (c : DesktopClient) (message : SignalMessage) : DesktopClient :=
  let (sig, effects) := recvSignal c.sig message
  { c with
    sig := sig
    sent := c.sent ++ effects.sends
    tasks := c.tasks ++ effects.tasks.map fun task => ⟨task, none⟩ }

/-- A registered client asks its relay for the own address before it goes on. Without
a registration it goes on at once, with no address. -/
def tryReflectOwnAddr (c : DesktopClient) (next : Task) : DesktopClient :=
  if c.sig.transport then (c.send .reflect).start (.reflecting next) none
  else c.start next none

/-- Only a trusted answer asks for the own address. -/
def answerCall (c : DesktopClient) (callId : String) (mode : Int) : DesktopClient :=
  if acceptMode mode = .acceptTrusted then
    c.tryReflectOwnAddr (.answering callId .acceptTrusted)
  else c.start (.answering callId (acceptMode mode)) none

def connect (A : Type) [SocketAddr A] (c : DesktopClient) (args : ConnectArgs) : DesktopClient :=
  if c.engine then c
  else if entersRace A c.sig args then
    { c with
      sig := { c.sig with pendingPathReport := .pending }
      raced := c.raced ++ [callOfRoom args.room]
      tasks := c.tasks ++ [⟨.racing (callOfRoom args.room), none⟩] }
  else c

/-- The answer of the relay, or that of STUN if the request has failed or was cancelled.
It is kept for the calls to come, whether the client is still registered or not. -/
def ownAddr (env : Surroundings) : Option String := env.reflected.or env.stun

def keepOwnAddr (c : DesktopClient) (env : Surroundings) : DesktopClient :=
  { c with sig := { c.sig with ownReflexAddr := (ownAddr env).or c.sig.ownReflexAddr } }

def offer (c : DesktopClient) (env : Surroundings) (callId targetFp : String)
    (own : Option String) : SignalMessage :=
  .directCallOffer ⟨c.sig.fingerprint, none, targetFp, callId, own, env.localAddrs, env.mappedAddr⟩

def answer (env : Surroundings) (callId : String) (mode : CallAcceptMode) (own : Option String) :
    SignalMessage :=
  .directCallAnswer ⟨callId, mode, own, if mode = .acceptTrusted then env.localAddrs else [],
    if mode = .acceptTrusted then env.mappedAddr else none⟩

def probe (env : Surroundings) (callId : String) : SignalMessage :=
  .hardNatProbe ⟨callId, env.portAllocation.observedPorts, env.portAllocation.allocation,
    env.portAllocation.externalIp.getD ""⟩

def birthdayStart (env : Surroundings) (callId : String) : SignalMessage :=
  .hardNatBirthdayStart ⟨callId, env.acceptorPorts.succeeded, env.acceptorPorts.ports,
    env.acceptorPorts.externalIp.getD ""⟩

/-- The end of a task. -/
def complete (c : DesktopClient) (env : Surroundings) : Running → DesktopClient
  | ⟨.reflecting next, _⟩ => (c.keepOwnAddr env).start next (ownAddr env)
  | ⟨.offering callId targetFp, own⟩ =>
      if c.sig.transport then
        (c.send (c.offer env callId targetFp own)).start (.probing callId) none
      else c
  | ⟨.answering callId mode, own⟩ =>
      if c.sig.transport then
        let c := c.send (answer env callId mode own)
        if mode = .acceptTrusted then c.start (.probing callId) none else c
      else c
  | ⟨.probing callId, _⟩ => c.send (probe env callId)
  | ⟨.birthday callId, _⟩ =>
      if 0 < env.acceptorPorts.succeeded then c.send (birthdayStart env callId) else c
  | ⟨.racing callId, _⟩ =>
      match env.race with
      | .ok result =>
          c.send (.mediaPathReport callId result.directTransport (winnerText result.localWinner))
      | .error _ => c

def finish (c : DesktopClient) (env : Surroundings) (task : Task) : DesktopClient :=
  match c.tasks.find? fun running => running.task = task with
  | some running =>
      { c with tasks := c.tasks.eraseP fun running => running.task = task }.complete env running
  | none => c

/-- The receive loop runs while the client is registered. -/
def step (A : Type) [SocketAddr A] (c : DesktopClient) : Event × Surroundings → DesktopClient
  | (.recv message, _) => if c.sig.transport then c.recv message else c
  | (.placeCall targetFp callId, _) => c.tryReflectOwnAddr (.offering callId targetFp)
  | (.answerCall callId mode, _) => c.answerCall callId mode
  | (.connect args, _) => c.connect A args
  | (.hangupCall, _) => { c.send (.hangup none) with engine := false }
  | (.finish task, env) => c.finish env task
  | (.engine up, _) => { c with engine := up }
  | (.registered fingerprint, _) => { c with sig := c.sig.registered fingerprint }
  | (.loopExit, _) => { c with sig := c.sig.loopExit }
  | (.deregister, _) => { c with sig := c.sig.internalDeregister }

end DesktopClient

/-! ## The promise of the privacy mode -/

/-- The messages that name a call. -/
def naming (callId : String) (messages : List SignalMessage) : List SignalMessage :=
  messages.filter fun message => message.callId? = some callId

/-- The call is not placed by the user, and not answered with trust. -/
def Untrusted (callId : String) (events : List Event) : Prop :=
  ∀ event ∈ events, (∀ targetFp, event ≠ .placeCall targetFp callId) ∧
    ∀ mode, event = .answerCall callId mode → acceptMode mode ≠ .acceptTrusted

/-- Whatever the addresses of the client are, the messages that name the call are the
same, and the call does not get into the race. -/
def Hidden (A : Type) [SocketAddr A] (callId : String) (events : List Event) : Prop :=
  ∀ rs rs' : List (Event × Surroundings), rs.map Prod.fst = events → rs'.map Prod.fst = events →
    naming callId (run (DesktopClient.step A) .new rs).sent =
        naming callId (run (DesktopClient.step A) .new rs').sent ∧
      callId ∉ (run (DesktopClient.step A) .new rs).raced

/-- No birthday attack is set up for the call, and `connect` does not find what it
takes for the race. -/
def Discreet (A : Type) [SocketAddr A] (callId : String) (c : DesktopClient) :
    Event × Surroundings → Prop
  | (.finish task, env) => task = .birthday callId → (∃ running ∈ c.tasks, running.task = task) →
      c.sig.transport = true → env.acceptorPorts.succeeded = 0
  | (.connect args, _) => callOfRoom args.room = callId → c.engine = false →
      entersRace A c.sig args = false
  | _ => True

/-! ## What the other side of the call sees -/

/-- The client as far as a call is concerned, without anything of its addresses. -/
structure View where
  transport : Bool
  pendingUpgrade : Option (String × String × Proto.QualityProfile)
  told : List SignalMessage
  tasks : List Running

namespace View

def start (v : View) (task : Task) : View := { v with tasks := v.tasks ++ [⟨task, none⟩] }

def send (v : View) (message : SignalMessage) : View :=
  if v.transport then { v with told := v.told ++ [message] } else v

/-- The receive loop reads nothing else of the signal state. -/
def recv (callId : String) (v : View) (message : SignalMessage) : View :=
  let (sig, effects) :=
    recvSignal { SignalState.new with pendingUpgrade := v.pendingUpgrade } message
  { v with
    pendingUpgrade := sig.pendingUpgrade
    told := v.told ++ naming callId effects.sends
    tasks := v.tasks ++
      (effects.tasks.filter fun task => task.callId = callId).map fun task => ⟨task, none⟩ }

/-- Only an answer is sent, and it carries no address. -/
def complete (v : View) : Task → View
  | .answering callId mode => v.send (.directCallAnswer ⟨callId, mode, none, [], none⟩)
  | _ => v

def finish (callId : String) (v : View) (task : Task) : View :=
  if task.callId = callId then
    match v.tasks.find? fun running => running.task = task with
    | some running =>
        { v with tasks := v.tasks.eraseP fun running => running.task = task }.complete running.task
    | none => v
  else v

def step (callId : String) (v : View) : Event → View
  | .recv message => if v.transport then v.recv callId message else v
  | .answerCall id mode => if id = callId then v.start (.answering id (acceptMode mode)) else v
  | .finish task => v.finish callId task
  | .registered _ => { v with transport := true }
  | .loopExit => { v with transport := false }
  | .deregister => { v with transport := false }
  | _ => v

/-- The call has no task that would tell of an address by design. -/
def Modest (callId : String) (v : View) : Prop :=
  ∀ running ∈ v.tasks, running = ⟨.birthday callId, none⟩ ∨
    ∃ mode, mode ≠ .acceptTrusted ∧ running = ⟨.answering callId mode, none⟩

end View

/-- What a client shows of itself to the other side of a call. -/
def view (callId : String) (c : DesktopClient) : View where
  transport := c.sig.transport
  pendingUpgrade := c.sig.pendingUpgrade
  told := naming callId c.sent
  tasks := c.tasks.filter fun running => running.task.callId = callId

section
variable {A : Type} [SocketAddr A] {x : String} {c : DesktopClient} {env : Surroundings}
  {message : SignalMessage} {task : Task} {own : Option String}

theorem naming_append (ms ms' : List SignalMessage) :
    naming x (ms ++ ms') = naming x ms ++ naming x ms' := List.filter_append _ _

theorem naming_other (h : message.callId? ≠ some x) : naming x [message] = [] := by
  unfold naming
  rw [List.filter_cons, if_neg (by simpa using h), List.filter_nil]

theorem naming_own (h : message.callId? = some x) : naming x [message] = [message] := by
  unfold naming
  rw [List.filter_cons, if_pos (by simpa using h), List.filter_nil]

theorem view_send_other (h : message.callId? ≠ some x) : view x (c.send message) = view x c := by
  unfold DesktopClient.send
  split
  · unfold view
    dsimp only
    rw [naming_append, naming_other h, List.append_nil]
  · rfl

theorem view_send_own (h : message.callId? = some x) :
    view x (c.send message) = (view x c).send message := by
  unfold DesktopClient.send View.send view
  dsimp only
  split
  · rw [naming_append, naming_own h]
  · rfl

theorem view_start_other (h : task.callId ≠ x) : view x (c.start task own) = view x c := by
  unfold DesktopClient.start view
  dsimp only
  rw [List.filter_append, List.filter_cons, if_neg (by simpa using h), List.filter_nil,
    List.append_nil]

theorem view_start_own (h : task.callId = x) :
    view x (c.start task none) = (view x c).start task := by
  unfold DesktopClient.start View.start view
  dsimp only
  rw [List.filter_append, List.filter_cons, if_pos (by simpa using h), List.filter_nil]

theorem view_tryReflect (h : task.callId ≠ x) : view x (c.tryReflectOwnAddr task) = view x c := by
  have hreflecting : (Task.reflecting task).callId ≠ x := h
  unfold DesktopClient.tryReflectOwnAddr
  split
  · rw [view_start_other hreflecting]
    exact view_send_other (Option.some_ne_none x).symm
  · exact view_start_other h

/-- The tasks of other calls do not show. -/
theorem view_complete_other {running : Running} (h : running.task.callId ≠ x) :
    view x (c.complete env running) = view x c := by
  obtain ⟨task, own⟩ := running
  have hsend : ∀ (c : DesktopClient) (message : SignalMessage),
      message.callId? = some task.callId → view x (c.send message) = view x c :=
    fun c message hid => view_send_other fun heq => h (Option.some.inj (hid.symm.trans heq))
  cases task with
  | reflecting next =>
      have hstart : view x ((c.keepOwnAddr env).start next (DesktopClient.ownAddr env)) =
          view x (c.keepOwnAddr env) := view_start_other h
      exact hstart
  | offering callId targetFp =>
      have hprobe : (Task.probing callId).callId ≠ x := h
      unfold DesktopClient.complete
      dsimp only
      split
      · rw [view_start_other hprobe]
        exact hsend _ _ rfl
      · rfl
  | answering callId mode =>
      have hprobe : (Task.probing callId).callId ≠ x := h
      unfold DesktopClient.complete
      dsimp only
      split
      · split
        · rw [view_start_other hprobe]
          exact hsend _ _ rfl
        · exact hsend _ _ rfl
      · rfl
  | probing callId => exact hsend _ _ rfl
  | birthday callId =>
      unfold DesktopClient.complete
      dsimp only
      split
      · exact hsend _ _ rfl
      · rfl
  | racing callId =>
      unfold DesktopClient.complete
      dsimp only
      cases env.race with
      | ok result => exact hsend _ _ rfl
      | error message => rfl

theorem filter_eraseP_other (tasks : List Running) (h : task.callId ≠ x) :
    (tasks.eraseP fun running => running.task = task).filter
        (fun running => running.task.callId = x) =
      tasks.filter fun running => running.task.callId = x := by
  induction tasks with
  | nil => rfl
  | cons running tasks ih =>
      rw [List.eraseP_cons]
      by_cases heq : running.task = task
      · have hother : ¬ decide (running.task.callId = x) = true := by
          simpa [heq] using h
        rw [decide_eq_true heq, cond_true, List.filter_cons, if_neg hother]
      · rw [decide_eq_false heq, cond_false, List.filter_cons, List.filter_cons, ih]

theorem filter_eraseP_own (tasks : List Running) (h : task.callId = x) :
    (tasks.eraseP fun running => running.task = task).filter
        (fun running => running.task.callId = x) =
      (tasks.filter fun running => running.task.callId = x).eraseP
        fun running => running.task = task := by
  induction tasks with
  | nil => rfl
  | cons running tasks ih =>
      rw [List.eraseP_cons]
      by_cases heq : running.task = task
      · have hown : decide (running.task.callId = x) = true := by simpa [heq] using h
        rw [decide_eq_true heq, cond_true, List.filter_cons, if_pos hown, List.eraseP_cons,
          decide_eq_true heq, cond_true]
      · rw [decide_eq_false heq, cond_false, List.filter_cons, List.filter_cons, ih]
        split
        · rw [List.eraseP_cons, decide_eq_false heq, cond_false]
        · rfl

theorem find?_own (tasks : List Running) (h : task.callId = x) :
    (tasks.filter fun running => running.task.callId = x).find?
        (fun running => running.task = task) =
      tasks.find? fun running => running.task = task := by
  rw [List.find?_filter]
  congr 1
  funext running
  by_cases heq : running.task = task
  · simp [heq, h]
  · simp [heq]

theorem task_of_find? {tasks : List Running} {running : Running}
    (h : tasks.find? (fun running => running.task = task) = some running) :
    running.task = task := by
  have hdecide := List.find?_some h
  exact of_decide_eq_true hdecide

theorem view_finish_other (h : task.callId ≠ x) : view x (c.finish env task) = view x c := by
  unfold DesktopClient.finish
  cases hfind : c.tasks.find? fun running => running.task = task with
  | none => rfl
  | some running =>
      have heq : running.task = task := task_of_find? hfind
      dsimp only
      rw [view_complete_other (heq.symm ▸ h)]
      unfold view
      dsimp only
      rw [filter_eraseP_other c.tasks h]

/-- The tasks of the call itself end as the view says, unless ports are told of. -/
theorem view_finish_own (h : task.callId = x) (hmodest : (view x c).Modest x)
    (hdiscreet : Discreet A x c (.finish task, env)) :
    view x (c.finish env task) = (view x c).finish x task := by
  have hfindView : (view x c).tasks.find? (fun running => running.task = task) =
      c.tasks.find? fun running => running.task = task := find?_own c.tasks h
  unfold DesktopClient.finish View.finish
  rw [if_pos h, hfindView]
  cases hfind : c.tasks.find? fun running => running.task = task with
  | none => rfl
  | some running =>
      have heq : running.task = task := task_of_find? hfind
      have hmem : running ∈ c.tasks := List.mem_of_find?_eq_some hfind
      have herase : view x { c with tasks := c.tasks.eraseP fun running => running.task = task } =
          { view x c with
            tasks := (view x c).tasks.eraseP fun running => running.task = task } := by
        unfold view
        dsimp only
        rw [filter_eraseP_own c.tasks h]
      have hmute := hmodest running (List.mem_filter.mpr ⟨hmem, by simpa [heq] using h⟩)
      dsimp only
      rw [← herase]
      rcases hmute with rfl | ⟨mode, hmode, rfl⟩
      · -- no birthday attack: either no ports have been opened or nothing goes out
        unfold DesktopClient.complete View.complete
        dsimp only
        split
        · rename_i hports
          have hclosed : c.sig.transport = false := by
            by_contra htransport
            have hzero := hdiscreet heq.symm ⟨_, hmem, heq⟩ (by simpa using htransport)
            rw [hzero] at hports
            exact absurd hports (by decide)
          unfold DesktopClient.send
          dsimp only
          rw [hclosed, if_neg Bool.false_ne_true]
        · rfl
      · have hanswer : DesktopClient.answer env x mode none =
            .directCallAnswer ⟨x, mode, none, [], none⟩ := by
          unfold DesktopClient.answer
          rw [if_neg hmode, if_neg hmode]
        unfold DesktopClient.complete View.complete
        dsimp only
        rw [hanswer, if_neg hmode, ← view_send_own rfl]
        split
        · rfl
        · rename_i hclosed
          unfold DesktopClient.send
          dsimp only
          rw [if_neg hclosed]

theorem recvSignal_of_pendingUpgrade (sig sig' : SignalState) (message : SignalMessage)
    (h : sig.pendingUpgrade = sig'.pendingUpgrade) :
    (recvSignal sig message).2 = (recvSignal sig' message).2 ∧
      (recvSignal sig message).1.pendingUpgrade = (recvSignal sig' message).1.pendingUpgrade := by
  cases message with
  | upgradeResponse callId proposalId accepted =>
      unfold recvSignal handleUpgradeResponse
      dsimp only
      rw [h]
      cases accepted with
      | false => exact ⟨rfl, h⟩
      | true =>
          cases sig'.pendingUpgrade with
          | none => exact ⟨rfl, h⟩
          | some pending => exact ⟨rfl, rfl⟩
  | _ => exact ⟨rfl, h⟩

theorem recvSignal_transport (sig : SignalState) (message : SignalMessage) :
    (recvSignal sig message).1.transport = sig.transport := by
  cases message with
  | upgradeResponse callId proposalId accepted =>
      unfold recvSignal handleUpgradeResponse
      cases accepted with
      | false => rfl
      | true =>
          cases sig.pendingUpgrade with
          | none => rfl
          | some pending => rfl
  | _ => rfl

theorem filter_running (tasks : List Task) :
    (tasks.map fun task => (⟨task, none⟩ : Running)).filter
        (fun running => running.task.callId = x) =
      (tasks.filter fun task => task.callId = x).map fun task => ⟨task, none⟩ := by
  rw [List.filter_map]
  rfl

theorem view_recv : view x (c.recv message) = (view x c).recv x message := by
  obtain ⟨heffects, hupgrade⟩ := recvSignal_of_pendingUpgrade c.sig
    { SignalState.new with pendingUpgrade := c.sig.pendingUpgrade } message rfl
  unfold DesktopClient.recv View.recv view
  dsimp only
  rw [naming_append, List.filter_append, filter_running, heffects, hupgrade,
    recvSignal_transport]

theorem view_connect {args : ConnectArgs} (hdiscreet : Discreet A x c (.connect args, env)) :
    view x (c.connect A args) = view x c := by
  unfold DesktopClient.connect
  split
  · rfl
  · rename_i hengine
    split
    · rename_i hrace
      have hother : callOfRoom args.room ≠ x := by
        intro hroom
        rw [hdiscreet hroom (by simpa using hengine)] at hrace
        exact absurd hrace Bool.false_ne_true
      have hstart : view x (c.start (.racing (callOfRoom args.room)) none) = view x c :=
        view_start_other hother
      exact hstart
    · rfl

theorem view_answerCall {callId : String} {mode : Int}
    (huntrusted : callId = x → acceptMode mode ≠ .acceptTrusted) :
    view x (c.answerCall callId mode) = (view x c).step x (.answerCall callId mode) := by
  unfold DesktopClient.answerCall View.step
  dsimp only
  by_cases hown : callId = x
  · rw [if_neg (huntrusted hown), if_pos hown]
    exact view_start_own hown
  · rw [if_neg hown]
    split
    · exact view_tryReflect hown
    · exact view_start_other hown

/-- The event is not the user's consent to the call. -/
def WithoutTrust (x : String) (event : Event) : Prop :=
  (∀ targetFp, event ≠ .placeCall targetFp x) ∧
    ∀ mode, event = .answerCall x mode → acceptMode mode ≠ .acceptTrusted

/-- A discreet step shows what happens, and nothing of the surroundings. -/
theorem view_step {event : Event} (hmodest : (view x c).Modest x)
    (huntrusted : WithoutTrust x event) (hdiscreet : Discreet A x c (event, env)) :
    view x (DesktopClient.step A c (event, env)) = (view x c).step x event := by
  cases event with
  | recv message =>
      unfold DesktopClient.step View.step
      dsimp only
      change _ = if c.sig.transport = true then _ else _
      split
      · exact view_recv
      · rfl
  | placeCall targetFp callId =>
      have hother : callId ≠ x := fun heq => huntrusted.1 targetFp (heq ▸ rfl)
      exact view_tryReflect hother
  | answerCall callId mode =>
      exact view_answerCall fun heq => huntrusted.2 mode (heq ▸ rfl)
  | connect args => exact view_connect hdiscreet
  | hangupCall =>
      have hsend : view x (c.send (.hangup none)) = view x c :=
        view_send_other (Option.some_ne_none x).symm
      exact hsend
  | finish task =>
      by_cases hown : task.callId = x
      · exact view_finish_own hown hmodest hdiscreet
      · have hsame : (view x c).finish x task = view x c := if_neg hown
        exact (view_finish_other hown).trans hsame.symm
  | engine up => rfl
  | registered fingerprint => rfl
  | loopExit => rfl
  | deregister => rfl

theorem View.Modest.send {v : View} (h : v.Modest x) (message : SignalMessage) :
    (v.send message).Modest x := by
  unfold View.send
  split <;> exact h

theorem recvSignal_tasks (sig : SignalState) (message : SignalMessage) :
    ∀ task ∈ (recvSignal sig message).2.tasks, ∃ callId, task = .birthday callId := by
  intro task htask
  cases message with
  | hardNatProbe probe =>
      unfold recvSignal at htask
      dsimp only at htask
      split at htask
      · exact ⟨probe.callId, List.mem_singleton.mp htask⟩
      · exact absurd htask List.not_mem_nil
  | upgradeResponse callId proposalId accepted =>
      unfold recvSignal handleUpgradeResponse at htask
      cases accepted with
      | false => exact absurd htask List.not_mem_nil
      | true =>
          cases hpending : sig.pendingUpgrade with
          | none =>
              simp only [hpending] at htask
              exact absurd htask List.not_mem_nil
          | some pending =>
              simp only [hpending, if_true] at htask
              split at htask <;> exact absurd htask List.not_mem_nil
  | _ => exact absurd htask List.not_mem_nil

theorem View.Modest.step {v : View} (h : v.Modest x) {event : Event}
    (huntrusted : WithoutTrust x event) : (v.step x event).Modest x := by
  cases event with
  | recv message =>
      unfold View.step
      dsimp only
      split
      · intro running hrunning
        cases List.mem_append.mp hrunning with
        | inl hold => exact h running hold
        | inr hnew =>
            obtain ⟨task, htask, rfl⟩ := List.mem_map.mp hnew
            obtain ⟨hmem, hown⟩ := List.mem_filter.mp htask
            obtain ⟨callId, rfl⟩ := recvSignal_tasks _ message task hmem
            have hcallId : callId = x := of_decide_eq_true hown
            exact Or.inl (hcallId ▸ rfl)
      · exact h
  | answerCall callId mode =>
      unfold View.step
      dsimp only
      split
      · rename_i hown
        subst hown
        intro running hrunning
        cases List.mem_append.mp hrunning with
        | inl hold => exact h running hold
        | inr hnew =>
            exact Or.inr ⟨acceptMode mode, huntrusted.2 mode rfl, List.mem_singleton.mp hnew⟩
      · exact h
  | finish task =>
      change (v.finish x task).Modest x
      unfold View.finish
      split
      · split
        · have herase : View.Modest x { v with
              tasks := v.tasks.eraseP fun running => running.task = task } :=
            fun running hrunning => h running (List.mem_of_mem_eraseP hrunning)
          unfold View.complete
          split
          · exact herase.send _
          · exact herase
        · exact h
      · exact h
  | _ => exact h

/-- A discreet run shows the same in all surroundings. -/
theorem view_run {rs : List (Event × Surroundings)} (hmodest : (view x c).Modest x)
    (huntrusted : ∀ r ∈ rs, WithoutTrust x r.1)
    (hdiscreet : EachStep (DesktopClient.step A) (Discreet A x) c rs) :
    view x (run (DesktopClient.step A) c rs) =
      (rs.map Prod.fst).foldl (View.step x) (view x c) := by
  induction rs generalizing c with
  | nil => rfl
  | cons r rs ih =>
      obtain ⟨event, env⟩ := r
      have hevent := huntrusted _ List.mem_cons_self
      have hstep := view_step hmodest hevent hdiscreet.1
      have hnext : (view x (DesktopClient.step A c (event, env))).Modest x :=
        hstep.symm ▸ hmodest.step hevent
      rw [run_cons, ih hnext (fun r hr => huntrusted r (List.mem_cons_of_mem _ hr)) hdiscreet.2,
        hstep]
      rfl

/-! ## The race, and the ports that are told of -/

theorem send_raced : (c.send message).raced = c.raced := by
  unfold DesktopClient.send
  split <;> rfl

theorem tryReflect_raced : (c.tryReflectOwnAddr task).raced = c.raced := by
  unfold DesktopClient.tryReflectOwnAddr
  split
  · exact send_raced
  · rfl

theorem complete_raced (running : Running) : (c.complete env running).raced = c.raced := by
  obtain ⟨task, own⟩ := running
  cases task with
  | reflecting next => rfl
  | offering callId targetFp =>
      unfold DesktopClient.complete
      dsimp only
      split
      · exact send_raced
      · rfl
  | answering callId mode =>
      unfold DesktopClient.complete
      dsimp only
      split
      · split <;> exact send_raced
      · rfl
  | probing callId => exact send_raced
  | birthday callId =>
      unfold DesktopClient.complete
      dsimp only
      split
      · exact send_raced
      · rfl
  | racing callId =>
      unfold DesktopClient.complete
      dsimp only
      cases env.race with
      | ok result => exact send_raced
      | error message => rfl

/-- Only `connect` enters the race. -/
theorem step_raced (event : Event) : (DesktopClient.step A c (event, env)).raced = c.raced ∨
    ∃ args, event = .connect args ∧ c.engine = false ∧ entersRace A c.sig args = true ∧
      (DesktopClient.step A c (event, env)).raced = c.raced ++ [callOfRoom args.room] := by
  cases event with
  | recv message =>
      refine Or.inl ?_
      unfold DesktopClient.step
      dsimp only
      split <;> rfl
  | answerCall callId mode =>
      refine Or.inl ?_
      unfold DesktopClient.step DesktopClient.answerCall
      dsimp only
      split
      · exact tryReflect_raced
      · rfl
  | placeCall targetFp callId => exact Or.inl tryReflect_raced
  | connect args =>
      unfold DesktopClient.step DesktopClient.connect
      dsimp only
      split
      · exact Or.inl rfl
      · rename_i hengine
        split
        · rename_i hrace
          exact Or.inr ⟨args, rfl, by simpa using hengine, hrace, rfl⟩
        · exact Or.inl rfl
  | hangupCall => exact Or.inl send_raced
  | finish task =>
      refine Or.inl ?_
      unfold DesktopClient.step DesktopClient.finish
      dsimp only
      split
      · exact complete_raced _
      · rfl
  | _ => exact Or.inl rfl

theorem not_raced_of_discreet {rs : List (Event × Surroundings)} (hraced : x ∉ c.raced)
    (hdiscreet : EachStep (DesktopClient.step A) (Discreet A x) c rs) :
    x ∉ (run (DesktopClient.step A) c rs).raced := by
  induction rs generalizing c with
  | nil => exact hraced
  | cons r rs ih =>
      obtain ⟨event, env⟩ := r
      refine ih ?_ hdiscreet.2
      rcases step_raced (A := A) event with hsame | ⟨args, rfl, hengine, hrace, hnext⟩
      · exact hsame.symm ▸ hraced
      · rw [hnext]
        intro hmem
        cases List.mem_append.mp hmem with
        | inl hold => exact hraced hold
        | inr hnew =>
            have hroom : callOfRoom args.room = x := (List.mem_singleton.mp hnew).symm
            exact absurd (hrace.symm.trans (hdiscreet.1 hroom hengine)) (fun h => by cases h)

theorem mem_raced_of_run {rs : List (Event × Surroundings)} (h : x ∈ c.raced) :
    x ∈ (run (DesktopClient.step A) c rs).raced := by
  induction rs generalizing c with
  | nil => exact h
  | cons r rs ih =>
      obtain ⟨event, env⟩ := r
      refine ih ?_
      rcases step_raced (A := A) event with hsame | ⟨args, -, -, -, hnext⟩
      · exact hsame.symm ▸ h
      · exact hnext.symm ▸ List.mem_append_left _ h

def IsBirthdayStart : SignalMessage → Prop
  | .hardNatBirthdayStart _ => True
  | _ => False

/-- What is sent in a step comes behind what was sent before, and tells of ports only
if some have been opened. -/
def Appends (env : Surroundings) (c c' : DesktopClient) : Prop :=
  ∃ ms, c'.sent = c.sent ++ ms ∧
    ∀ m ∈ ms, IsBirthdayStart m → env.acceptorPorts.succeeded ≠ 0

theorem Appends.of_sent {c' : DesktopClient} (h : c'.sent = c.sent) : Appends env c c' :=
  ⟨[], h.trans (List.append_nil _).symm, fun _ hm => absurd hm List.not_mem_nil⟩

theorem Appends.send (h : IsBirthdayStart message → env.acceptorPorts.succeeded ≠ 0) :
    Appends env c (c.send message) := by
  unfold DesktopClient.send
  split
  · exact ⟨[message], rfl, fun m hm => List.mem_singleton.mp hm ▸ h⟩
  · exact .of_sent rfl

theorem appends_tryReflect : Appends env c (c.tryReflectOwnAddr task) := by
  unfold DesktopClient.tryReflectOwnAddr
  split
  · have hsend : Appends env c (c.send .reflect) := Appends.send fun h => h.elim
    exact hsend
  · exact .of_sent rfl

theorem appends_complete (running : Running) : Appends env c (c.complete env running) := by
  obtain ⟨task, own⟩ := running
  cases task with
  | reflecting next =>
      exact .of_sent rfl
  | offering callId targetFp =>
      unfold DesktopClient.complete
      dsimp only
      split
      · have hsend : Appends env c (c.send (c.offer env callId targetFp own)) :=
          Appends.send fun h => h.elim
        exact hsend
      · exact .of_sent rfl
  | answering callId mode =>
      have hsend : Appends env c (c.send (DesktopClient.answer env callId mode own)) :=
        Appends.send fun h => h.elim
      unfold DesktopClient.complete
      dsimp only
      split
      · split <;> exact hsend
      · exact .of_sent rfl
  | probing callId => exact Appends.send fun h => h.elim
  | birthday callId =>
      unfold DesktopClient.complete
      dsimp only
      split
      · rename_i hports
        refine Appends.send fun _ hzero => ?_
        rw [hzero] at hports
        exact absurd hports (by decide)
      · exact .of_sent rfl
  | racing callId =>
      unfold DesktopClient.complete
      dsimp only
      cases env.race with
      | ok result => exact Appends.send fun h => h.elim
      | error message => exact .of_sent rfl

theorem recvSignal_sends (sig : SignalState) (message : SignalMessage) :
    ∀ m ∈ (recvSignal sig message).2.sends, ¬ IsBirthdayStart m := by
  intro m hm
  cases message with
  | hardNatProbe probe =>
      unfold recvSignal at hm
      dsimp only at hm
      split at hm <;> exact absurd hm List.not_mem_nil
  | upgradeProposal callId proposalId =>
      rw [List.mem_singleton.mp hm]
      exact id
  | upgradeResponse callId proposalId accepted =>
      unfold recvSignal handleUpgradeResponse at hm
      cases accepted with
      | false => exact absurd hm List.not_mem_nil
      | true =>
          cases hpending : sig.pendingUpgrade with
          | none =>
              simp only [hpending] at hm
              exact absurd hm List.not_mem_nil
          | some pending =>
              simp only [hpending, if_true] at hm
              split at hm
              · rw [List.mem_singleton.mp hm]
                exact id
              · exact absurd hm List.not_mem_nil
  | _ => exact absurd hm List.not_mem_nil

theorem appends_step (A : Type) [SocketAddr A] (c : DesktopClient) (event : Event)
    (env : Surroundings) : Appends env c (DesktopClient.step A c (event, env)) := by
  cases event with
  | recv message =>
      unfold DesktopClient.step
      dsimp only
      split
      · exact ⟨_, rfl, fun m hm h => absurd h (recvSignal_sends c.sig message m hm)⟩
      · exact .of_sent rfl
  | answerCall callId mode =>
      unfold DesktopClient.step DesktopClient.answerCall
      dsimp only
      split
      · exact appends_tryReflect
      · exact .of_sent rfl
  | placeCall targetFp callId => exact appends_tryReflect
  | connect args =>
      unfold DesktopClient.step DesktopClient.connect
      dsimp only
      split
      · exact .of_sent rfl
      · split <;> exact .of_sent rfl
  | hangupCall =>
      have hsend : Appends env c (c.send (.hangup none)) := Appends.send fun h => h.elim
      exact hsend
  | finish task =>
      unfold DesktopClient.step DesktopClient.finish
      dsimp only
      split
      · exact appends_complete _
      · exact .of_sent rfl
  | _ => exact .of_sent rfl

theorem mem_sent_of_run {rs : List (Event × Surroundings)} {m : SignalMessage} (h : m ∈ c.sent) :
    m ∈ (run (DesktopClient.step A) c rs).sent := by
  induction rs generalizing c with
  | nil => exact h
  | cons r rs ih =>
      obtain ⟨ms, hsent, -⟩ := appends_step A c r.1 r.2
      exact ih (hsent.symm ▸ List.mem_append_left ms h)

/-- The same events, with no port opened for a birthday attack. -/
def portless (rs : List (Event × Surroundings)) : List (Event × Surroundings) :=
  rs.map fun r => (r.1, { r.2 with acceptorPorts := { r.2.acceptorPorts with succeeded := 0 } })

theorem portless_run {rs : List (Event × Surroundings)} (h : ∀ m ∈ c.sent, ¬ IsBirthdayStart m) :
    ∀ m ∈ (run (DesktopClient.step A) c (portless rs)).sent, ¬ IsBirthdayStart m := by
  induction rs generalizing c with
  | nil => exact h
  | cons r rs ih =>
      refine ih fun m hm => ?_
      obtain ⟨ms, hsent, hports⟩ := appends_step A c r.1
        { r.2 with acceptorPorts := { r.2.acceptorPorts with succeeded := 0 } }
      rw [hsent] at hm
      cases List.mem_append.mp hm with
      | inl hold => exact h m hold
      | inr hnew => exact fun hstart => hports m hnew hstart rfl

/-- The end of a birthday task tells the other side of the ports. -/
theorem birthdayStart_sent (hrunning : ∃ running ∈ c.tasks, running.task = .birthday x)
    (htransport : c.sig.transport = true) (hports : env.acceptorPorts.succeeded ≠ 0) :
    DesktopClient.birthdayStart env x ∈
      (DesktopClient.step A c (.finish (.birthday x), env)).sent := by
  have hpositive : 0 < env.acceptorPorts.succeeded := UInt16.pos_iff_ne_zero.mpr hports
  unfold DesktopClient.step DesktopClient.finish
  dsimp only
  cases hfind : c.tasks.find? fun running => running.task = .birthday x with
  | none =>
      obtain ⟨running, hmem, htask⟩ := hrunning
      exact absurd (decide_eq_true htask) (List.find?_eq_none.mp hfind running hmem)
  | some running =>
      obtain ⟨task, own⟩ := running
      have htask : task = .birthday x := task_of_find? hfind
      subst htask
      unfold DesktopClient.complete DesktopClient.send
      dsimp only
      rw [if_pos hpositive, if_pos htransport]
      exact List.mem_concat_self

/-- A run is discreet if no ports are told of and the race is not entered. -/
theorem discreet_of_silent {rs : List (Event × Surroundings)}
    (hsilent : ∀ m ∈ (run (DesktopClient.step A) c rs).sent,
      m.callId? = some x → ¬ IsBirthdayStart m)
    (hraced : x ∉ (run (DesktopClient.step A) c rs).raced) :
    EachStep (DesktopClient.step A) (Discreet A x) c rs := by
  induction rs generalizing c with
  | nil => trivial
  | cons r rs ih =>
      obtain ⟨event, env⟩ := r
      refine ⟨?_, ih hsilent hraced⟩
      cases event with
      | finish task =>
          rintro rfl hrunning htransport
          by_contra hports
          have hmem : DesktopClient.birthdayStart env x ∈ (run (DesktopClient.step A)
              (DesktopClient.step A c (.finish (.birthday x), env)) rs).sent :=
            mem_sent_of_run (birthdayStart_sent hrunning htransport hports)
          exact hsilent _ hmem rfl trivial
      | connect args =>
          rintro rfl hengine
          by_contra hrace
          have hnext : (DesktopClient.step A c (.connect args, env)).raced =
              c.raced ++ [callOfRoom args.room] := by
            unfold DesktopClient.step DesktopClient.connect
            dsimp only
            rw [hengine, if_neg Bool.false_ne_true, if_pos (by simpa using hrace)]
          have hmem : callOfRoom args.room ∈
              (DesktopClient.step A c (.connect args, env)).raced := by
            rw [hnext]
            exact List.mem_concat_self
          have hfinal : callOfRoom args.room ∈ (run (DesktopClient.step A)
              (DesktopClient.step A c (.connect args, env)) rs).raced := mem_raced_of_run hmem
          exact hraced hfinal
      | _ => trivial

theorem mem_naming {m : SignalMessage} {ms : List SignalMessage} :
    m ∈ naming x ms ↔ m ∈ ms ∧ m.callId? = some x := by
  rw [naming, List.mem_filter, decide_eq_true_iff]

theorem new_view_modest : (view x .new).Modest x := fun _ hmem => absurd hmem List.not_mem_nil

end

/-- A call that is not answered with trust learns nothing of the addresses exactly if
each step is discreet, whatever the surroundings. -/
theorem hidden_iff_discreet (A : Type) [SocketAddr A] (callId : String) (events : List Event)
    (huntrusted : Untrusted callId events) : Hidden A callId events ↔
      ∀ rs : List (Event × Surroundings), rs.map Prod.fst = events →
        EachStep (DesktopClient.step A) (Discreet A callId) .new rs := by
  have hwithout : ∀ rs : List (Event × Surroundings), rs.map Prod.fst = events →
      ∀ r ∈ rs, WithoutTrust callId r.1 := by
    rintro rs rfl r hr
    exact huntrusted r.1 (List.mem_map_of_mem hr)
  constructor
  · intro hhidden rs hrs
    have hsame : (portless rs).map Prod.fst = events := by
      rw [portless, List.map_map]
      exact hrs
    obtain ⟨htold, hraced⟩ := hhidden rs (portless rs) hrs hsame
    refine discreet_of_silent (fun m hm hcall => ?_) hraced
    have hmem := htold ▸ mem_naming.mpr ⟨hm, hcall⟩
    exact portless_run (fun m hm => absurd hm List.not_mem_nil) m (mem_naming.mp hmem).1
  · intro hdiscreet rs rs' hrs hrs'
    have hview := view_run new_view_modest (hwithout rs hrs) (hdiscreet rs hrs)
    have hview' := view_run new_view_modest (hwithout rs' hrs') (hdiscreet rs' hrs')
    rw [hrs] at hview
    rw [hrs'] at hview'
    exact ⟨congrArg View.told (hview.trans hview'.symm),
      not_raced_of_discreet List.not_mem_nil (hdiscreet rs hrs)⟩

/-! ## Two runs -/

theorem cons_of_events {rs : List (Event × Surroundings)} {event : Event} {events : List Event}
    (h : rs.map Prod.fst = event :: events) :
    ∃ env tail, rs = (event, env) :: tail ∧ tail.map Prod.fst = events := by
  obtain ⟨⟨_, env⟩, tail, rfl, rfl, htail⟩ := List.map_eq_cons_iff.mp h
  exact ⟨env, tail, rfl, htail⟩

/-- The caller probes and dials, and the callee answers in privacy mode. -/
def genericCall : List Event :=
  [.registered "callee",
    .recv (.directCallOffer ⟨"caller", none, "callee", "x", none, [], none⟩),
    .recv (.hardNatProbe ⟨"x", [41000], "preserving", "203.0.113.5"⟩),
    .answerCall "x" 2, .finish (.answering "x" .acceptGeneric),
    .recv (.callSetup ⟨"x", "call-x", "192.0.2.1:4433", some "203.0.113.5:4433", [], none⟩),
    .connect ⟨"192.0.2.1:4433", "call-x", some "203.0.113.5:4433", []⟩]

/-- Without an own address from before, and with ports that need no birthday attack,
an answer in privacy mode keeps the promise. -/
theorem generic_answer_hidden : Hidden String "x" genericCall := by
  refine (hidden_iff_discreet String "x" _ ?_).mpr ?_
  · intro event hmem
    simp only [genericCall, List.mem_cons, List.not_mem_nil, or_false] at hmem
    rcases hmem with rfl | rfl | rfl | rfl | rfl | rfl | rfl
    case inr.inr.inr.inl =>
      refine ⟨fun targetFp => Event.noConfusion, fun mode heq => ?_⟩
      obtain ⟨-, rfl⟩ := Event.answerCall.inj heq
      decide
    all_goals exact ⟨fun targetFp => Event.noConfusion, fun mode => Event.noConfusion⟩
  · intro rs hrs
    obtain ⟨e₁, rs₁, rfl, h₁⟩ := cons_of_events hrs
    obtain ⟨e₂, rs₂, rfl, h₂⟩ := cons_of_events h₁
    obtain ⟨e₃, rs₃, rfl, h₃⟩ := cons_of_events h₂
    obtain ⟨e₄, rs₄, rfl, h₄⟩ := cons_of_events h₃
    obtain ⟨e₅, rs₅, rfl, h₅⟩ := cons_of_events h₄
    obtain ⟨e₆, rs₆, rfl, h₆⟩ := cons_of_events h₅
    obtain ⟨e₇, rs₇, rfl, h₇⟩ := cons_of_events h₆
    obtain rfl := List.map_eq_nil_iff.mp h₇
    exact ⟨trivial, trivial, trivial, trivial, fun htask => Task.noConfusion htask, trivial,
      fun _ _ => rfl, trivial⟩

def nowhere : Surroundings :=
  ⟨none, none, [], none, ⟨"unknown", [], none⟩, ⟨none, [], 0⟩, .error "no path"⟩

/-- While the call is still ringing, a probe of the caller is answered with ports of
the callee. -/
theorem probe_tells_ports : ¬ Hidden String "x" [.registered "callee",
    .recv (.directCallOffer ⟨"caller", none, "callee", "x", none, [], none⟩),
    .recv (.hardNatProbe ⟨"x", [], "random", "203.0.113.5"⟩), .finish (.birthday "x")] := by
  intro h
  let offered : List (Event × Surroundings) := [(.registered "callee", nowhere),
    (.recv (.directCallOffer ⟨"caller", none, "callee", "x", none, [], none⟩), nowhere),
    (.recv (.hardNatProbe ⟨"x", [], "random", "203.0.113.5"⟩), nowhere)]
  have hsame := (h (offered ++ [(.finish (.birthday "x"),
      { nowhere with acceptorPorts := ⟨some "198.51.100.9", [41000], 1⟩ })])
    (offered ++ [(.finish (.birthday "x"), nowhere)]) rfl rfl).1
  exact absurd (congrArg List.length hsame) (by decide)

/-- The own address that an earlier call has left is enough for the race of a call
that is answered in privacy mode. -/
example : "x" ∈ (run (DesktopClient.step String) .new
    [(.registered "callee", nowhere), (.placeCall "bob" "y", nowhere),
      (.finish (.reflecting (.offering "y" "bob")),
        { nowhere with reflected := some "198.51.100.9:4433" }),
      (.answerCall "x" 2, nowhere),
      (.connect ⟨"192.0.2.1:4433", "call-x", some "203.0.113.5:4433", []⟩, nowhere)]).raced := by
  decide

end Wzp.Desktop
