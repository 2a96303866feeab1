import Wzp.Desktop.SignalState

/-!
# The agreement on the media path

Each side races its two paths, tells the other whether the direct one came up, and
waits for what the other has to tell. Times are in milliseconds.
-/
namespace Wzp.Desktop
open Client

/-- The wait for the report of the peer. -/
def reportLimit : ℕ := 3000

/-- Messages with the time of their arrival. -/
structure Inbox where
  messages : List (ℕ × SignalMessage)
  inOrder : messages.Pairwise fun x y => x.1 ≤ y.1

/-- One side of the call. The inbox holds what arrives there besides the report of
the peer, the delay is that of its own report. -/
structure ConnectRun where
  sig : SignalState
  installed : ℕ
  raceTime : ℕ
  race : Except String RaceResult
  directOnly : Bool
  delay : ℕ
  inbox : Inbox

/-- The path taken; the transport of the race if there is one for it. -/
structure Chosen where
  path : WinningPath
  preConnected : Bool
  deriving DecidableEq, Repr

namespace ConnectRun

def raceDone (p : ConnectRun) : ℕ := p.installed + p.raceTime

/-- The wait is over then at the latest. -/
def deadline (p : ConnectRun) : ℕ := p.raceDone + reportLimit

/-- What is sent behind the race, with the time it arrives at the peer. -/
def report (callId : String) (p : ConnectRun) : Option (ℕ × SignalMessage) :=
  match p.race with
  | .ok result =>
      if p.sig.transport then
        some (p.raceDone + p.delay,
          .mediaPathReport callId result.directTransport (winnerText result.localWinner))
      else none
  | .error _ => none

/-- The report of the peer comes in behind what has arrived by then. -/
def arrivals (p : ConnectRun) (peerReport : Option (ℕ × SignalMessage)) :
    List (ℕ × SignalMessage) :=
  match peerReport with
  | some report =>
      p.inbox.messages.filter (fun m => m.1 ≤ report.1) ++ report ::
        p.inbox.messages.filter fun m => report.1 < m.1
  | none => p.inbox.messages

def recvAll (sig : SignalState) (messages : List (ℕ × SignalMessage)) : SignalState :=
  messages.foldl (fun sig m => (recvSignal sig m.2).1) sig

/-- The slot is installed before the race, and read until the wait is over. -/
def awaitReport (p : ConnectRun) (messages : List (ℕ × SignalMessage)) : Bool :=
  let sig := recvAll p.sig (messages.filter fun m => m.1 < p.installed)
  let sig := { sig with pendingPathReport := .pending }
  let sig := recvAll sig (messages.filter fun m => p.installed ≤ m.1 && m.1 ≤ p.deadline)
  match sig.pendingPathReport with
  | .sent peerOk => peerOk
  | _ => false

/-- Both have to agree on the direct path. -/
def negotiate (p : ConnectRun) (result : RaceResult) (peerDirectOk : Bool) :
    Except String Chosen :=
  let useDirect := result.directTransport && peerDirectOk
  if p.directOnly && !useDirect then
    .error ("direct_only: P2P failed (local_ok=" ++ toString result.directTransport ++
      ", peer_ok=" ++ toString peerDirectOk ++ ")")
  else if useDirect then .ok ⟨.direct, result.directTransport⟩
  else .ok ⟨.relay, result.relayTransport⟩

/-- Without a result of the race the relay is dialed anew. -/
def connect (p : ConnectRun) (peerReport : Option (ℕ × SignalMessage)) : Except String Chosen :=
  match p.race with
  | .ok result => p.negotiate result (p.awaitReport (p.arrivals peerReport))
  | .error _ => .ok ⟨.relay, false⟩

end ConnectRun

structure DirectCall where
  room : String
  a : ConnectRun
  b : ConnectRun

namespace DirectCall

def connectA (call : DirectCall) : Except String Chosen :=
  call.a.connect (call.b.report (callOfRoom call.room))

def connectB (call : DirectCall) : Except String Chosen :=
  call.b.connect (call.a.report (callOfRoom call.room))

/-- If both have a transport, it is for the same path. -/
def Agree (call : DirectCall) : Prop :=
  ∀ chosenA chosenB, call.connectA = .ok chosenA → call.connectB = .ok chosenB →
    chosenA.path = chosenB.path

end DirectCall

/-! ## What the slot is told -/

namespace ConnectRun

/-- The direct path has come up on this side. -/
def DirectUp (p : ConnectRun) : Prop := ∃ result, p.race = .ok result ∧ result.directTransport = true

/-- What a message says to the slot. -/
def verdict : SignalMessage → Option Bool
  | .mediaPathReport _ directOk _ => some directOk
  | .hangup _ => some false
  | _ => none

/-- The slot is open. -/
def Open (p : ConnectRun) (time : ℕ) : Prop := p.installed ≤ time ∧ time ≤ p.deadline

instance (p : ConnectRun) (time : ℕ) : Decidable (p.Open time) := by
  unfold Open
  infer_instance

/-- What the open slot is told first, but for the report of the peer. -/
def firstOther (p : ConnectRun) : Option (ℕ × Bool) :=
  ((p.inbox.messages.filter fun m => p.Open m.1).filterMap
    fun m => (verdict m.2).map fun ok => (m.1, ok)).head?

/-- The report of the peer is the first to reach the open slot. -/
def Punctual (p q : ConnectRun) : Prop :=
  q.sig.transport = true ∧ (∃ result, q.race = .ok result) ∧ p.Open (q.raceDone + q.delay) ∧
    ∀ other ∈ p.firstOther, q.raceDone + q.delay < other.1

/-- Another message that reaches the open slot first says that the direct path of
the peer is up. -/
def Misled (p q : ConnectRun) : Prop := ¬ p.Punctual q ∧ ∃ time, p.firstOther = some (time, true)

/-- Fails unless the direct path is taken. -/
def Refuses (p : ConnectRun) : Prop := p.directOnly = true ∧ ∃ result, p.race = .ok result

/-- What has to hold of the one side where the other goes direct. -/
structure InStep (p q : ConnectRun) : Prop where
  bothUp : p.DirectUp → q.DirectUp → p.Punctual q ∨ p.Misled q →
    q.Punctual p ∨ q.Misled p ∨ q.directOnly = true
  oneUp : p.DirectUp → ¬ q.DirectUp → p.Misled q → q.Refuses

/-- What the slot holds, for the reader that waits for it. -/
def told : Oneshot Bool → Bool
  | .sent peerOk => peerOk
  | _ => false

theorem recvSignal_pathReport (sig : SignalState) (m : SignalMessage) :
    (recvSignal sig m).1.pendingPathReport =
      match m with
      | .mediaPathReport _ directOk _ => sig.pendingPathReport.fire directOk
      | .hangup _ => sig.pendingPathReport.drop
      | _ => sig.pendingPathReport := by
  cases m with
  | upgradeResponse callId proposalId accepted =>
      unfold recvSignal handleUpgradeResponse
      cases accepted with
      | false => rfl
      | true =>
          cases sig.pendingUpgrade with
          | none => rfl
          | some pending => rfl
  | _ => rfl

theorem recvAll_cons (sig : SignalState) (m : ℕ × SignalMessage) (ms : List (ℕ × SignalMessage)) :
    recvAll sig (m :: ms) = recvAll (recvSignal sig m.2).1 ms := rfl

/-- What has been told is not told again. -/
theorem told_settled (sig : SignalState) (ms : List (ℕ × SignalMessage))
    (h : sig.pendingPathReport ≠ .pending) :
    (recvAll sig ms).pendingPathReport = sig.pendingPathReport := by
  induction ms generalizing sig with
  | nil => rfl
  | cons m ms ih =>
      have hsame : (recvSignal sig m.2).1.pendingPathReport = sig.pendingPathReport := by
        rw [recvSignal_pathReport]
        cases hslot : sig.pendingPathReport with
        | pending => exact absurd hslot h
        | _ => cases m.2 <;> rfl
      rw [recvAll_cons, ih _ (hsame.symm ▸ h), hsame]

/-- The first message with a verdict settles the slot. -/
theorem told_recvAll (sig : SignalState) (ms : List (ℕ × SignalMessage))
    (h : sig.pendingPathReport = .pending) : told (recvAll sig ms).pendingPathReport =
      (ms.filterMap fun m => verdict m.2).head?.getD false := by
  induction ms generalizing sig with
  | nil =>
      rw [recvAll, List.foldl_nil, h]
      rfl
  | cons m ms ih =>
      obtain ⟨time, m⟩ := m
      have hstep := recvSignal_pathReport sig m
      rw [h] at hstep
      rw [recvAll_cons, List.filterMap_cons]
      cases m with
      | mediaPathReport callId directOk winner =>
          rw [told_settled _ _ (by rw [hstep]; intro heq; cases heq), hstep]
          rfl
      | hangup callId =>
          rw [told_settled _ _ (by rw [hstep]; intro heq; cases heq), hstep]
          rfl
      | _ => exact ih _ hstep

/-- The verdicts that reach the open slot. -/
def heard (p : ConnectRun) (ms : List (ℕ × SignalMessage)) : List (ℕ × Bool) :=
  (ms.filter fun m => p.Open m.1).filterMap fun m => (verdict m.2).map fun ok => (m.1, ok)

variable {p q : ConnectRun} {ms ms' : List (ℕ × SignalMessage)} {callId : String}

theorem heard_append : p.heard (ms ++ ms') = p.heard ms ++ p.heard ms' := by
  unfold heard
  rw [List.filter_append, List.filterMap_append]

theorem firstOther_eq : p.firstOther = (p.heard p.inbox.messages).head? := rfl

theorem awaitReport_eq : p.awaitReport ms = ((p.heard ms).head?.map Prod.snd).getD false := by
  have hheard : (p.heard ms).map Prod.snd =
      (ms.filter fun m => p.installed ≤ m.1 && m.1 ≤ p.deadline).filterMap
        fun m => verdict m.2 := by
    unfold heard
    rw [List.map_filterMap]
    congr 1
    · funext m
      cases verdict m.2 <;> rfl
    · exact List.filter_congr fun m _ => Bool.decide_and _ _
  rw [← List.head?_map, hheard]
  exact told_recvAll _ _ rfl

theorem mem_heard {x : ℕ × Bool} (h : x ∈ p.heard ms) : ∃ m ∈ ms, m.1 = x.1 := by
  obtain ⟨m, hm, hx⟩ := List.mem_filterMap.mp h
  obtain ⟨ok, -, rfl⟩ := Option.map_eq_some_iff.mp hx
  exact ⟨m, List.mem_of_mem_filter hm, rfl⟩

/-- An inbox falls into what has come by a time and what comes later. -/
theorem split_at_time (time : ℕ) (h : ms.Pairwise fun x y => x.1 ≤ y.1) :
    ms.filter (fun m => m.1 ≤ time) ++ ms.filter (fun m => time < m.1) = ms := by
  induction ms with
  | nil => rfl
  | cons m ms ih =>
      obtain ⟨hhead, htail⟩ := List.pairwise_cons.mp h
      by_cases hle : m.1 ≤ time
      · have hnot : ¬ decide (time < m.1) = true := by simpa using hle
        rw [List.filter_cons, if_pos (decide_eq_true hle), List.filter_cons, if_neg hnot,
          List.cons_append, ih htail]
      · have hlate : ∀ x ∈ m :: ms, time < x.1 := by
          intro x hx
          cases hx with
          | head => exact Nat.lt_of_not_le hle
          | tail _ hx => exact Nat.lt_of_lt_of_le (Nat.lt_of_not_le hle) (hhead x hx)
        have hnone : (m :: ms).filter (fun m => m.1 ≤ time) = [] :=
          List.filter_eq_nil_iff.mpr fun x hx => by simpa using hlate x hx
        have hall : (m :: ms).filter (fun m => time < m.1) = m :: ms :=
          List.filter_eq_self.mpr fun x hx => decide_eq_true (hlate x hx)
        rw [hnone, hall, List.nil_append]

/-! ## The report among what else arrives -/

theorem report_eq_some {time : ℕ} {m : SignalMessage} (h : report callId q = some (time, m)) :
    q.sig.transport = true ∧ time = q.raceDone + q.delay ∧
      ∃ result, q.race = .ok result ∧ verdict m = some result.directTransport := by
  unfold report at h
  cases hrace : q.race with
  | error message =>
      rw [hrace] at h
      cases h
  | ok result =>
      rw [hrace] at h
      dsimp only at h
      cases htransport : q.sig.transport with
      | false =>
          rw [htransport, if_neg Bool.false_ne_true] at h
          cases h
      | true =>
          rw [htransport, if_pos rfl] at h
          cases h
          exact ⟨rfl, rfl, result, rfl, rfl⟩

theorem report_of_sent {result : RaceResult} (htransport : q.sig.transport = true)
    (hrace : q.race = .ok result) : report callId q = some (q.raceDone + q.delay,
      .mediaPathReport callId result.directTransport (winnerText result.localWinner)) := by
  unfold report
  rw [hrace, htransport]
  rfl

/-- What is heard of the messages up to a time, and what after it. -/
theorem heard_inbox (p : ConnectRun) (time : ℕ) : p.heard p.inbox.messages =
    p.heard (p.inbox.messages.filter fun m => m.1 ≤ time) ++
      p.heard (p.inbox.messages.filter fun m => time < m.1) := by
  rw [← heard_append, split_at_time time p.inbox.inOrder]

theorem heard_upTo_of_late {time : ℕ} (h : ∀ other ∈ p.firstOther, time < other.1) :
    p.heard (p.inbox.messages.filter fun m => m.1 ≤ time) = [] := by
  cases hheard : p.heard (p.inbox.messages.filter fun m => m.1 ≤ time) with
  | nil => rfl
  | cons x xs =>
      have hfirst : p.firstOther = some x := by
        rw [firstOther_eq, heard_inbox p time, hheard]
        rfl
      have hx : x ∈ p.heard (p.inbox.messages.filter fun m => m.1 ≤ time) :=
        hheard.symm ▸ List.mem_cons_self
      obtain ⟨m, hm, heq⟩ := mem_heard hx
      have hle : m.1 ≤ time := of_decide_eq_true (List.mem_filter.mp hm).2
      exact absurd (h x hfirst) (Nat.not_lt.mpr (heq ▸ hle))

theorem awaitReport_punctual {result : RaceResult} (h : p.Punctual q)
    (hrace : q.race = .ok result) :
    p.awaitReport (p.arrivals (report callId q)) = result.directTransport := by
  obtain ⟨htransport, -, hopen, hfirst⟩ := h
  rw [report_of_sent htransport hrace, arrivals, awaitReport_eq, heard_append,
    heard_upTo_of_late hfirst, List.nil_append]
  unfold heard
  rw [List.filter_cons, if_pos (decide_eq_true hopen)]
  rfl

theorem awaitReport_other (h : ¬ p.Punctual q) :
    p.awaitReport (p.arrivals (report callId q)) = (p.firstOther.map Prod.snd).getD false := by
  cases hreport : report callId q with
  | none => rw [arrivals, awaitReport_eq, firstOther_eq]
  | some sent =>
      obtain ⟨time, m⟩ := sent
      obtain ⟨htransport, rfl, result, hrace, hverdict⟩ := report_eq_some hreport
      rw [arrivals, awaitReport_eq, heard_append, firstOther_eq, heard_inbox p _]
      cases hheard : p.heard (p.inbox.messages.filter fun m => m.1 ≤ q.raceDone + q.delay) with
      | cons x xs => rfl
      | nil =>
          have hclosed : ¬ p.Open (q.raceDone + q.delay) := by
            intro hopen
            refine h ⟨htransport, ⟨result, hrace⟩, hopen, fun other hother => ?_⟩
            rw [firstOther_eq, heard_inbox p (q.raceDone + q.delay), hheard, List.nil_append] at hother
            obtain ⟨m, hm, heq⟩ := mem_heard (List.mem_of_head? hother)
            exact heq ▸ of_decide_eq_true (List.mem_filter.mp hm).2
          rw [List.nil_append, List.nil_append]
          unfold heard
          rw [List.filter_cons, if_neg (by simpa using hclosed)]

theorem misled_iff (h : ¬ p.Punctual q) :
    p.Misled q ↔ (p.firstOther.map Prod.snd).getD false = true := by
  unfold Misled
  rw [and_iff_right h]
  cases p.firstOther with
  | none => exact ⟨fun ⟨_, hnone⟩ => absurd hnone.symm (Option.some_ne_none _),
      fun hfalse => absurd hfalse Bool.false_ne_true⟩
  | some other =>
      obtain ⟨time, ok⟩ := other
      constructor
      · rintro ⟨_, hsome⟩
        exact congrArg Prod.snd (Option.some.inj hsome)
      · intro hok
        exact ⟨time, congrArg some (Prod.ext rfl hok)⟩

/-! ## When the two agree -/

/-- The side takes the direct path. -/
def GoesDirect (p q : ConnectRun) : Prop :=
  p.DirectUp ∧ (p.Punctual q ∧ q.DirectUp ∨ p.Misled q)

theorem awaitReport_iff : p.awaitReport (p.arrivals (report callId q)) = true ↔
    p.Punctual q ∧ q.DirectUp ∨ p.Misled q := by
  by_cases h : p.Punctual q
  · obtain ⟨result, hrace⟩ := h.2.1
    have hnot : ¬ p.Misled q := fun hmisled => hmisled.1 h
    rw [awaitReport_punctual h hrace, and_iff_right h, or_iff_left hnot]
    constructor
    · exact fun hup => ⟨result, hrace, hup⟩
    · rintro ⟨result', hrace', hup⟩
      rw [hrace] at hrace'
      cases hrace'
      exact hup
  · rw [awaitReport_other h, misled_iff h]
    exact ⟨Or.inr, fun hor => hor.elim (fun hand => absurd hand.1 h) id⟩

theorem connect_error (message : String) (h : p.race = .error message)
    (peerReport : Option (ℕ × SignalMessage)) : p.connect peerReport = .ok ⟨.relay, false⟩ := by
  rw [connect, h]

/-- A side has the direct path, the relay, or nothing if it refuses the relay. -/
theorem connect_cases (p q : ConnectRun) (callId : String) :
    (p.GoesDirect q ∧ ∃ chosen, p.connect (report callId q) = .ok chosen ∧ chosen.path = .direct) ∨
      (¬ p.GoesDirect q ∧ p.Refuses ∧ ∃ message, p.connect (report callId q) = .error message) ∨
      (¬ p.GoesDirect q ∧ ¬ p.Refuses ∧
        ∃ chosen, p.connect (report callId q) = .ok chosen ∧ chosen.path = .relay) := by
  cases hrace : p.race with
  | error message =>
      have hnotUp : ¬ p.DirectUp := by
        rintro ⟨result, hok, -⟩
        exact absurd (hrace.symm.trans hok) (fun h => by cases h)
      have hnotRefuses : ¬ p.Refuses := by
        rintro ⟨-, result, hok⟩
        exact absurd (hrace.symm.trans hok) (fun h => by cases h)
      exact Or.inr (Or.inr ⟨fun h => hnotUp h.1, hnotRefuses, _, connect_error message hrace _, rfl⟩)
  | ok result =>
      have hconnect : p.connect (report callId q) =
          p.negotiate result (p.awaitReport (p.arrivals (report callId q))) := by
        rw [connect, hrace]
      have hup : p.DirectUp ↔ result.directTransport = true := by
        constructor
        · rintro ⟨result', hok, hdirect⟩
          rw [hrace] at hok
          cases hok
          exact hdirect
        · exact fun hdirect => ⟨result, hrace, hdirect⟩
      have hrefuses : p.Refuses ↔ p.directOnly = true :=
        ⟨fun h => h.1, fun h => ⟨h, result, hrace⟩⟩
      have hdirect : p.GoesDirect q ↔ (result.directTransport &&
          p.awaitReport (p.arrivals (report callId q))) = true := by
        rw [Bool.and_eq_true, awaitReport_iff, GoesDirect, hup]
      rw [hconnect, hdirect, hrefuses]
      unfold negotiate
      dsimp only
      cases result.directTransport && p.awaitReport (p.arrivals (report callId q)) with
      | true =>
          refine Or.inl ⟨rfl, ⟨.direct, result.directTransport⟩, ?_, rfl⟩
          rw [Bool.not_true, Bool.and_false]
          rfl
      | false =>
          cases p.directOnly with
          | true => exact Or.inr (Or.inl ⟨Bool.false_ne_true, rfl, _, rfl⟩)
          | false => exact Or.inr (Or.inr ⟨Bool.false_ne_true, Bool.false_ne_true, _, rfl, rfl⟩)

theorem inStep_iff : p.InStep q ↔ (p.GoesDirect q → q.GoesDirect p ∨ q.Refuses) := by
  constructor
  · rintro h ⟨hup, htold⟩
    by_cases hpeer : q.DirectUp
    · have hraced : ∃ result, q.race = .ok result := hpeer.imp fun _ h => h.1
      rcases h.bothUp hup hpeer (htold.imp And.left id) with hpunctual | hmisled | honly
      · exact Or.inl ⟨hpeer, Or.inl ⟨hpunctual, hup⟩⟩
      · exact Or.inl ⟨hpeer, Or.inr hmisled⟩
      · exact Or.inr ⟨honly, hraced⟩
    · cases htold with
      | inl hpunctual => exact absurd hpunctual.2 hpeer
      | inr hmisled => exact Or.inr (h.oneUp hup hpeer hmisled)
  · intro h
    constructor
    · intro hup hpeer htold
      have hdirect : p.GoesDirect q := ⟨hup, htold.imp (fun hpunctual => ⟨hpunctual, hpeer⟩) id⟩
      rcases h hdirect with hother | hrefuses
      · cases hother.2 with
        | inl hpunctual => exact Or.inl hpunctual.1
        | inr hmisled => exact Or.inr (Or.inl hmisled)
      · exact Or.inr (Or.inr hrefuses.1)
    · intro hup hpeer hmisled
      exact (h ⟨hup, Or.inr hmisled⟩).resolve_left fun hother => hpeer hother.1

end ConnectRun

namespace DirectCall
open ConnectRun

theorem agree_iff_goesDirect (call : DirectCall) : call.Agree ↔
    (call.a.GoesDirect call.b → call.b.GoesDirect call.a ∨ call.b.Refuses) ∧
      (call.b.GoesDirect call.a → call.a.GoesDirect call.b ∨ call.a.Refuses) := by
  unfold Agree connectA connectB
  rcases connect_cases call.a call.b (callOfRoom call.room) with
    ⟨hdirect, chosen, hok, hpath⟩ | ⟨hdirect, hrefuses, message, herror⟩ |
      ⟨hdirect, hrefuses, chosen, hok, hpath⟩
  · rcases connect_cases call.b call.a (callOfRoom call.room) with
      ⟨hdirect', chosen', hok', hpath'⟩ | ⟨hdirect', hrefuses', message', herror'⟩ |
        ⟨hdirect', hrefuses', chosen', hok', hpath'⟩
    · rw [hok, hok']
      refine ⟨fun _ => ⟨fun _ => Or.inl hdirect', fun _ => Or.inl hdirect⟩, ?_⟩
      rintro - _ _ ⟨⟩ ⟨⟩
      exact hpath.trans hpath'.symm
    · rw [hok, herror']
      refine ⟨fun _ => ⟨fun _ => Or.inr hrefuses', fun h => absurd h hdirect'⟩, ?_⟩
      rintro - _ _ - ⟨⟩
    · rw [hok, hok']
      constructor
      · intro h
        have hsame := h _ _ rfl rfl
        rw [hpath, hpath'] at hsame
        cases hsame
      · rintro ⟨h, -⟩
        exact absurd (h hdirect) (not_or.mpr ⟨hdirect', hrefuses'⟩)
  · rw [herror]
    refine ⟨fun _ => ⟨fun h => absurd h hdirect, fun _ => Or.inr hrefuses⟩, ?_⟩
    rintro - _ _ ⟨⟩
  · rcases connect_cases call.b call.a (callOfRoom call.room) with
      ⟨hdirect', chosen', hok', hpath'⟩ | ⟨hdirect', hrefuses', message', herror'⟩ |
        ⟨hdirect', hrefuses', chosen', hok', hpath'⟩
    · rw [hok, hok']
      constructor
      · intro h
        have hsame := h _ _ rfl rfl
        rw [hpath, hpath'] at hsame
        cases hsame
      · rintro ⟨-, h⟩
        exact absurd (h hdirect') (not_or.mpr ⟨hdirect, hrefuses⟩)
    · rw [hok, herror']
      refine ⟨fun _ => ⟨fun h => absurd h hdirect, fun h => absurd h hdirect'⟩, ?_⟩
      rintro - _ _ - ⟨⟩
    · rw [hok, hok']
      refine ⟨fun _ => ⟨fun h => absurd h hdirect, fun h => absurd h hdirect'⟩, ?_⟩
      rintro - _ _ ⟨⟩ ⟨⟩
      exact hpath.trans hpath'.symm

/-- The two sides agree on the path exactly if each is in step with the other. -/
theorem agree_iff_inStep (call : DirectCall) :
    call.Agree ↔ call.a.InStep call.b ∧ call.b.InStep call.a := by
  rw [agree_iff_goesDirect, inStep_iff, inStep_iff]

/-- The direct path is up on both sides, but the report of the first reaches the
second before it has installed its slot. -/
def lateSecond : DirectCall where
  room := "call-1"
  a := ⟨{ SignalState.new with transport := true }, 0, 300, .ok ⟨true, true, .direct⟩, false, 50,
    ⟨[], List.Pairwise.nil⟩⟩
  b := ⟨{ SignalState.new with transport := true }, 1000, 300, .ok ⟨true, true, .direct⟩, false, 50,
    ⟨[], List.Pairwise.nil⟩⟩

theorem lateSecond_disagrees : ¬ lateSecond.Agree := by
  intro h
  have hsame : WinningPath.direct = WinningPath.relay := h ⟨.direct, true⟩ ⟨.relay, true⟩ rfl rfl
  cases hsame

theorem not_misled_of_quiet {p q : ConnectRun} (h : p.firstOther = none) : ¬ p.Misled q := by
  rintro ⟨-, time, hsome⟩
  rw [h] at hsome
  cases hsome

/-- With nothing else on the way, the two agree if the reports are both punctual or
both not. -/
theorem agree_of_quiet (call : DirectCall) (ha : call.a.firstOther = none)
    (hb : call.b.firstOther = none) (h : call.a.Punctual call.b ↔ call.b.Punctual call.a) :
    call.Agree := by
  refine (agree_iff_goesDirect call).mpr ⟨?_, ?_⟩
  · rintro ⟨hup, htold⟩
    obtain ⟨hpunctual, hpeer⟩ := htold.resolve_right (not_misled_of_quiet ha)
    exact Or.inl ⟨hpeer, Or.inl ⟨h.mp hpunctual, hup⟩⟩
  · rintro ⟨hup, htold⟩
    obtain ⟨hpunctual, hpeer⟩ := htold.resolve_right (not_misled_of_quiet hb)
    exact Or.inl ⟨hpeer, Or.inl ⟨h.mpr hpunctual, hup⟩⟩

end DirectCall
end Wzp.Desktop
