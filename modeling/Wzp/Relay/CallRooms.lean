import Wzp.Relay.CallRegistry
import Wzp.Relay.LocalPresence
import Wzp.Relay.RoomLifecycle

/-!
# Admission to call rooms

A connection that asks for a room passes several checks, one after the other,
and others come between them. The rooms of calls are meant for the two parties;
a QUIC connection is checked against the registry and finds the room full from
two participants on, a WebSocket connection is not checked at all.
-/
namespace Wzp.Relay
open Bytes Runs

namespace Client

def fingerprint (c : Client) (authUrl : Bool) : Option Fingerprint :=
  match c.kind with
  | .webSocket => if authUrl then some c.tokenFp else none
  | _ => some (c.participantFp authUrl)

/-- The participant the connection becomes in its room. -/
def participant (c : Client) (authUrl : Bool) (id : ParticipantId) : Participant :=
  match c.kind with
  | .webSocket => ⟨id, .webSocket, c.fingerprint authUrl, none⟩
  | _ => ⟨id, .quic, c.fingerprint authUrl, c.alias⟩

@[simp] theorem participant_id (c : Client) (authUrl : Bool) (id : ParticipantId) :
    (c.participant authUrl id).id = id := by
  rw [participant]
  split
  · rfl
  · rfl

@[simp] theorem participant_fingerprint (c : Client) (authUrl : Bool) (id : ParticipantId) :
    (c.participant authUrl id).fingerprint = c.fingerprint authUrl := by
  rw [participant]
  split
  · rfl
  · rfl

end Client

/-- The call whose room has this name. -/
def callIdOf (room : RoomName) : Option CallId :=
  if callPrefix.isPrefixOf room then some (room.drop callPrefix.length) else none

theorem callIdOf_callPrefix (callId : CallId) : callIdOf (callPrefix ++ callId) = some callId := by
  rw [callIdOf, if_pos (List.isPrefixOf_iff_prefix.mpr (List.prefix_append _ _)), List.drop_left]

/-- What the connections share: the calls, the number of sessions and the rooms. -/
structure CallRooms (ι : Type) where
  registry : CallRegistry ι
  sessions : ℕ
  maxSessions : ℕ
  rooms : RoomManager

namespace CallRooms
variable {ι : Type} (r : CallRooms ι)

def CapacityFree : Prop := r.sessions < r.maxSessions

instance : Decidable r.CapacityFree := inferInstanceAs (Decidable (r.sessions < r.maxSessions))

def createSession : Option (CallRooms ι) :=
  if r.CapacityFree then some { r with sessions := r.sessions + 1 } else none

def removeSession : CallRooms ι := { r with sessions := r.sessions - 1 }

/-- Call rooms are for the parties of the call; only QUIC connections are checked. -/
def passesAcl (client : Client) (authUrl : Bool) : Bool :=
  match client.kind with
  | .room =>
      match callIdOf client.room with
      | some callId => r.registry.authorized callId (client.participantFp authUrl)
      | none => true
  | _ => true

/-- Call rooms hold two; only QUIC connections are counted out. -/
def hasPlace (client : Client) : Bool :=
  match client.kind with
  | .room => (callIdOf client.room).isNone || r.rooms.roomSize client.room < 2
  | _ => true

/-- The checks on the way to a room, if nobody comes between. -/
def checks (client : Client) (authUrl : Bool) : Option (CallRooms ι) :=
  if r.passesAcl client authUrl then
    match r.createSession with
    | some r' => if r'.hasPlace client then some r' else none
    | none => none
  else none

end CallRooms

/-- How far a connection has got. -/
inductive RoomPhase where
  | connecting
  | authorized
  | inSession
  | checked
  | inRoom (id : ParticipantId)
  | leaving
  | closed
  deriving DecidableEq

/-- The relay and its room connections. -/
structure RoomConnections (ι κ : Type) where
  shared : CallRooms ι
  phase : κ → RoomPhase

/-- A connection takes its next step, with `id` from the counter if it joins; or
the signal loop has changed the registry. -/
inductive RoomStep (ι κ : Type) where
  | advance (c : κ) (id : ParticipantId)
  | calls (registry : CallRegistry ι)

/-- The next step of a connection. -/
def CallRooms.advance {ι : Type} (r : CallRooms ι) (client : Client) (authUrl : Bool)
    (id : ParticipantId) : RoomPhase → CallRooms ι × RoomPhase
  | .connecting => (r, if r.passesAcl client authUrl then .authorized else .closed)
  | .authorized =>
      match r.createSession with
      | some r' => (r', .inSession)
      | none => (r, .closed)
  | .inSession => (r, if r.hasPlace client then .checked else .leaving)
  | .checked =>
      if hfresh : r.rooms.Fresh (client.participant authUrl id).id then
        ({ r with rooms := (r.rooms.join client.room (client.participant authUrl id) hfresh).1 },
          .inRoom id)
      else (r, .checked)
  | .inRoom id => ({ r with rooms := (r.rooms.leave client.room id).1 }, .leaving)
  | .leaving => (r.removeSession, .closed)
  | .closed => (r, .closed)

namespace RoomConnections
variable {ι κ : Type} [DecidableEq κ] (client : κ → Client) (authUrl : Bool)

/-- Signal connections do not ask for rooms. -/
def step (s : RoomConnections ι κ) : RoomStep ι κ → RoomConnections ι κ
  | .advance c id =>
      if (client c).kind = .signal then s
      else
        let after := s.shared.advance (client c) authUrl id (s.phase c)
        ⟨after.1, Function.update s.phase c after.2⟩
  | .calls registry => { s with shared := { s.shared with registry } }

omit [DecidableEq κ] in
def start (registry : CallRegistry ι) (maxSessions : ℕ) : RoomConnections ι κ :=
  ⟨⟨registry, 0, maxSessions, RoomManager.new⟩, fun _ => .connecting⟩

end RoomConnections

/-! ## Who is in the room -/

/-- The fingerprint is that of one of the two parties. -/
def IsParty (caller callee : Fingerprint) (fp : Option Fingerprint) : Prop :=
  fp = some caller ∨ fp = some callee

instance (caller callee : Fingerprint) (fp : Option Fingerprint) :
    Decidable (IsParty caller callee fp) :=
  inferInstanceAs (Decidable (_ ∨ _))

namespace CallRooms
variable {ι : Type} (r : CallRooms ι) (callId : CallId) (caller callee : Fingerprint)

/-- The call is registered between these two. -/
def Registered : Prop := ∃ c ∈ r.registry.get callId, c.Between caller callee

instance : Decidable (r.Registered callId caller callee) :=
  inferInstanceAs (Decidable (∃ c ∈ r.registry.get callId, _))

def participants : List Participant := r.rooms.localSenders (callPrefix ++ callId)

/-- Only the parties are in the room of the call, each at most once. -/
structure Exclusive : Prop where
  parties : ∀ p ∈ r.participants callId, IsParty caller callee p.fingerprint
  once : ((r.participants callId).map Participant.fingerprint).Nodup

/-- As long as there is capacity, a connection of a party passes the checks, and
when it joins it replaces the entry of its party, if there is one. -/
def Admits (authUrl : Bool) : Prop :=
  ∀ client : Client, client.kind ≠ .signal → client.room = callPrefix ++ callId →
    IsParty caller callee (client.fingerprint authUrl) → r.CapacityFree →
      ∃ r' ∈ r.checks client authUrl, ∀ id (hfresh : r'.rooms.Fresh (client.participant authUrl id).id),
        (r'.rooms.join client.room (client.participant authUrl id) hfresh).1.localSenders client.room =
          (r.participants callId).filter (·.fingerprint ≠ client.fingerprint authUrl) ++
            [client.participant authUrl id]

/-- There is a place in the room for as long as there is capacity. -/
def HasRoom : Prop := r.CapacityFree → (r.participants callId).length < 2

variable {r callId caller callee} {authUrl : Bool}

theorem authorized_of_registered (h : r.Registered callId caller callee) {fp : Fingerprint} :
    r.registry.authorized callId fp = true ↔ IsParty caller callee (some fp) := by
  obtain ⟨c, hc, hcaller, hcallee⟩ := h
  rw [CallRegistry.authorized_iff, IsParty, Option.some_inj, Option.some_inj]
  constructor
  · rintro ⟨c', hc', hparty⟩
    obtain rfl := Option.some.inj (hc.symm.trans hc')
    rcases hparty with hfp | hfp
    · exact Or.inl (hfp.symm.trans hcaller)
    · exact Or.inr (hfp.symm.trans hcallee)
  · rintro (rfl | rfl)
    · exact ⟨c, hc, Or.inl hcaller⟩
    · exact ⟨c, hc, Or.inr hcallee⟩

theorem passesAcl_iff (h : r.Registered callId caller callee) {client : Client}
    (hroom : client.room = callPrefix ++ callId) (hsignal : client.kind ≠ .signal) :
    r.passesAcl client authUrl = true ↔
      (client.kind = .room → IsParty caller callee (client.fingerprint authUrl)) := by
  unfold passesAcl Client.fingerprint
  cases hkind : client.kind with
  | signal => exact absurd hkind hsignal
  | room =>
      simp only [hroom, callIdOf_callPrefix, forall_const]
      exact authorized_of_registered h
  | webSocket => exact ⟨fun _ h => ClientKind.noConfusion h, fun _ => rfl⟩

/-- A party is admitted whenever there is capacity exactly if there is always a
place for it. -/
theorem admits_iff (h : r.Registered callId caller callee) :
    r.Admits callId caller callee authUrl ↔ r.HasRoom callId := by
  constructor
  · intro hadmits hfree
    obtain ⟨r', hr', -⟩ := hadmits ⟨.room, caller, caller, none, callPrefix ++ callId⟩
      (fun h => ClientKind.noConfusion h) rfl
      (Or.inl (by simp only [Client.fingerprint, Client.participantFp, ite_self])) hfree
    simp only [checks, createSession, if_pos hfree, hasPlace, callIdOf_callPrefix,
      Option.isNone_some, Bool.false_or, decide_eq_true_eq] at hr'
    by_contra hfull
    have hplace : ¬ r.rooms.roomSize (callPrefix ++ callId) < 2 := hfull
    simp only [if_neg hplace, ite_self] at hr'
    exact absurd hr'.symm (Option.some_ne_none r')
  · intro hroom client hsignal hname hparty hfree
    refine ⟨{ r with sessions := r.sessions + 1 }, ?_, fun id hfresh => ?_⟩
    · have hplace : CallRooms.hasPlace { r with sessions := r.sessions + 1 } client = true := by
        rw [hasPlace]
        split
        · rw [Bool.or_eq_true]
          exact Or.inr (decide_eq_true (hname ▸ hroom hfree))
        · rfl
      rw [checks, if_pos ((passesAcl_iff h hname hsignal).mpr fun _ => hparty), createSession,
        if_pos hfree]
      exact if_pos hplace
    · rw [RoomManager.localSenders_join, RoomManager.keptMembers, Client.participant_fingerprint,
        participants, hname]
      rcases hparty with hfp | hfp
      · simp only [hfp]
      · simp only [hfp]

theorem exclusive_join (h : r.Exclusive callId caller callee) {p : Participant}
    (hfresh : r.rooms.Fresh p.id) :
    CallRooms.Exclusive { r with rooms := (r.rooms.join (callPrefix ++ callId) p hfresh).1 }
      callId caller callee ↔ IsParty caller callee p.fingerprint := by
  have hjoin : CallRooms.participants { r with rooms := (r.rooms.join (callPrefix ++ callId) p hfresh).1 }
      callId = r.rooms.keptMembers (callPrefix ++ callId) p ++ [p] :=
    RoomManager.localSenders_join hfresh
  have hsub := r.rooms.keptMembers_sublist (callPrefix ++ callId) p
  constructor
  · intro hafter
    exact hafter.parties p (by rw [hjoin]; exact List.mem_append_right _ List.mem_cons_self)
  · intro hparty
    refine ⟨fun q hq => ?_, ?_⟩
    · rw [hjoin] at hq
      rcases List.mem_append.mp hq with hkept | hnew
      · exact h.parties q (hsub.subset hkept)
      · obtain rfl := List.mem_singleton.mp hnew
        exact hparty
    · rw [hjoin, List.map_append]
      refine (h.once.sublist (hsub.map _)).append (List.nodup_singleton _) fun fp hin hout => ?_
      obtain ⟨q, hq, rfl⟩ := List.mem_map.mp hin
      have hfp : q.fingerprint = p.fingerprint := List.mem_singleton.mp hout
      obtain ⟨f, hf⟩ : ∃ f, p.fingerprint = some f := by
        rcases hparty with hf | hf
        · exact ⟨_, hf⟩
        · exact ⟨_, hf⟩
      simp only [RoomManager.keptMembers, hf] at hq
      exact of_decide_eq_true (List.mem_filter.mp hq).2 (hfp.trans hf)

theorem hasRoom_join {p : Participant} (hparty : IsParty caller callee p.fingerprint)
    (hfresh : r.rooms.Fresh p.id) :
    CallRooms.HasRoom { r with rooms := (r.rooms.join (callPrefix ++ callId) p hfresh).1 } callId ↔
      (r.CapacityFree → ∀ q ∈ r.participants callId, q.fingerprint = p.fingerprint) := by
  have hjoin : CallRooms.participants { r with rooms := (r.rooms.join (callPrefix ++ callId) p hfresh).1 }
      callId = r.rooms.keptMembers (callPrefix ++ callId) p ++ [p] :=
    RoomManager.localSenders_join hfresh
  refine forall_congr' fun hfree => ?_
  obtain ⟨f, hf⟩ : ∃ f, p.fingerprint = some f := by
    rcases hparty with hf | hf
    · exact ⟨_, hf⟩
    · exact ⟨_, hf⟩
  rw [hjoin, List.length_append, List.length_singleton, Nat.add_lt_add_iff_right (m := 1) (k := 1),
    Nat.lt_one_iff, List.length_eq_zero_iff]
  simp only [RoomManager.keptMembers, hf, List.filter_eq_nil_iff, decide_eq_true_eq, not_not,
    participants]

theorem participants_leave_sublist (r : CallRooms ι) (room : RoomName) (id : ParticipantId) :
    (CallRooms.participants { r with rooms := (r.rooms.leave room id).1 } callId).Sublist
      (r.participants callId) := by
  by_cases hroom : callPrefix ++ callId = room
  · subst hroom
    rw [participants, RoomManager.localSenders_leave]
    exact List.filter_sublist
  · rw [participants, RoomManager.localSenders_leave_ne _ _ hroom]
    exact List.Sublist.refl _

end CallRooms

/-! ## Runs -/
namespace RoomConnections
variable {ι κ : Type} [DecidableEq κ] (client : κ → Client) (authUrl : Bool)
  (callId : CallId) (caller callee : Fingerprint)

/-- A WebSocket connection that joins the room of the call is one of a party;
and while there is capacity, who joins finds nobody else there, and who gives
up its session leaves at most one behind. -/
def KeepsPlace (s : RoomConnections ι κ) : RoomStep ι κ → Prop
  | .advance c id =>
      match s.phase c with
      | .checked => (client c).room = callPrefix ++ callId → s.shared.rooms.Fresh id →
          ((client c).kind = .webSocket → IsParty caller callee ((client c).fingerprint authUrl)) ∧
          (s.shared.CapacityFree → ∀ p ∈ s.shared.participants callId,
            p.fingerprint = (client c).fingerprint authUrl)
      | .leaving => s.shared.removeSession.HasRoom callId
      | _ => True
  | .calls _ => True

/-- On its way into the room after the first check. -/
def OnItsWay (phase : RoomPhase) : Prop :=
  phase = .authorized ∨ phase = .inSession ∨ phase = .checked

/-- Who has left the first phase is not a signal connection, and a QUIC
connection on its way into the room of the call is one of a party. -/
structure Passed (s : RoomConnections ι κ) : Prop where
  kind : ∀ c, s.phase c ≠ .connecting → (client c).kind ≠ .signal
  party : ∀ c, (client c).kind = .room → (client c).room = callPrefix ++ callId →
    OnItsWay (s.phase c) → IsParty caller callee ((client c).fingerprint authUrl)

variable {client authUrl callId caller callee} {s : RoomConnections ι κ}

omit [DecidableEq κ] in
/-- A connection is on its way because it has just passed the first check, or it
was on its way before. -/
theorem onItsWay_advance {r : CallRooms ι} {cl : Client} {id : ParticipantId} {phase : RoomPhase}
    (h : OnItsWay (r.advance cl authUrl id phase).2) :
    OnItsWay phase ∨ phase = .connecting ∧ r.passesAcl cl authUrl = true := by
  cases phase with
  | connecting =>
      refine Or.inr ⟨rfl, ?_⟩
      by_contra hacl
      simp only [CallRooms.advance, if_neg hacl, OnItsWay, reduceCtorEq, or_self] at h
  | authorized => exact Or.inl (Or.inl rfl)
  | inSession => exact Or.inl (Or.inr (Or.inl rfl))
  | checked => exact Or.inl (Or.inr (Or.inr rfl))
  | inRoom id => simp only [CallRooms.advance, OnItsWay, reduceCtorEq, or_self] at h
  | leaving => simp only [CallRooms.advance, OnItsWay, reduceCtorEq, or_self] at h
  | closed => simp only [CallRooms.advance, OnItsWay, reduceCtorEq, or_self] at h

theorem passed_step (hreg : s.shared.Registered callId caller callee)
    (h : Passed client authUrl callId caller callee s) (e : RoomStep ι κ) :
    Passed client authUrl callId caller callee (s.step client authUrl e) := by
  cases e with
  | calls registry => exact ⟨h.kind, h.party⟩
  | advance c id =>
      rw [step]
      split
      · exact h
      · rename_i hsignal
        refine ⟨fun d hd => ?_, fun d hkind hroom hway => ?_⟩
        · by_cases hdc : d = c
          · rw [hdc]
            exact hsignal
          · simp only [Function.update_of_ne hdc] at hd
            exact h.kind d hd
        · by_cases hdc : d = c
          · subst hdc
            simp only [Function.update_self] at hway
            rcases onItsWay_advance hway with hbefore | ⟨-, hacl⟩
            · exact h.party d hkind hroom hbefore
            · exact (CallRooms.passesAcl_iff hreg hroom hsignal).mp hacl hkind
          · simp only [Function.update_of_ne hdc] at hway
            exact h.party d hkind hroom hway

/-- A connection that takes its first three steps undisturbed passes exactly the
checks. -/
theorem run_checks {c : κ} (hc : s.phase c = .connecting) (hsignal : (client c).kind ≠ .signal)
    (id : ParticipantId) :
    let after := run (step client authUrl) s [.advance c id, .advance c id, .advance c id]
    match s.shared.checks (client c) authUrl with
    | some r' => after.phase c = .checked ∧ after.shared = r'
    | none => after.phase c ≠ .checked := by
  have hstep : ∀ t : RoomConnections ι κ, t.step client authUrl (.advance c id) =
      ⟨(t.shared.advance (client c) authUrl id (t.phase c)).1,
        Function.update t.phase c (t.shared.advance (client c) authUrl id (t.phase c)).2⟩ :=
    fun t => if_neg hsignal
  simp only [run_cons, run_nil, hstep, Function.update_self, hc, CallRooms.advance]
  rw [CallRooms.checks]
  by_cases hacl : s.shared.passesAcl (client c) authUrl = true
  · simp only [hacl, if_true]
    cases hsession : s.shared.createSession with
    | none => simp
    | some r' =>
        by_cases hplace : r'.hasPlace (client c) = true
        · simp [hplace]
        · simp [hplace]
  · simp [hacl]

/-- What is to hold of the room of the call, and how it is kept. -/
def Admission (callId : CallId) (caller callee : Fingerprint) (r : CallRooms ι) : Prop :=
  r.Exclusive callId caller callee ∧ r.HasRoom callId

omit [DecidableEq κ] in
theorem admission_join {r : CallRooms ι} (h : Admission callId caller callee r) {c : κ}
    {id : ParticipantId} (hparty : (client c).room = callPrefix ++ callId →
      (client c).kind ≠ .webSocket → IsParty caller callee ((client c).fingerprint authUrl)) :
    Admission callId caller callee (r.advance (client c) authUrl id .checked).1 ↔
      ((client c).room = callPrefix ++ callId → r.rooms.Fresh id →
        ((client c).kind = .webSocket → IsParty caller callee ((client c).fingerprint authUrl)) ∧
        (r.CapacityFree → ∀ p ∈ r.participants callId,
          p.fingerprint = (client c).fingerprint authUrl)) := by
  have hid := (client c).participant_id authUrl id
  have hfp := (client c).participant_fingerprint authUrl id
  rw [CallRooms.advance]
  split
  · rename_i hfresh
    by_cases hroom : (client c).room = callPrefix ++ callId
    · simp only [hroom, Admission, CallRooms.exclusive_join h.1 hfresh, hfp]
      constructor
      · rintro ⟨hp, hplace⟩ - -
        exact ⟨fun _ => hp, fun hfree p hmem => ((CallRooms.hasRoom_join (hfp.symm ▸ hp) hfresh).mp
          hplace hfree p hmem).trans hfp⟩
      · intro hok
        obtain ⟨hweb, halone⟩ := hok trivial (hid ▸ hfresh)
        have hp : IsParty caller callee ((client c).fingerprint authUrl) := by
          by_cases hkind : (client c).kind = .webSocket
          · exact hweb hkind
          · exact hparty hroom hkind
        exact ⟨hp, (CallRooms.hasRoom_join (hfp.symm ▸ hp) hfresh).mpr fun hfree p hmem =>
          (halone hfree p hmem).trans hfp.symm⟩
    · have hsame : CallRooms.participants { r with rooms := (r.rooms.join (client c).room
          ((client c).participant authUrl id) hfresh).1 } callId = r.participants callId :=
        RoomManager.localSenders_join_ne hfresh fun heq => hroom heq.symm
      refine ⟨fun _ hname => absurd hname hroom, fun _ => ⟨⟨?_, ?_⟩, ?_⟩⟩
      · rw [hsame]
        exact h.1.parties
      · rw [hsame]
        exact h.1.once
      · rw [CallRooms.HasRoom, hsame]
        exact h.2
  · rename_i hstale
    rw [hid] at hstale
    exact ⟨fun _ _ hfresh => absurd hfresh hstale, fun _ => h⟩

omit [DecidableEq κ] in
theorem admission_leave {r : CallRooms ι} (h : Admission callId caller callee r) (room : RoomName)
    (id : ParticipantId) :
    Admission callId caller callee { r with rooms := (r.rooms.leave room id).1 } := by
  have hsub : (CallRooms.participants { r with rooms := (r.rooms.leave room id).1 } callId).Sublist _ :=
    r.participants_leave_sublist room id
  exact ⟨⟨fun p hp => h.1.parties p (hsub.subset hp), h.1.once.sublist (hsub.map _)⟩,
    fun hfree => Nat.lt_of_le_of_lt hsub.length_le (h.2 hfree)⟩

theorem admission_step (hpassed : Passed client authUrl callId caller callee s)
    (h : Admission callId caller callee s.shared) (e : RoomStep ι κ) :
    Admission callId caller callee (s.step client authUrl e).shared ↔
      KeepsPlace client authUrl callId caller callee s e := by
  cases e with
  | calls registry => exact ⟨fun _ => trivial, fun _ => ⟨⟨h.1.parties, h.1.once⟩, h.2⟩⟩
  | advance c id =>
      rw [step, KeepsPlace]
      by_cases hsignal : (client c).kind = .signal
      · have hphase : s.phase c = .connecting := by
          by_contra hne
          exact hpassed.kind c hne hsignal
        rw [if_pos hsignal, hphase]
        exact ⟨fun _ => trivial, fun _ => h⟩
      · rw [if_neg hsignal]
        cases hphase : s.phase c with
        | connecting => exact ⟨fun _ => trivial, fun _ => h⟩
        | authorized =>
            refine ⟨fun _ => trivial, fun _ => ?_⟩
            simp only [CallRooms.advance, CallRooms.createSession]
            by_cases hfree : s.shared.CapacityFree
            · rw [if_pos hfree]
              exact ⟨⟨h.1.parties, h.1.once⟩, fun _ => h.2 hfree⟩
            · rw [if_neg hfree]
              exact h
        | inSession => exact ⟨fun _ => trivial, fun _ => h⟩
        | checked =>
            refine admission_join h fun hroom hweb => ?_
            have hkind : (client c).kind = .room := by
              cases hk : (client c).kind with
              | signal => exact absurd hk hsignal
              | room => rfl
              | webSocket => exact absurd hk hweb
            exact hpassed.party c hkind hroom (Or.inr (Or.inr hphase))
        | inRoom joined => exact ⟨fun _ => trivial, fun _ => admission_leave h _ _⟩
        | leaving => exact ⟨fun hafter => hafter.2, fun hroom => ⟨⟨h.1.parties, h.1.once⟩, hroom⟩⟩
        | closed => exact ⟨fun _ => trivial, fun _ => h⟩

/-- While the call stays registered, admission to its room is exact throughout
a run exactly if the run keeps the place of each party. -/
theorem admission_exact_iff (registry : CallRegistry ι) (maxSessions : ℕ) (es : List (RoomStep ι κ))
    (hlive : Throughout (step client authUrl) (fun s => s.shared.Registered callId caller callee)
      (start registry maxSessions) es) :
    Throughout (step client authUrl) (fun s => s.shared.Exclusive callId caller callee ∧
        s.shared.Admits callId caller callee authUrl) (start registry maxSessions) es ↔
      EachStep (step client authUrl) (KeepsPlace client authUrl callId caller callee)
        (start registry maxSessions) es := by
  have hpassed : Passed client authUrl callId caller callee
      (start registry maxSessions : RoomConnections ι κ) :=
    ⟨fun _ hne => absurd rfl hne, fun _ _ _ hway => by
      simp only [start, OnItsWay, reduceCtorEq, or_self] at hway⟩
  have hinv : Throughout (step client authUrl) (fun s => s.shared.Registered callId caller callee ∧
      Passed client authUrl callId caller callee s) (start registry maxSessions) es :=
    Throughout.and_of_step (fun _ e hreg hp _ => passed_step hreg hp e) hpassed hlive
  refine throughout_iff_eachStep_of_throughout (fun s e hI hI' hP => ?_) hinv ⟨⟨?_, ?_⟩, ?_⟩
  · rw [CallRooms.admits_iff hI.1] at hP
    rw [CallRooms.admits_iff hI'.1]
    exact admission_step hI.2 hP e
  · intro p hp
    exact absurd hp List.not_mem_nil
  · exact List.nodup_nil
  · exact (CallRooms.admits_iff hlive.head).mpr fun _ => Nat.zero_lt_two

end RoomConnections

/-! ## A party reconnects, and a stranger joins -/
namespace PartyReconnects
open RoomConnections

def registry : CallRegistry (Fin 2) := CallRegistry.createCall ∅ [1] "alice" "bob"

/-- Alice and Bob over QUIC, and Mallory over a WebSocket without a token. -/
def client : Fin 3 → Client
  | 0 => ⟨.room, "", "alice", none, callPrefix ++ [1]⟩
  | 1 => ⟨.room, "", "bob", none, callPrefix ++ [1]⟩
  | 2 => ⟨.webSocket, "", "mallory", none, callPrefix ++ [1]⟩

/-- A connection takes the four steps into its room. -/
def joins (c : Fin 3) (id : ParticipantId) : List (RoomStep (Fin 2) (Fin 3)) :=
  [.advance c id, .advance c id, .advance c id, .advance c id]

/-- Both parties come, and one of them goes, of as many as the relay has sessions for. -/
theorem admission_exact_iff_both :
    Throughout (step client false) (fun s => s.shared.Exclusive [1] "alice" "bob" ∧
        s.shared.Admits [1] "alice" "bob" false) (start registry 2)
      (joins 0 1 ++ joins 1 2 ++ [.advance 0 1, .advance 0 1]) :=
  (admission_exact_iff registry 2 _ (by decide)).mpr
    ⟨trivial, trivial, trivial, fun _ _ => ⟨by decide, by decide⟩,
      trivial, trivial, trivial, fun _ _ => ⟨by decide, by decide⟩,
      trivial, fun _ => by decide, trivial⟩

/-- With both parties in the room none of them gets in again, although there is
capacity; and a client of whom nothing is known gets in. -/
theorem party_refused_stranger_admitted :
    (Throughout (step client false) (fun s => s.shared.Registered [1] "alice" "bob")
        (start registry 3) (joins 0 1 ++ joins 1 2) ∧
      ¬ Throughout (step client false) (fun s => s.shared.Exclusive [1] "alice" "bob" ∧
        s.shared.Admits [1] "alice" "bob" false) (start registry 3) (joins 0 1 ++ joins 1 2)) ∧
    (Throughout (step client false) (fun s => s.shared.Registered [1] "alice" "bob")
        (start registry 3) (joins 2 1) ∧
      ¬ Throughout (step client false) (fun s => s.shared.Exclusive [1] "alice" "bob" ∧
        s.shared.Admits [1] "alice" "bob" false) (start registry 3) (joins 2 1)) := by
  refine ⟨⟨by decide, fun h => ?_⟩, by decide, fun h => ?_⟩
  · have hroom := (CallRooms.admits_iff (by decide)).mp h.last.2
    exact absurd (hroom (by decide)) (by decide)
  · exact absurd (h.last.1.parties ⟨1, .webSocket, none, none⟩ (by decide)) (by decide)

end PartyReconnects
end Wzp.Relay
