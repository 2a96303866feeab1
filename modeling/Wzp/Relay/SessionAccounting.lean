import Mathlib.Data.List.Nodup
import Wzp.Relay.RoomServer

/-!
# The sessions of connections in rooms

A connection creates its session before it asks for its room and removes it when it has left.
Whatever other connections do between these, the sessions, their gauge and the rooms keep account
of exactly the connections there are.
-/
namespace Wzp.Relay.Sfu.RoomServer
open Runs Leases

variable {s : RoomServer} {service : RoomService} {authUrl : Bool} {maxSessions n i : ℕ} {now : ℕ}
  {nanos : UInt64} {start : ParticipantId} {c : Connection} {phase : SessionPhase}

/-! ## Sessions -/

theorem sessionIdOf_injective {ctr ctr' nanos' : UInt64}
    (h : sessionIdOf ctr nanos = sessionIdOf ctr' nanos') : ctr = ctr' := by
  have hcut := congrArg (Records.ofLeBytes ∘ List.take 8) h
  have htake : ∀ a b : UInt64, Records.ofLeBytes ((sessionIdOf a b).take 8) = a.toNat := by
    intro a b
    rw [sessionIdOf, List.take_left' (Records.leBytes_length 8 a.toNat), Records.ofLeBytes_leBytes]
    exact Nat.mod_eq_of_lt a.toNat_lt
  rw [Function.comp_apply, Function.comp_apply, htake, htake] at hcut
  exact UInt64.toNat_inj.mp hcut

/-- The sessions are those of the connections, with ids that have been drawn. -/
structure SessionsHeld (authUrl : Bool) (maxSessions n : ℕ) (s : RoomServer) : Prop where
  pipelines : s.service.sessions.sessions = ∅
  max : s.service.sessions.maxSessions = maxSessions
  limit : s.service.sessions.WithinLimit
  leased : Leased (s.holding SessionPhase.session) (issued s.service.sessions.tracked)
  infos : s.service.sessions.tracked.All fun id info =>
    ∃ c ∈ s.connections, c.phase.session = some id ∧ c.client.Describes authUrl info
  drawn : ∃ k ≤ n, s.service.sessions.nextSession = 1 + UInt64.ofNat k ∧
    ∀ id ∈ s.service.sessions.tracked, ∃ j < k, ∃ nanos, id = sessionIdOf (1 + UInt64.ofNat j) nanos

theorem SessionsHeld.fresh (h : SessionsHeld authUrl maxSessions n s) (hn : n < 2 ^ 64) :
    sessionIdOf s.service.sessions.nextSession nanos ∉ s.service.sessions.tracked := by
  obtain ⟨k, hk, hnext, hids⟩ := h.drawn
  intro hmem
  obtain ⟨j, hj, nanos', heq⟩ := hids _ hmem
  have hctr := sessionIdOf_injective heq
  rw [hnext] at hctr
  have hk64 : k < 2 ^ 64 := by omega
  have hnat := congrArg UInt64.toNat (UInt64.add_right_inj 1 |>.mp hctr)
  rw [UInt64.toNat_ofNat_of_lt' hk64, UInt64.toNat_ofNat_of_lt' (hj.trans hk64)] at hnat
  omega

/-- The sessions do not change, and the connections have what they had. -/
theorem SessionsHeld.of_same {s' : RoomServer} (h : SessionsHeld authUrl maxSessions n s)
    (hsessions : s'.service.sessions = s.service.sessions)
    (hholding : s'.holding SessionPhase.session = s.holding SessionPhase.session)
    (hclients : ∀ {id info}, (∃ c ∈ s.connections, c.phase.session = some id ∧
      c.client.Describes authUrl info) → ∃ c ∈ s'.connections, c.phase.session = some id ∧
        c.client.Describes authUrl info) : SessionsHeld authUrl maxSessions (n + 1) s' where
  pipelines := hsessions ▸ h.pipelines
  max := hsessions ▸ h.max
  limit := hsessions ▸ h.limit
  leased := hholding ▸ hsessions ▸ h.leased
  infos := by
    rw [hsessions]
    exact h.infos.mono fun id info => hclients
  drawn := by
    obtain ⟨k, hk, hdrawn⟩ := h.drawn
    rw [hsessions]
    exact ⟨k, by omega, hdrawn⟩

/-- A connection whose phase changes, but not its session. -/
theorem SessionsHeld.of_phase (h : SessionsHeld authUrl maxSessions n s)
    (hc : s.connections[i]? = some c) (hsessions : service.sessions = s.service.sessions)
    (hphase : phase.session = c.phase.session) :
    SessionsHeld authUrl maxSessions (n + 1) ⟨service, s.connections.set i { c with phase }⟩ := by
  refine h.of_same hsessions (holding_same hc hphase) fun hold => exists_set hc ?_ hold
  exact fun hd => ⟨hphase.trans hd.1, hd.2⟩

theorem SessionsHeld.created (h : SessionsHeld authUrl maxSessions n s) (hn : n < 2 ^ 64)
    (hc : s.connections[i]? = some c) (hconnecting : c.phase = .connecting)
    (hfree : s.service.sessions.totalCount < s.service.sessions.maxSessions)
    (hsessions : service.sessions = (s.service.sessions.createSession c.client.room
      (c.client.authenticatedFp authUrl) now nanos).1)
    (hphase : phase.session = some (sessionIdOf s.service.sessions.nextSession nanos)) :
    SessionsHeld authUrl maxSessions (n + 1) ⟨service, s.connections.set i { c with phase }⟩ := by
  have hlimit : service.sessions.WithinLimit := by
    rw [hsessions]
    exact h.limit.createSession
  rw [SessionManager.createSession_free hfree] at hsessions
  have hfresh : sessionIdOf s.service.sessions.nextSession nanos ∉ s.service.sessions.tracked :=
    h.fresh hn
  constructor
  · rw [hsessions]
    exact h.pipelines
  · rw [hsessions]
    exact h.max
  · exact hlimit
  · rw [holding_set hc, hphase, hsessions, issued_insert]
    refine h.leased.acquire ?_ (mt mem_issued.mp hfresh)
    rw [holding_eq hc, hconnecting]
    rfl
  · rw [hsessions]
    refine Table.All.insert (h.infos.mono fun id info hold => exists_set hc ?_ hold) ?_
    · rintro ⟨hid, -⟩
      rw [hconnecting] at hid
      cases hid
    · exact ⟨_, List.mem_set (List.getElem?_eq_some_iff.mp hc).1 _, hphase, rfl, rfl, rfl⟩
  · obtain ⟨k, hk, hnext, hids⟩ := h.drawn
    refine ⟨k + 1, by omega, ?_, fun id hid => ?_⟩
    · rw [hsessions, UInt64.ofNat_add, ← UInt64.add_assoc, ← hnext]
      rfl
    · rw [hsessions] at hid
      rcases Table.mem_insert.mp hid with rfl | hid
      · exact ⟨k, by omega, nanos, by rw [hnext]⟩
      · obtain ⟨j, hj, hdrawn⟩ := hids id hid
        exact ⟨j, by omega, hdrawn⟩

theorem SessionsHeld.removed (h : SessionsHeld authUrl maxSessions n s)
    (hc : s.connections[i]? = some c) {id : SessionId} (hid : c.phase.session = some id)
    (hsessions : service.sessions = s.service.sessions.removeSession id)
    (hphase : phase.session = none) :
    SessionsHeld authUrl maxSessions (n + 1) ⟨service, s.connections.set i { c with phase }⟩ := by
  constructor
  · rw [hsessions]
    exact h.pipelines
  · rw [hsessions]
    exact h.max
  · rw [hsessions]
    exact h.limit.removeSession id
  · rw [holding_set hc, hphase, hsessions, SessionManager.removeSession, issued_erase]
    exact h.leased.release ((holding_eq hc).trans hid)
  · rw [hsessions]
    intro other info hlookup
    rw [SessionManager.removeSession, Table.lookup_erase] at hlookup
    split at hlookup
    · cases hlookup
    · rename_i hne
      refine exists_set hc ?_ (h.infos other info hlookup)
      rintro ⟨hother, -⟩
      exact absurd (Option.some.inj (hother.symm.trans hid)) hne
  · obtain ⟨k, hk, hnext, hids⟩ := h.drawn
    rw [hsessions]
    exact ⟨k, by omega, hnext, fun other hother => hids other (Table.mem_erase.mp hother).2⟩

theorem SessionsHeld.advance (h : SessionsHeld authUrl maxSessions n s) (hn : n < 2 ^ 64)
    (hc : s.connections[i]? = some c) (held : Bool) (now : ℕ) (nanos : UInt64) :
    let after := s.service.advance c.client authUrl held now nanos c.phase
    SessionsHeld authUrl maxSessions (n + 1)
      ⟨after.1, s.connections.set i { c with phase := after.2 }⟩ := by
  intro after
  rcases s.service.advance_sessions c.client authUrl held now nanos c.phase with
    ⟨hsessions, hphase⟩ | ⟨hconnecting, hfree, hsessions, hphase⟩ | ⟨id, hid, hsessions, hphase⟩
  · exact h.of_phase hc hsessions hphase
  · exact h.created hn hc hconnecting hfree hsessions hphase
  · exact h.removed hc hid hsessions hphase

/-! ## The gauge -/

/-- The gauge shows the number of connections that it counts. -/
def Gauged (s : RoomServer) : Prop :=
  ∃ out, Leased (s.holding SessionPhase.gauged) out ∧ s.service.activeSessions = out.card

theorem session_of_gauged {id : SessionId} (h : phase.gauged = some id) :
    phase.session = some id := by
  cases phase <;> first | exact h | cases h

theorem Gauged.of_same {s' : RoomServer} (h : s.Gauged)
    (hactive : s'.service.activeSessions = s.service.activeSessions)
    (hholding : s'.holding SessionPhase.gauged = s.holding SessionPhase.gauged) : s'.Gauged := by
  rw [Gauged, hactive, hholding]
  exact h

theorem Gauged.advance (h : s.Gauged) (hsessions : SessionsHeld authUrl maxSessions n s)
    (hc : s.connections[i]? = some c) (held : Bool) (now : ℕ) (nanos : UInt64) :
    let after := s.service.advance c.client authUrl held now nanos c.phase
    Gauged ⟨after.1, s.connections.set i { c with phase := after.2 }⟩ := by
  intro after
  obtain ⟨out, hout, hactive⟩ := h
  rcases s.service.advance_activeSessions c.client authUrl held now nanos c.phase with
    ⟨hgauge, hphase⟩ | ⟨id, hcreated, hgauge, hphase⟩ | ⟨id, p, hleft, hgauge, hphase⟩
  · exact Gauged.of_same ⟨out, hout, hactive⟩ hgauge (holding_same hc hphase)
  · have hnone : s.holding SessionPhase.gauged i = none := by
      rw [holding_eq hc, hcreated]
      rfl
    have hfree : id ∉ out := by
      intro hmem
      obtain ⟨j, hj⟩ := (hout.mem id).mp hmem
      obtain ⟨d, hd, hgauged⟩ := Option.bind_eq_some_iff.mp hj
      have hsame : j = i := hsessions.leased.one j i id ((holding_eq hd).trans
        (session_of_gauged hgauged)) (by rw [holding_eq hc, hcreated]; rfl)
      rw [hsame, hnone] at hj
      cases hj
    refine ⟨insert id out, ?_, ?_⟩
    · rw [holding_set hc, hphase]
      exact hout.acquire hnone hfree
    · rw [Finset.card_insert_of_notMem hfree, hgauge, hactive]
      rfl
  · have hheld : s.holding SessionPhase.gauged i = some id := by
      rw [holding_eq hc, hleft]
      rfl
    refine ⟨out.erase id, ?_, ?_⟩
    · rw [holding_set hc, hphase]
      exact hout.release hheld
    · have hmem : id ∈ out := (hout.mem id).mpr ⟨i, hheld⟩
      have hpos := Finset.card_pos.mpr ⟨id, hmem⟩
      rw [Finset.card_erase_of_mem hmem, hgauge, hactive]
      omega

/-! ## Rooms -/

/-- Who is in a room has a connection there, and every room has a connection that keeps it. -/
structure RoomsHeld (start : ParticipantId) (n : ℕ) (s : RoomServer) : Prop where
  consistent : s.service.rooms.RoomsConsistent
  leased : ∃ out, Leased (s.holding SessionPhase.participant) out ∧
    ∃ k ≤ n, s.service.rooms.nextParticipantId = start + UInt64.ofNat k ∧
      ∀ p ∈ out, ∃ j < k, p = start + UInt64.ofNat j
  present : ∀ a, ∀ p ∈ s.service.rooms.localSenders a,
    ∃ c ∈ s.connections, c.phase.inside = some p.id ∧ c.client.room = a
  kept : ∀ a ∈ s.service.rooms.rooms, ∃ c ∈ s.connections, c.phase.keepsRoom ∧ c.client.room = a

theorem participant_of_inside {p : ParticipantId} (h : phase.inside = some p) :
    phase.participant = some p := by
  cases phase <;> first | exact h | cases h

theorem keepsRoom_of_inside {p : ParticipantId} (h : phase.inside = some p) :
    phase.keepsRoom = true := by
  cases phase <;> first | rfl | cases h

/-- Nobody has the next id. -/
theorem notMem_of_drawn {out : Finset ParticipantId} {k : ℕ} {next : ParticipantId}
    (hk : k < 2 ^ 64) (hnext : next = start + UInt64.ofNat k)
    (hids : ∀ p ∈ out, ∃ j < k, p = start + UInt64.ofNat j) : next ∉ out := by
  intro hmem
  obtain ⟨j, hj, heq⟩ := hids _ hmem
  rw [hnext] at heq
  have hnat := congrArg UInt64.toNat (UInt64.add_right_inj start |>.mp heq)
  rw [UInt64.toNat_ofNat_of_lt' hk, UInt64.toNat_ofNat_of_lt' (hj.trans hk)] at hnat
  omega

/-- The rooms and those in them do not change, and the connections have what they need. -/
theorem RoomsHeld.of_same {s' : RoomServer} (h : RoomsHeld start n s)
    (hrooms : RoomManager.SameMembers s.service.rooms s'.service.rooms)
    (hleased : ∀ out, Leased (s.holding SessionPhase.participant) out →
      ∃ out' ⊆ out, Leased (s'.holding SessionPhase.participant) out')
    (hinside : ∀ a, ∀ p ∈ s.service.rooms.localSenders a,
      (∃ c ∈ s.connections, c.phase.inside = some p.id ∧ c.client.room = a) →
        ∃ c ∈ s'.connections, c.phase.inside = some p.id ∧ c.client.room = a)
    (hkeeps : ∀ a ∈ s.service.rooms.rooms,
      (∃ c ∈ s.connections, c.phase.keepsRoom ∧ c.client.room = a) →
        ∃ c ∈ s'.connections, c.phase.keepsRoom ∧ c.client.room = a) :
    RoomsHeld start (n + 1) s' where
  consistent := hrooms.consistent h.consistent
  leased := by
    obtain ⟨out, hout, k, hk, hnext, hids⟩ := h.leased
    obtain ⟨out', hsub, hout'⟩ := hleased out hout
    rw [hrooms.next]
    exact ⟨out', hout', k, by omega, hnext, fun p hp => hids p (hsub hp)⟩
  present := by
    intro a p hp
    rw [hrooms.localSenders] at hp
    exact hinside a p hp (h.present a p hp)
  kept := by
    intro a ha
    rw [hrooms.rooms] at ha
    exact hkeeps a ha (h.kept a ha)

theorem RoomsHeld.quiet (h : RoomsHeld start n s) (hc : s.connections[i]? = some c)
    (hquiet : RoomService.Quiet s.service.rooms service.rooms c.phase phase) :
    RoomsHeld start (n + 1) ⟨service, s.connections.set i { c with phase }⟩ := by
  refine h.of_same (.of_rooms hquiet.rooms hquiet.next)
    (fun out hout => ⟨out, subset_rfl, holding_same hc hquiet.participant ▸ hout⟩)
    (fun a p _ hold => exists_set hc ?_ hold) (fun a _ hold => exists_set hc ?_ hold)
  · exact fun hd => ⟨hquiet.inside.trans hd.1, hd.2⟩
  · exact fun hd => ⟨hquiet.keepsRoom.trans hd.1, hd.2⟩

/-- The room of a connection has been taken away by another. -/
theorem RoomsHeld.gone (h : RoomsHeld start n s) (hc : s.connections[i]? = some c)
    {id : SessionId} {p : ParticipantId} (hphase : c.phase = .inRoom id p)
    (hroom : c.client.room ∉ s.service.rooms.rooms) (hrooms : service.rooms = s.service.rooms) :
    RoomsHeld start (n + 1)
      ⟨service, s.connections.set i { c with phase := .left id (some p) }⟩ := by
  have hsame : (SessionPhase.left id (some p)).participant = c.phase.participant := by
    rw [hphase]
    rfl
  refine h.of_same (.of_rooms (by rw [hrooms]) (by rw [hrooms]))
    (fun out hout => ⟨out, subset_rfl, holding_same hc hsame ▸ hout⟩)
    (fun a q hq hold => exists_set hc ?_ hold) (fun a ha hold => exists_set hc ?_ hold)
  · rintro ⟨-, rfl⟩
    rw [RoomManager.localSenders, AList.lookup_eq_none.mpr hroom] at hq
    cases hq
  · rintro ⟨-, rfl⟩
    exact absurd ha hroom

theorem RoomsHeld.uncounted (h : RoomsHeld start n s) (hc : s.connections[i]? = some c)
    {id : SessionId} {p : Option ParticipantId} (hphase : c.phase = .left id p)
    (hrooms : service.rooms = s.service.rooms) :
    RoomsHeld start (n + 1)
      ⟨service, s.connections.set i { c with phase := .uncounted id }⟩ := by
  refine h.of_same (.of_rooms (by rw [hrooms]) (by rw [hrooms])) (fun out hout => ?_)
    (fun a q _ hold => exists_set hc ?_ hold) (fun a _ hold => exists_set hc ?_ hold)
  · have hheld : s.holding SessionPhase.participant i = p := by
      rw [holding_eq hc, hphase]
      rfl
    rw [holding_set hc]
    cases p with
    | none => exact ⟨out, subset_rfl, hout.keep hheld⟩
    | some q => exact ⟨out.erase q, Finset.erase_subset q out, hout.release hheld⟩
  · rintro ⟨hinside, -⟩
    rw [hphase] at hinside
    cases hinside
  · rintro ⟨hkeeps, -⟩
    rw [hphase] at hkeeps
    cases hkeeps

theorem RoomsHeld.entered (h : RoomsHeld start n s) (hn : n < 2 ^ 64)
    (hc : s.connections[i]? = some c) {id : SessionId} {wasEmpty : Bool}
    (hphase : c.phase = .entering id wasEmpty) {sender : ParticipantSender}
    {fingerprint «alias» : Option String}
    (hrooms : service.rooms =
      (s.service.rooms.enter c.client.room sender fingerprint «alias» wasEmpty).1) :
    RoomsHeld start (n + 1) ⟨service, s.connections.set i
      { c with phase := .inRoom id s.service.rooms.nextParticipantId }⟩ := by
  obtain ⟨out, hout, k, hk, hnext, hids⟩ := h.leased
  have hfree : s.service.rooms.nextParticipantId ∉ out := notMem_of_drawn (by omega) hnext hids
  have hnew := List.mem_set (a := ({ c with phase := .inRoom id s.service.rooms.nextParticipantId } :
    Connection)) (List.getElem?_eq_some_iff.mp hc).1
  constructor
  · rw [hrooms]
    refine h.consistent.enter fun a p hp heq => hfree ?_
    obtain ⟨d, hd, hinside, -⟩ := h.present a p hp
    obtain ⟨j, hj⟩ := List.mem_iff_getElem?.mp hd
    refine (hout.mem _).mpr ⟨j, ?_⟩
    rw [holding_eq hj, ← heq]
    exact participant_of_inside hinside
  · refine ⟨insert s.service.rooms.nextParticipantId out, ?_, k + 1, by omega, ?_, fun p hp => ?_⟩
    · rw [holding_set hc]
      refine hout.acquire ?_ hfree
      rw [holding_eq hc, hphase]
      rfl
    · rw [hrooms, RoomManager.enter_next, hnext, UInt64.ofNat_add, ← UInt64.add_assoc]
      rfl
    · rcases Finset.mem_insert.mp hp with rfl | hp
      · exact ⟨k, by omega, hnext⟩
      · obtain ⟨j, hj, hdrawn⟩ := hids p hp
        exact ⟨j, by omega, hdrawn⟩
  · intro a p hp
    rw [hrooms] at hp
    rcases RoomManager.mem_localSenders_enter s.service.rooms c.client.room sender fingerprint «alias»
      wasEmpty |>.mp hp with ⟨hold, -⟩ | ⟨rfl, rfl⟩
    · refine exists_set hc ?_ (h.present a p hold)
      rintro ⟨hinside, -⟩
      rw [hphase] at hinside
      cases hinside
    · exact ⟨_, hnew, rfl, rfl⟩
  · intro a ha
    rw [hrooms] at ha
    rcases RoomManager.mem_rooms_enter.mp ha with rfl | ha
    · exact ⟨_, hnew, rfl, rfl⟩
    · refine exists_set hc ?_ (h.kept a ha)
      rintro ⟨hkeeps, -⟩
      rw [hphase] at hkeeps
      cases hkeeps

theorem RoomsHeld.departed (h : RoomsHeld start n s) (hc : s.connections[i]? = some c)
    {id : SessionId} {p : ParticipantId} (hphase : c.phase = .departing id p)
    (hrooms : service.rooms = (s.service.rooms.depart c.client.room p).1)
    (hnext : phase = if (s.service.rooms.depart c.client.room p).2.any Room.isEmpty then
      .releasing id p else .left id (some p)) :
    RoomsHeld start (n + 1) ⟨service, s.connections.set i { c with phase }⟩ := by
  have hpresent : ∀ a, ∀ q ∈ service.rooms.localSenders a,
      ∃ d ∈ s.connections.set i { c with phase }, d.phase.inside = some q.id ∧ d.client.room = a := by
    intro a q hq
    rw [hrooms, RoomManager.mem_localSenders_depart] at hq
    refine exists_set hc ?_ (h.present a q hq.1)
    rintro ⟨hinside, hroom⟩
    rw [hphase] at hinside
    exact absurd ⟨hroom.symm, (Option.some.inj hinside).symm⟩ hq.2
  have hsame : phase.participant = c.phase.participant := by
    rw [hnext, hphase]
    split <;> rfl
  constructor
  · rw [hrooms]
    exact h.consistent.depart
  · obtain ⟨out, hout, k, hk, hdrawn⟩ := h.leased
    rw [hrooms, RoomManager.depart_next, holding_same hc hsame]
    exact ⟨out, hout, k, by omega, hdrawn⟩
  · exact hpresent
  · intro a ha
    rw [hrooms, RoomManager.mem_rooms_depart] at ha
    by_cases hroom : c.client.room = a
    · subst hroom
      cases hempty : (s.service.rooms.depart c.client.room p).2.any Room.isEmpty with
      | true =>
          rw [hempty] at hnext
          exact ⟨_, List.mem_set (List.getElem?_eq_some_iff.mp hc).1 _, by rw [hnext]; rfl, rfl⟩
      | false =>
          -- Somebody else is still there, and has a connection.
          obtain ⟨q, hq⟩ := List.exists_mem_of_ne_nil _
            (RoomManager.localSenders_depart_ne_nil ha hempty)
          rw [← hrooms] at hq
          obtain ⟨d, hd, hinside, hroom⟩ := hpresent _ q hq
          exact ⟨d, hd, keepsRoom_of_inside hinside, hroom⟩
    · exact exists_set hc (fun hd => absurd hd.2 hroom) (h.kept a ha)

theorem RoomsHeld.removed (h : RoomsHeld start n s) (hc : s.connections[i]? = some c)
    {id : SessionId} {p : ParticipantId} (hphase : c.phase = .closing id p)
    (hrooms : service.rooms = s.service.rooms.removeRoom c.client.room) :
    RoomsHeld start (n + 1)
      ⟨service, s.connections.set i { c with phase := .clearing id p }⟩ := by
  have hsame : (SessionPhase.clearing id p).participant = c.phase.participant := by
    rw [hphase]
    rfl
  constructor
  · rw [hrooms]
    exact h.consistent.erase c.client.room
  · obtain ⟨out, hout, k, hk, hdrawn⟩ := h.leased
    rw [hrooms, holding_same hc hsame]
    exact ⟨out, hout, k, by omega, hdrawn⟩
  · intro a q hq
    rw [hrooms, RoomManager.localSenders, RoomManager.removeRoom, Table.lookup_erase] at hq
    split at hq
    · cases hq
    · refine exists_set hc ?_ (h.present a q hq)
      rintro ⟨hinside, -⟩
      rw [hphase] at hinside
      cases hinside
  · intro a ha
    rw [hrooms] at ha
    obtain ⟨hne, ha⟩ := Table.mem_erase.mp ha
    exact exists_set hc (fun hd => absurd hd.2.symm hne) (h.kept a ha)

theorem RoomsHeld.advance (h : RoomsHeld start n s) (hn : n < 2 ^ 64)
    (hc : s.connections[i]? = some c) (held : Bool) (now : ℕ) (nanos : UInt64) :
    let after := s.service.advance c.client authUrl held now nanos c.phase
    RoomsHeld start (n + 1) ⟨after.1, s.connections.set i { c with phase := after.2 }⟩ := by
  intro after
  rcases s.service.advance_rooms c.client authUrl held now nanos c.phase with
    hquiet | ⟨id, p, hphase, hroom, hrooms, hnext⟩ | ⟨id, p, hphase, hrooms, hnext⟩ |
      ⟨id, wasEmpty, hphase, hrooms, hnext⟩ | ⟨id, p, hphase, hrooms, hnext⟩ |
      ⟨id, p, hphase, hrooms, hnext⟩
  · exact h.quiet hc hquiet
  · rw [hnext]
    exact h.gone hc hphase hroom hrooms
  · rw [hnext]
    exact h.uncounted hc hphase hrooms
  · rw [hnext]
    exact h.entered hn hc hphase hrooms
  · exact h.departed hc hphase hrooms hnext
  · rw [hnext]
    exact h.removed hc hphase hrooms

/-! ## Every step -/

structure Held (authUrl : Bool) (maxSessions : ℕ) (start : ParticipantId) (n : ℕ)
    (s : RoomServer) : Prop where
  sessions : SessionsHeld authUrl maxSessions n s
  gauged : s.Gauged
  rooms : RoomsHeld start n s

/-- Nothing changes for the sessions, and those who have something keep it. -/
theorem Held.of_same {s' : RoomServer} (h : Held authUrl maxSessions start n s)
    (hsessions : s'.service.sessions = s.service.sessions)
    (hactive : s'.service.activeSessions = s.service.activeSessions)
    (hrooms : RoomManager.SameMembers s.service.rooms s'.service.rooms)
    (hsession : s'.holding SessionPhase.session = s.holding SessionPhase.session)
    (hgauged : s'.holding SessionPhase.gauged = s.holding SessionPhase.gauged)
    (hparticipant : s'.holding SessionPhase.participant = s.holding SessionPhase.participant)
    (hconns : ∀ c ∈ s.connections, ∃ c' ∈ s'.connections, c'.client = c.client ∧
      c'.phase.session = c.phase.session ∧ (c.phase.inside.isSome → c'.phase = c.phase) ∧
        (c.phase.keepsRoom → c'.phase.keepsRoom)) :
    Held authUrl maxSessions start (n + 1) s' where
  sessions := by
    refine h.sessions.of_same hsessions hsession ?_
    rintro id info ⟨c, hc, hid, hdescribes⟩
    obtain ⟨c', hc', hclient, hsame, -, -⟩ := hconns c hc
    exact ⟨c', hc', hsame.trans hid, hclient ▸ hdescribes⟩
  gauged := h.gauged.of_same hactive hgauged
  rooms := by
    refine h.rooms.of_same hrooms (fun out hout => ⟨out, subset_rfl, hparticipant ▸ hout⟩) ?_ ?_
    · rintro a p - ⟨c, hc, hinside, hroom⟩
      obtain ⟨c', hc', hclient, -, hphase, -⟩ := hconns c hc
      refine ⟨c', hc', ?_, hclient ▸ hroom⟩
      rw [hphase (Option.isSome_of_eq_some hinside), hinside]
    · rintro a - ⟨c, hc, hkeeps, hroom⟩
      obtain ⟨c', hc', hclient, -, -, hkept⟩ := hconns c hc
      exact ⟨c', hc', hkept hkeeps, hclient ▸ hroom⟩

theorem Held.later (h : Held authUrl maxSessions start n s) :
    Held authUrl maxSessions start (n + 1) s :=
  h.of_same rfl rfl (.of_rooms rfl rfl) rfl rfl rfl fun c hc => ⟨c, hc, rfl, rfl, fun _ => rfl, id⟩

theorem Held.accept (h : Held authUrl maxSessions start n s) (client : Client) :
    Held authUrl maxSessions start (n + 1)
      { s with connections := s.connections ++ [⟨client, .connecting⟩] } :=
  h.of_same rfl rfl (.of_rooms rfl rfl) (holding_append rfl client) (holding_append rfl client)
    (holding_append rfl client)
    fun c hc => ⟨c, List.mem_append_left _ hc, rfl, rfl, fun _ => rfl, id⟩

/-- To leave again is to find the room as one that may be left. -/
theorem Held.again (h : Held authUrl maxSessions start n s) {client : Client} {id : SessionId}
    {p : ParticipantId} (hc : s.connections[i]? = some ⟨client, .left id (some p)⟩) :
    Held authUrl maxSessions start (n + 1)
      { s with connections := s.connections.set i ⟨client, .departing id p⟩ } := by
  refine h.of_same rfl rfl (.of_rooms rfl rfl) (holding_same hc rfl) (holding_same hc rfl)
    (holding_same hc rfl) fun d hd => ?_
  obtain ⟨j, hj⟩ := List.mem_iff_getElem?.mp hd
  by_cases hji : j = i
  · subst hji
    obtain rfl := Option.some.inj (hc.symm.trans hj)
    refine ⟨⟨client, .departing id p⟩, List.mem_set (List.getElem?_eq_some_iff.mp hc).1 _, rfl, rfl,
      ?_, ?_⟩
    · intro hinside
      cases hinside
    · intro hkeeps
      cases hkeeps
  · exact ⟨d, List.mem_of_getElem? ((List.getElem?_set_ne (Ne.symm hji)).trans hj), rfl, rfl,
      fun _ => rfl, fun hkeeps => hkeeps⟩

theorem Held.step (h : Held authUrl maxSessions start n s) (hn : n < 2 ^ 64) (e : ServerEvent) :
    Held authUrl maxSessions start (n + 1) (s.step authUrl e) := by
  cases e with
  | accept client =>
      rw [RoomServer.step]
      split
      · exact h.later
      · exact h.accept client
  | advance i now nanos =>
      rw [RoomServer.step]
      cases hc : s.connections[i]? with
      | none => exact h.later
      | some c =>
          exact ⟨h.sessions.advance hn hc _ now nanos, h.gauged.advance h.sessions hc _ now nanos,
            h.rooms.advance hn hc _ now nanos⟩
  | leaveAgain i =>
      rw [RoomServer.step]
      split
      · rename_i client id p hc
        split
        · exact h.again hc
        · exact h.later
      · exact h.later
  | rooms op =>
      rw [RoomServer.step]
      split
      · exact h.later
      · rename_i hop
        exact h.of_same rfl rfl (RoomManager.sameMembers_step (Bool.eq_false_iff.mpr hop)) rfl rfl rfl
          fun c hc => ⟨c, hc, rfl, rfl, fun _ => rfl, fun hkeeps => hkeeps⟩

theorem held_start (acl : Option (Table RoomName (List String))) :
    Held authUrl maxSessions start 0 (.start ⟨∅, acl, [], start, ∅, ∅, ∅, ∅, ∅⟩ maxSessions) := by
  have hnone : ∀ {ι : Type} (f : SessionPhase → Option ι),
      holding (.start ⟨∅, acl, [], start, ∅, ∅, ∅, ∅, ∅⟩ maxSessions) f = fun _ => none :=
    fun f => rfl
  refine ⟨⟨rfl, rfl, Nat.zero_le _, ?_, Table.all_empty, 0, le_refl 0, rfl, ?_⟩, ⟨∅, ?_, rfl⟩,
    ⟨Table.all_empty, ⟨∅, ?_, 0, le_refl 0, ?_, ?_⟩, ?_, ?_⟩⟩
  · rw [hnone]
    exact leased_empty
  · intro id hid
    exact absurd hid (AList.notMem_empty id)
  · rw [hnone]
    exact leased_empty
  · rw [hnone]
    exact leased_empty
  · exact (UInt64.add_zero start).symm
  · intro p hp
    cases hp
  · intro a p hp
    cases hp
  · intro a ha
    exact absurd ha (AList.notMem_empty a)

/-! ## The accounts of a run -/

/-- What the relay keeps is what its connections have. -/
structure Accounted (authUrl : Bool) (maxSessions : ℕ) (s : RoomServer) : Prop where
  finite : (s.holders SessionPhase.session).Finite
  sessions : s.service.sessions.totalCount = (s.holders SessionPhase.session).ncard
  limit : s.service.sessions.totalCount ≤ maxSessions
  infos : ∀ id info, s.service.sessions.sessionInfo id = some info →
    ∃ c ∈ s.connections, c.phase.session = some id ∧ c.client.Describes authUrl info
  gauge : s.service.activeSessions = (s.holders SessionPhase.gauged).ncard
  participants : (s.service.rooms.list.map Prod.snd).sum ≤ s.service.sessions.totalCount
  rooms : s.service.rooms.list.length ≤ s.service.sessions.totalCount
  admits : ∀ i c now nanos, s.connections[i]? = some c → c.phase = .connecting →
    ((s.step authUrl (.advance i now nanos)).connections[i]?.map (·.phase) = some .closed ↔
      (s.holders SessionPhase.session).ncard = maxSessions)
  ended : s.holders SessionPhase.session = ∅ → s.service.sessions.tracked = ∅ ∧
    s.service.rooms.rooms = ∅ ∧ s.service.activeSessions = 0

theorem SessionsHeld.totalCount_eq (h : SessionsHeld authUrl maxSessions n s) :
    s.service.sessions.totalCount = (issued s.service.sessions.tracked).card := by
  rw [SessionManager.totalCount_eq, h.pipelines]
  exact Nat.zero_add _

/-- The ids of all who are in rooms. -/
def participantIds (s : RoomServer) : List ParticipantId :=
  s.service.rooms.rooms.entries.flatMap fun e => e.2.participants.map Participant.id

theorem mem_participantIds {p : ParticipantId} (h : p ∈ s.participantIds) :
    ∃ a, ∃ q ∈ s.service.rooms.localSenders a, q.id = p := by
  obtain ⟨⟨a, r⟩, he, hp⟩ := List.mem_flatMap.mp h
  obtain ⟨q, hq, hid⟩ := List.mem_map.mp hp
  exact ⟨a, q, RoomManager.localSenders_of_lookup (AList.mem_lookup_iff.mpr he) ▸ hq, hid⟩

/-- Nobody is in two rooms, and in no room twice. -/
theorem RoomsHeld.participantIds_nodup (h : RoomsHeld start n s) : s.participantIds.Nodup := by
  refine List.nodup_flatMap.mpr ⟨fun e he => (h.consistent e.1 e.2
    (AList.mem_lookup_iff.mpr he)).ids, ?_⟩
  have hkeys : s.service.rooms.rooms.entries.Pairwise fun e e' => e.1 ≠ e'.1 :=
    List.nodupKeys_iff_pairwise.mp s.service.rooms.rooms.nodupKeys
  obtain ⟨out, hout, -⟩ := h.leased
  refine hkeys.imp_of_mem fun {e e'} he he' hne => ?_
  intro p hp hp'
  obtain ⟨q, hq, hid⟩ := List.mem_map.mp hp
  obtain ⟨q', hq', hid'⟩ := List.mem_map.mp hp'
  rw [← RoomManager.localSenders_of_lookup (AList.mem_lookup_iff.mpr he)] at hq
  rw [← RoomManager.localSenders_of_lookup (AList.mem_lookup_iff.mpr he')] at hq'
  obtain ⟨c, hc, hinside, hroom⟩ := h.present _ q hq
  obtain ⟨c', hc', hinside', hroom'⟩ := h.present _ q' hq'
  obtain ⟨i, hi⟩ := List.mem_iff_getElem?.mp hc
  obtain ⟨j, hj⟩ := List.mem_iff_getElem?.mp hc'
  have hsame : i = j := hout.one i j p
    (by rw [holding_eq hi, participant_of_inside hinside, hid])
    (by rw [holding_eq hj, participant_of_inside hinside', hid'])
  subst hsame
  obtain rfl := Option.some.inj (hi.symm.trans hj)
  exact hne (hroom.symm.trans hroom')

theorem session_of_inside {p : ParticipantId} (h : phase.inside = some p) :
    phase.session.isSome := by
  cases phase <;> first | rfl | cases h

theorem session_of_keepsRoom (h : phase.keepsRoom = true) : phase.session.isSome := by
  cases phase <;> first | rfl | cases h

theorem Held.participants_le (h : Held authUrl maxSessions start n s) :
    (s.service.rooms.list.map Prod.snd).sum ≤ s.service.sessions.totalCount := by
  have hlength : (s.service.rooms.list.map Prod.snd).sum = s.participantIds.toFinset.card := by
    rw [List.toFinset_card_of_nodup h.rooms.participantIds_nodup, participantIds,
      List.length_flatMap, RoomManager.list, List.map_map]
    simp [Function.comp_def]
  rw [hlength, h.sessions.totalCount_eq]
  refine h.sessions.leased.card_le
    (R := fun p i => ∃ c, s.connections[i]? = some c ∧ c.phase.inside = some p) ?_ ?_
  · intro p hp
    obtain ⟨a, q, hq, rfl⟩ := mem_participantIds (List.mem_toFinset.mp hp)
    obtain ⟨c, hc, hinside, -⟩ := h.rooms.present a q hq
    obtain ⟨i, hi⟩ := List.mem_iff_getElem?.mp hc
    exact ⟨i, (holding_eq hi).symm ▸ session_of_inside hinside, c, hi, hinside⟩
  · rintro p q i ⟨c, hc, hp⟩ ⟨d, hd, hq⟩
    obtain rfl := Option.some.inj (hc.symm.trans hd)
    exact Option.some.inj (hp.symm.trans hq)

theorem Held.rooms_le (h : Held authUrl maxSessions start n s) :
    s.service.rooms.list.length ≤ s.service.sessions.totalCount := by
  rw [RoomManager.list, List.length_map, ← card_issued, h.sessions.totalCount_eq]
  refine h.sessions.leased.card_le
    (R := fun a i => ∃ c, s.connections[i]? = some c ∧ c.client.room = a ∧
      c.phase.keepsRoom) ?_ ?_
  · intro a ha
    obtain ⟨c, hc, hkeeps, hroom⟩ := h.rooms.kept a (mem_issued.mp ha)
    obtain ⟨i, hi⟩ := List.mem_iff_getElem?.mp hc
    exact ⟨i, (holding_eq hi).symm ▸ session_of_keepsRoom hkeeps, c, hi, hroom, hkeeps⟩
  · rintro a b i ⟨c, hc, ha, -⟩ ⟨d, hd, hb, -⟩
    obtain rfl := Option.some.inj (hc.symm.trans hd)
    exact ha.symm.trans hb

/-- A connection is turned away only at the limit. -/
theorem SessionsHeld.admits (h : SessionsHeld authUrl maxSessions n s)
    (hc : s.connections[i]? = some c) (hconnecting : c.phase = .connecting) :
    (s.step authUrl (.advance i now nanos)).connections[i]?.map (·.phase) = some .closed ↔
      s.service.sessions.totalCount = maxSessions := by
  have hi : i < s.connections.length := (List.getElem?_eq_some_iff.mp hc).1
  have hlimit : s.service.sessions.totalCount ≤ maxSessions := h.max ▸ h.limit
  have hnext : (s.step authUrl (.advance i now nanos)).connections[i]?.map (·.phase) =
      some (s.service.advance c.client authUrl (s.held c.client.room) now nanos c.phase).2 := by
    rw [step, hc]
    simp [hi]
  rw [hnext, hconnecting, Option.some_inj, RoomService.advance]
  rcases Nat.lt_or_ge s.service.sessions.totalCount maxSessions with hfree | hfull
  · rw [SessionManager.createSession_free (h.max.symm ▸ hfree)]
    exact iff_of_false (fun hclosed => by cases hclosed) hfree.ne
  · rw [SessionManager.createSession_full (h.max.symm ▸ hfull)]
    exact iff_of_true rfl (hlimit.antisymm hfull)

theorem entries_eq_nil {κ α : Type} [DecidableEq κ] {t : Table κ α} (h : t.entries.length = 0) :
    t = ∅ := AList.ext (List.length_eq_zero_iff.mp h)

theorem Held.accounted (h : Held authUrl maxSessions start n s) : s.Accounted authUrl maxSessions := by
  have hsessions : s.service.sessions.totalCount = (s.holders SessionPhase.session).ncard :=
    h.sessions.totalCount_eq.trans h.sessions.leased.holders_ncard.symm
  obtain ⟨out, hout, hactive⟩ := h.gauged
  have hgauge : s.service.activeSessions = (s.holders SessionPhase.gauged).ncard := by
    rw [hactive, holders, hout.holders_ncard]
  refine ⟨h.sessions.leased.holders_finite, hsessions, h.sessions.max ▸ h.sessions.limit,
    h.sessions.infos, hgauge, h.participants_le, h.rooms_le, fun i c now nanos hc hconnecting => ?_,
    fun hnone => ?_⟩
  · rw [← hsessions]
    exact h.sessions.admits hc hconnecting
  · rw [hnone, Set.ncard_empty] at hsessions
    have hrooms := h.rooms_le
    rw [hsessions, RoomManager.list, List.length_map] at hrooms
    rw [SessionManager.totalCount] at hsessions
    refine ⟨entries_eq_nil (by omega), entries_eq_nil (by omega), ?_⟩
    have hungauged : s.holders SessionPhase.gauged = ∅ := by
      refine Set.subset_eq_empty (fun i hi => ?_) hnone
      obtain ⟨id, hid⟩ := Option.isSome_iff_exists.mp hi
      obtain ⟨c, hc, hgauged⟩ := Option.bind_eq_some_iff.mp hid
      exact Option.isSome_of_eq_some ((holding_eq hc).trans (session_of_gauged hgauged))
    rw [hgauge, hungauged, Set.ncard_empty]
    rfl

theorem Held.throughout (h : Held authUrl maxSessions start n s) (es : List ServerEvent)
    (hshort : n + es.length ≤ 2 ^ 64) :
    Throughout (RoomServer.step authUrl) (Accounted authUrl maxSessions) s es := by
  induction es generalizing s n with
  | nil => exact h.accounted
  | cons e es ih =>
      rw [List.length_cons] at hshort
      exact ⟨h.accounted, ih (h.step (by omega) e) (by omega)⟩

/-- Whatever comes between the steps of a connection: the manager keeps one session for each
connection that has created one, and no more than allowed; the gauge counts them, from its
increment to its decrement; there are no more participants and rooms than sessions; a connection
is turned away exactly at the limit; and when all have gone, nothing is left of them. -/
theorem sessions_accounted {rooms : RoomManager}
    (hnew : rooms = .new start ∨ rooms = .withAcl start) (maxSessions : ℕ)
    (es : List ServerEvent) (hshort : es.length ≤ 2 ^ 64) :
    Throughout (step authUrl) (Accounted authUrl maxSessions) (.start rooms maxSessions) es := by
  obtain ⟨acl, rfl⟩ := RoomManager.exists_acl hnew
  exact (held_start acl).throughout es (by omega)

/-- With one session allowed, the second caller is turned away while the first is in the room, and
the third gets in when the first has gone. -/
def threeCallers : List ServerEvent :=
  [.accept ⟨.room, "", "ab", none, [1]⟩, .accept ⟨.webSocket, "", "", none, [1]⟩] ++
  List.replicate 6 (.advance 0 5 3) ++ [.advance 1 6 4, .rooms (.shouldForwardPli [1] 7 0 9)] ++
  List.replicate 8 (.advance 0 7 0) ++
  .accept ⟨.webSocket, "", "", none, [2]⟩ :: List.replicate 6 (.advance 2 8 5)

example : ((run (step false) (.start (.new 7) 1) threeCallers).connections.map fun c => c.phase) =
    [.closed, .closed, .inRoom (sessionIdOf 2 5) 8] := by decide

theorem three_callers_accounted :
    Throughout (step false) (Accounted false 1) (.start (.new 7) 1) threeCallers :=
  sessions_accounted (Or.inl rfl) 1 threeCallers (by decide)

end Wzp.Relay.Sfu.RoomServer
