import Wzp.Relay.RoomConsistency
import Wzp.Relay.RoomLifecycle

/-!
# Refinement of the rooms

Federation and the media loops read who is in which room and which layer each
receiver has. With all its tables the room manager moves that view as joins and
leaves of it do, and sends the events they make.
-/
namespace Wzp.Relay

namespace RoomManager
variable {m : RoomManager}

theorem Occupied.localSenders_eq (h : m.Occupied) {room : RoomName} {members : List Participant}
    (hmem : (room, members) ∈ m.rooms) : m.localSenders room = members := by
  obtain ⟨before, after, heq⟩ := List.append_of_mem hmem
  have hnames := h.names
  rw [activeRooms, heq, List.map_append, List.map_cons] at hnames
  have hfirst : m.rooms.lookup room = some members := by
    refine List.lookup_eq_some_iff.mpr ⟨before, after, heq, fun r hr => bne_iff_ne.mpr ?_⟩
    intro hname
    exact (List.nodup_append.mp hnames).2.2 r.1 (List.mem_map_of_mem hr) room
      List.mem_cons_self hname.symm
  rw [localSenders, hfirst]
  rfl

/-- How the view of the rooms may change, and the event that comes with it. -/
inductive Move : RoomManager → Option RoomEvent → RoomManager → Prop
  | stay (m : RoomManager) : Move m none m
  | layer (m : RoomManager) (room : RoomName) (id : ParticipantId) (layer : UInt8) :
      Move m none { m with
        selectedLayer := fun r i => if r = room ∧ i = id then layer else m.selectedLayer r i }
  | join (m : RoomManager) (room : RoomName) (p : Participant) (hfresh : m.Fresh p.id) :
      Move m (m.join room p hfresh).2 (m.join room p hfresh).1
  | leave (m : RoomManager) (room : RoomName) (id : ParticipantId) :
      Move m (m.leave room id).2 (m.leave room id).1

/-- Moves one after another, with all their events. -/
inductive Moves : RoomManager → List RoomEvent → RoomManager → Prop
  | refl (m : RoomManager) : Moves m [] m
  | step {m m' m'' : RoomManager} {event : Option RoomEvent} {events : List RoomEvent}
      (hmove : Move m event m') (hmoves : Moves m' events m'') : Moves m (event.toList ++ events) m''

theorem Move.occupied {m' : RoomManager} {event : Option RoomEvent} (h : Move m event m')
    (hoccupied : m.Occupied) : m'.Occupied := by
  cases h with
  | stay => exact hoccupied
  | layer => exact ⟨hoccupied.members, hoccupied.names⟩
  | join room p hfresh => exact hoccupied.join hfresh
  | leave room id => exact hoccupied.leave

end RoomManager

namespace Sfu
open Bytes Proto Runs

/-! ## The view -/

/-- The part of the state that is read elsewhere. -/
structure RoomManager.Refines (m : RoomManager) (view : Relay.RoomManager) : Prop where
  localSenders : ∀ room, m.localSenders room = view.localSenders room
  selectedLayer : ∀ room id, m.selectedLayer room id = view.selectedLayer room id

namespace Room
variable {r : Room} {id : ParticipantId} {fingerprint : Option String}

/-- Whoever is replaced does not stay under the same id. -/
theorem mem_replaced_iff (hids : (r.participants.map Participant.id).Nodup) :
    id ∈ (r.replace fingerprint).2 ↔ id ∈ r.participants.map Participant.id ∧
      id ∉ (r.replace fingerprint).1.participants.map Participant.id := by
  rw [mem_replaced]
  constructor
  · rintro ⟨p, hp, hreplaced, rfl⟩
    refine ⟨List.mem_map_of_mem hp, fun hkept => ?_⟩
    obtain ⟨q, hq, hid⟩ := List.mem_map.mp hkept
    obtain ⟨hq, hstays⟩ := mem_replace.mp hq
    obtain rfl := List.inj_on_of_nodup_map hids hq hp hid
    exact hstays hreplaced.1 hreplaced.2
  · rintro ⟨hmem, hgone⟩
    obtain ⟨p, hp, rfl⟩ := List.mem_map.mp hmem
    refine ⟨p, hp, ?_, rfl⟩
    by_contra hstays
    exact hgone (List.mem_map_of_mem (mem_replace.mpr ⟨hp, fun hsome hfp => hstays ⟨hsome, hfp⟩⟩))

end Room

namespace RoomManager
variable {m : RoomManager} {view : Relay.RoomManager} {room : RoomName} {id : ParticipantId}
  {sender : ParticipantSender} {fingerprint «alias» : Option String}

theorem selectedLayer_congr {m' : RoomManager} (h : m'.receiverStates = m.receiverStates)
    (room : RoomName) (id : ParticipantId) : m'.selectedLayer room id = m.selectedLayer room id := by
  rw [selectedLayer, h, selectedLayer]

theorem selectedLayer_clearParticipantState (m : RoomManager) (room : RoomName)
    (id : ParticipantId) (a : RoomName) (i : ParticipantId) :
    (m.clearParticipantState room id).selectedLayer a i =
      if a = room ∧ i = id then 0 else m.selectedLayer a i := by
  have hlookup : (m.clearParticipantState room id).receiverStates.lookup (a, i) =
      if decide (¬ (a = room ∧ i = id)) then m.receiverStates.lookup (a, i) else none :=
    Table.lookup_retain_keys m.receiverStates (fun k => ¬ (k.1 = room ∧ k.2 = id)) (a, i)
  rw [selectedLayer, hlookup, selectedLayer]
  by_cases hgone : a = room ∧ i = id
  · rw [if_pos hgone, if_neg (by simpa using hgone)]
    rfl
  · rw [if_neg hgone, if_pos (decide_eq_true hgone)]

theorem selectedLayer_clearRoomState (m : RoomManager) (room : RoomName) (a : RoomName)
    (i : ParticipantId) :
    (m.clearRoomState room).selectedLayer a i = if a = room then 0 else m.selectedLayer a i := by
  have hlookup : (m.clearRoomState room).receiverStates.lookup (a, i) =
      if decide (a ≠ room) then m.receiverStates.lookup (a, i) else none :=
    Table.lookup_retain_keys m.receiverStates (fun k => k.1 ≠ room) (a, i)
  rw [selectedLayer, hlookup, selectedLayer]
  by_cases hgone : a = room
  · rw [if_pos hgone, if_neg (by simpa using hgone)]
    rfl
  · rw [if_neg hgone, if_pos (decide_eq_true hgone)]

theorem selectedLayer_clearParticipants (room : RoomName) (ids : List ParticipantId)
    (a : RoomName) (i : ParticipantId) :
    (m.clearParticipants room ids).selectedLayer a i =
      if a = room ∧ i ∈ ids then 0 else m.selectedLayer a i := by
  induction ids generalizing m with
  | nil => exact (if_neg fun h => List.not_mem_nil h.2).symm
  | cons id ids ih =>
      refine (ih (m := m.clearParticipantState room id)).trans ?_
      rw [selectedLayer_clearParticipantState]
      by_cases ha : a = room
      · by_cases hid : i = id
        · simp only [ha, hid, true_and, if_true, List.mem_cons, true_or, ite_self]
        · simp only [ha, hid, true_and, if_false, List.mem_cons, false_or]
      · simp only [ha, false_and, if_false]

/-! ## Joining -/

theorem wasEmpty_iff : m.wasEmpty room = true ↔ m.localSenders room = [] := by
  rw [wasEmpty, RoomManager.localSenders]
  cases m.rooms.lookup room with
  | none => exact iff_of_true rfl rfl
  | some r => exact List.isEmpty_iff

theorem Refines.kept (h : m.Refines view) (room : RoomName) (p : Participant) :
    ((m.roomOrNew room).replace p.fingerprint).1.participants = view.keptMembers room p := by
  rw [Relay.RoomManager.keptMembers, ← h.localSenders, ← roomOrNew_participants]
  cases p.fingerprint with
  | none => rfl
  | some fp => rfl

theorem Refines.join (h : m.Refines view) (hauth : m.isAuthorized room fingerprint = true)
    (hfresh : view.Fresh m.nextParticipantId) :
    (m.join room sender fingerprint «alias»).1.Refines
      (view.join room ⟨m.nextParticipantId, sender, fingerprint, «alias»⟩ hfresh).1 where
  localSenders := by
    intro a
    by_cases ha : a = room
    · subst ha
      rw [localSenders_of_lookup (rooms_join_self hauth), Relay.RoomManager.localSenders_join,
        ← h.kept]
      rfl
    · rw [localSenders_congr (rooms_join_ne ha sender fingerprint «alias»), h.localSenders,
        Relay.RoomManager.localSenders_join_ne hfresh ha]
  selectedLayer := by
    intro a i
    have hids : ((m.roomOrNew room).participants.map Participant.id).Nodup := by
      rw [roomOrNew_participants, h.localSenders]
      exact view.localSenders_nodup room
    rw [selectedLayer_congr (m := m.clearParticipants room ((m.roomOrNew room).replace fingerprint).2)
      (by rw [join_eq hauth]), selectedLayer_clearParticipants, h.selectedLayer]
    refine if_congr (and_congr_right fun _ => ?_) rfl rfl
    rw [Room.mem_replaced_iff hids, roomOrNew_participants, h.localSenders,
      h.kept room ⟨m.nextParticipantId, sender, fingerprint, «alias»⟩]

theorem Refines.join_events (h : m.Refines view) (hauth : m.isAuthorized room fingerprint = true)
    (hfresh : view.Fresh m.nextParticipantId) :
    (m.join room sender fingerprint «alias»).1.events = m.events ++
      (view.join room ⟨m.nextParticipantId, sender, fingerprint, «alias»⟩ hfresh).2.toList := by
  rw [join_eq hauth, Relay.RoomManager.join]
  dsimp only
  by_cases hempty : view.localSenders room = []
  · rw [if_pos (wasEmpty_iff.mpr ((h.localSenders room).trans hempty)), if_pos hempty]
    rfl
  · rw [if_neg fun hwas => hempty ((h.localSenders room).symm.trans (wasEmpty_iff.mp hwas)),
      if_neg hempty]
    exact (List.append_nil _).symm

/-! ## Leaving -/

theorem Refines.inactive (h : m.Refines view) (hoccupied : view.Occupied)
    (hlookup : m.rooms.lookup room = none) : view.leave room id = (view, none) := by
  rw [Relay.RoomManager.leave, if_neg]
  intro hactive
  refine hoccupied.mem_activeRooms.mp (List.contains_iff_mem.mp hactive) ?_
  rw [← h.localSenders, RoomManager.localSenders, hlookup]
  rfl

theorem Refines.others (h : m.Refines view) {r : Room} (hlookup : m.rooms.lookup room = some r) :
    view.othersWithId room id = (r.left id).participants := by
  rw [Relay.RoomManager.othersWithId, ← h.localSenders, localSenders_of_lookup hlookup]
  rfl

theorem Consistent.active (hconsistent : m.Consistent) (h : m.Refines view)
    (hoccupied : view.Occupied) {r : Room} (hlookup : m.rooms.lookup room = some r) :
    view.activeRooms.contains room = true := by
  refine List.contains_iff_mem.mpr (hoccupied.mem_activeRooms.mpr ?_)
  rw [← h.localSenders, localSenders_of_lookup hlookup]
  exact (hconsistent.rooms room r hlookup).2

theorem Refines.leave (h : m.Refines view) (hconsistent : m.Consistent)
    (hoccupied : view.Occupied) (room : RoomName) (id : ParticipantId) :
    (m.leave room id).1.Refines (view.leave room id).1 := by
  cases hlookup : m.rooms.lookup room with
  | none =>
      rw [leave_of_absent hlookup, h.inactive hoccupied hlookup]
      exact h
  | some r =>
      constructor
      · intro a
        by_cases ha : a = room
        · subst ha
          rw [Relay.RoomManager.localSenders_leave, h.others hlookup, RoomManager.localSenders,
            rooms_leave_self hlookup]
          split
          · rename_i hnil
            exact hnil.symm
          · rfl
        · rw [localSenders_congr (rooms_leave_ne ha id), h.localSenders,
            Relay.RoomManager.localSenders_leave_ne _ _ ha]
      · intro a i
        rw [Relay.RoomManager.leave, if_pos (hconsistent.active h hoccupied hlookup)]
        dsimp only
        rw [h.others hlookup, ← h.selectedLayer]
        by_cases hnil : (r.left id).participants = []
        · rw [selectedLayer_congr (m := (m.clearParticipantState room id).clearRoomState room)
            (by rw [leave_last_eq hlookup hnil]), selectedLayer_clearRoomState,
            selectedLayer_clearParticipantState]
          by_cases ha : a = room
          · rw [if_pos ha, if_pos ⟨ha, Or.inr hnil⟩]
          · rw [if_neg ha, if_neg fun hgone => ha hgone.1, if_neg fun hgone => ha hgone.1]
        · rw [selectedLayer_congr (m := m.clearParticipantState room id)
            (by rw [leave_eq hlookup hnil]), selectedLayer_clearParticipantState]
          exact if_congr (and_congr_right fun _ => (or_iff_left hnil).symm) rfl rfl

theorem Refines.leave_events (h : m.Refines view) (hconsistent : m.Consistent)
    (hoccupied : view.Occupied) (room : RoomName) (id : ParticipantId) :
    (m.leave room id).1.events = m.events ++ (view.leave room id).2.toList := by
  cases hlookup : m.rooms.lookup room with
  | none =>
      rw [leave_of_absent hlookup, h.inactive hoccupied hlookup]
      exact (List.append_nil _).symm
  | some r =>
      rw [Relay.RoomManager.leave, if_pos (hconsistent.active h hoccupied hlookup)]
      dsimp only
      rw [h.others hlookup]
      by_cases hnil : (r.left id).participants = []
      · rw [leave_last_eq hlookup hnil, if_pos hnil]
        rfl
      · rw [leave_eq hlookup hnil, if_neg hnil]
        exact (List.append_nil _).symm

/-! ## Any operation -/

/-- The operation concerns the tables that the view does not show. -/
def IsBeside : RoomOp → Bool
  | .join .. | .joinWs .. | .leave .. | .updateReceiverState .. => false
  | _ => true

variable {op : RoomOp}

/-- Nothing that the view shows changes. -/
structure SameView (m m' : RoomManager) : Prop where
  localSenders : ∀ room, m'.localSenders room = m.localSenders room
  receiverStates : m'.receiverStates = m.receiverStates
  events : m'.events = m.events

theorem SameView.refines {m' : RoomManager} (hsame : SameView m m') (h : m.Refines view) :
    m'.Refines view :=
  ⟨fun room => (hsame.localSenders room).trans (h.localSenders room), fun room id =>
    (selectedLayer_congr hsame.receiverStates room id).trans (h.selectedLayer room id)⟩

theorem SameRooms.sameView {m' : RoomManager} (hsame : SameRooms m m')
    (hstates : m'.receiverStates = m.receiverStates) : SameView m m' :=
  ⟨hsame.localSenders, hstates, hsame.events⟩

theorem sameView_step (h : IsBeside op = true) : SameView m (m.step op) := by
  have htrue := m.names_true
  cases op with
  | join | joinWs | leave | updateReceiverState => exact nomatch h
  | allow room fp => exact ⟨fun _ => rfl, rfl, rfl⟩
  | updateKeyframeCache room id pkt =>
      refine (updateKeyframeCache_spec htrue pkt trivial).1.sameView ?_
      rw [updateKeyframeCache]
      dsimp only
      repeat' split
      all_goals rfl
  | registerStream room id pkt =>
      refine (registerStream_spec htrue pkt trivial).1.sameView ?_
      rw [registerStream]
      split <;> rfl
  | shouldForwardPli room id streamId now =>
      refine (shouldForwardPli_spec htrue room streamId now).1.sameView ?_
      rw [shouldForwardPli]
      split
      · rfl
      · split <;> rfl
  | observeQuality room id now report =>
      refine ⟨observeQuality_localSenders m room id now report, ?_, ?_⟩
      · rw [step, observeQuality]
        split <;> rfl
      · rw [step, observeQuality]
        split <;> rfl

theorem refines_updateReceiverState (h : m.Refines view) (room : RoomName) (id : ParticipantId)
    (bwe : UInt32) (loss : UInt8) (now : ℕ) : ∃ layer : UInt8,
      (m.updateReceiverState room id bwe loss now).Refines { view with
        selectedLayer := fun r i => if r = room ∧ i = id then layer else view.selectedLayer r i } := by
  refine ⟨(m.updateReceiverState room id bwe loss now).selectedLayer room id, h.localSenders, ?_⟩
  intro a i
  dsimp only
  split
  · rename_i hself
    rw [hself.1, hself.2]
  · rename_i hother
    rw [← h.selectedLayer, selectedLayer, updateReceiverState, Table.lookup_insert_ne, selectedLayer]
    exact fun heq => hother (Prod.mk.inj heq)

theorem Refines.fresh (h : m.Refines view) (hoccupied : view.Occupied) (hfresh : m.NextFresh) :
    view.Fresh m.nextParticipantId := by
  rintro ⟨room, members⟩ hmem p hp
  refine hfresh room p ?_
  rw [h.localSenders, hoccupied.localSenders_eq hmem]
  exact hp

theorem Refines.join_moves (h : m.Refines view) (hoccupied : view.Occupied) (hfresh : m.NextFresh)
    (room : RoomName) (sender : ParticipantSender) (fingerprint «alias» : Option String) :
    ∃ event view', view.Move event view' ∧
      (m.join room sender fingerprint «alias»).1.Refines view' ∧
      (m.join room sender fingerprint «alias»).1.events = m.events ++ event.toList := by
  cases hauth : m.isAuthorized room fingerprint with
  | true => exact ⟨_, _, .join view room _ (h.fresh hoccupied hfresh),
      h.join hauth (h.fresh hoccupied hfresh), h.join_events hauth (h.fresh hoccupied hfresh)⟩
  | false =>
      rw [join_of_unauthorized hauth]
      exact ⟨none, view, .stay view, h, (List.append_nil _).symm⟩

/-- Whatever is done to the rooms, the view makes at most one move. -/
theorem refines_step (h : m.Refines view) (hconsistent : m.Consistent) (hoccupied : view.Occupied)
    (hfresh : op.isJoin = true → m.NextFresh) :
    ∃ event view', view.Move event view' ∧ (m.step op).Refines view' ∧
      (m.step op).events = m.events ++ event.toList := by
  have hbeside : ∀ {op}, IsBeside op = true → ∃ event view', view.Move event view' ∧
      (m.step op).Refines view' ∧ (m.step op).events = m.events ++ event.toList := fun hop =>
    ⟨none, view, .stay view, (sameView_step hop).refines h,
      (sameView_step hop).events.trans (List.append_nil _).symm⟩
  cases op with
  | join room sender fp al => exact h.join_moves hoccupied (hfresh rfl) room sender fp al
  | joinWs room fp => exact h.join_moves hoccupied (hfresh rfl) room .webSocket fp none
  | leave room id => exact ⟨_, _, .leave view room id, h.leave hconsistent hoccupied room id,
      h.leave_events hconsistent hoccupied room id⟩
  | updateReceiverState room id bwe loss now =>
      obtain ⟨layer, hlayer⟩ := refines_updateReceiverState h room id bwe loss now
      exact ⟨none, _, .layer view room id layer, hlayer, (List.append_nil _).symm⟩
  | allow | updateKeyframeCache | registerStream | shouldForwardPli | observeQuality =>
      exact hbeside rfl

/-! ## Every run -/

theorem refines_run {ops : List RoomOp} (h : m.Refines view) (hoccupied : view.Occupied)
    (hconsistent : m.Consistent) (hopened : m.Opened)
    (hmember : EachStep step (fun m op => op.ForMember m) m ops)
    (hfresh : EachStep step (fun m op => op.isJoin = true → m.NextFresh) m ops) :
    ∃ events view', view.Moves events view' ∧ (run step m ops).Refines view' ∧
      (run step m ops).events = m.events ++ events := by
  induction ops generalizing m view with
  | nil => exact ⟨[], view, .refl view, h, (List.append_nil _).symm⟩
  | cons op ops ih =>
      obtain ⟨hstep, hopenedStep⟩ := consistent_step hconsistent hopened hmember.1 hfresh.1
      obtain ⟨event, view', hmove, hrefines, hevent⟩ :=
        refines_step h hconsistent hoccupied hfresh.1
      obtain ⟨events, view'', hmoves, hrun, hevents⟩ :=
        ih hrefines (hmove.occupied hoccupied) hstep hopenedStep hmember.2 hfresh.2
      refine ⟨event.toList ++ events, view'', .step hmove hmoves, hrun, ?_⟩
      rw [run_cons, hevents, hevent, List.append_assoc]

/-- As long as there are ids, what federation and the media loops see of the
rooms is a run of the view from no rooms at all, with the events it makes. -/
theorem rooms_refine {start : ParticipantId} {m₀ : RoomManager} {ops : List RoomOp}
    (hnew : m₀ = new start ∨ m₀ = withAcl start)
    (hmember : EachStep step (fun m op => op.ForMember m) m₀ ops)
    (hjoins : ops.countP RoomOp.isJoin ≤ 2 ^ 64) :
    ∃ view, Relay.RoomManager.new.Moves (run step m₀ ops).events view ∧
      (run step m₀ ops).Refines view := by
  obtain ⟨acl, rfl⟩ := exists_acl hnew
  obtain ⟨hconsistent, hopened, hdrawn⟩ := initially start acl
  have hrefines : Refines ⟨∅, acl, [], start, ∅, ∅, ∅, ∅, ∅⟩ .new :=
    ⟨fun _ => rfl, fun _ _ => rfl⟩
  obtain ⟨events, view, hmoves, hrun, heq⟩ := refines_run hrefines
    Relay.RoomManager.occupied_new hconsistent hopened hmember
    (eachStep_nextFresh hdrawn ((Nat.zero_add _).symm ▸ hjoins))
  rw [List.nil_append] at heq
  exact ⟨view, heq ▸ hmoves, hrun⟩

end RoomManager
end Sfu
end Wzp.Relay
