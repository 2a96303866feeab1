import Wzp.Relay.RoomConsistency

/-!
# Joins and leaves at the same time

A join or a leave is a sequence of sections, each under the locks it takes, and
the sections of different tasks come in any order. A participant that has
neither left nor been replaced stays in its room if no leave takes away a room
that has filled up again.
-/
namespace Wzp.Relay.Sfu
open Runs

/-! ## Tasks -/

/-- A call of `join` or `leave`, by the section it goes on with. -/
inductive Task where
  | join (room : RoomName) (sender : ParticipantSender) (fingerprint «alias» : Option String)
  | authorized (room : RoomName) (sender : ParticipantSender)
      (fingerprint «alias» : Option String)
  | entering (room : RoomName) (sender : ParticipantSender) (fingerprint «alias» : Option String)
      (wasEmpty : Bool)
  | leave (room : RoomName) (id : ParticipantId)
  | leaving (room : RoomName) (id : ParticipantId)
  | releasing (room : RoomName)
  | closing (room : RoomName)
  | clearing (room : RoomName)
  | announcing (room : RoomName)
  | returned
  deriving DecidableEq, Repr

/-- A leave keeps the entry of its room from the lookup to the release. -/
def Task.holds (room : RoomName) : Task → Bool
  | .leaving r _ | .releasing r => r = room
  | _ => false

/-- `members` are those whose join has returned `Ok` and who have neither left nor
been replaced since. To leave is to be taken out of the room. -/
structure RoomTasks where
  manager : RoomManager
  tasks : List Task
  members : List (RoomName × Participant)

inductive TaskEvent where
  | allow (room : RoomName) (fingerprint : String)
  | join (room : RoomName) (sender : ParticipantSender) (fingerprint «alias» : Option String)
  | leave (room : RoomName) (id : ParticipantId)
  | run (i : ℕ)

namespace RoomTasks

def started (start : ParticipantId) (acl : Option (Table RoomName (List String))) : RoomTasks :=
  ⟨{ RoomManager.new start with acl := acl }, [], []⟩

def held (t : RoomTasks) (room : RoomName) : Bool := t.tasks.any (Task.holds room)

def joined (t : RoomTasks) (room : RoomName) (p : Participant) : List (RoomName × Participant) :=
  (t.members.filter fun e => ¬ (e.1 = room ∧ p.fingerprint.isSome ∧
    e.2.fingerprint = p.fingerprint)) ++ [(room, p)]

def left (t : RoomTasks) (room : RoomName) (id : ParticipantId) : List (RoomName × Participant) :=
  t.members.filter fun e => ¬ (e.1 = room ∧ e.2.id = id)

/-- One section, and how the task goes on. To create or remove the entry of a
room waits until nobody holds it. -/
def perform (t : RoomTasks) : Task → RoomTasks × Task
  | .join room sender fp al =>
      (t, if t.manager.isAuthorized room fp then .authorized room sender fp al else .returned)
  | .authorized room sender fp al => (t, .entering room sender fp al (t.manager.wasEmpty room))
  | .entering room sender fp al wasEmpty =>
      if t.held room then (t, .entering room sender fp al wasEmpty)
      else
        let (m, ok) := t.manager.enter room sender fp al wasEmpty
        ({ t with manager := m, members := t.joined room ⟨ok.participantId, sender, fp, al⟩ },
          .returned)
  | .leave room id => (t, if room ∈ t.manager.rooms then .leaving room id else .returned)
  | .leaving room id =>
      let (m, r) := t.manager.depart room id
      ({ t with manager := m, members := t.left room id },
        if r.any Room.isEmpty then .releasing room else .returned)
  | .releasing room => (t, .closing room)
  | .closing room =>
      if t.held room then (t, .closing room)
      else ({ t with manager := t.manager.removeRoom room }, .clearing room)
  | .clearing room => ({ t with manager := t.manager.clearRoomState room }, .announcing room)
  | .announcing room => ({ t with manager := t.manager.send (.localLeave room) }, .returned)
  | .returned => (t, .returned)

def step (t : RoomTasks) : TaskEvent → RoomTasks
  | .allow room fp => { t with manager := t.manager.allow room fp }
  | .join room sender fp al => { t with tasks := t.tasks ++ [.join room sender fp al] }
  | .leave room id => { t with tasks := t.tasks ++ [.leave room id] }
  | .run i =>
      match t.tasks[i]? with
      | some task =>
          let (t, task) := t.perform task
          { t with tasks := t.tasks.set i task }
      | none => t

/-- The media loop of a member goes on. -/
def MembersPresent (t : RoomTasks) : Prop :=
  ∀ e ∈ t.members, t.manager.containsParticipant e.1 e.2.id

/-- A room that a leave takes away is still without participants. -/
def ClosesEmpty (t : RoomTasks) : TaskEvent → Prop
  | .run i => ∀ room, t.tasks[i]? = some (.closing room) → t.held room = false →
      t.manager.localSenders room = []
  | _ => True

instance (t : RoomTasks) : Decidable t.MembersPresent :=
  inferInstanceAs (Decidable (∀ e ∈ t.members, t.manager.containsParticipant e.1 e.2.id = true))

/-! ## Tasks that nobody interrupts -/

/-- The next sections of a task, one after another. -/
def performs (t : RoomTasks) (task : Task) : ℕ → RoomTasks × Task
  | 0 => (t, task)
  | n + 1 => (t.perform task).1.performs (t.perform task).2 n

variable {t : RoomTasks} {room : RoomName} {e : TaskEvent}

theorem performs_entering (hfree : t.held room = false) (sender : ParticipantSender)
    (fingerprint «alias» : Option String) (wasEmpty : Bool) :
    (t.performs (.entering room sender fingerprint «alias» wasEmpty) 1).1.manager =
      (t.manager.enter room sender fingerprint «alias» wasEmpty).1 := by
  rw [performs, perform, hfree]
  rfl

theorem performs_join (hfree : t.held room = false) (sender : ParticipantSender)
    (fingerprint «alias» : Option String) :
    (t.performs (.join room sender fingerprint «alias») 3).1.manager =
      (t.manager.join room sender fingerprint «alias»).1 := by
  rw [RoomManager.join, performs, perform]
  cases t.manager.isAuthorized room fingerprint with
  | false => rfl
  | true => exact performs_entering hfree sender fingerprint «alias» (t.manager.wasEmpty room)

theorem performs_closing (hfree : t.held room = false) :
    (t.performs (.closing room) 3).1.manager =
      ((t.manager.removeRoom room).clearRoomState room).send (.localLeave room) := by
  rw [performs, perform, hfree]
  rfl

theorem performs_leave (hfree : t.held room = false) (id : ParticipantId) :
    (t.performs (.leave room id) 6).1.manager = (t.manager.leave room id).1 := by
  rw [RoomManager.leave, performs, perform]
  cases hlookup : t.manager.rooms.lookup room with
  | none =>
      have habsent : room ∉ t.manager.rooms := AList.lookup_eq_none.mp hlookup
      rw [if_neg habsent, RoomManager.depart, hlookup]
      rfl
  | some r =>
      have hpresent : room ∈ t.manager.rooms := AList.lookup_isSome.mp (hlookup ▸ rfl)
      rw [if_pos hpresent, performs, perform, RoomManager.depart, hlookup]
      dsimp only [Option.any]
      by_cases hempty : (Room.remove { r with qualities := r.qualities.erase id } id).isEmpty = true
      · rw [if_pos hempty, if_pos hempty]
        exact performs_closing hfree
      · rw [if_neg hempty, if_neg hempty]
        rfl

/-! ## Who is in a room -/

/-- The rooms hold exactly the members. -/
def Tracks (t : RoomTasks) : Prop :=
  ∀ room p, p ∈ t.manager.localSenders room ↔ (room, p) ∈ t.members

theorem Tracks.membersPresent (h : t.Tracks) : t.MembersPresent := by
  rintro ⟨room, p⟩ hmem
  exact RoomManager.containsParticipant_iff.mpr (List.mem_map_of_mem ((h room p).mpr hmem))

/-- Neither the rooms nor the members change. -/
theorem Tracks.of_rooms {t' : RoomTasks} (h : t.Tracks)
    (hrooms : t'.manager.rooms = t.manager.rooms) (hmembers : t'.members = t.members) :
    t'.Tracks := by
  intro room p
  rw [hmembers, RoomManager.localSenders_congr (m := t.manager) (by rw [hrooms])]
  exact h room p

/-! ### Sections that change the rooms -/

theorem enter_participantId (m : RoomManager) (room : RoomName) (sender : ParticipantSender)
    (fingerprint «alias» : Option String) (wasEmpty : Bool) :
    (m.enter room sender fingerprint «alias» wasEmpty).2.participantId = m.nextParticipantId :=
  (RoomManager.SameRooms.clearParticipants room
    ((m.roomOrNew room).replace fingerprint).2).next

theorem Tracks.enter (h : t.Tracks) (room : RoomName) (sender : ParticipantSender)
    (fp al : Option String) (wasEmpty : Bool) (tasks : List Task) :
    Tracks ⟨(t.manager.enter room sender fp al wasEmpty).1, tasks,
      t.joined room ⟨t.manager.nextParticipantId, sender, fp, al⟩⟩ := by
  intro a p
  rw [RoomManager.mem_localSenders_enter, h, joined, List.mem_append, List.mem_filter,
    decide_eq_true_eq, List.mem_singleton, Prod.mk.injEq]

theorem Tracks.depart (h : t.Tracks) (room : RoomName) (id : ParticipantId) (tasks : List Task) :
    Tracks ⟨(t.manager.depart room id).1, tasks, t.left room id⟩ := by
  intro a p
  rw [RoomManager.mem_localSenders_depart, h, left, List.mem_filter, decide_eq_true_eq]

theorem Tracks.removeRoom (h : t.Tracks) (hempty : t.manager.localSenders room = [])
    (tasks : List Task) : Tracks ⟨t.manager.removeRoom room, tasks, t.members⟩ :=
  fun a p => (RoomManager.mem_localSenders_removeRoom hempty).trans (h a p)

/-! ## Every run -/

/-- The room is not in the way of a section that waits for its entry. -/
theorem perform_tracks (h : t.Tracks) (task : Task)
    (hempty : ∀ room, task = .closing room → t.held room = false →
      t.manager.localSenders room = []) (tasks : List Task) :
    Tracks { (t.perform task).1 with tasks := tasks } := by
  cases task with
  | join | authorized | leave | releasing | returned => exact h.of_rooms rfl rfl
  | clearing | announcing => exact h.of_rooms rfl rfl
  | entering room sender fp al wasEmpty =>
      rw [perform]
      split
      · exact h.of_rooms rfl rfl
      · dsimp only
        rw [enter_participantId]
        exact h.enter room sender fp al wasEmpty tasks
  | leaving room id => exact h.depart room id tasks
  | closing room =>
      rw [perform]
      split
      · exact h.of_rooms rfl rfl
      · rename_i hfree
        exact h.removeRoom (hempty room rfl (Bool.eq_false_iff.mpr hfree)) tasks

theorem tracks_step (h : t.Tracks) (hempty : t.ClosesEmpty e) : (t.step e).Tracks := by
  cases e with
  | allow | join | leave => exact h.of_rooms rfl rfl
  | run i =>
      rw [step]
      cases htask : t.tasks[i]? with
      | none => exact h
      | some task =>
          exact perform_tracks h task (fun room hclosing => hempty room (hclosing ▸ htask)) _

/-- With the room go the members in it. -/
theorem not_membersPresent_step (h : t.Tracks) (hfull : ¬ t.ClosesEmpty e) :
    ¬ (t.step e).MembersPresent := by
  cases e with
  | allow | join | leave => exact absurd trivial hfull
  | run i =>
      obtain ⟨room, hroom⟩ := not_forall.mp hfull
      obtain ⟨htask, hclosed⟩ := Classical.not_imp.mp hroom
      obtain ⟨hfree, hne⟩ := Classical.not_imp.mp hclosed
      obtain ⟨p, hp⟩ := List.exists_mem_of_ne_nil _ hne
      intro hpresent
      rw [step, htask] at hpresent
      dsimp only at hpresent
      rw [perform, if_neg (Bool.eq_false_iff.mp hfree)] at hpresent
      have hcontains := hpresent (room, p) ((h room p).mp hp)
      rw [RoomManager.containsParticipant_iff, RoomManager.localSenders, RoomManager.removeRoom,
        Table.lookup_erase_self] at hcontains
      exact List.not_mem_nil hcontains

/-- In whatever order the sections of joins and leaves come, the members stay in
their rooms exactly as long as every room that is taken away is empty then. -/
theorem members_stay_iff (start : ParticipantId) (acl : Option (Table RoomName (List String)))
    (es : List TaskEvent) :
    Throughout step MembersPresent (started start acl) es ↔
      EachStep step ClosesEmpty (started start acl) es := by
  have hinitial : (started start acl).Tracks := fun _ _ =>
    iff_of_false List.not_mem_nil List.not_mem_nil
  have hempty : ∀ t e, Tracks t → MembersPresent (step t e) → ClosesEmpty t e :=
    fun t e h hpresent => not_not.mp fun hfull => not_membersPresent_step h hfull hpresent
  refine throughout_iff_eachStep (I := Tracks) ?_ ?_ hinitial hinitial.membersPresent
  · intro t e h _ hpresent
    exact tracks_step h (hempty t e h hpresent)
  · intro t e h _
    exact ⟨hempty t e h, fun hclosed => (tracks_step h hclosed).membersPresent⟩

/-- Between the last participant's release and the removal of its room somebody
else comes in. -/
theorem newcomer_removed :
    ¬ Throughout step MembersPresent (started 1 none)
      [.join [7] .quic (some "ab") none, .run 0, .run 0, .run 0,
        .leave [7] 1, .run 1, .run 1, .run 1,
        .join [7] .quic (some "cd") none, .run 2, .run 2, .run 2,
        .run 1] := by
  decide

end RoomTasks
end Wzp.Relay.Sfu
