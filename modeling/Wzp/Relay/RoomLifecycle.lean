import Mathlib.Data.List.Flatten
import Wzp.Relay.Presence

/-!
# Joining and leaving rooms

How the rooms of a relay change, and which changes are announced as room
events. A room is created by its first participant and removed with its last.
-/
namespace Wzp.Relay
open Bytes

namespace RoomManager
variable {m : RoomManager} {room other : RoomName} {p : Participant} {id : ParticipantId}

def new : RoomManager := ⟨[], fun _ _ => 0, List.nodup_nil⟩

/-- No participant of any room has the id; ids come from one counter. -/
def Fresh (m : RoomManager) (id : ParticipantId) : Prop := ∀ r ∈ m.rooms, ∀ p ∈ r.2, p.id ≠ id

instance (m : RoomManager) (id : ParticipantId) : Decidable (m.Fresh id) :=
  inferInstanceAs (Decidable (∀ r ∈ m.rooms, ∀ p ∈ r.2, p.id ≠ id))

/-- The rooms with new members for one of them; a room without members goes. -/
def putMembers (m : RoomManager) (room : RoomName) (members : List Participant) :
    List (RoomName × List Participant) :=
  if members = [] then m.rooms.filter (·.1 ≠ room)
  else (room, members) :: m.rooms.filter (·.1 ≠ room)

theorem putMembers_nodup {members : List Participant} (hids : (members.map Participant.id).Nodup)
    (hmem : ∀ p ∈ members, p ∈ m.localSenders room ∨ m.Fresh p.id) :
    ((m.putMembers room members).flatMap fun r => r.2.map Participant.id).Nodup := by
  have hrest : ((m.rooms.filter (·.1 ≠ room)).flatMap fun r => r.2.map Participant.id).Nodup :=
    m.ids_nodup.sublist (List.filter_sublist.flatMap _)
  rw [putMembers]
  split
  · exact hrest
  · rw [List.flatMap_cons]
    refine hids.append hrest fun id hin hout => ?_
    obtain ⟨p, hp, rfl⟩ := List.mem_map.mp hin
    obtain ⟨⟨name, ps⟩, hr, hid⟩ := List.mem_flatMap.mp hout
    obtain ⟨q, hq, heq⟩ := List.mem_map.mp hid
    obtain ⟨hroom, hname⟩ := List.mem_filter.mp hr
    rcases hmem p hp with hold | hfresh
    · obtain ⟨own, hown, hsenders⟩ := localSenders_mem hold
      have hsymm : Std.Symm (Function.onFun List.Disjoint fun r : RoomName × List Participant =>
          r.2.map Participant.id) := ⟨fun _ _ h x hx hy => h hy hx⟩
      have hne : (name, ps) ≠ (room, own) := fun h => of_decide_eq_true hname (Prod.mk.inj h).1
      have hdisjoint := (List.nodup_flatMap.mp m.ids_nodup).2.forall hroom hown hne
      exact hdisjoint hid (List.mem_map_of_mem (hsenders ▸ hold))
    · exact hfresh _ hroom q hq heq

/-- Who stays in the room when `p` joins it: a participant with the same
fingerprint is replaced. -/
def keptMembers (m : RoomManager) (room : RoomName) (p : Participant) : List Participant :=
  match p.fingerprint with
  | some fp => (m.localSenders room).filter (·.fingerprint ≠ some fp)
  | none => m.localSenders room

theorem keptMembers_sublist (m : RoomManager) (room : RoomName) (p : Participant) :
    (m.keptMembers room p).Sublist (m.localSenders room) := by
  rw [keptMembers]
  split
  · exact List.filter_sublist
  · exact List.Sublist.refl _

/-- Join a room; only the first participant makes an event. -/
def join (m : RoomManager) (room : RoomName) (p : Participant) (hfresh : m.Fresh p.id) :
    RoomManager × Option RoomEvent :=
  ({ rooms := m.putMembers room (m.keptMembers room p ++ [p])
     selectedLayer := fun r id =>
       if r = room ∧ id ∈ (m.localSenders room).map Participant.id ∧
         id ∉ (m.keptMembers room p).map Participant.id then 0 else m.selectedLayer r id
     ids_nodup := by
       have hsub := m.keptMembers_sublist room p
       refine putMembers_nodup ?_ fun q hq => ?_
       · rw [List.map_append]
         refine ((m.localSenders_nodup room).sublist (hsub.map _)).append
           (List.nodup_singleton _) fun id hin hout => ?_
         obtain ⟨q, hq, rfl⟩ := List.mem_map.mp hin
         obtain ⟨own, hown, hsenders⟩ := localSenders_mem (hsub.subset hq)
         exact hfresh _ hown q (hsenders ▸ hsub.subset hq) (List.mem_singleton.mp hout)
       · rcases List.mem_append.mp hq with hkept | hnew
         · exact Or.inl (hsub.subset hkept)
         · exact Or.inr (List.mem_singleton.mp hnew ▸ hfresh) },
    if m.localSenders room = [] then some (.localJoin room) else none)

/-- Leave a room; only the last participant makes an event. -/
def leave (m : RoomManager) (room : RoomName) (id : ParticipantId) :
    RoomManager × Option RoomEvent :=
  if m.activeRooms.contains room then
    let rest := m.othersWithId room id
    ({ rooms := m.putMembers room rest
       selectedLayer := fun r i =>
         if r = room ∧ (i = id ∨ rest = []) then 0 else m.selectedLayer r i
       ids_nodup := putMembers_nodup
         ((m.localSenders_nodup room).sublist (List.filter_sublist.map _))
         fun _ hp => Or.inl (List.mem_of_mem_filter hp) },
      if rest = [] then some (.localLeave room) else none)
  else (m, none)

def roomSize (m : RoomManager) (room : RoomName) : ℕ := (m.localSenders room).length

/-! ## The rooms afterwards -/

theorem lookup_filter_self (rooms : List (RoomName × List Participant)) (room : RoomName) :
    (rooms.filter (·.1 ≠ room)).lookup room = none := by
  rw [List.lookup_eq_none_iff]
  intro r hr
  rw [bne_iff_ne]
  exact fun h => of_decide_eq_true (List.mem_filter.mp hr).2 h.symm

theorem lookup_filter_ne (rooms : List (RoomName × List Participant)) (hne : other ≠ room) :
    (rooms.filter (·.1 ≠ room)).lookup other = rooms.lookup other := by
  induction rooms with
  | nil => rfl
  | cons r rooms ih =>
      obtain ⟨name, ps⟩ := r
      by_cases hname : name = room
      · subst hname
        rw [List.filter_cons_of_neg (by simp), List.lookup_cons, beq_false_of_ne hne]
        exact ih
      · rw [List.filter_cons_of_pos (by simpa using hname), List.lookup_cons, List.lookup_cons, ih]

theorem lookup_putMembers_self (m : RoomManager) (room : RoomName) (members : List Participant) :
    ((m.putMembers room members).lookup room).getD [] = members := by
  rw [putMembers]
  split
  · rename_i hnil
    rw [lookup_filter_self, hnil]
    rfl
  · rw [List.lookup_cons_self]
    rfl

theorem lookup_putMembers_ne (m : RoomManager) (hne : other ≠ room) (members : List Participant) :
    (m.putMembers room members).lookup other = m.rooms.lookup other := by
  rw [putMembers]
  split
  · exact lookup_filter_ne _ hne
  · rw [List.lookup_cons, beq_false_of_ne hne]
    exact lookup_filter_ne _ hne

@[simp] theorem localSenders_join (hfresh : m.Fresh p.id) :
    (m.join room p hfresh).1.localSenders room = m.keptMembers room p ++ [p] :=
  lookup_putMembers_self _ _ _

theorem localSenders_join_ne (hfresh : m.Fresh p.id) (hne : other ≠ room) :
    (m.join room p hfresh).1.localSenders other = m.localSenders other := by
  simp only [localSenders, join, lookup_putMembers_ne m hne]

theorem localSenders_of_inactive (h : room ∉ m.activeRooms) : m.localSenders room = [] := by
  have hnone : m.rooms.lookup room = none := by
    rw [List.lookup_eq_none_iff]
    intro r hr
    rw [bne_iff_ne]
    rintro rfl
    exact h (List.mem_map_of_mem hr)
  rw [localSenders, hnone]
  rfl

@[simp] theorem localSenders_leave (m : RoomManager) (room : RoomName) (id : ParticipantId) :
    (m.leave room id).1.localSenders room = m.othersWithId room id := by
  rw [leave]
  split
  · exact lookup_putMembers_self _ _ _
  · rename_i hnot
    rw [othersWithId, localSenders_of_inactive (mt List.contains_iff_mem.mpr hnot)]
    rfl

theorem localSenders_leave_ne (m : RoomManager) (id : ParticipantId) (hne : other ≠ room) :
    (m.leave room id).1.localSenders other = m.localSenders other := by
  rw [leave]
  split
  · simp only [localSenders, lookup_putMembers_ne m hne]
  · rfl

/-! ## Rooms are never empty -/

/-- Every room has participants, and a name of its own. -/
structure Occupied (m : RoomManager) : Prop where
  members : ∀ r ∈ m.rooms, r.2 ≠ []
  names : m.activeRooms.Nodup

theorem occupied_new : Occupied new := ⟨fun _ hr => absurd hr List.not_mem_nil, List.nodup_nil⟩

theorem Occupied.putMembers (h : m.Occupied) (room : RoomName) (members : List Participant) :
    (∀ r ∈ m.putMembers room members, r.2 ≠ []) ∧ ((m.putMembers room members).map Prod.fst).Nodup := by
  have hnames : ((m.rooms.filter (·.1 ≠ room)).map Prod.fst).Nodup :=
    List.Nodup.sublist (List.filter_sublist.map _) h.names
  rw [RoomManager.putMembers]
  split
  · exact ⟨fun r hr => h.members r (List.mem_of_mem_filter hr), hnames⟩
  · rename_i hne
    refine ⟨fun r hr => ?_, List.nodup_cons.mpr ⟨fun hmem => ?_, hnames⟩⟩
    · rcases List.mem_cons.mp hr with rfl | hr
      · exact hne
      · exact h.members r (List.mem_of_mem_filter hr)
    · obtain ⟨r, hr, hname⟩ := List.mem_map.mp hmem
      exact of_decide_eq_true (List.mem_filter.mp hr).2 hname

theorem Occupied.join (h : m.Occupied) (hfresh : m.Fresh p.id) :
    (m.join room p hfresh).1.Occupied :=
  ⟨(h.putMembers room _).1, (h.putMembers room _).2⟩

theorem Occupied.leave (h : m.Occupied) : (m.leave room id).1.Occupied := by
  rw [RoomManager.leave]
  split
  · exact ⟨(h.putMembers room _).1, (h.putMembers room _).2⟩
  · exact h

theorem Occupied.mem_activeRooms (h : m.Occupied) :
    room ∈ m.activeRooms ↔ m.localSenders room ≠ [] := by
  constructor
  · intro hmem
    rw [localSenders]
    cases hlookup : m.rooms.lookup room with
    | some members => exact h.members _ (lookup_mem hlookup)
    | none =>
        obtain ⟨r, hr, rfl⟩ := List.mem_map.mp hmem
        exact absurd rfl (bne_iff_ne.mp (List.lookup_eq_none_iff.mp hlookup r hr))
  · intro hne
    by_contra hnot
    exact hne (localSenders_of_inactive hnot)

end RoomManager
end Wzp.Relay
