import Wzp.Relay.PresenceFeed

/-!
# Convergence of federated presence

When what a relay lists for a global room is what its peer's rooms hold. Room
events are made by the first participant of a room and the last only, and the
table of the other relay is kept by room name.
-/
namespace Wzp.Relay
open Bytes Runs MirroredTable

/-- The fingerprint a participant is listed with. -/
def Participant.listedFp (p : Participant) : String := p.fingerprint.getD ""

namespace RoomManager
variable {m : RoomManager} {room other : RoomName} {p : Participant} {id : ParticipantId} {fp : String}

theorem fingerprints_eq (m : RoomManager) (room : RoomName) :
    m.fingerprints room = (m.localSenders room).map Participant.listedFp := by
  rw [fingerprints, localParticipantList, List.map_map]
  rfl

theorem listedFp_mem_fingerprints (hp : p ∈ m.localSenders room) :
    p.listedFp ∈ m.fingerprints room := by
  rw [fingerprints_eq]
  exact List.mem_map_of_mem hp

theorem notMem_fingerprints (hempty : m.localSenders room = []) : fp ∉ m.fingerprints room := by
  rw [fingerprints_eq, hempty]
  exact List.not_mem_nil

theorem fingerprints_join_ne (hfresh : m.Fresh p.id) (hne : other ≠ room) :
    (m.join room p hfresh).1.fingerprints other = m.fingerprints other := by
  rw [fingerprints_eq, fingerprints_eq, localSenders_join_ne hfresh hne]

theorem fingerprints_leave_ne (m : RoomManager) (id : ParticipantId) (hne : other ≠ room) :
    (m.leave room id).1.fingerprints other = m.fingerprints other := by
  rw [fingerprints_eq, fingerprints_eq, localSenders_leave_ne m id hne]

/-- Whom a join replaces has the fingerprint of who joins. -/
theorem mem_fingerprints_join (hfresh : m.Fresh p.id) :
    fp ∈ (m.join room p hfresh).1.fingerprints room ↔ fp ∈ m.fingerprints room ∨ fp = p.listedFp := by
  rw [fingerprints_eq, fingerprints_eq, localSenders_join, List.map_append, List.mem_append,
    List.map_cons, List.map_nil, List.mem_singleton]
  constructor
  · rintro (hkept | hnew)
    · exact Or.inl (((m.keptMembers_sublist room p).map _).subset hkept)
    · exact Or.inr hnew
  · rintro (hold | hnew)
    · by_cases hfp : fp = p.listedFp
      · exact Or.inr hfp
      · obtain ⟨q, hq, rfl⟩ := List.mem_map.mp hold
        refine Or.inl (List.mem_map_of_mem ?_)
        rw [keptMembers]
        split
        · rename_i f hf
          refine List.mem_filter.mpr ⟨hq, decide_eq_true fun heq => hfp ?_⟩
          rw [Participant.listedFp, Participant.listedFp, heq, hf]
        · exact hq
    · exact Or.inr hnew

/-- Who leaves is all that goes. -/
theorem mem_fingerprints_leave : fp ∈ m.fingerprints room ↔
    fp ∈ (m.leave room id).1.fingerprints room ∨
      ∃ q ∈ m.localSenders room, q.id = id ∧ q.listedFp = fp := by
  rw [fingerprints_eq, fingerprints_eq, localSenders_leave, othersWithId]
  constructor
  · intro hmem
    obtain ⟨q, hq, rfl⟩ := List.mem_map.mp hmem
    by_cases hid : q.id = id
    · exact Or.inr ⟨q, hq, hid, rfl⟩
    · exact Or.inl (List.mem_map_of_mem (List.mem_filter.mpr ⟨hq, decide_eq_true hid⟩))
  · rintro (hrest | ⟨q, hq, -, rfl⟩)
    · exact (List.filter_sublist.map _).subset hrest
    · exact List.mem_map_of_mem hq

end RoomManager

namespace PresenceFeed
variable {ι : Type} [DecidableEq ι] (sha : Hash) (senderFp receiverFp : ι)

/-- Who is in the sender's rooms that are the global room `g`. -/
def PresentIn (s : PresenceFeed ι) (g : RoomName) (fp : String) : Prop :=
  ∃ room, s.sender.resolveGlobalRoom sha room = some g ∧ fp ∈ s.sender.roomMgr.fingerprints room

/-- These and no others are going to be known under the name of the global room,
and no others under its further names. -/
structure Announces (s : PresenceFeed ι) (g : RoomName) : Prop where
  all : ∀ fp, fp ∈ s.announced sha senderFp g ↔ s.PresentIn sha g fp
  others : ∀ r, s.sender.resolveGlobalRoom sha r = some g →
    ∀ fp ∈ s.announced sha senderFp r, s.PresentIn sha g fp

/-- A join or a leave that the peer gets to know. Who joins was in the global
room before, or joins it under its own name while it is empty there or still to
be announced. Who leaves is still in it under some name; or leaves nobody
behind; or leaves it under its own name while it is still to be announced, and
is not listed under another one. -/
def KeepsAnnounced (s : PresenceFeed ι) (g : RoomName) : FeedStep → Prop
  | .join room p => s.sender.roomMgr.Fresh p.id → s.sender.resolveGlobalRoom sha room = some g →
      s.PresentIn sha g p.listedFp ∨
        room = g ∧ (s.sender.roomMgr.localSenders g = [] ∨ s.JoinPending sha g)
  | .leave room id => s.sender.resolveGlobalRoom sha room = some g →
      ∀ p ∈ s.sender.roomMgr.localSenders room, p.id = id →
        let rest := (s.sender.roomMgr.othersWithId room id).map Participant.listedFp
        if rest = [] then
          room = g ∧ ∀ r, r ≠ g → s.sender.resolveGlobalRoom sha r = some g →
            s.sender.roomMgr.localSenders r = []
        else if room = g ∧ s.JoinPending sha g then
          p.listedFp ∈ rest ∨ ∀ r, r ≠ g → s.sender.resolveGlobalRoom sha r = some g →
            p.listedFp ∉ s.sender.roomMgr.fingerprints r ∧ p.listedFp ∉ s.announced sha senderFp r
        else
          p.listedFp ∈ rest ∨ ∃ r, r ≠ room ∧ s.sender.resolveGlobalRoom sha r = some g ∧
            p.listedFp ∈ s.sender.roomMgr.fingerprints r
  | .dispatched => True
  | .received _ => True

/-- Joins and leaves that the peer gets to know, for every global room. -/
def KeepsPresence (s : PresenceFeed ι) (e : FeedStep) : Prop :=
  ∀ g ∈ s.sender.globalRooms, s.KeepsAnnounced sha senderFp g e

/-- Nobody is going to be listed for an empty room. -/
def Silent (s : PresenceFeed ι) : Prop :=
  ∀ room, (s.sender.resolveGlobalRoom sha room).isSome → s.sender.roomMgr.localSenders room = [] →
    s.announced sha senderFp room = []

/-- Nobody is in a room, nothing is under way, and nobody is listed. -/
structure Start (s : PresenceFeed ι) : Prop where
  linked : Linked senderFp receiverFp s
  rooms : s.sender.roomMgr = .new
  settled : s.Settled
  noRemote : s.receiver.NoRemote

variable {sha senderFp receiverFp} {s s' : PresenceFeed ι} {g room key : RoomName} {fp : String}
  {p : Participant} {id : ParticipantId} {m : RoomManager}

theorem announces_congr (hself : s.sender.resolveGlobalRoom sha g = some g)
    (hresolve : ∀ r, s'.sender.resolveGlobalRoom sha r = s.sender.resolveGlobalRoom sha r)
    (hsame : ∀ r, s.sender.resolveGlobalRoom sha r = some g →
      s'.announced sha senderFp r = s.announced sha senderFp r ∧
        s'.sender.roomMgr.fingerprints r = s.sender.roomMgr.fingerprints r)
    (h : Announces sha senderFp s g) : Announces sha senderFp s' g := by
  have hpresent : ∀ fp, s'.PresentIn sha g fp ↔ s.PresentIn sha g fp := by
    intro fp
    constructor
    · rintro ⟨r, hr, hfp⟩
      rw [hresolve] at hr
      exact ⟨r, hr, (hsame r hr).2 ▸ hfp⟩
    · rintro ⟨r, hr, hfp⟩
      exact ⟨r, (hresolve r).trans hr, (hsame r hr).2 ▸ hfp⟩
  constructor
  · intro fp
    rw [hpresent, ← h.all, (hsame g hself).1]
  · intro r hr fp hfp
    rw [hresolve] at hr
    rw [(hsame r hr).1] at hfp
    exact (hpresent fp).mpr (h.others r hr fp hfp)

/-! ## Joins -/

def joined (s : PresenceFeed ι) (room : RoomName) (p : Participant)
    (hfresh : s.sender.roomMgr.Fresh p.id) : PresenceFeed ι :=
  s.changed (s.sender.roomMgr.join room p hfresh).1
    (if s.sender.roomMgr.localSenders room = [] then some (.localJoin room) else none)

/-- A join changes nothing for other rooms. -/
theorem announced_joined_ne (sha : Hash) (senderFp : ι) (hfresh : s.sender.roomMgr.Fresh p.id)
    (hne : key ≠ room) :
    (s.joined room p hfresh).announced sha senderFp key = s.announced sha senderFp key := by
  refine announced_changed_other (RoomManager.fingerprints_join_ne hfresh hne) fun n hn old => ?_
  split at hn
  · simp only [Option.bind_some, notice] at hn
    split at hn
    · obtain rfl := Option.some.inj hn
      exact if_neg hne.symm
    · exact absurd hn.symm (Option.some_ne_none n)
  · exact absurd hn.symm (Option.some_ne_none n)

/-- The room itself is announced anew if it was empty, or if it is still to be
announced. -/
theorem announced_joined_self (senderFp : ι) (hfresh : s.sender.roomMgr.Fresh p.id)
    (hglobal : s.sender.isGlobalRoom sha room = true) :
    (s.joined room p hfresh).announced sha senderFp room =
      if s.sender.roomMgr.localSenders room = [] ∨ s.JoinPending sha room then
        (s.joined room p hfresh).sender.roomMgr.fingerprints room
      else s.announced sha senderFp room := by
  by_cases hempty : s.sender.roomMgr.localSenders room = []
  · have hnotice : notice sha s.sender (.localJoin room) = some (.refresh room) := if_pos hglobal
    rw [joined, if_pos hempty, if_pos (Or.inl hempty), announced_changed, Option.bind_some, hnotice]
    exact eventual_refresh_self
  · rw [joined, if_neg hempty, announced_changed_silent]
    simp only [hempty, false_or]
    rfl

omit [DecidableEq ι] in
theorem presentIn_joined (hfresh : s.sender.roomMgr.Fresh p.id)
    (hroom : s.sender.resolveGlobalRoom sha room = some g) :
    (s.joined room p hfresh).PresentIn sha g fp ↔ s.PresentIn sha g fp ∨ fp = p.listedFp := by
  constructor
  · rintro ⟨r, hr, hfp⟩
    by_cases hne : r = room
    · subst hne
      rcases (RoomManager.mem_fingerprints_join hfresh).mp hfp with hold | hnew
      · exact Or.inl ⟨r, hr, hold⟩
      · exact Or.inr hnew
    · exact Or.inl ⟨r, hr, RoomManager.fingerprints_join_ne hfresh hne ▸ hfp⟩
  · rintro (⟨r, hr, hfp⟩ | hnew)
    · refine ⟨r, hr, ?_⟩
      by_cases hne : r = room
      · subst hne
        exact (RoomManager.mem_fingerprints_join hfresh).mpr (Or.inl hfp)
      · exact (RoomManager.fingerprints_join_ne hfresh hne).symm ▸ hfp
    · exact ⟨room, hroom, (RoomManager.mem_fingerprints_join hfresh).mpr (Or.inr hnew)⟩

/-- Nobody else is listed under the other names after a join. -/
theorem others_joined (h : Announces sha senderFp s g) (hfresh : s.sender.roomMgr.Fresh p.id)
    (hroom : s.sender.resolveGlobalRoom sha room = some g) (r : RoomName)
    (hr : s.sender.resolveGlobalRoom sha r = some g) (fp : String)
    (hfp : fp ∈ (s.joined room p hfresh).announced sha senderFp r) :
    (s.joined room p hfresh).PresentIn sha g fp := by
  by_cases hne : r = room
  · subst hne
    rw [announced_joined_self senderFp hfresh (isGlobalRoom_iff.mpr (Option.isSome_of_eq_some hr))] at hfp
    split at hfp
    · exact ⟨r, hr, hfp⟩
    · exact (presentIn_joined hfresh hroom).mpr (Or.inl (h.others r hr fp hfp))
  · rw [announced_joined_ne sha senderFp hfresh hne] at hfp
    exact (presentIn_joined hfresh hroom).mpr (Or.inl (h.others r hr fp hfp))

/-- A join in the global room is announced to the peer exactly if it is the first
one under the room's own name, or not yet announced there, or tells nothing new. -/
theorem announces_joined (hsilent : s.Silent sha senderFp) (h : Announces sha senderFp s g)
    (hfresh : s.sender.roomMgr.Fresh p.id) (hroom : s.sender.resolveGlobalRoom sha room = some g) :
    Announces sha senderFp (s.joined room p hfresh) g ↔
      s.PresentIn sha g p.listedFp ∨
        room = g ∧ (s.sender.roomMgr.localSenders g = [] ∨ s.JoinPending sha g) := by
  have hown := announced_joined_self senderFp hfresh
    (isGlobalRoom_iff.mpr (Option.isSome_of_eq_some hroom))
  by_cases hfirst : room = g ∧ (s.sender.roomMgr.localSenders g = [] ∨ s.JoinPending sha g)
  · obtain ⟨rfl, hpending⟩ := hfirst
    refine ⟨fun _ => Or.inr ⟨rfl, hpending⟩, fun _ => ⟨fun fp => ?_, others_joined h hfresh hroom⟩⟩
    have hbefore : fp ∈ s.sender.roomMgr.fingerprints room ↔ fp ∈ s.announced sha senderFp room := by
      rcases hpending with hempty | hpending
      · rw [hsilent room (Option.isSome_of_eq_some hroom) hempty, RoomManager.fingerprints_eq, hempty]
        rfl
      · rw [announced, eventual_of_refreshing hpending]
    rw [hown, if_pos hpending, presentIn_joined hfresh hroom, ← h.all, ← hbefore]
    exact RoomManager.mem_fingerprints_join hfresh
  · have hsame : (s.joined room p hfresh).announced sha senderFp g = s.announced sha senderFp g := by
      by_cases hne : g = room
      · subst hne
        rw [hown, if_neg fun hpending => hfirst ⟨rfl, hpending⟩]
      · exact announced_joined_ne sha senderFp hfresh hne
    rw [or_iff_left hfirst]
    constructor
    · intro hafter
      rw [← h.all, ← hsame, hafter.all, presentIn_joined hfresh hroom]
      exact Or.inr rfl
    · intro hp
      refine ⟨fun fp => ?_, others_joined h hfresh hroom⟩
      rw [hsame, h.all, presentIn_joined hfresh hroom]
      constructor
      · exact Or.inl
      · rintro (hold | rfl)
        · exact hold
        · exact hp

/-! ## Leaves -/

def left (s : PresenceFeed ι) (room : RoomName) (id : ParticipantId) : PresenceFeed ι :=
  s.changed (s.sender.roomMgr.leave room id).1 (s.sender.roomMgr.leave room id).2

theorem leave_event (m : RoomManager) (room : RoomName) (id : ParticipantId) :
    (m.leave room id).2 =
      if room ∈ m.activeRooms ∧ m.othersWithId room id = [] then some (.localLeave room) else none := by
  rw [RoomManager.leave]
  by_cases hactive : room ∈ m.activeRooms
  · rw [if_pos (List.contains_iff_mem.mpr hactive)]
    by_cases hempty : m.othersWithId room id = []
    · simp only [hactive, hempty, and_self, if_true]
    · simp only [hempty, and_false, if_false]
  · rw [if_neg (mt List.contains_iff_mem.mp hactive), if_neg fun hand => hactive hand.1]

/-- A leave changes nothing for rooms that are another global room. -/
theorem announced_left_ne (sha : Hash) (senderFp : ι) (s : PresenceFeed ι) (id : ParticipantId)
    (hne : key ≠ room) (hkey : s.sender.resolveGlobalRoom sha room ≠ some key) :
    (s.left room id).announced sha senderFp key = s.announced sha senderFp key := by
  refine announced_changed_other (RoomManager.fingerprints_leave_ne _ id hne) fun n hn old => ?_
  rw [leave_event] at hn
  split at hn
  · simp only [Option.bind_some, notice] at hn
    split at hn
    · obtain rfl := Option.some.inj hn
      have hclears : clears sha s.sender room key = false := by
        rw [clears, decide_eq_false hne.symm, decide_eq_false hkey]
        rfl
      simp only [Notice.message, Message.entry, hclears, Bool.false_eq_true, if_false]
    · exact absurd hn.symm (Option.some_ne_none n)
  · exact absurd hn.symm (Option.some_ne_none n)

/-- The last one to leave a room takes the entries of the room and of its
canonical name away. -/
theorem announced_left_emptied (senderFp : ι) (hglobal : s.sender.isGlobalRoom sha room = true)
    (hactive : room ∈ s.sender.roomMgr.activeRooms)
    (hempty : s.sender.roomMgr.othersWithId room id = [])
    (hkey : room = key ∨ s.sender.resolveGlobalRoom sha room = some key) :
    (s.left room id).announced sha senderFp key = [] := by
  have hnotice : notice sha s.sender (.localLeave room) = some (.withdraw room) := if_pos hglobal
  rw [left, leave_event, if_pos ⟨hactive, hempty⟩, announced_changed, Option.bind_some, hnotice]
  refine eventual_withdraw ?_
  simp only [clears, Bool.or_eq_true, decide_eq_true_eq]
  exact hkey

/-- Any other leave shows only if the room is still to be announced. -/
theorem announced_left_silent (senderFp : ι) (hrest : s.sender.roomMgr.othersWithId room id ≠ []) :
    (s.left room id).announced sha senderFp room =
      if s.JoinPending sha room then (s.left room id).sender.roomMgr.fingerprints room
      else s.announced sha senderFp room := by
  rw [left, leave_event, if_neg fun hand => hrest hand.2, announced_changed_silent]
  rfl

theorem announced_left_silent_ne (sha : Hash) (senderFp : ι)
    (hrest : s.sender.roomMgr.othersWithId room id ≠ []) (hne : key ≠ room) :
    (s.left room id).announced sha senderFp key = s.announced sha senderFp key := by
  rw [left, leave_event, if_neg fun hand => hrest hand.2]
  exact announced_changed_other (RoomManager.fingerprints_leave_ne _ id hne)
    fun n hn => absurd hn.symm (Option.some_ne_none n)

omit [DecidableEq ι] in
theorem fingerprints_left (s : PresenceFeed ι) (room : RoomName) (id : ParticipantId) :
    (s.left room id).sender.roomMgr.fingerprints room =
      (s.sender.roomMgr.othersWithId room id).map Participant.listedFp := by
  rw [RoomManager.fingerprints_eq]
  exact congrArg _ (RoomManager.localSenders_leave _ _ _)

omit [DecidableEq ι] in
/-- Who is in the global room after a leave. -/
theorem presentIn_left (hroom : s.sender.resolveGlobalRoom sha room = some g) :
    (s.left room id).PresentIn sha g fp ↔
      fp ∈ (s.sender.roomMgr.othersWithId room id).map Participant.listedFp ∨
        ∃ r, r ≠ room ∧ s.sender.resolveGlobalRoom sha r = some g ∧
          fp ∈ s.sender.roomMgr.fingerprints r := by
  have hrest := fingerprints_left s room id
  constructor
  · rintro ⟨r, hr, hfp⟩
    by_cases hne : r = room
    · subst hne
      exact Or.inl (hrest ▸ hfp)
    · exact Or.inr ⟨r, hne, hr, RoomManager.fingerprints_leave_ne _ id hne ▸ hfp⟩
  · rintro (hfp | ⟨r, hne, hr, hfp⟩)
    · exact ⟨room, hroom, hrest.symm ▸ hfp⟩
    · exact ⟨r, hr, (RoomManager.fingerprints_leave_ne _ id hne).symm ▸ hfp⟩

omit [DecidableEq ι] in
/-- Who was in it before: those, and who has left. -/
theorem presentIn_iff_left (hroom : s.sender.resolveGlobalRoom sha room = some g) :
    s.PresentIn sha g fp ↔ (s.left room id).PresentIn sha g fp ∨
      ∃ p ∈ s.sender.roomMgr.localSenders room, p.id = id ∧ p.listedFp = fp := by
  constructor
  · rintro ⟨r, hr, hfp⟩
    by_cases hne : r = room
    · subst hne
      rcases RoomManager.mem_fingerprints_leave.mp hfp with hrest | hleft
      · exact Or.inl ⟨r, hr, hrest⟩
      · exact Or.inr hleft
    · exact Or.inl ⟨r, hr, (RoomManager.fingerprints_leave_ne _ id hne).symm ▸ hfp⟩
  · rintro (⟨r, hr, hfp⟩ | hleft)
    · refine ⟨r, hr, ?_⟩
      by_cases hne : r = room
      · subst hne
        exact RoomManager.mem_fingerprints_leave.mpr (Or.inl hfp)
      · exact RoomManager.fingerprints_leave_ne _ id hne ▸ hfp
    · exact ⟨room, hroom, RoomManager.mem_fingerprints_leave.mpr (Or.inr hleft)⟩

/-- The last one leaves a room: nobody may be left in the global room, and the
room has to be the one of its own name. -/
theorem announces_left_emptied (hself : s.sender.resolveGlobalRoom sha g = some g)
    (hsilent : s.Silent sha senderFp) (h : Announces sha senderFp s g)
    (hroom : s.sender.resolveGlobalRoom sha room = some g)
    (hactive : room ∈ s.sender.roomMgr.activeRooms)
    (hempty : s.sender.roomMgr.othersWithId room id = [])
    (hmember : p ∈ s.sender.roomMgr.localSenders room) :
    Announces sha senderFp (s.left room id) g ↔
      room = g ∧ ∀ r, r ≠ g → s.sender.resolveGlobalRoom sha r = some g →
        s.sender.roomMgr.localSenders r = [] := by
  have hglobal : s.sender.isGlobalRoom sha room = true :=
    isGlobalRoom_iff.mpr (Option.isSome_of_eq_some hroom)
  have hcleared : (s.left room id).announced sha senderFp g = [] :=
    announced_left_emptied senderFp hglobal hactive hempty (Or.inr hroom)
  have hpresent : ∀ fp, (s.left room id).PresentIn sha g fp ↔
      ∃ r, r ≠ room ∧ s.sender.resolveGlobalRoom sha r = some g ∧
        fp ∈ s.sender.roomMgr.fingerprints r := by
    intro fp
    rw [presentIn_left hroom, hempty]
    exact or_iff_right List.not_mem_nil
  constructor
  · intro hafter
    have hnobody : ∀ r, r ≠ room → s.sender.resolveGlobalRoom sha r = some g →
        s.sender.roomMgr.localSenders r = [] := by
      intro r hne hr
      by_contra hoccupied
      obtain ⟨q, hq⟩ := List.exists_mem_of_ne_nil _ hoccupied
      have hin := RoomManager.listedFp_mem_fingerprints hq
      have hmem := (hafter.all q.listedFp).mpr ((hpresent _).mpr ⟨r, hne, hr, hin⟩)
      rw [hcleared] at hmem
      exact absurd hmem List.not_mem_nil
    have hown : room = g := by
      by_contra hne
      have hnone := hsilent g (Option.isSome_of_eq_some hself) (hnobody g (fun heq => hne heq.symm) hself)
      have hmem : p.listedFp ∈ s.announced sha senderFp g :=
        (h.all _).mpr ⟨room, hroom, RoomManager.listedFp_mem_fingerprints hmember⟩
      rw [hnone] at hmem
      exact absurd hmem List.not_mem_nil
    subst hown
    exact ⟨rfl, hnobody⟩
  · rintro ⟨rfl, hnobody⟩
    have hgone : ∀ fp, ¬ (s.left room id).PresentIn sha room fp := by
      intro fp hin
      obtain ⟨r, hne, hr, hfp⟩ := (hpresent fp).mp hin
      exact RoomManager.notMem_fingerprints (hnobody r hne hr) hfp
    refine ⟨fun fp => ?_, fun r hr fp hfp => ?_⟩
    · rw [hcleared]
      exact ⟨fun hmem => absurd hmem List.not_mem_nil, fun hin => absurd hin (hgone fp)⟩
    · by_cases hne : r = room
      · rw [hne, hcleared] at hfp
        exact absurd hfp List.not_mem_nil
      · rw [announced_left_ne sha senderFp s id hne
            (fun heq => hne (Option.some.inj (heq.symm.trans hroom))),
          hsilent r (Option.isSome_of_eq_some hr) (hnobody r hne hr)] at hfp
        exact absurd hfp List.not_mem_nil

/-- Somebody leaves a room that is still to be announced. -/
theorem announces_left_pending (h : Announces sha senderFp s room)
    (hroom : s.sender.resolveGlobalRoom sha room = some room) (hpending : s.JoinPending sha room)
    (hrest : s.sender.roomMgr.othersWithId room id ≠ []) :
    Announces sha senderFp (s.left room id) room ↔
      ∀ p ∈ s.sender.roomMgr.localSenders room, p.id = id →
        p.listedFp ∈ (s.sender.roomMgr.othersWithId room id).map Participant.listedFp ∨
          ∀ r, r ≠ room → s.sender.resolveGlobalRoom sha r = some room →
            p.listedFp ∉ s.sender.roomMgr.fingerprints r ∧ p.listedFp ∉ s.announced sha senderFp r := by
  have hafter : (s.left room id).announced sha senderFp room =
      (s.sender.roomMgr.othersWithId room id).map Participant.listedFp := by
    rw [announced_left_silent senderFp hrest, if_pos hpending, fingerprints_left]
  have hother := fun r (hne : r ≠ room) => announced_left_silent_ne sha senderFp hrest hne
  have hlisted : ∀ fp, s.PresentIn sha room fp → fp ∈ s.sender.roomMgr.fingerprints room := by
    intro fp hin
    have hmem := (h.all fp).mpr hin
    rw [announced, eventual_of_refreshing hpending] at hmem
    exact hmem
  constructor
  · intro hleft p hp hid
    by_cases hstays : p.listedFp ∈ (s.sender.roomMgr.othersWithId room id).map Participant.listedFp
    · exact Or.inl hstays
    · refine Or.inr fun r hne hr => ⟨fun hin => hstays ?_, fun hin => hstays ?_⟩
      · rw [← hafter]
        exact (hleft.all _).mpr ((presentIn_left hroom).mpr (Or.inr ⟨r, hne, hr, hin⟩))
      · rw [← hafter]
        exact (hleft.all _).mpr (hleft.others r hr _ ((hother r hne).symm ▸ hin))
  · intro hkept
    -- whoever is known for the room under any name is among those who stay
    have hstays : ∀ fp, s.PresentIn sha room fp →
        (∃ r, r ≠ room ∧ s.sender.resolveGlobalRoom sha r = some room ∧
          (fp ∈ s.sender.roomMgr.fingerprints r ∨ fp ∈ s.announced sha senderFp r)) →
        fp ∈ (s.sender.roomMgr.othersWithId room id).map Participant.listedFp := by
      rintro fp hin ⟨r, hne, hr, hknown⟩
      rcases RoomManager.mem_fingerprints_leave.mp (hlisted fp hin) with hrest | ⟨p, hp, hid, rfl⟩
      · rw [← fingerprints_left]
        exact hrest
      · rcases hkept p hp hid with hrest | hnone
        · exact hrest
        · rcases hknown with hin | hin
          · exact absurd hin (hnone r hne hr).1
          · exact absurd hin (hnone r hne hr).2
    refine ⟨fun fp => ?_, fun r hr fp hfp => ?_⟩
    · rw [hafter, presentIn_left hroom]
      constructor
      · exact Or.inl
      · rintro (hrest | ⟨r, hne, hr, hin⟩)
        · exact hrest
        · exact hstays fp ⟨r, hr, hin⟩ ⟨r, hne, hr, Or.inl hin⟩
    · rw [presentIn_left hroom]
      by_cases hne : r = room
      · rw [hne, hafter] at hfp
        exact Or.inl hfp
      · rw [hother r hne] at hfp
        exact Or.inl (hstays fp (h.others r hr fp hfp) ⟨r, hne, hr, Or.inr hfp⟩)

/-- Somebody leaves a room that has been announced before, or under another name. -/
theorem announces_left_announced (h : Announces sha senderFp s g)
    (hroom : s.sender.resolveGlobalRoom sha room = some g)
    (hannounced : ¬ (room = g ∧ s.JoinPending sha g))
    (hrest : s.sender.roomMgr.othersWithId room id ≠ []) :
    Announces sha senderFp (s.left room id) g ↔
      ∀ p ∈ s.sender.roomMgr.localSenders room, p.id = id →
        p.listedFp ∈ (s.sender.roomMgr.othersWithId room id).map Participant.listedFp ∨
          ∃ r, r ≠ room ∧ s.sender.resolveGlobalRoom sha r = some g ∧
            p.listedFp ∈ s.sender.roomMgr.fingerprints r := by
  have hsame : (s.left room id).announced sha senderFp g = s.announced sha senderFp g := by
    by_cases hne : g = room
    · subst hne
      rw [announced_left_silent senderFp hrest, if_neg fun hpending => hannounced ⟨rfl, hpending⟩]
    · exact announced_left_silent_ne sha senderFp hrest hne
  constructor
  · intro hleft p hp hid
    have hin : s.PresentIn sha g p.listedFp := (presentIn_iff_left hroom).mpr (Or.inr ⟨p, hp, hid, rfl⟩)
    rw [← h.all, ← hsame, hleft.all] at hin
    exact (presentIn_left hroom).mp hin
  · intro hkept
    have hpresent : ∀ fp, s.PresentIn sha g fp ↔ (s.left room id).PresentIn sha g fp := by
      intro fp
      rw [presentIn_iff_left hroom]
      constructor
      · rintro (hin | ⟨p, hp, hid, rfl⟩)
        · exact hin
        · exact (presentIn_left hroom).mpr (hkept p hp hid)
      · exact Or.inl
    refine ⟨fun fp => ?_, fun r hr fp hfp => ?_⟩
    · rw [hsame, h.all, hpresent]
    · by_cases hne : r = room
      · subst hne
        rw [announced_left_silent senderFp hrest] at hfp
        split at hfp
        · exact ⟨r, hr, hfp⟩
        · exact (hpresent fp).mp (h.others r hr fp hfp)
      · rw [announced_left_silent_ne sha senderFp hrest hne] at hfp
        exact (hpresent fp).mp (h.others r hr fp hfp)

/-! ## Steps -/

theorem step_join (hfresh : s.sender.roomMgr.Fresh p.id) :
    s.step sha senderFp receiverFp (.join room p) = s.joined room p hfresh := by
  rw [step, dif_pos hfresh]
  rfl

theorem step_leave : s.step sha senderFp receiverFp (.leave room id) = s.left room id := rfl

omit [DecidableEq ι] in
theorem left_inactive (hactive : room ∉ s.sender.roomMgr.activeRooms) : s.left room id = s := by
  rw [left, RoomManager.leave, if_neg (mt List.contains_iff_mem.mp hactive), changed,
    Option.toList_none, List.append_nil]

theorem sender_processed (e : FeedStep) (he : e.Processes) :
    (s.step sha senderFp receiverFp e).sender = s.sender := by
  cases e with
  | join room p => exact he.elim
  | leave room id => exact he.elim
  | dispatched =>
      rw [step]
      split
      · rfl
      · rfl
  | received now =>
      rw [step]
      split
      · rfl
      · rfl

theorem announced_processed (hlinked : Linked senderFp receiverFp s) (e : FeedStep)
    (he : e.Processes) (key : RoomName) :
    (s.step sha senderFp receiverFp e).announced sha senderFp key = s.announced sha senderFp key := by
  cases e with
  | join room p => exact he.elim
  | leave room id => exact he.elim
  | dispatched => exact announced_dispatched hlinked key
  | received now => exact announced_received hlinked now key

theorem announces_iff_of_same (hself : s.sender.resolveGlobalRoom sha g = some g)
    (hsender : s'.sender = s.sender)
    (hannounced : ∀ key, s'.announced sha senderFp key = s.announced sha senderFp key) :
    Announces sha senderFp s' g ↔ Announces sha senderFp s g := by
  constructor
  · refine announces_congr (hsender ▸ hself) (fun r => by rw [hsender]) fun r _ => ?_
    exact ⟨(hannounced r).symm, by rw [hsender]⟩
  · refine announces_congr hself (fun r => by rw [hsender]) fun r _ => ?_
    exact ⟨hannounced r, by rw [hsender]⟩

theorem announces_processed (hself : s.sender.resolveGlobalRoom sha g = some g)
    (hlinked : Linked senderFp receiverFp s) (e : FeedStep) (he : e.Processes) :
    Announces sha senderFp (s.step sha senderFp receiverFp e) g ↔ Announces sha senderFp s g :=
  announces_iff_of_same hself (sender_processed e he) (announced_processed hlinked e he)

theorem announces_step_leave (hself : s.sender.resolveGlobalRoom sha g = some g)
    (hoccupied : s.sender.roomMgr.Occupied) (hsilent : s.Silent sha senderFp)
    (h : Announces sha senderFp s g) (hroom : s.sender.resolveGlobalRoom sha room = some g) :
    Announces sha senderFp (s.left room id) g ↔ s.KeepsAnnounced sha senderFp g (.leave room id) := by
  by_cases hactive : room ∈ s.sender.roomMgr.activeRooms
  · have hrest : (s.sender.roomMgr.othersWithId room id).map Participant.listedFp = [] ↔
        s.sender.roomMgr.othersWithId room id = [] := List.map_eq_nil_iff
    by_cases hempty : s.sender.roomMgr.othersWithId room id = []
    · obtain ⟨p, hp⟩ := List.exists_mem_of_ne_nil _ (hoccupied.mem_activeRooms.mp hactive)
      have hid : p.id = id := by
        by_contra hne
        have hin : p ∈ s.sender.roomMgr.othersWithId room id :=
          List.mem_filter.mpr ⟨hp, decide_eq_true hne⟩
        rw [hempty] at hin
        exact absurd hin List.not_mem_nil
      rw [announces_left_emptied hself hsilent h hroom hactive hempty hp]
      simp only [KeepsAnnounced, if_pos (hrest.mpr hempty)]
      exact ⟨fun hlast _ _ _ _ => hlast, fun hkept => hkept hroom p hp hid⟩
    · by_cases hpending : room = g ∧ s.JoinPending sha g
      · obtain ⟨rfl, hpending⟩ := hpending
        rw [announces_left_pending h hroom hpending hempty]
        simp only [KeepsAnnounced, if_neg (mt hrest.mp hempty), hpending, and_self, if_true]
        exact ⟨fun hkept _ => hkept, fun hkept => hkept hroom⟩
      · rw [announces_left_announced h hroom hpending hempty]
        simp only [KeepsAnnounced, if_neg (mt hrest.mp hempty), if_neg hpending]
        exact ⟨fun hkept _ => hkept, fun hkept => hkept hroom⟩
  · rw [left_inactive hactive]
    refine ⟨fun _ _ p hp => ?_, fun _ => h⟩
    rw [RoomManager.localSenders_of_inactive hactive] at hp
    exact absurd hp List.not_mem_nil

theorem announces_step (hself : s.sender.resolveGlobalRoom sha g = some g)
    (hlinked : Linked senderFp receiverFp s) (hoccupied : s.sender.roomMgr.Occupied)
    (hsilent : s.Silent sha senderFp) (h : Announces sha senderFp s g) (e : FeedStep) :
    Announces sha senderFp (s.step sha senderFp receiverFp e) g ↔ s.KeepsAnnounced sha senderFp g e := by
  cases e with
  | join room p =>
      by_cases hfresh : s.sender.roomMgr.Fresh p.id
      · rw [step_join hfresh]
        by_cases hroom : s.sender.resolveGlobalRoom sha room = some g
        · rw [announces_joined hsilent h hfresh hroom]
          exact ⟨fun hkept _ _ => hkept, fun hkept => hkept hfresh hroom⟩
        · refine ⟨fun _ _ hin => absurd hin hroom, fun _ => ?_⟩
          refine announces_congr hself (fun _ => rfl) (fun r hr => ?_) h
          have hne : r ≠ room := fun heq => hroom (heq ▸ hr)
          exact ⟨announced_joined_ne sha senderFp hfresh hne, RoomManager.fingerprints_join_ne hfresh hne⟩
      · rw [step, dif_neg hfresh]
        exact ⟨fun _ hin => absurd hin hfresh, fun _ => h⟩
  | leave room id =>
      rw [step_leave]
      by_cases hroom : s.sender.resolveGlobalRoom sha room = some g
      · exact announces_step_leave hself hoccupied hsilent h hroom
      · refine ⟨fun _ hin => absurd hin hroom, fun _ => ?_⟩
        refine announces_congr hself (fun _ => rfl) (fun r hr => ?_) h
        have hne : r ≠ room := fun heq => hroom (heq ▸ hr)
        have hcanonical : s.sender.resolveGlobalRoom sha room ≠ some r := by
          intro heq
          have hrg : r = g := Option.some.inj ((resolveGlobalRoom_canonical heq).symm.trans hr)
          exact hroom (hrg ▸ heq)
        exact ⟨announced_left_ne sha senderFp s id hne hcanonical,
          RoomManager.fingerprints_leave_ne _ id hne⟩
  | dispatched =>
      exact ⟨fun _ => trivial, fun _ => (announces_processed hself hlinked .dispatched trivial).mpr h⟩
  | received now =>
      exact ⟨fun _ => trivial, fun _ => (announces_processed hself hlinked (.received now) trivial).mpr h⟩

/-! ## Runs -/

theorem occupied_step (h : s.sender.roomMgr.Occupied) (e : FeedStep) :
    (s.step sha senderFp receiverFp e).sender.roomMgr.Occupied := by
  cases e with
  | join room p =>
      by_cases hfresh : s.sender.roomMgr.Fresh p.id
      · rw [step_join hfresh]
        exact h.join hfresh
      · rw [step, dif_neg hfresh]
        exact h
  | leave room id => exact h.leave
  | dispatched =>
      rw [sender_processed .dispatched trivial]
      exact h
  | received now =>
      rw [sender_processed (.received now) trivial]
      exact h

theorem silent_step (hlinked : Linked senderFp receiverFp s) (hsilent : s.Silent sha senderFp)
    (e : FeedStep) : (s.step sha senderFp receiverFp e).Silent sha senderFp := by
  have hprocessed : ∀ e : FeedStep, e.Processes →
      (s.step sha senderFp receiverFp e).Silent sha senderFp := by
    intro e he r hr hempty
    rw [sender_processed e he] at hr hempty
    rw [announced_processed hlinked e he]
    exact hsilent r hr hempty
  cases e with
  | join room p =>
      by_cases hfresh : s.sender.roomMgr.Fresh p.id
      · rw [step_join hfresh]
        intro r hr hempty
        by_cases hne : r = room
        · subst hne
          have hmembers : (s.joined r p hfresh).sender.roomMgr.localSenders r =
              s.sender.roomMgr.keptMembers r p ++ [p] := RoomManager.localSenders_join hfresh
          rw [hmembers] at hempty
          exact absurd hempty (List.append_ne_nil_of_right_ne_nil _ (List.cons_ne_nil _ _))
        · rw [announced_joined_ne sha senderFp hfresh hne]
          exact hsilent r hr ((RoomManager.localSenders_join_ne hfresh hne).symm.trans hempty)
      · rw [step, dif_neg hfresh]
        exact hsilent
  | leave room id =>
      rw [step_leave]
      by_cases hactive : room ∈ s.sender.roomMgr.activeRooms
      · intro r hr hempty
        by_cases hcleared : room = r ∨ s.sender.resolveGlobalRoom sha room = some r
        · by_cases hrest : s.sender.roomMgr.othersWithId room id = []
          · refine announced_left_emptied senderFp (isGlobalRoom_iff.mpr ?_) hactive hrest hcleared
            rcases hcleared with rfl | heq
            · exact hr
            · exact Option.isSome_of_eq_some heq
          · have hne : r ≠ room := by
              rintro rfl
              exact hrest ((RoomManager.localSenders_leave _ _ _).symm.trans hempty)
            rw [announced_left_silent_ne sha senderFp hrest hne]
            exact hsilent r hr ((RoomManager.localSenders_leave_ne _ id hne).symm.trans hempty)
        · obtain ⟨hne, hcanonical⟩ := not_or.mp hcleared
          have hne' : r ≠ room := fun heq => hne heq.symm
          rw [announced_left_ne sha senderFp s id hne' hcanonical]
          exact hsilent r hr ((RoomManager.localSenders_leave_ne _ id hne').symm.trans hempty)
      · rw [left_inactive hactive]
        exact hsilent
  | dispatched => exact hprocessed .dispatched trivial
  | received now => exact hprocessed (.received now) trivial

omit [DecidableEq ι] in
theorem resolveGlobalRoom_self {fm : FederationManager ι} (hg : g ∈ fm.globalRooms) :
    fm.resolveGlobalRoom sha g = some g := by
  rw [FederationManager.resolveGlobalRoom, if_pos hg, ite_self]

/-- What is listed for a name of the global room. -/
theorem mem_getRemoteParticipants (hlinked : Linked senderFp receiverFp s) {r : RoomName}
    (hr : s.sender.resolveGlobalRoom sha r = some g) :
    fp ∈ (s.receiver.getRemoteParticipants sha r).map RoomParticipant.fingerprint ↔
      fp ∈ s.copy senderFp g ∨ g ≠ r ∧ fp ∈ s.copy senderFp r := by
  obtain ⟨link, hlink⟩ := hlinked.peerLinks
  have hcopy : ∀ key, s.copy senderFp key = link.fingerprints key := by
    intro key
    rw [copy, FederationManager.link?, hlink, List.lookup_cons_self]
    rfl
  rw [FederationManager.getRemoteParticipants, mem_dedupFingerprints, hlink, List.flatMap_singleton,
    hlinked.resolveGlobalRoom, hr, hcopy, hcopy]
  by_cases hne : g = r
  · simp [hne, PeerLink.fingerprints]
  · simp [hne, PeerLink.fingerprints]

theorem lists_iff (hlinked : Linked senderFp receiverFp s) (hsettled : s.Settled) :
    s.Lists sha ↔ ∀ g ∈ s.sender.globalRooms, Announces sha senderFp s g := by
  have hannounced : ∀ key, s.announced sha senderFp key = s.copy senderFp key := by
    intro key
    rw [announced, notices, messages, hsettled.1, hsettled.2]
    exact eventual_settled
  have hpresent : ∀ g fp, (∃ room ∈ s.sender.roomMgr.activeRooms,
      s.sender.resolveGlobalRoom sha room = some g ∧ fp ∈ s.sender.roomMgr.fingerprints room) ↔
        s.PresentIn sha g fp := by
    intro g fp
    constructor
    · rintro ⟨room, -, hin⟩
      exact ⟨room, hin⟩
    · rintro ⟨room, hroom, hfp⟩
      refine ⟨room, ?_, hroom, hfp⟩
      by_contra hactive
      exact RoomManager.notMem_fingerprints (RoomManager.localSenders_of_inactive hactive) hfp
  refine forall₂_congr fun g hg => ?_
  have hself : s.sender.resolveGlobalRoom sha g = some g := resolveGlobalRoom_self hg
  constructor
  · intro hlists
    refine ⟨fun fp => ?_, fun r hr fp hfp => ?_⟩
    · rw [← hpresent, ← hlists g hself, mem_getRemoteParticipants hlinked hself, hannounced]
      simp only [ne_eq, not_true_eq_false, false_and, or_false]
    · rw [hannounced] at hfp
      rw [← hpresent, ← hlists r hr, mem_getRemoteParticipants hlinked hr]
      by_cases hne : g = r
      · exact Or.inl (hne ▸ hfp)
      · exact Or.inr ⟨hne, hfp⟩
  · intro h r hr fp
    rw [hpresent, ← h.all, mem_getRemoteParticipants hlinked hr, hannounced]
    constructor
    · rintro (hin | ⟨-, hin⟩)
      · exact hin
      · rw [← hannounced, h.all]
        exact h.others r hr fp (hannounced r ▸ hin)
    · exact Or.inl

/-! ## Processing what is under way -/

/-- Events and signals can be processed one after the other. -/
theorem exists_settled (sha : Hash) (senderFp receiverFp : ι) (s : PresenceFeed ι) :
    ∃ es, (∀ e ∈ es, e.Processes) ∧
      (run (step sha senderFp receiverFp) s es).Settled := by
  have hreceive : ∀ (wire : List (SignalMessage ι)) (s : PresenceFeed ι), s.events = [] →
      s.wire = wire → ∃ es, (∀ e ∈ es, e.Processes) ∧
        (run (step sha senderFp receiverFp) s es).Settled := by
    intro wire
    induction wire with
    | nil =>
        intro s hevents hwire
        exact ⟨[], fun _ he => absurd he List.not_mem_nil, hevents, hwire⟩
    | cons msg rest ih =>
        intro s hevents hwire
        obtain ⟨es, hes, hsettled⟩ := ih (s.step sha senderFp receiverFp (.received 0))
          (by simp only [step, hwire, hevents]) (by simp only [step, hwire])
        exact ⟨.received 0 :: es, List.forall_mem_cons.mpr ⟨trivial, hes⟩, hsettled⟩
  have hdispatch : ∀ (events : List RoomEvent) (s : PresenceFeed ι), s.events = events →
      ∃ es, (∀ e ∈ es, e.Processes) ∧
        (run (step sha senderFp receiverFp) s es).Settled := by
    intro events
    induction events with
    | nil => exact fun s hevents => hreceive s.wire s hevents rfl
    | cons event rest ih =>
        intro s hevents
        obtain ⟨es, hes, hsettled⟩ := ih (s.step sha senderFp receiverFp .dispatched)
          (by simp only [step, hevents])
        exact ⟨.dispatched :: es, List.forall_mem_cons.mpr ⟨trivial, hes⟩, hsettled⟩
  exact hdispatch s.events s rfl

/-- What is going to be listed does not change while it is processed. -/
theorem run_processed (hlinked : Linked senderFp receiverFp s) {es : List FeedStep}
    (hes : ∀ e ∈ es, e.Processes) :
    Linked senderFp receiverFp (run (step sha senderFp receiverFp) s es) ∧
      (run (step sha senderFp receiverFp) s es).sender = s.sender ∧
        ∀ key, (run (step sha senderFp receiverFp) s es).announced sha senderFp key =
          s.announced sha senderFp key := by
  induction es generalizing s with
  | nil => exact ⟨hlinked, rfl, fun _ => rfl⟩
  | cons e es ih =>
      obtain ⟨he, hes⟩ := List.forall_mem_cons.mp hes
      obtain ⟨hlinked', hsender, hannounced⟩ := ih (linked_step hlinked e) hes
      refine ⟨hlinked', hsender.trans (sender_processed e he), fun key => ?_⟩
      exact (hannounced key).trans (announced_processed hlinked e he key)

/-- The lists come out right exactly if the announcements do. -/
theorem converges_iff (hlinked : Linked senderFp receiverFp s) :
    s.Converges sha senderFp receiverFp ↔
      ∀ g ∈ s.sender.globalRooms, Announces sha senderFp s g := by
  have hlists : ∀ es, (∀ e ∈ es, e.Processes) →
      (run (step sha senderFp receiverFp) s es).Settled →
        ((run (step sha senderFp receiverFp) s es).Lists sha ↔
          ∀ g ∈ s.sender.globalRooms, Announces sha senderFp s g) := by
    intro es hes hsettled
    obtain ⟨hlinked', hsender, hannounced⟩ := @run_processed _ _ sha _ _ s hlinked es hes
    rw [lists_iff hlinked' hsettled, hsender]
    exact forall₂_congr fun g hg =>
      announces_iff_of_same (resolveGlobalRoom_self hg) hsender hannounced
  constructor
  · intro h
    obtain ⟨es, hes, hsettled⟩ := exists_settled sha senderFp receiverFp s
    exact (hlists es hes hsettled).mp (h es hes hsettled)
  · intro h es hes hsettled
    exact (hlists es hes hsettled).mpr h

theorem globalRooms_step (e : FeedStep) :
    (s.step sha senderFp receiverFp e).sender.globalRooms = s.sender.globalRooms := by
  cases e with
  | join room p =>
      rw [step]
      split
      · rfl
      · rfl
  | leave room id => rfl
  | dispatched => rw [sender_processed .dispatched trivial]
  | received now => rw [sender_processed (.received now) trivial]

omit [DecidableEq ι] in
theorem Start.fingerprints (h : Start senderFp receiverFp s) (room : RoomName) :
    s.sender.roomMgr.fingerprints room = [] := by
  rw [h.rooms]
  rfl

theorem Start.announced (h : Start senderFp receiverFp s) (sha : Hash) (room : RoomName) :
    s.announced sha senderFp room = [] := by
  obtain ⟨link, hlink⟩ := h.linked.peerLinks
  have hnone : link.remoteParticipants room = none :=
    h.noRemote (senderFp, link) (hlink ▸ List.mem_singleton.mpr rfl) room
  have hcopy : s.copy senderFp room = [] := by
    rw [copy, FederationManager.link?, hlink, List.lookup_cons_self, Option.map_some,
      Option.getD_some, PeerLink.fingerprints, hnone]
    rfl
  rw [PresenceFeed.announced, notices, messages, h.settled.1, h.settled.2]
  exact eventual_settled.trans hcopy

end PresenceFeed

/-! ## Two linked relays -/
namespace LinkedRelays
open PresenceFeed

def relay (localTlsFp peer : ℕ) : FederationManager ℕ :=
  { globalRooms := [Triangle.conf]
    roomMgr := .new
    localTlsFp
    peerLinks := [(peer, ⟨"", [], fun _ => none, 0⟩)]
    links_nodup := List.nodup_singleton peer
    dedup := ⟨[]⟩
    rateLimiters := fun _ => none }

def start : PresenceFeed ℕ := ⟨relay 0 1, [], [], relay 1 0⟩

def alice : Participant := ⟨1, .quic, some "alice", none⟩

def bob : Participant := ⟨2, .quic, some "bob", none⟩

theorem started : Start 0 1 start where
  linked := ⟨rfl, rfl, rfl⟩
  rooms := rfl
  settled := ⟨rfl, rfl⟩
  noRemote := by
    intro e he room
    rw [List.mem_singleton.mp he]

end LinkedRelays
end Wzp.Relay
