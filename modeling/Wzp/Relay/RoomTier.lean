import Mathlib.Order.Bounds.Basic
import Wzp.Relay.RoomConsistency

/-!
# The tier of a room

A room keeps a tier beside those of its participants. Only reports of quality
bring it up to date, while joins and leaves change who the weakest is.
-/
namespace Wzp.Relay.Sfu
open Bytes Proto Runs

theorem ParticipantQuality.observe_unchanged (pq : ParticipantQuality) {now : ℕ}
    {report : QualityReport} (h : (pq.observe now report).2 = none) :
    (pq.observe now report).1.currentTier = pq.currentTier := by
  rw [observe] at h ⊢
  split at h
  · exact nomatch h
  · rename_i hsame
    rw [if_neg hsame]

/-! ## The weakest participant -/
namespace Room
variable {r : Room} {id : ParticipantId} {t : Tier}

def tierOf (r : Room) (id : ParticipantId) : Option Tier :=
  (r.qualities.lookup id).map ParticipantQuality.currentTier

/-- The tiers of those present. -/
def memberTiers (r : Room) : Set Tier := {t | ∃ p ∈ r.participants, r.tierOf p.id = some t}

/-- The room's tier is the weakest of those present. -/
def AtWeakest (r : Room) : Prop := r.participants ≠ [] → IsLeast r.memberTiers r.currentTier

/-- Every quality belongs to someone present. -/
def Attributed (r : Room) : Prop := ∀ id ∈ r.qualities, id ∈ r.participants.map Participant.id

theorem tierOf_eq_some :
    r.tierOf id = some t ↔ ∃ pq, r.qualities.lookup id = some pq ∧ pq.currentTier = t :=
  Option.map_eq_some_iff

theorem Attributed.mem_memberTiers (h : r.Attributed) :
    t ∈ r.memberTiers ↔ t ∈ r.qualities.values.map ParticipantQuality.currentTier := by
  rw [List.mem_map]
  constructor
  · rintro ⟨p, -, htier⟩
    obtain ⟨pq, hlookup, rfl⟩ := tierOf_eq_some.mp htier
    exact ⟨pq, Table.mem_values.mpr ⟨p.id, hlookup⟩, rfl⟩
  · rintro ⟨pq, hmem, rfl⟩
    obtain ⟨id, hlookup⟩ := Table.mem_values.mp hmem
    obtain ⟨p, hp, rfl⟩ := List.mem_map.mp (h id (AList.lookup_isSome.mp (hlookup ▸ rfl)))
    exact ⟨p, hp, tierOf_eq_some.mpr ⟨pq, hlookup, rfl⟩⟩

theorem Attributed.new : Room.new.Attributed := fun id hid => absurd hid (AList.notMem_empty id)

/-! ### Replacing and joining -/

theorem replace_currentTier (r : Room) (fingerprint : Option String) :
    (r.replace fingerprint).1.currentTier = r.currentTier := by
  cases fingerprint <;> rfl

theorem mem_replace_qualities {fingerprint : Option String} :
    id ∈ (r.replace fingerprint).1.qualities ↔
      id ∈ r.qualities ∧ id ∉ (r.replace fingerprint).2 := by
  cases fingerprint with
  | none => exact (and_iff_left List.not_mem_nil).symm
  | some fp => exact Table.mem_foldl_erase _

theorem tierOf_replace {fingerprint : Option String}
    (h : (r.replace fingerprint).1.tierOf id = some t) : r.tierOf id = some t := by
  obtain ⟨pq, hlookup, rfl⟩ := tierOf_eq_some.mp h
  refine tierOf_eq_some.mpr ⟨pq, ?_, rfl⟩
  cases fingerprint with
  | none => exact hlookup
  | some fp => exact Table.lookup_of_foldl_erase hlookup

theorem Attributed.admitted (h : r.Attributed) (id : ParticipantId) (sender : ParticipantSender)
    (fingerprint «alias» : Option String) :
    (r.admitted id sender fingerprint «alias»).Attributed := by
  intro j hj
  rw [Room.admitted, Room.add, List.map_append, List.mem_append]
  rcases Table.mem_insert.mp hj with rfl | hold
  · exact Or.inr (List.mem_singleton.mpr rfl)
  · obtain ⟨hmem, hkept⟩ := mem_replace_qualities.mp hold
    obtain ⟨p, hp, rfl⟩ := List.mem_map.mp (h j hmem)
    refine Or.inl (List.mem_map_of_mem (mem_replace.mpr ⟨hp, fun hsome hfp => hkept ?_⟩))
    exact mem_replaced.mpr ⟨p, hp, ⟨hsome, hfp⟩, rfl⟩

/-- Someone whom the new participant does not replace has the tier. -/
def Keeps (r : Room) (id : ParticipantId) (fingerprint : Option String) (t : Tier) : Prop :=
  ∃ p ∈ (r.replace fingerprint).1.participants, p.id ≠ id ∧
    (r.replace fingerprint).1.tierOf p.id = some t

theorem mem_memberTiers_admitted {sender : ParticipantSender} {fingerprint «alias» : Option String} :
    t ∈ (r.admitted id sender fingerprint «alias»).memberTiers ↔
      t = .good ∨ r.Keeps id fingerprint t := by
  have hnew : (r.admitted id sender fingerprint «alias»).tierOf id = some .good := by
    rw [tierOf, Room.admitted, Table.lookup_insert_self]
    rfl
  have hold : ∀ j, j ≠ id → (r.admitted id sender fingerprint «alias»).tierOf j =
      (r.replace fingerprint).1.tierOf j := fun j hj => by
    rw [tierOf, Room.admitted, Table.lookup_insert_ne hj, tierOf]
  constructor
  · rintro ⟨p, hp, htier⟩
    by_cases hid : p.id = id
    · rw [hid, hnew] at htier
      exact Or.inl (Option.some.inj htier).symm
    · rw [hold p.id hid] at htier
      rcases List.mem_append.mp hp with hkept | hlast
      · exact Or.inr ⟨p, hkept, hid, htier⟩
      · obtain rfl := List.mem_singleton.mp hlast
        exact absurd rfl hid
  · rintro (rfl | ⟨p, hp, hid, htier⟩)
    · exact ⟨_, List.mem_append_right _ List.mem_cons_self, hnew⟩
    · exact ⟨p, List.mem_append_left _ hp, (hold p.id hid).trans htier⟩

/-- The room's tier is not above that of a new participant, and if it is below,
someone who stays has it. -/
def JoinKeepsTier (r : Room) (id : ParticipantId) (fingerprint : Option String) : Prop :=
  r.currentTier = .good ∨ r.currentTier < .good ∧ r.Keeps id fingerprint r.currentTier

theorem AtWeakest.admitted_iff (h : r.AtWeakest) {sender : ParticipantSender}
    {fingerprint «alias» : Option String} :
    (r.admitted id sender fingerprint «alias»).AtWeakest ↔ r.JoinKeepsTier id fingerprint := by
  have htier : (r.admitted id sender fingerprint «alias»).currentTier = r.currentTier :=
    replace_currentTier r fingerprint
  have hne : (r.admitted id sender fingerprint «alias»).participants ≠ [] :=
    List.append_ne_nil_of_right_ne_nil _ (List.cons_ne_nil _ _)
  have hkept : ∀ t, r.Keeps id fingerprint t → r.currentTier ≤ t := by
    rintro t ⟨p, hp, -, hpt⟩
    have hmem := (mem_replace.mp hp).1
    exact (h (List.ne_nil_of_mem hmem)).2 ⟨p, hmem, tierOf_replace hpt⟩
  rw [AtWeakest, htier, JoinKeepsTier]
  constructor
  · intro hleast
    obtain ⟨hmem, hlower⟩ := hleast hne
    rcases mem_memberTiers_admitted.mp hmem with hgood | hkeeps
    · exact Or.inl hgood
    · exact (hlower (mem_memberTiers_admitted.mpr (Or.inl rfl))).eq_or_lt.imp_right fun hlt =>
        ⟨hlt, hkeeps⟩
  · intro hkeeps _
    refine ⟨mem_memberTiers_admitted.mpr (hkeeps.imp_right And.right), fun t ht => ?_⟩
    rcases mem_memberTiers_admitted.mp ht with rfl | hstay
    · exact hkeeps.elim le_of_eq fun hlow => hlow.1.le
    · exact hkept t hstay

/-! ### Leaving -/

theorem left_currentTier (r : Room) (id : ParticipantId) : (r.left id).currentTier = r.currentTier :=
  rfl

theorem memberTiers_left_subset (r : Room) (id : ParticipantId) :
    (r.left id).memberTiers ⊆ r.memberTiers := by
  rintro t ⟨p, hp, htier⟩
  have hid : p.id ≠ id := of_decide_eq_true (List.mem_filter.mp hp).2
  refine ⟨p, List.mem_of_mem_filter hp, ?_⟩
  rw [tierOf, Room.left, remove, Table.lookup_erase_ne hid] at htier
  exact htier

theorem Attributed.left (h : r.Attributed) (id : ParticipantId) : (r.left id).Attributed := by
  intro j hj
  obtain ⟨hne, hmem⟩ := Table.mem_erase.mp hj
  obtain ⟨p, hp, rfl⟩ := List.mem_map.mp (h j hmem)
  exact List.mem_map_of_mem (List.mem_filter.mpr ⟨hp, decide_eq_true hne⟩)

/-- Someone who stays has the room's tier, unless nobody stays. -/
def LeaveKeepsTier (r : Room) (id : ParticipantId) : Prop :=
  (r.left id).participants = [] ∨ r.currentTier ∈ (r.left id).memberTiers

theorem AtWeakest.left_iff (h : r.AtWeakest) (id : ParticipantId) :
    (r.left id).AtWeakest ↔ r.LeaveKeepsTier id := by
  rw [AtWeakest, left_currentTier, LeaveKeepsTier]
  constructor
  · intro hleast
    by_cases hnil : (r.left id).participants = []
    · exact Or.inl hnil
    · exact Or.inr (hleast hnil).1
  · rintro hkeeps hne
    refine ⟨hkeeps.resolve_left hne, fun t ht => ?_⟩
    have hmem := memberTiers_left_subset r id ht
    obtain ⟨p, hp, -⟩ := hmem
    exact (h (List.ne_nil_of_mem hp)).2 (memberTiers_left_subset r id ht)

end Room

theorem weakestTier_isLeast {qualities : List ParticipantQuality} (hne : qualities ≠ []) :
    IsLeast {t | t ∈ qualities.map ParticipantQuality.currentTier} (weakestTier qualities) := by
  have hsome : ((qualities.map ParticipantQuality.currentTier).min?).isSome := by
    rw [List.isSome_min?_iff]
    exact mt List.map_eq_nil_iff.mp hne
  obtain ⟨t, ht⟩ := Option.isSome_iff_exists.mp hsome
  rw [weakestTier, ht]
  exact List.min?_eq_some_iff.mp ht

namespace Room
variable {r : Room} {id : ParticipantId} {now : ℕ} {report : QualityReport}

/-! ### Observing -/

theorem Attributed.observe (h : r.Attributed) : (r.observe id now report).1.Attributed := by
  intro j hj
  rw [observe_participants]
  exact h j (mem_observe_qualities.mp hj)

theorem memberTiers_insert {pq pq' : ParticipantQuality} (hlookup : r.qualities.lookup id = some pq)
    (htier : pq'.currentTier = pq.currentTier) :
    memberTiers { r with qualities := r.qualities.insert id pq' } = r.memberTiers := by
  have hsame : ∀ j, tierOf { r with qualities := r.qualities.insert id pq' } j = r.tierOf j := by
    intro j
    rw [tierOf, Table.lookup_insert, tierOf]
    split
    · rename_i hj
      rw [hj, hlookup]
      exact congrArg some htier
    · rfl
  ext t
  exact exists_congr fun p => and_congr_right fun _ => by rw [hsame]

/-- Either no tier changes, or the room is brought up to date. -/
theorem observe_cases (r : Room) (id : ParticipantId) (now : ℕ) (report : QualityReport) :
    ((r.observe id now report).1.memberTiers = r.memberTiers ∧
      (r.observe id now report).1.currentTier = r.currentTier) ∨
    ((r.observe id now report).1.qualities.values ≠ [] ∧
      (r.observe id now report).1.currentTier =
        weakestTier (r.observe id now report).1.qualities.values) := by
  rw [observe]
  cases hlookup : r.qualities.lookup id with
  | none => exact Or.inl ⟨rfl, rfl⟩
  | some pq =>
      have hne : (r.qualities.insert id (pq.observe now report).1).values ≠ [] :=
        List.ne_nil_of_mem (Table.mem_values.mpr ⟨id, Table.lookup_insert_self _ _ _⟩)
      dsimp only
      split
      · rename_i hsame
        rcases hsame with hunchanged | hweakest
        · refine Or.inl ⟨memberTiers_insert hlookup ?_, rfl⟩
          exact pq.observe_unchanged (Option.isNone_iff_eq_none.mp hunchanged)
        · exact Or.inr ⟨hne, hweakest.symm⟩
      · exact Or.inr ⟨hne, rfl⟩

theorem AtWeakest.observe (h : r.AtWeakest) (hattributed : r.Attributed) :
    (r.observe id now report).1.AtWeakest := by
  intro hne
  rw [observe_participants] at hne
  rcases observe_cases r id now report with ⟨htiers, hcurrent⟩ | ⟨hvalues, hcurrent⟩
  · rw [htiers, hcurrent]
    exact h hne
  · have hmembers : (r.observe id now report).1.memberTiers =
        {t | t ∈ (r.observe id now report).1.qualities.values.map ParticipantQuality.currentTier} :=
      Set.ext fun t => hattributed.observe.mem_memberTiers
    rw [hmembers, hcurrent]
    exact weakestTier_isLeast hvalues

/-- The room's tier changes only with a directive, which carries its profile. -/
theorem observe_directive (r : Room) (id : ParticipantId) (now : ℕ) (report : QualityReport) :
    ((r.observe id now report).2 = none ∧
      (r.observe id now report).1.currentTier = r.currentTier) ∨
    ∃ d, (r.observe id now report).2 = some d ∧
      d.recommendedProfile = (r.observe id now report).1.currentTier.profile := by
  rw [observe]
  cases r.qualities.lookup id with
  | none => exact Or.inl ⟨rfl, rfl⟩
  | some pq =>
      dsimp only
      split
      · exact Or.inl ⟨rfl, rfl⟩
      · exact Or.inr ⟨_, rfl, rfl⟩

end Room

/-! ## Directives -/

def RoomOp.room : RoomOp → RoomName
  | .allow room _ | .join room _ _ _ | .joinWs room _ | .leave room _
  | .updateKeyframeCache room _ _ | .registerStream room _ _ | .updateReceiverState room _ _ _ _
  | .shouldForwardPli room _ _ _ | .observeQuality room _ _ _ => room

namespace RoomManager
variable {m : RoomManager} {room : RoomName} {op : RoomOp}

/-- The directive that is broadcast to a room after an operation. -/
def directiveTo (m : RoomManager) (room : RoomName) : RoomOp → Option QualityDirective
  | .observeQuality a id now report =>
      if a = room then (m.observeQuality a id now report).2.map Prod.fst else none
  | _ => none

theorem directiveTo_ne (hne : room ≠ op.room) : m.directiveTo room op = none := by
  cases op with
  | observeQuality a id now report => exact if_neg (Ne.symm hne)
  | _ => rfl

theorem directiveTo_observe {r : Room} {id : ParticipantId} {now : ℕ} {report : QualityReport}
    (hlookup : m.rooms.lookup room = some r) :
    m.directiveTo room (.observeQuality room id now report) = (r.observe id now report).2 := by
  rw [directiveTo, if_pos rfl, observeQuality, hlookup, Option.map_map]
  exact Option.map_id'

theorem rooms_observe_self (id : ParticipantId) (now : ℕ) (report : QualityReport) :
    (m.observeQuality room id now report).1.rooms.lookup room =
      (m.rooms.lookup room).map fun r => (r.observe id now report).1 := by
  cases hlookup : m.rooms.lookup room with
  | none =>
      rw [observeQuality_of_absent hlookup, hlookup]
      rfl
  | some r =>
      rw [observeQuality_eq hlookup, Table.lookup_insert_self]
      rfl

/-- An operation touches one room. -/
theorem rooms_step_ne (hne : room ≠ op.room) :
    (m.step op).rooms.lookup room = m.rooms.lookup room := by
  have hbeside : ∀ {m'}, SameRooms m m' ∧ m'.Names (fun _ _ => True) →
      m'.rooms.lookup room = m.rooms.lookup room := fun h => by rw [h.1.rooms]
  cases op with
  | allow a fp => rfl
  | join a sender fp al => exact rooms_join_ne hne sender fp al
  | joinWs a fp => exact rooms_join_ne hne .webSocket fp none
  | leave a id => exact rooms_leave_ne hne id
  | updateKeyframeCache a id pkt => exact hbeside (updateKeyframeCache_spec m.names_true pkt trivial)
  | registerStream a id pkt => exact hbeside (registerStream_spec m.names_true pkt trivial)
  | updateReceiverState a id bwe loss now => rfl
  | shouldForwardPli a id streamId now =>
      exact hbeside (shouldForwardPli_spec m.names_true a streamId now)
  | observeQuality a id now report =>
      cases hlookup : m.rooms.lookup a with
      | none => rw [step, observeQuality_of_absent hlookup]
      | some r =>
          rw [step, observeQuality_eq hlookup]
          exact Table.lookup_insert_ne hne

end RoomManager

/-- The rooms, and for each the directive that was last broadcast to it. -/
structure Broadcasts where
  manager : RoomManager
  lastDirective : RoomName → Option QualityDirective

namespace Broadcasts

def start (m : RoomManager) : Broadcasts := ⟨m, fun _ => none⟩

/-- A room that is closed has had no directive. -/
def step (s : Broadcasts) (op : RoomOp) : Broadcasts :=
  { manager := s.manager.step op
    lastDirective := fun room =>
      if ((s.manager.step op).rooms.lookup room).isSome then
        (s.manager.directiveTo room op).or (s.lastDirective room)
      else none }

/-- Every room has the tier of its weakest member, and was last told so. -/
def TiersCurrent (s : Broadcasts) : Prop :=
  ∀ room r, s.manager.rooms.lookup room = some r →
    r.AtWeakest ∧ ∀ d, s.lastDirective room = some d → d.recommendedProfile = r.currentTier.profile

/-- When a join or a leave does not take the tier of the room away. -/
def KeepsTier (s : Broadcasts) : RoomOp → Prop
  | .join room _ fingerprint _ | .joinWs room fingerprint =>
      s.manager.isAuthorized room fingerprint = true →
        (s.manager.roomOrNew room).JoinKeepsTier s.manager.nextParticipantId fingerprint
  | .leave room id => ∀ r, s.manager.rooms.lookup room = some r → r.LeaveKeepsTier id
  | _ => True

/-! ## What is known of every room -/

structure Sound (s : Broadcasts) : Prop where
  attributed : ∀ room r, s.manager.rooms.lookup room = some r → r.Attributed
  told : ∀ room r, s.manager.rooms.lookup room = some r →
    ∀ d, s.lastDirective room = some d → d.recommendedProfile = r.currentTier.profile
  closed : ∀ room, s.manager.rooms.lookup room = none → s.lastDirective room = none

variable {s : Broadcasts} {op : RoomOp} {room : RoomName}

theorem lastDirective_step (s : Broadcasts) (op : RoomOp) (room : RoomName) :
    (s.step op).lastDirective room =
      if ((s.manager.step op).rooms.lookup room).isSome then
        (s.manager.directiveTo room op).or (s.lastDirective room)
      else none := rfl

theorem lastDirective_ne (h : s.Sound) (hne : room ≠ op.room) :
    (s.step op).lastDirective room = s.lastDirective room := by
  rw [lastDirective_step, RoomManager.directiveTo_ne hne, RoomManager.rooms_step_ne hne,
    Option.none_or]
  split
  · rfl
  · rename_i hnone
    exact (h.closed room (Option.not_isSome_iff_eq_none.mp hnone)).symm

theorem lastDirective_self {r : Room}
    (hlookup : (s.manager.step op).rooms.lookup room = some r) :
    (s.step op).lastDirective room =
      (s.manager.directiveTo room op).or (s.lastDirective room) := by
  rw [lastDirective_step, hlookup]
  exact if_pos rfl

/-- The room as the operation leaves it. -/
structure Touched (s : Broadcasts) (op : RoomOp) (r : Room) : Prop where
  attributed : r.Attributed
  told : ∀ d, (s.manager.directiveTo op.room op).or (s.lastDirective op.room) = some d →
    d.recommendedProfile = r.currentTier.profile

theorem touched_of_same (h : s.Sound) {r : Room} (hlookup : s.manager.rooms.lookup op.room = some r)
    (hdirective : s.manager.directiveTo op.room op = none) : Touched s op r :=
  ⟨h.attributed _ r hlookup, fun d hd => h.told _ r hlookup d (by rwa [hdirective] at hd)⟩

theorem touched_admitted (h : s.Sound) (room : RoomName) {sender : ParticipantSender}
    {fingerprint «alias» : Option String} {id : ParticipantId}
    (hroom : op.room = room) (hdirective : s.manager.directiveTo op.room op = none) :
    Touched s op ((s.manager.roomOrNew room).admitted id sender fingerprint «alias») := by
  subst hroom
  constructor
  · apply Room.Attributed.admitted
    rw [RoomManager.roomOrNew]
    cases hlookup : s.manager.rooms.lookup op.room with
    | none => exact .new
    | some r => exact h.attributed _ r hlookup
  · intro d hd
    rw [hdirective, Option.none_or] at hd
    have htier : ((s.manager.roomOrNew op.room).admitted id sender fingerprint «alias»).currentTier =
        (s.manager.roomOrNew op.room).currentTier := Room.replace_currentTier _ _
    rw [htier, RoomManager.roomOrNew]
    cases hlookup : s.manager.rooms.lookup op.room with
    | none =>
        rw [h.closed _ hlookup] at hd
        exact absurd hd.symm (Option.some_ne_none d)
    | some r => exact h.told _ r hlookup d hd

theorem touched_leave (h : s.Sound) {room : RoomName} {id : ParticipantId} {r : Room}
    (hlookup : (s.manager.leave room id).1.rooms.lookup room = some r) :
    Touched s (.leave room id) r := by
  cases hold : s.manager.rooms.lookup room with
  | none =>
      rw [RoomManager.leave_of_absent hold] at hlookup
      exact nomatch hold.symm.trans hlookup
  | some old =>
      rw [RoomManager.rooms_leave_self hold] at hlookup
      split at hlookup
      · exact nomatch hlookup
      · obtain rfl := Option.some.inj hlookup
        exact ⟨(h.attributed room old hold).left id, h.told room old hold⟩

theorem touched_observe (h : s.Sound) {room : RoomName} {id : ParticipantId} {now : ℕ}
    {report : QualityReport} {r : Room}
    (hlookup : (s.manager.observeQuality room id now report).1.rooms.lookup room = some r) :
    Touched s (.observeQuality room id now report) r := by
  rw [RoomManager.rooms_observe_self] at hlookup
  obtain ⟨old, hold, rfl⟩ := Option.map_eq_some_iff.mp hlookup
  refine ⟨(h.attributed room old hold).observe, fun d hd => ?_⟩
  rw [RoomOp.room, RoomManager.directiveTo_observe hold] at hd
  rcases old.observe_directive id now report with ⟨hnone, htier⟩ | ⟨e, he, hprofile⟩
  · rw [hnone, Option.none_or] at hd
    rw [htier]
    exact h.told room old hold d hd
  · rw [he, Option.some_or] at hd
    obtain rfl := Option.some.inj hd
    exact hprofile

theorem touched_step (h : s.Sound) {r : Room}
    (hlookup : (s.manager.step op).rooms.lookup op.room = some r) : Touched s op r := by
  have hjoin : ∀ {a sender fingerprint al}, op.room = a →
      s.manager.directiveTo op.room op = none →
      (s.manager.join a sender fingerprint al).1.rooms.lookup op.room = some r → Touched s op r := by
    rintro a sender fingerprint al rfl hdirective hlookup
    cases hauth : s.manager.isAuthorized op.room fingerprint with
    | true =>
        rw [RoomManager.rooms_join_self hauth] at hlookup
        obtain rfl := Option.some.inj hlookup
        exact touched_admitted h op.room rfl hdirective
    | false =>
        rw [RoomManager.join_of_unauthorized hauth] at hlookup
        exact touched_of_same h hlookup hdirective
  have hbeside : ∀ {m}, s.manager.directiveTo op.room op = none →
      RoomManager.SameRooms s.manager m ∧ m.Names (fun _ _ => True) →
      m.rooms.lookup op.room = some r → Touched s op r := fun hdirective hsame hlookup =>
    touched_of_same h (by rwa [hsame.1.rooms] at hlookup) hdirective
  have htrue := s.manager.names_true
  cases op with
  | allow a fp => exact touched_of_same h hlookup rfl
  | join a sender fp al => exact hjoin rfl rfl hlookup
  | joinWs a fp => exact hjoin rfl rfl hlookup
  | leave a id => exact touched_leave h hlookup
  | updateKeyframeCache a id pkt =>
      exact hbeside rfl (RoomManager.updateKeyframeCache_spec htrue pkt trivial) hlookup
  | registerStream a id pkt =>
      exact hbeside rfl (RoomManager.registerStream_spec htrue pkt trivial) hlookup
  | updateReceiverState a id bwe loss now => exact touched_of_same h hlookup rfl
  | shouldForwardPli a id streamId now =>
      exact hbeside rfl (RoomManager.shouldForwardPli_spec htrue a streamId now) hlookup
  | observeQuality a id now report => exact touched_observe h hlookup

theorem sound_step (h : s.Sound) (op : RoomOp) : (s.step op).Sound where
  attributed := by
    intro room r hlookup
    by_cases hroom : room = op.room
    · subst hroom
      exact (touched_step h hlookup).attributed
    · exact h.attributed room r ((RoomManager.rooms_step_ne hroom).symm.trans hlookup)
  told := by
    intro room r hlookup d hd
    by_cases hroom : room = op.room
    · subst hroom
      rw [lastDirective_self hlookup] at hd
      exact (touched_step h hlookup).told d hd
    · rw [lastDirective_ne h hroom] at hd
      exact h.told room r ((RoomManager.rooms_step_ne hroom).symm.trans hlookup) d hd
  closed := by
    intro room hlookup
    have hnone : (s.manager.step op).rooms.lookup room = none := hlookup
    rw [lastDirective_step, hnone]
    exact if_neg Bool.false_ne_true

/-! ## Exactness -/

theorem tiersCurrent_iff_touched (hsound : s.Sound) (h : s.TiersCurrent) :
    (s.step op).TiersCurrent ↔
      ∀ r, (s.manager.step op).rooms.lookup op.room = some r → r.AtWeakest := by
  constructor
  · intro hnext r hlookup
    exact (hnext op.room r hlookup).1
  · intro htouched room r hlookup
    refine ⟨?_, (sound_step hsound op).told room r hlookup⟩
    by_cases hroom : room = op.room
    · subst hroom
      exact htouched r hlookup
    · exact (h room r ((RoomManager.rooms_step_ne hroom).symm.trans hlookup)).1

theorem roomOrNew_atWeakest (h : s.TiersCurrent) (room : RoomName) :
    (s.manager.roomOrNew room).AtWeakest := by
  rw [RoomManager.roomOrNew]
  cases hlookup : s.manager.rooms.lookup room with
  | none => exact fun hne => absurd rfl hne
  | some r => exact (h room r hlookup).1

theorem join_atWeakest_iff (h : s.TiersCurrent) {room : RoomName} {sender : ParticipantSender}
    {fingerprint «alias» : Option String} :
    (∀ r, (s.manager.join room sender fingerprint «alias»).1.rooms.lookup room = some r →
      r.AtWeakest) ↔ s.KeepsTier (.join room sender fingerprint «alias») := by
  rw [KeepsTier]
  cases hauth : s.manager.isAuthorized room fingerprint with
  | true =>
      rw [RoomManager.rooms_join_self hauth, ← (roomOrNew_atWeakest h room).admitted_iff]
      exact ⟨fun hall _ => hall _ rfl, fun hkeeps r hr => Option.some.inj hr ▸ hkeeps rfl⟩
  | false =>
      rw [RoomManager.join_of_unauthorized hauth]
      exact iff_of_true (fun r hr => (h room r hr).1) fun hauth => nomatch hauth

theorem leave_atWeakest_iff (h : s.TiersCurrent) {room : RoomName} {id : ParticipantId} :
    (∀ r, (s.manager.leave room id).1.rooms.lookup room = some r → r.AtWeakest) ↔
      s.KeepsTier (.leave room id) := by
  rw [KeepsTier]
  cases hlookup : s.manager.rooms.lookup room with
  | none =>
      rw [RoomManager.leave_of_absent hlookup, hlookup]
      exact iff_of_true (fun r hr => nomatch hr) (fun r hr => nomatch hr)
  | some old =>
      have hiff := (h room old hlookup).1.left_iff id
      rw [RoomManager.rooms_leave_self hlookup]
      constructor
      · intro hall r hr
        obtain rfl := Option.some.inj hr
        by_cases hnil : (old.left id).participants = []
        · exact Or.inl hnil
        · exact hiff.mp (hall _ (if_neg hnil))
      · intro hkeeps r hr
        split at hr
        · exact nomatch hr
        · obtain rfl := Option.some.inj hr
          exact hiff.mpr (hkeeps old rfl)

theorem tiersCurrent_step (hsound : s.Sound) (h : s.TiersCurrent) (op : RoomOp) :
    (s.step op).TiersCurrent ↔ s.KeepsTier op := by
  rw [tiersCurrent_iff_touched hsound h]
  have hbeside : ∀ {m}, RoomManager.SameRooms s.manager m ∧ m.Names (fun _ _ => True) →
      ∀ r, m.rooms.lookup op.room = some r → r.AtWeakest := fun hsame r hlookup =>
    (h op.room r (by rwa [hsame.1.rooms] at hlookup)).1
  have htrue := s.manager.names_true
  cases op with
  | join room sender fp al => exact join_atWeakest_iff h
  | joinWs room fp => exact join_atWeakest_iff h
  | leave room id => exact leave_atWeakest_iff h
  | allow room fp => exact iff_of_true (fun r hr => (h room r hr).1) trivial
  | updateKeyframeCache room id pkt =>
      exact iff_of_true (hbeside (RoomManager.updateKeyframeCache_spec htrue pkt trivial)) trivial
  | registerStream room id pkt =>
      exact iff_of_true (hbeside (RoomManager.registerStream_spec htrue pkt trivial)) trivial
  | updateReceiverState room id bwe loss now =>
      exact iff_of_true (fun r hr => (h room r hr).1) trivial
  | shouldForwardPli room id streamId now =>
      exact iff_of_true (hbeside (RoomManager.shouldForwardPli_spec htrue room streamId now)) trivial
  | observeQuality room id now report =>
      refine iff_of_true (fun r hr => ?_) trivial
      have hmap := (RoomManager.rooms_observe_self id now report).symm.trans hr
      obtain ⟨old, hold, rfl⟩ := Option.map_eq_some_iff.mp hmap
      exact (h room old hold).1.observe (hsound.attributed room old hold)

theorem initially {m : RoomManager} (hempty : m.rooms = ∅) :
    (start m).TiersCurrent ∧ (start m).Sound := by
  have hnone : ∀ {Q : Prop} room r, m.rooms.lookup room = some r → Q := fun room r hr => by
    rw [hempty, AList.lookup_empty] at hr
    exact nomatch hr
  exact ⟨fun room r hr => hnone room r hr,
    fun room r hr => hnone room r hr, fun room r hr => hnone room r hr, fun _ _ => rfl⟩

/-- The tiers of rooms follow their weakest members exactly as long as no join
and no leave takes a room's tier away. -/
theorem tiers_current_iff {id : ParticipantId} {m₀ : RoomManager} {ops : List RoomOp}
    (hnew : m₀ = .new id ∨ m₀ = .withAcl id) :
    Throughout step TiersCurrent (start m₀) ops ↔ EachStep step KeepsTier (start m₀) ops := by
  have hempty : m₀.rooms = ∅ := by rcases hnew with rfl | rfl <;> rfl
  exact throughout_iff_eachStep (I := Sound) (fun s op hsound _ _ => sound_step hsound op)
    (fun s op hsound h => tiersCurrent_step hsound h op) (initially hempty).2 (initially hempty).1

/-- The second participant has a bad connection and stays, while a third one comes and the first
one goes. -/
def weakestStays : List RoomOp :=
  [.join [1] .quic none none, .join [1] .quic none none,
    .observeQuality [1] 2 0 ⟨255, 255, 0, 0⟩, .observeQuality [1] 2 0 ⟨255, 255, 0, 0⟩,
    .observeQuality [1] 2 0 ⟨255, 255, 0, 0⟩, .join [1] .quic none none, .leave [1] 1]

theorem weakestStays_tiers_current : Throughout step TiersCurrent (start (.new 1)) weakestStays := by
  refine (tiers_current_iff (Or.inl rfl)).mpr ⟨fun _ => Or.inl rfl, fun _ => Or.inl rfl,
    trivial, trivial, trivial, fun _ => Or.inr ⟨by decide, ⟨2, .quic, none, none⟩, by decide,
      by decide, by decide⟩, fun r hr => Or.inr ?_, trivial⟩
  obtain rfl := Option.some.inj hr
  exact ⟨⟨2, .quic, none, none⟩, by decide, by decide⟩

/-! ### A room that does not recover -/

/-- The second of two participants has a bad connection and leaves. -/
def weakestLeaves : List RoomOp :=
  [.join [1] .quic none none, .join [1] .quic none none,
    .observeQuality [1] 2 0 ⟨255, 255, 0, 0⟩, .observeQuality [1] 2 0 ⟨255, 255, 0, 0⟩,
    .observeQuality [1] 2 0 ⟨255, 255, 0, 0⟩, .leave [1] 2]

theorem weakestLeaves_room :
    ((run step (start (.new 1)) weakestLeaves).manager.rooms.lookup [1]).map (fun r =>
      (r.currentTier, r.participants.map fun p => r.tierOf p.id)) =
        some (.catastrophic, [some .good]) := by decide

theorem room_stays_degraded : ¬ Throughout step TiersCurrent (start (.new 1)) weakestLeaves := by
  intro h
  obtain ⟨r, hlookup, hroom⟩ := Option.map_eq_some_iff.mp weakestLeaves_room
  obtain ⟨htier, hmembers⟩ := Prod.mk.inj hroom
  have hne : r.participants ≠ [] := by
    intro hnil
    rw [hnil] at hmembers
    exact nomatch hmembers
  obtain ⟨p, hp, hweakest⟩ := ((h.last [1] r hlookup).1 hne).1
  have hmem : some Tier.catastrophic ∈ r.participants.map fun p => r.tierOf p.id :=
    List.mem_map.mpr ⟨p, hp, htier ▸ hweakest⟩
  rw [hmembers] at hmem
  exact absurd hmem (by decide)

end Broadcasts
end Wzp.Relay.Sfu
