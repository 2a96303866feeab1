import Wzp.Client.Signals
import Wzp.Lib.NewestWins
import Wzp.Lib.Runs

/-!
# Candidate updates

An agent gathers the addresses it may be reached at and tells the peer of a change.
Both sides count: the sender the gatherings, the receiver the newest update seen.
-/
namespace Wzp.Client
open NewestWins Runs

variable {A : Type}

structure CandidateSet (A : Type) where
  reflexive : Option A
  hosts : List A
  mapped : Option A
  generation : UInt32

structure PeerCandidates (A : Type) where
  reflexive : Option A
  hosts : List A
  mapped : Option A
  deriving DecidableEq, Repr

structure IceAgentConfig where
  enablePortmap : Bool := true
  localV4Port : UInt16 := 0
  localV6Port : Option UInt16 := none
  deriving DecidableEq, Repr

/-- What the mechanisms find within the timeout, and the interfaces of the host. -/
structure Discovery (A : Type) where
  stun : Option A
  portMapping : Option A
  hostCandidates : UInt16 → Option UInt16 → List A

structure IceAgent where
  config : IceAgentConfig
  generation : UInt32
  callId : String
  peerGeneration : UInt32
  deriving DecidableEq, Repr

namespace IceAgent

def new (callId : String) (config : IceAgentConfig) : IceAgent := ⟨config, 0, callId, 0⟩

/-- The counter is read before it is increased. -/
def gather (agent : IceAgent) (found : Discovery A) : IceAgent × CandidateSet A :=
  ({ agent with generation := agent.generation + 1 },
    { reflexive := found.stun
      hosts := found.hostCandidates agent.config.localV4Port agent.config.localV6Port
      mapped :=
        if agent.config.enablePortmap && 0 < agent.config.localV4Port then found.portMapping
        else none
      generation := agent.generation })

variable [SocketAddr A]

def reGather (agent : IceAgent) (found : Discovery A) :
    IceAgent × CandidateSet A × SignalMessage :=
  let (agent, candidates) := agent.gather found
  (agent, candidates, .candidateUpdate
    { version := defaultSignalVersion
      callId := agent.callId
      reflexiveAddr := candidates.reflexive.map SocketAddr.toText
      localAddrs := candidates.hosts.map SocketAddr.toText
      mappedAddr := candidates.mapped.map SocketAddr.toText
      generation := candidates.generation })

end IceAgent

/-- Addresses that do not parse are left out. -/
def CandidateUpdate.candidates [SocketAddr A] (update : CandidateUpdate) : PeerCandidates A where
  reflexive := update.reflexiveAddr.bind SocketAddr.parse
  hosts := update.localAddrs.filterMap SocketAddr.parse
  mapped := update.mappedAddr.bind SocketAddr.parse

/-- The counter of the peer is raised to the generation of the update, the update
taken only if it was below. The call of the update is not looked at. -/
def IceAgent.applyPeerUpdate [SocketAddr A] (agent : IceAgent) :
    SignalMessage → IceAgent × Option (PeerCandidates A)
  | .candidateUpdate update =>
      let prev := agent.peerGeneration
      let agent := { agent with peerGeneration := max prev update.generation }
      if update.generation ≤ prev then (agent, none) else (agent, some update.candidates)
  | _ => (agent, none)

/-! ## Two agents of a call -/

/-- The sets the receiver has applied are kept with the generation they came with. -/
structure IceCall (A : Type) where
  a : IceAgent
  b : IceAgent
  sent : List SignalMessage
  delivered : List CandidateUpdate
  applied : List (UInt32 × PeerCandidates A)

/-- The network delivers what has been sent in any order, any number of times or
not at all, and messages of other calls in between. -/
inductive IceEvent (A : Type) where
  | gather (found : Discovery A)
  | reGather (found : Discovery A)
  | deliver (n : ℕ)
  | stray (message : SignalMessage)

def SignalMessage.update? : SignalMessage → Option CandidateUpdate
  | .candidateUpdate update => some update
  | _ => none

namespace IceCall
variable [SocketAddr A]

def new (callId : String) (configA configB : IceAgentConfig) : IceCall A :=
  ⟨.new callId configA, .new callId configB, [], [], []⟩

def receive (c : IceCall A) (message : SignalMessage) : IceCall A :=
  let r : IceAgent × Option (PeerCandidates A) := c.b.applyPeerUpdate message
  { c with
    b := r.1
    delivered := c.delivered ++ message.update?.toList
    applied := c.applied ++ message.update?.toList.flatMap fun update =>
      r.2.toList.map fun candidates => (update.generation, candidates) }

/-- A message of another call is one that does not name this one. -/
def step (c : IceCall A) : IceEvent A → IceCall A
  | .gather found => { c with a := (c.a.gather found).1 }
  | .reGather found =>
      { c with
        a := (c.a.reGather found).1
        sent := c.sent ++ [(c.a.reGather found).2.2] }
  | .deliver n => c.sent[n]?.elim c c.receive
  | .stray message =>
      if message.update?.any fun update => update.callId = c.b.callId then c
      else c.receive message

/-- What an agent applies of a list of updates. -/
def applies (agent : IceAgent) : List CandidateUpdate → List (UInt32 × PeerCandidates A)
  | [] => []
  | update :: updates =>
      let r : IceAgent × Option (PeerCandidates A) :=
        agent.applyPeerUpdate (.candidateUpdate update)
      (r.2.toList.map fun candidates => (update.generation, candidates)) ++ applies r.1 updates

def ofCall (callId : String) (updates : List CandidateUpdate) : List CandidateUpdate :=
  updates.filter fun update => update.callId = callId

/-- The updates of this call that have been delivered. -/
def own (c : IceCall A) : List CandidateUpdate := ofCall c.b.callId c.delivered

/-- The sets applied get newer and newer, the updates of other calls make no
difference to them, and the last one is that of the newest update of the call. -/
structure Converged (c : IceCall A) : Prop where
  ascending : (c.applied.map Prod.fst).Pairwise (· < ·)
  ownOnly : c.applied = applies (.new c.b.callId c.b.config) c.own
  newest : ∀ update ∈ c.own, (∀ other ∈ c.own, other.generation ≤ update.generation) →
    c.applied.getLast?.map Prod.snd = some update.candidates

/-- An update of this call: it is not the first of all gatherings unless a later one
has been delivered, and the counter of the sender has not come round to it. -/
structure Counted (own : List CandidateUpdate) (update : CandidateUpdate) : Prop where
  notFirst : ∃ other ∈ update :: own, 0 < other.generation
  notRound : (∀ other ∈ own, other.generation ≤ update.generation) →
    ∀ other ∈ own, other.generation = update.generation →
      (other.candidates : PeerCandidates A) = update.candidates

/-- An update of another call: this call is ahead of it. -/
def Outrun (own : List CandidateUpdate) (update : CandidateUpdate) : Prop :=
  update.generation = 0 ∨ ∃ other ∈ own, update.generation ≤ other.generation

def InTurn (c : IceCall A) : SignalMessage → Prop
  | .candidateUpdate update =>
      if update.callId = c.b.callId then Counted (A := A) c.own update
      else Outrun c.own update
  | _ => True

def Orderly (c : IceCall A) : IceEvent A → Prop
  | .gather _ => True
  | .reGather _ => True
  | .deliver n => ∀ message ∈ c.sent[n]?, c.InTurn message
  | .stray message =>
      (message.update?.any fun update => update.callId = c.b.callId) = false → c.InTurn message

/-! ## The updates applied are the records -/

def newness (update : CandidateUpdate) : ℕ := update.generation.toNat

def entry (update : CandidateUpdate) : UInt32 × PeerCandidates A :=
  (update.generation, update.candidates)

theorem toNat_max (a b : UInt32) : (max a b).toNat = max a.toNat b.toNat := by
  rw [show max a b = if a ≤ b then b else a from rfl]
  split
  · rename_i hle
    exact (max_eq_right (UInt32.le_iff_toNat_le.mp hle)).symm
  · rename_i hlt
    have hle : b.toNat ≤ a.toNat := by
      rw [UInt32.le_iff_toNat_le] at hlt
      omega
    exact (max_eq_left hle).symm

variable {agent : IceAgent} {c : IceCall A} {update : CandidateUpdate}

theorem applyPeerUpdate_seen :
    (agent.applyPeerUpdate (A := A) (.candidateUpdate update)).1 =
      { agent with peerGeneration := max agent.peerGeneration update.generation } := by
  unfold IceAgent.applyPeerUpdate
  dsimp only
  split <;> rfl

theorem applyPeerUpdate_applied :
    (agent.applyPeerUpdate (A := A) (.candidateUpdate update)).2 =
      if agent.peerGeneration.toNat < newness update then some update.candidates else none := by
  unfold IceAgent.applyPeerUpdate
  dsimp only
  by_cases hle : update.generation ≤ agent.peerGeneration
  · have hnot : ¬ agent.peerGeneration.toNat < newness update :=
      Nat.not_lt.mpr (UInt32.le_iff_toNat_le.mp hle)
    rw [if_pos hle, if_neg hnot]
  · have hlt : agent.peerGeneration.toNat < newness update :=
      Nat.lt_of_not_le fun h => hle (UInt32.le_iff_toNat_le.mpr h)
    rw [if_neg hle, if_pos hlt]

theorem applies_eq_records (agent : IceAgent) (updates : List CandidateUpdate) :
    applies (A := A) agent updates =
      (records newness agent.peerGeneration.toNat updates).map entry := by
  induction updates generalizing agent with
  | nil => rfl
  | cons update updates ih =>
      have hseen : (max agent.peerGeneration update.generation).toNat =
          max agent.peerGeneration.toNat (newness update) := toNat_max _ _
      rw [applies, ih, applyPeerUpdate_applied, applyPeerUpdate_seen, records]
      dsimp only
      rw [hseen]
      by_cases hlt : agent.peerGeneration.toNat < newness update
      · rw [if_pos hlt, if_pos hlt, max_eq_right (Nat.le_of_lt hlt)]
        rfl
      · rw [if_neg hlt, if_neg hlt, max_eq_left (Nat.not_lt.mp hlt)]
        rfl

/-- The counter of the receiver and the sets it has applied, from the updates
delivered. -/
structure Replayed (c : IceCall A) : Prop where
  seen : c.b.peerGeneration.toNat = highest newness 0 c.delivered
  applied : c.applied = (records newness 0 c.delivered).map entry

theorem receive_b : (c.receive (.candidateUpdate update)).b =
    { c.b with peerGeneration := max c.b.peerGeneration update.generation } :=
  applyPeerUpdate_seen

theorem receive_callId : (c.receive (.candidateUpdate update)).b.callId = c.b.callId := by
  rw [receive_b]

theorem ofCall_append_singleton (callId : String) (updates : List CandidateUpdate) :
    ofCall callId (updates ++ [update]) =
      ofCall callId updates ++ if update.callId = callId then [update] else [] := by
  unfold ofCall
  rw [List.filter_append]
  congr 1
  by_cases hown : update.callId = callId
  · rw [if_pos hown]
    exact List.filter_cons_of_pos (decide_eq_true hown)
  · rw [if_neg hown]
    exact List.filter_cons_of_neg (Bool.not_eq_true _ ▸ decide_eq_false hown)

theorem receive_own : (c.receive (.candidateUpdate update)).own =
    c.own ++ if update.callId = c.b.callId then [update] else [] := by
  rw [own, receive_callId]
  exact ofCall_append_singleton _ _

theorem receive_delivered :
    (c.receive (.candidateUpdate update)).delivered = c.delivered ++ [update] := rfl

theorem Replayed.receive_applied (h : Replayed c) :
    (c.receive (.candidateUpdate update)).applied =
      c.applied ++ if highest newness 0 c.delivered < newness update then [entry update] else [] := by
  rw [← h.seen]
  unfold IceCall.receive
  dsimp only
  rw [applyPeerUpdate_applied]
  split <;> rfl

theorem receive_other {message : SignalMessage} (h : message.update? = none) :
    c.receive message = c := by
  have hdelivered : c.delivered ++ [] = c.delivered := List.append_nil _
  have happlied : c.applied ++ [] = c.applied := List.append_nil _
  have hreceive : c.receive message =
      { c with delivered := c.delivered ++ [], applied := c.applied ++ [] } := by
    cases message with
    | candidateUpdate update => cases h
    | _ => rfl
  rw [hreceive, hdelivered, happlied]

theorem Replayed.receive (h : Replayed c) (message : SignalMessage) :
    Replayed (c.receive message) := by
  cases message with
  | candidateUpdate update =>
      constructor
      · rw [receive_b, receive_delivered, highest_append_singleton]
        exact (toNat_max _ _).trans (congrArg (max · _) h.seen)
      · rw [h.receive_applied, receive_delivered, records_append_singleton, List.map_append, h.applied]
        split <;> rfl
  | _ =>
      rw [receive_other rfl]
      exact h

theorem Replayed.step (h : Replayed c) (e : IceEvent A) : Replayed (c.step e) := by
  cases e with
  | gather found => exact ⟨h.seen, h.applied⟩
  | reGather found => exact ⟨h.seen, h.applied⟩
  | deliver n =>
      unfold IceCall.step
      dsimp only
      cases c.sent[n]? with
      | none => exact h
      | some message => exact h.receive message
  | stray message =>
      unfold IceCall.step
      dsimp only
      split
      · exact h
      · exact h.receive message

/-! ## When the two converge -/

/-- The sets that a fresh agent applies. -/
def kept (updates : List CandidateUpdate) : List (UInt32 × PeerCandidates A) :=
  (records newness 0 updates).map entry

theorem kept_append_singleton (updates : List CandidateUpdate) (update : CandidateUpdate) :
    kept (A := A) (updates ++ [update]) =
      kept updates ++ if highest newness 0 updates < newness update then [entry update] else [] := by
  unfold kept
  rw [records_append_singleton, List.map_append]
  split <;> rfl

theorem highest_eq_last_kept (updates : List CandidateUpdate) : highest newness 0 updates =
    ((kept (A := A) updates).getLast?.map fun entry => entry.1.toNat).getD 0 := by
  rw [highest_eq_last, kept, List.getLast?_map, Option.map_map]
  rfl

theorem kept_ascending (updates : List CandidateUpdate) :
    ((kept (A := A) updates).map Prod.fst).Pairwise (· < ·) := by
  rw [kept, List.map_map, List.pairwise_map]
  have hascending : (records newness 0 updates).Pairwise fun x y => newness x < newness y :=
    records_ascending
  exact hascending.imp fun hlt => UInt32.lt_iff_toNat_lt.mpr hlt

theorem kept_nil_of_highest {updates : List CandidateUpdate}
    (h : highest newness 0 updates = 0) : kept (A := A) updates = [] := by
  unfold kept
  cases hlast : (records newness 0 updates).getLast? with
  | none => rw [List.getLast?_eq_none_iff.mp hlast, List.map_nil]
  | some last =>
      have hpos := floor_lt_of_mem_records (List.mem_of_getLast? hlast)
      rw [highest_eq_last, hlast] at h
      exact absurd h (Nat.ne_of_gt hpos)

/-- The newest of the updates has been applied last. -/
def LastNewest (applied : List (UInt32 × PeerCandidates A)) (own : List CandidateUpdate) : Prop :=
  ∀ update ∈ own, (∀ other ∈ own, other.generation ≤ update.generation) →
    applied.getLast?.map Prod.snd = some update.candidates

theorem converged_iff : Converged c ↔
    c.applied = kept c.own ∧ LastNewest c.applied c.own := by
  have happlies : applies (.new c.b.callId c.b.config) c.own = kept (A := A) c.own :=
    applies_eq_records _ _
  constructor
  · intro hconv
    exact ⟨hconv.ownOnly.trans happlies, hconv.newest⟩
  · rintro ⟨hown, hnewest⟩
    refine ⟨?_, hown.trans happlies.symm, hnewest⟩
    rw [hown]
    exact kept_ascending c.own

theorem Converged.highest_own (h : Replayed c) (hconv : Converged c) :
    highest newness 0 c.delivered = highest newness 0 c.own := by
  have hkept : kept (A := A) c.delivered = kept c.own :=
    h.applied.symm.trans (converged_iff.mp hconv).1
  rw [highest_eq_last_kept (A := A), highest_eq_last_kept (A := A), hkept]

theorem newness_le_highest {updates : List CandidateUpdate} (h : update ∈ updates) :
    newness update ≤ highest newness 0 updates := key_le_highest h

theorem exists_highest {updates : List CandidateUpdate} (h : 0 < highest newness 0 updates) :
    ∃ other ∈ updates, newness other = highest newness 0 updates := by
  have hcases : highest newness 0 updates = 0 ∨
      ∃ other ∈ updates, newness other = highest newness 0 updates := highest_eq_floor_or
  cases hcases with
  | inl hzero => exact absurd hzero (Nat.ne_of_gt h)
  | inr hother => exact hother

variable {own : List CandidateUpdate}

/-- A newer update of the call becomes the last one applied. -/
theorem lastNewest_newer (hlt : highest newness 0 own < newness update) :
    LastNewest (kept (A := A) own ++ [entry update]) (own ++ [update]) := by
  intro newest hmem hmax
  rw [List.getLast?_concat]
  cases List.mem_append.mp hmem with
  | inl hown =>
      have hle := UInt32.le_iff_toNat_le.mp (hmax update List.mem_concat_self)
      have hle' := newness_le_highest hown
      exact absurd (hle.trans hle') (Nat.not_le.mpr hlt)
  | inr hlast =>
      rw [List.mem_singleton.mp hlast]
      rfl

theorem counted_newer (hlt : highest newness 0 own < newness update) :
    Counted (A := A) own update := by
  refine ⟨⟨update, List.mem_cons_self, ?_⟩, fun _ other hother heq => ?_⟩
  · exact UInt32.lt_iff_toNat_lt.mpr (Nat.zero_lt_of_lt hlt)
  · have hle := newness_le_highest hother
    have hsame : newness other = newness update := congrArg UInt32.toNat heq
    omega

/-- The update is at the top of all, if it is at the top of those before. -/
theorem top_append (hmax : ∀ other ∈ own, other.generation ≤ update.generation) :
    ∀ other ∈ own ++ [update], other.generation ≤ update.generation := by
  intro other hother
  cases List.mem_append.mp hother with
  | inl hown => exact hmax other hown
  | inr hself =>
      rw [List.mem_singleton.mp hself]
      exact UInt32.le_refl _

theorem counted_of_lastNewest (hlast : LastNewest (kept (A := A) own) (own ++ [update])) :
    Counted (A := A) own update := by
  constructor
  · by_cases hpos : 0 < highest newness 0 own
    · obtain ⟨other, hother, heq⟩ := exists_highest hpos
      refine ⟨other, List.mem_cons_of_mem _ hother, UInt32.lt_iff_toNat_lt.mpr ?_⟩
      exact lt_of_lt_of_eq hpos heq.symm
    · have hzero : highest newness 0 own = 0 := Nat.eq_zero_of_not_pos hpos
      have hmax : ∀ other ∈ own, other.generation ≤ update.generation := by
        intro other hown
        rw [UInt32.le_iff_toNat_le]
        exact ((newness_le_highest hown).trans hzero.le).trans (Nat.zero_le _)
      have hsome := hlast update List.mem_concat_self (top_append hmax)
      rw [kept_nil_of_highest hzero] at hsome
      exact absurd hsome.symm (Option.some_ne_none _)
  · intro hmax other hother heq
    have hupdate := hlast update List.mem_concat_self (top_append hmax)
    have hsame := hlast other (List.mem_append_left _ hother) (heq.symm ▸ top_append hmax)
    exact Option.some.inj (hsame.symm.trans hupdate)

theorem Counted.highest_pos (hcounted : Counted (A := A) own update)
    (hle : newness update ≤ highest newness 0 own) : 0 < highest newness 0 own := by
  obtain ⟨other, hother, hgen⟩ := hcounted.notFirst
  have hgen' : 0 < newness other := UInt32.lt_iff_toNat_lt.mp hgen
  cases List.mem_cons.mp hother with
  | inl heq => exact lt_of_lt_of_le (heq ▸ hgen') hle
  | inr hown => exact lt_of_lt_of_le hgen' (newness_le_highest hown)

/-- An update of the call that is not newer changes nothing, so the set applied
last has to be that of the update if it is one of the newest. -/
theorem lastNewest_older_iff (hle : newness update ≤ highest newness 0 own)
    (hnewest : LastNewest (kept (A := A) own) own) :
    LastNewest (kept (A := A) own) (own ++ [update]) ↔ Counted (A := A) own update := by
  constructor
  · exact counted_of_lastNewest
  · intro hcounted newest hmem hmax
    cases List.mem_append.mp hmem with
    | inl hown =>
        exact hnewest newest hown fun other hother => hmax other (List.mem_append_left _ hother)
    | inr hself =>
        rw [List.mem_singleton.mp hself] at hmax ⊢
        -- the update ties with one kept before, and is equal to it
        obtain ⟨other, hother, heq⟩ := exists_highest (hcounted.highest_pos hle)
        have hotherLe := UInt32.le_iff_toNat_le.mp (hmax other (List.mem_append_left _ hother))
        have hsame : other.generation = update.generation :=
          UInt32.toNat_inj.mp (hotherLe.antisymm (hle.trans heq.ge))
        have hmaxOwn : ∀ any ∈ own, any.generation ≤ update.generation := fun any hany =>
          hmax any (List.mem_append_left _ hany)
        rw [← hcounted.notRound hmaxOwn other hother hsame]
        exact hnewest other hother (hsame.symm ▸ hmaxOwn)

theorem Replayed.receive_own_iff (h : Replayed c) (hconv : Converged c)
    (hown : update.callId = c.b.callId) :
    Converged (c.receive (.candidateUpdate update)) ↔ Counted (A := A) c.own update := by
  obtain ⟨happlied, hnewest⟩ := converged_iff.mp hconv
  have hhigh := hconv.highest_own h
  rw [converged_iff, h.receive_applied, receive_own, if_pos hown, hhigh,
    kept_append_singleton, happlied]
  rw [happlied] at hnewest
  by_cases hlt : highest newness 0 c.own < newness update
  · rw [if_pos hlt]
    exact ⟨fun _ => counted_newer hlt, fun _ => ⟨rfl, lastNewest_newer hlt⟩⟩
  · rw [if_neg hlt, List.append_nil, and_iff_right rfl]
    exact lastNewest_older_iff (Nat.not_lt.mp hlt) hnewest

theorem outrun_iff : Outrun own update ↔ newness update ≤ highest newness 0 own := by
  constructor
  · rintro (hzero | ⟨other, hother, hle⟩)
    · exact (congrArg UInt32.toNat hzero).le.trans (Nat.zero_le _)
    · exact (UInt32.le_iff_toNat_le.mp hle).trans
        (newness_le_highest hother)
  · intro hle
    by_cases hpos : 0 < highest newness 0 own
    · obtain ⟨other, hother, heq⟩ := exists_highest hpos
      exact Or.inr ⟨other, hother, UInt32.le_iff_toNat_le.mpr (hle.trans heq.ge)⟩
    · have hzero : newness update = 0 := by omega
      exact Or.inl (UInt32.toNat_inj.mp hzero)

theorem Replayed.receive_foreign_iff (h : Replayed c) (hconv : Converged c)
    (hforeign : update.callId ≠ c.b.callId) :
    Converged (c.receive (.candidateUpdate update)) ↔ Outrun c.own update := by
  obtain ⟨happlied, hnewest⟩ := converged_iff.mp hconv
  rw [converged_iff, h.receive_applied, receive_own, if_neg hforeign,
    hconv.highest_own h, List.append_nil, outrun_iff]
  by_cases hlt : highest newness 0 c.own < newness update
  · rw [if_pos hlt]
    refine ⟨fun hsame => ?_, fun hle => absurd hlt (Nat.not_lt.mpr hle)⟩
    have hlength := congrArg List.length (hsame.1.trans happlied.symm)
    rw [List.length_append, List.length_singleton] at hlength
    omega
  · rw [if_neg hlt, List.append_nil]
    exact ⟨fun _ => Nat.not_lt.mp hlt, fun _ => ⟨happlied, hnewest⟩⟩

theorem Replayed.receive_iff (h : Replayed c) (hconv : Converged c) (message : SignalMessage) :
    Converged (c.receive message) ↔ c.InTurn message := by
  cases message with
  | candidateUpdate update =>
      unfold InTurn
      dsimp only
      by_cases hown : update.callId = c.b.callId
      · rw [if_pos hown]
        exact h.receive_own_iff hconv hown
      · rw [if_neg hown]
        exact h.receive_foreign_iff hconv hown
  | _ =>
      rw [receive_other rfl]
      exact ⟨fun _ => trivial, fun _ => hconv⟩

/-- A step keeps the two in agreement exactly if what it delivers is in turn. -/
theorem Replayed.step_iff (h : Replayed c) (hconv : Converged c) (e : IceEvent A) :
    Converged (c.step e) ↔ c.Orderly e := by
  cases e with
  | gather found =>
      exact ⟨fun _ => trivial, fun _ => ⟨hconv.ascending, hconv.ownOnly, hconv.newest⟩⟩
  | reGather found =>
      exact ⟨fun _ => trivial, fun _ => ⟨hconv.ascending, hconv.ownOnly, hconv.newest⟩⟩
  | deliver n =>
      unfold IceCall.step Orderly
      dsimp only
      cases c.sent[n]? with
      | none => exact ⟨fun _ _ hmem => absurd hmem (Option.not_mem_none _), fun _ => hconv⟩
      | some message =>
          rw [Option.elim_some, h.receive_iff hconv]
          exact ⟨fun hturn _ hmem => Option.mem_some_iff.mp hmem ▸ hturn,
            fun hall => hall message rfl⟩
  | stray message =>
      unfold IceCall.step Orderly
      dsimp only
      cases hnames : message.update?.any fun update => update.callId = c.b.callId with
      | true =>
          rw [if_pos rfl]
          exact ⟨fun _ hfalse => absurd hfalse.symm Bool.false_ne_true, fun _ => hconv⟩
      | false =>
          rw [if_neg Bool.false_ne_true, h.receive_iff hconv]
          exact ⟨fun hturn _ => hturn, fun hall => hall rfl⟩

/-- The agents of a call converge throughout exactly the runs that deliver an update
in turn at each step. -/
theorem converged_throughout_iff (callId : String) (configA configB : IceAgentConfig)
    (es : List (IceEvent A)) : Throughout step Converged (new callId configA configB) es ↔
      EachStep step Orderly (new callId configA configB) es := by
  have hinv : ∀ (c : IceCall A) (e : IceEvent A), Replayed c → Converged c →
      Converged (c.step e) → Replayed (c.step e) := fun c e h _ _ => h.step e
  refine throughout_iff_eachStep hinv (fun c e h hconv => h.step_iff hconv e) ⟨rfl, rfl⟩ ?_
  exact ⟨List.Pairwise.nil, rfl, fun _ hmem => absurd hmem List.not_mem_nil⟩

/-! ## A sender that has gathered before -/

/-- The sender has gathered before it re-gathers, its counter does not come round,
and there are no updates of other calls. -/
def Prompt (c : IceCall A) : IceEvent A → Prop
  | .gather _ => c.a.generation.toNat + 1 < 2 ^ 32
  | .reGather _ => 0 < c.a.generation ∧ c.a.generation.toNat + 1 < 2 ^ 32
  | .deliver _ => True
  | .stray message => message.update? = none

/-- The updates sent are of this call, and their generation tells them apart. -/
structure Numbered (c : IceCall A) : Prop where
  call : c.a.callId = c.b.callId
  sent : ∀ message ∈ c.sent, ∃ update, message = .candidateUpdate update ∧
    update.callId = c.b.callId ∧ 0 < newness update ∧ newness update < c.a.generation.toNat
  distinct : ∀ update other, .candidateUpdate update ∈ c.sent → .candidateUpdate other ∈ c.sent →
    update.generation = other.generation → update = other
  delivered : ∀ update ∈ c.delivered, .candidateUpdate update ∈ c.sent

theorem toNat_succ {n : UInt32} (h : n.toNat + 1 < 2 ^ 32) : (n + 1).toNat = n.toNat + 1 := by
  rw [UInt32.toNat_add]
  exact Nat.mod_eq_of_lt h

theorem Numbered.gather (h : Numbered c) (found : Discovery A)
    (hround : c.a.generation.toNat + 1 < 2 ^ 32) : Numbered (c.step (.gather found)) := by
  refine ⟨h.call, fun message hmem => ?_, h.distinct, h.delivered⟩
  obtain ⟨update, heq, hcall, hpos, hlt⟩ := h.sent message hmem
  refine ⟨update, heq, hcall, hpos, ?_⟩
  exact hlt.trans_le ((Nat.le_succ _).trans (toNat_succ hround).ge)

theorem Numbered.reGather (h : Numbered c) (found : Discovery A) (hpos : 0 < c.a.generation)
    (hround : c.a.generation.toNat + 1 < 2 ^ 32) : Numbered (c.step (.reGather found)) := by
  obtain ⟨update, hsent, hcall, hgen⟩ : ∃ update,
      (c.step (.reGather found)).sent = c.sent ++ [.candidateUpdate update] ∧
      update.callId = c.a.callId ∧ update.generation = c.a.generation := ⟨_, rfl, rfl, rfl⟩
  have hnext : (c.step (.reGather found)).a.generation.toNat = c.a.generation.toNat + 1 :=
    toNat_succ hround
  have hbelow : ∀ other, .candidateUpdate other ∈ c.sent →
      newness other < c.a.generation.toNat := by
    intro other hmem
    obtain ⟨other', heq, -, -, hlt⟩ := h.sent _ hmem
    cases heq
    exact hlt
  have hnewness : newness update = c.a.generation.toNat := congrArg UInt32.toNat hgen
  refine ⟨h.call, fun message hmem => ?_, fun first second hfirst hsecond heq => ?_,
    fun other hother => ?_⟩
  · rw [hsent] at hmem
    cases List.mem_append.mp hmem with
    | inl hold =>
        obtain ⟨other, heq, hother, hotherPos, hlt⟩ := h.sent message hold
        exact ⟨other, heq, hother, hotherPos, hlt.trans_le ((Nat.le_succ _).trans hnext.ge)⟩
    | inr hnew =>
        refine ⟨update, List.mem_singleton.mp hnew, hcall.trans h.call, ?_, ?_⟩
        · rw [hnewness]
          exact UInt32.lt_iff_toNat_lt.mp hpos
        · rw [hnewness, hnext]
          exact Nat.lt_succ_self _
  · have hsame : newness first = newness second := congrArg UInt32.toNat heq
    rw [hsent, List.mem_append, List.mem_singleton] at hfirst hsecond
    cases hfirst with
    | inl hfirst =>
        cases hsecond with
        | inl hsecond => exact h.distinct first second hfirst hsecond heq
        | inr hsecond =>
            cases hsecond
            have hlt := hbelow first hfirst
            omega
    | inr hfirst =>
        cases hfirst
        cases hsecond with
        | inl hsecond =>
            have hlt := hbelow second hsecond
            omega
        | inr hsecond =>
            cases hsecond
            rfl
  · rw [hsent]
    exact List.mem_append_left _ (h.delivered other hother)

theorem Numbered.receive (h : Numbered c) (hmem : .candidateUpdate update ∈ c.sent) :
    Numbered (c.receive (.candidateUpdate update)) := by
  have hcallId : (c.receive (.candidateUpdate update)).b.callId = c.b.callId := receive_callId
  refine ⟨h.call.trans hcallId.symm, fun message hmessage => ?_, h.distinct,
    fun other hother => ?_⟩
  · rw [hcallId]
    exact h.sent message hmessage
  · cases List.mem_append.mp hother with
    | inl hold => exact h.delivered other hold
    | inr hnew => exact List.mem_singleton.mp hnew ▸ hmem

theorem Numbered.counted (h : Numbered c) (hmem : .candidateUpdate update ∈ c.sent) :
    Counted (A := A) c.own update := by
  obtain ⟨update', heq, -, hpos, -⟩ := h.sent _ hmem
  cases heq
  refine ⟨⟨update, List.mem_cons_self, UInt32.lt_iff_toNat_lt.mpr hpos⟩, ?_⟩
  intro _ other hother hsame
  have hdelivered : other ∈ c.delivered := List.mem_of_mem_filter hother
  rw [h.distinct other update (h.delivered other hdelivered) hmem hsame]

theorem Numbered.step_prompt (h : Numbered c) {e : IceEvent A} (hprompt : Prompt c e) :
    Numbered (c.step e) ∧ c.Orderly e := by
  cases e with
  | gather found => exact ⟨h.gather found hprompt, trivial⟩
  | reGather found => exact ⟨h.reGather found hprompt.1 hprompt.2, trivial⟩
  | deliver n =>
      unfold IceCall.step Orderly
      dsimp only
      cases hget : c.sent[n]? with
      | none => exact ⟨h, fun _ hmem => absurd hmem (Option.not_mem_none _)⟩
      | some message =>
          have hmem := List.mem_of_getElem? hget
          obtain ⟨update, rfl, hcall, -, -⟩ := h.sent message hmem
          refine ⟨h.receive hmem, fun _ hsome => ?_⟩
          rw [← Option.mem_some_iff.mp hsome]
          unfold InTurn
          dsimp only
          rw [if_pos hcall]
          exact h.counted hmem
  | stray message =>
      unfold IceCall.step Orderly
      dsimp only
      rw [(hprompt : message.update? = none), receive_other hprompt]
      refine ⟨h, fun _ => ?_⟩
      cases message with
      | candidateUpdate update => cases hprompt
      | _ => trivial

/-- A sender that has gathered before it re-gathers for the first time is followed
by its peer, whatever of its updates gets there and in whichever order. -/
theorem converged_of_prompt (callId : String) (configA configB : IceAgentConfig)
    {es : List (IceEvent A)} (hes : EachStep step Prompt (new callId configA configB) es) :
    Throughout step Converged (new callId configA configB) es := by
  let I : IceCall A → Prop := fun c => Numbered c ∧ Replayed c ∧ Converged c
  have hstep : ∀ (c : IceCall A) (e : IceEvent A), I c → Prompt c e → I (c.step e) := by
    intro c e hI hprompt
    obtain ⟨hnumbered, horderly⟩ := hI.1.step_prompt hprompt
    exact ⟨hnumbered, hI.2.1.step e, (hI.2.1.step_iff hI.2.2 e).mpr horderly⟩
  have hI : I (new callId configA configB) := by
    refine ⟨⟨rfl, ?_, ?_, ?_⟩, ⟨rfl, rfl⟩, ⟨List.Pairwise.nil, rfl, ?_⟩⟩
    · exact fun _ hmem => absurd hmem List.not_mem_nil
    · exact fun _ _ hmem => absurd hmem List.not_mem_nil
    · exact fun _ hmem => absurd hmem List.not_mem_nil
    · exact fun _ hmem => absurd hmem List.not_mem_nil
  exact (throughout_of_eachStep hstep hI hes).mono fun _ h => h.2.2

/-! ## The first update -/

/-- The only update that is delivered is the first of the sender: it carries the
generation 0 and is taken for an old one. -/
theorem first_update_ignored : ¬ Throughout step Converged (new "call" {} {})
    [.reGather ⟨some "203.0.113.5:4433", none, fun _ _ => []⟩, .deliver 0] := by
  intro h
  have hlast := h.last.newest
    ⟨1, "call", some "203.0.113.5:4433", [], none, 0⟩ (by decide) (by decide)
  exact absurd hlast (by decide)

end IceCall
end Wzp.Client
