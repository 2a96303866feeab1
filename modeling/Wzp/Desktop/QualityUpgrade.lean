import Mathlib.Data.List.Basic
import Mathlib.Logic.Function.Basic
import Wzp.Desktop.SignalState
import Wzp.Lib.Runs

/-!
# The upgrade of the quality

A proposal, a response and a confirmation, over a channel in each direction that
keeps the order. Each client has one slot for a proposal of its own that has not been
answered.
-/
namespace Wzp.Desktop
open Client Proto Runs

/-- The signal state with the quality in force. -/
structure QualityState where
  sig : SignalState
  activeQuality : QualityProfile

namespace QualityState

/-- The proposal is confirmed first, then put into force. -/
def handleUpgradeResponse (s : QualityState) (callId proposalId : String) (accepted : Bool) :
    QualityState × List SignalMessage :=
  let (sig, effects) := Desktop.handleUpgradeResponse s.sig callId proposalId accepted
  match effects.sends with
  | [.upgradeConfirm _ _ profile] => (⟨sig, profile⟩, effects.sends)
  | _ => ({ s with sig }, effects.sends)

def handleUpgradeConfirm (s : QualityState) (confirmedProfile : QualityProfile) : QualityState :=
  { s with activeQuality := confirmedProfile }

/-- What the receive loop does about an upgrade. -/
def recvUpgrade (s : QualityState) : SignalMessage → QualityState × List SignalMessage
  | .upgradeProposal callId proposalId =>
      (s, (recvSignal s.sig (.upgradeProposal callId proposalId)).2.sends)
  | .upgradeResponse callId proposalId accepted =>
      s.handleUpgradeResponse callId proposalId accepted
  | .upgradeConfirm _ _ profile => (s.handleUpgradeConfirm profile, [])
  | _ => (s, [])

/-- A proposal of its own takes the slot. -/
def propose (s : QualityState) (callId proposalId : String) (profile : QualityProfile) :
    QualityState × List SignalMessage :=
  ({ s with sig := { s.sig with pendingUpgrade := some (callId, proposalId, profile) } },
    [.upgradeProposal callId proposalId])

end QualityState

/-! ## Two clients -/

/-- Two clients on one call, what is under way from each to the other, and the
profiles that were proposed. -/
structure UpgradeCall where
  client : Bool → QualityState
  channel : Bool → List SignalMessage
  proposed : List QualityProfile

inductive UpgradeEvent where
  | propose (sender : Bool) (proposalId : String) (profile : QualityProfile)
  /-- The other client takes the next message. -/
  | deliver (sender : Bool)
  /-- The other client answers the next message, a proposal, with a rejection. -/
  | reject (sender : Bool)

namespace UpgradeCall

/-- A call begins. The clients come as earlier calls have left them: neither the
quality in force nor a proposal in the slot is reset between calls. -/
def start (first : Bool → QualityState) : UpgradeCall := ⟨first, fun _ => [], []⟩

/-- The client `x` in a new state, with what it sends. -/
def act (c : UpgradeCall) (x : Bool) (result : QualityState × List SignalMessage) : UpgradeCall :=
  { c with
    client := Function.update c.client x result.1
    channel := Function.update c.channel x (c.channel x ++ result.2) }

def step (callId : String) (c : UpgradeCall) : UpgradeEvent → UpgradeCall
  | .propose x proposalId profile =>
      { c.act x ((c.client x).propose callId proposalId profile) with
        proposed := profile :: c.proposed }
  | .deliver x =>
      match c.channel x with
      | [] => c
      | msg :: rest =>
          { c with channel := Function.update c.channel x rest }.act (!x)
            ((c.client (!x)).recvUpgrade msg)
  | .reject x =>
      match c.channel x with
      | .upgradeProposal callId proposalId :: rest =>
          { c with channel := Function.update c.channel x rest }.act (!x)
            (c.client (!x), [.upgradeResponse callId proposalId false])
      | _ => c

/-- Nothing is under way. -/
def Quiescent (c : UpgradeCall) : Prop := ∀ x, c.channel x = []

/-- When all is processed both have the same quality; each has the one it came with or
one that was proposed in the call. -/
structure Agrees (first : Bool → QualityState) (c : UpgradeCall) : Prop where
  same : c.Quiescent → (c.client false).activeQuality = (c.client true).activeQuality
  known : ∀ x, (c.client x).activeQuality = (first x).activeQuality ∨
    (c.client x).activeQuality ∈ c.proposed

def isProposal : SignalMessage → Bool
  | .upgradeProposal .. => true
  | _ => false

def isResponse : SignalMessage → Bool
  | .upgradeResponse .. => true
  | _ => false

def confirms : SignalMessage → Option QualityProfile
  | .upgradeConfirm _ _ profile => some profile
  | _ => none

/-- No client proposes while a proposal of the other is on its way to it. -/
def Uncrossed (c : UpgradeCall) : UpgradeEvent → Prop
  | .propose x _ _ => ∀ msg ∈ c.channel (!x), isProposal msg = false
  | _ => True

instance (c : UpgradeCall) (e : UpgradeEvent) : Decidable (c.Uncrossed e) :=
  match e with
  | .propose x _ _ => inferInstanceAs (Decidable (∀ msg ∈ c.channel (!x), isProposal msg = false))
  | .deliver _ => isTrue trivial
  | .reject _ => isTrue trivial

/-! ## The invariant -/

/-- The qualities that are under way from a client. -/
def confirmed (channel : List SignalMessage) : List QualityProfile := channel.filterMap confirms

/-- A confirmation is not behind a response, a response not behind a proposal. -/
def Ordered (channel : List SignalMessage) : Prop :=
  channel.Pairwise fun m m' =>
    (isResponse m = true → confirms m' = none) ∧ (isProposal m = true → isResponse m' = false)

/-- A proposal of the client, or an answer to one, is under way. -/
def Awaited (c : UpgradeCall) (x : Bool) : Prop :=
  (∃ m ∈ c.channel x, isProposal m = true) ∨ ∃ m ∈ c.channel (!x), isResponse m = true

structure Sound (first : Bool → QualityState) (c : UpgradeCall) : Prop where
  proposals : ∀ x, (∃ m ∈ c.channel x, isProposal m = true) →
    ∀ m ∈ c.channel (!x), isProposal m = false
  responses : ∀ x, (∃ m ∈ c.channel x, isResponse m = true) →
    ∀ m ∈ c.channel (!x), isResponse m = false
  ordered : ∀ x, Ordered (c.channel x)
  /-- The last confirmation says what its sender has, and none comes against it. -/
  confirming : ∀ x, confirmed (c.channel x) ≠ [] →
    (confirmed (c.channel x)).getLast? = some (c.client x).activeQuality ∧
      confirmed (c.channel (!x)) = []
  settled : (∀ x, confirmed (c.channel x) = []) →
    (c.client false).activeQuality = (c.client true).activeQuality
  known : ∀ x, (c.client x).activeQuality = (first x).activeQuality ∨
    (c.client x).activeQuality ∈ c.proposed
  confirmedKnown : ∀ x, ∀ q ∈ confirmed (c.channel x), q ∈ c.proposed
  /-- What an earlier call has left in the slot is not asked for in this one. -/
  pendingKnown : ∀ x p, (c.client x).sig.pendingUpgrade = some p → c.Awaited x → p.2.2 ∈ c.proposed

variable {c : UpgradeCall} {first : Bool → QualityState} {y : Bool}

theorem sides (y : Bool) {P : Bool → Prop} : (∀ z, P z) ↔ P y ∧ P (!y) := by
  refine ⟨fun h => ⟨h y, h (!y)⟩, fun h z => ?_⟩
  cases y with
  | false => exact z.casesOn h.1 h.2
  | true => exact z.casesOn h.2 h.1

theorem act_channel_self (c : UpgradeCall) (y : Bool) (r : QualityState × List SignalMessage) :
    (c.act y r).channel y = c.channel y ++ r.2 := Function.update_self _ _ _

theorem act_channel_other (c : UpgradeCall) (y : Bool) (r : QualityState × List SignalMessage) :
    (c.act y r).channel (!y) = c.channel (!y) := Function.update_of_ne (by cases y <;> decide) _ _

theorem act_client_self (c : UpgradeCall) (y : Bool) (r : QualityState × List SignalMessage) :
    (c.act y r).client y = r.1 := Function.update_self _ _ _

theorem act_client_other (c : UpgradeCall) (y : Bool) (r : QualityState × List SignalMessage) :
    (c.act y r).client (!y) = c.client (!y) := Function.update_of_ne (by cases y <;> decide) _ _

theorem confirmed_append (channel : List SignalMessage) (m : SignalMessage) :
    confirmed (channel ++ [m]) = confirmed channel ++ (confirms m).toList := by
  rw [confirmed, List.filterMap_append]
  cases hm : confirms m with
  | none => simp [confirmed, hm]
  | some q => simp [confirmed, hm]

theorem exists_append {kind : SignalMessage → Bool} {m : SignalMessage}
    {channel : List SignalMessage} (h : ∃ k ∈ channel ++ [m], kind k = true) :
    (∃ k ∈ channel, kind k = true) ∨ kind m = true := by
  obtain ⟨k, hk, hkind⟩ := h
  rcases List.mem_append.mp hk with hold | hnew
  · exact Or.inl ⟨k, hold, hkind⟩
  · exact Or.inr (List.mem_singleton.mp hnew ▸ hkind)

theorem ordered_append {channel : List SignalMessage} {m : SignalMessage} (h : Ordered channel)
    (hm : ∀ k ∈ channel, (isResponse k = true → confirms m = none) ∧
      (isProposal k = true → isResponse m = false)) : Ordered (channel ++ [m]) := by
  refine List.pairwise_append.mpr ⟨h, List.pairwise_singleton _ _, fun k hk m' hm' => ?_⟩
  obtain rfl := List.mem_singleton.mp hm'
  exact hm k hk

/-- One kind of message is under way in one direction only. -/
theorem oneWay_append {kind : SignalMessage → Bool} {m : SignalMessage} {channel other : List SignalMessage}
    (h : (∃ k ∈ channel, kind k = true) → ∀ k ∈ other, kind k = false)
    (hm : kind m = true → ∀ k ∈ other, kind k = false) :
    (∃ k ∈ channel ++ [m], kind k = true) → ∀ k ∈ other, kind k = false := by
  intro hkind
  rcases exists_append hkind with hold | hnew
  · exact h hold
  · exact hm hnew

theorem oneWay_append' {kind : SignalMessage → Bool} {m : SignalMessage} {channel other : List SignalMessage}
    (h : (∃ k ∈ other, kind k = true) → ∀ k ∈ channel, kind k = false)
    (hm : kind m = true → ∀ k ∈ other, kind k = false) :
    (∃ k ∈ other, kind k = true) → ∀ k ∈ channel ++ [m], kind k = false := by
  rintro ⟨o, ho, hkind⟩ k hk
  rcases List.mem_append.mp hk with hold | hnew
  · exact h ⟨o, ho, hkind⟩ k hold
  · obtain rfl := List.mem_singleton.mp hnew
    cases hm' : kind k with
    | false => rfl
    | true => rw [hm hm' o ho] at hkind; cases hkind

theorem oneWay_send {kind : SignalMessage → Bool} {m : SignalMessage}
    (h : ∀ x, (∃ k ∈ c.channel x, kind k = true) → ∀ k ∈ c.channel (!x), kind k = false)
    (hm : kind m = true → ∀ k ∈ c.channel (!y), kind k = false) (s : QualityState) :
    ∀ x, (∃ k ∈ (c.act y (s, [m])).channel x, kind k = true) →
      ∀ k ∈ (c.act y (s, [m])).channel (!x), kind k = false := by
  refine (sides y).mpr ⟨?_, ?_⟩
  · rw [act_channel_self, act_channel_other]
    exact oneWay_append (h y) hm
  · rw [Bool.not_not, act_channel_self, act_channel_other]
    exact oneWay_append' (by simpa using h (!y)) hm

section
variable {s : QualityState} {m : SignalMessage}
  (hsame : confirms m = none → s.activeQuality = (c.client y).activeQuality)
  (hconfirm : ∀ q, confirms m = some q →
    s.activeQuality = q ∧ confirmed (c.channel (!y)) = [] ∧ q ∈ c.proposed)

include hsame hconfirm in
theorem Sound.confirming_send (hc : Sound first c) :
    ∀ x, confirmed ((c.act y (s, [m])).channel x) ≠ [] →
      (confirmed ((c.act y (s, [m])).channel x)).getLast? =
          some ((c.act y (s, [m])).client x).activeQuality ∧
        confirmed ((c.act y (s, [m])).channel (!x)) = [] := by
  refine (sides y).mpr ⟨?_, ?_⟩
  · rw [act_channel_self, act_channel_other, act_client_self, confirmed_append]
    intro hne
    cases hm : confirms m with
    | none =>
        rw [hm, Option.toList_none, List.append_nil] at hne
        rw [Option.toList_none, List.append_nil, hsame hm]
        exact hc.confirming y hne
    | some q =>
        obtain ⟨hactive, hnone, -⟩ := hconfirm q hm
        rw [Option.toList_some, List.getLast?_concat, hactive]
        exact ⟨rfl, hnone⟩
  · rw [Bool.not_not, act_channel_self, act_channel_other, act_client_other, confirmed_append]
    intro hne
    obtain ⟨hlast, hnone⟩ := hc.confirming (!y) hne
    rw [Bool.not_not] at hnone
    cases hm : confirms m with
    | none =>
        rw [hnone]
        exact ⟨hlast, rfl⟩
    | some q => exact absurd (hconfirm q hm).2.1 hne

include hsame in
theorem Sound.settled_send (hc : Sound first c)
    (hnone : ∀ x, confirmed ((c.act y (s, [m])).channel x) = []) :
    ((c.act y (s, [m])).client false).activeQuality =
      ((c.act y (s, [m])).client true).activeQuality := by
  have hy := hnone y
  have hy' := hnone (!y)
  rw [act_channel_self, confirmed_append] at hy
  rw [act_channel_other] at hy'
  cases hm : confirms m with
  | none =>
      rw [hm, Option.toList_none, List.append_nil] at hy
      have hsettled := hc.settled ((sides y).mpr ⟨hy, hy'⟩)
      have hactive : ∀ z, ((c.act y (s, [m])).client z).activeQuality = (c.client z).activeQuality := by
        refine (sides y).mpr ⟨?_, ?_⟩
        · rw [act_client_self]
          exact hsame hm
        · rw [act_client_other]
      rw [hactive, hactive]
      exact hsettled
  | some q =>
      rw [hm] at hy
      exact absurd hy (by simp)

end

/-- A client sends one message and may change. -/
theorem Sound.send (hc : Sound first c) {s : QualityState} {m : SignalMessage}
    (hproposal : isProposal m = true → ∀ k ∈ c.channel (!y), isProposal k = false)
    (hresponse : isResponse m = true → ∀ k ∈ c.channel (!y), isResponse k = false)
    (hordered : ∀ k ∈ c.channel y, (isResponse k = true → confirms m = none) ∧
      (isProposal k = true → isResponse m = false))
    (hsame : confirms m = none → s.activeQuality = (c.client y).activeQuality)
    (hconfirm : ∀ q, confirms m = some q →
      s.activeQuality = q ∧ confirmed (c.channel (!y)) = [] ∧ q ∈ c.proposed)
    (hpending : ∀ p, s.sig.pendingUpgrade = some p → c.Awaited y ∨ isProposal m = true →
      p.2.2 ∈ c.proposed)
    (hother : ∀ p, (c.client (!y)).sig.pendingUpgrade = some p → isResponse m = true →
      p.2.2 ∈ c.proposed) :
    Sound first (c.act y (s, [m])) where
  proposals := oneWay_send hc.proposals hproposal s
  responses := oneWay_send hc.responses hresponse s
  ordered := by
    refine (sides y).mpr ⟨?_, ?_⟩
    · rw [act_channel_self]
      exact ordered_append (hc.ordered y) hordered
    · rw [act_channel_other]
      exact hc.ordered (!y)
  confirming := hc.confirming_send hsame hconfirm
  settled := hc.settled_send hsame
  known := by
    refine (sides y).mpr ⟨?_, ?_⟩
    · rw [act_client_self]
      cases hm : confirms m with
      | none =>
          rw [hsame hm]
          exact hc.known y
      | some q =>
          rw [(hconfirm q hm).1]
          exact Or.inr (hconfirm q hm).2.2
    · rw [act_client_other]
      exact hc.known (!y)
  confirmedKnown := by
    refine (sides y).mpr ⟨?_, ?_⟩
    · rw [act_channel_self, confirmed_append]
      intro q hq
      rcases List.mem_append.mp hq with hold | hnew
      · exact hc.confirmedKnown y q hold
      · exact (hconfirm q (Option.mem_toList.mp hnew)).2.2
    · rw [act_channel_other]
      exact hc.confirmedKnown (!y)
  pendingKnown := by
    refine (sides y).mpr ⟨?_, ?_⟩
    · rw [act_client_self, Awaited, act_channel_self, act_channel_other]
      rintro p hp (hmine | htheirs)
      · rcases exists_append hmine with hold | hnew
        · exact hpending p hp (Or.inl (Or.inl hold))
        · exact hpending p hp (Or.inr hnew)
      · exact hpending p hp (Or.inl (Or.inr htheirs))
    · rw [act_client_other, Awaited, Bool.not_not, act_channel_self, act_channel_other]
      rintro p hp (hmine | htheirs)
      · exact hc.pendingKnown (!y) p hp (Or.inl hmine)
      · rcases exists_append htheirs with hold | hnew
        · exact hc.pendingKnown (!y) p hp (Or.inr ((Bool.not_not y).symm ▸ hold))
        · exact hother p hp hnew

/-- A client changes nothing but its slot, and sends nothing. -/
theorem Sound.keep (hc : Sound first c) {s : QualityState}
    (hsame : s.activeQuality = (c.client y).activeQuality)
    (hpending : ∀ p, s.sig.pendingUpgrade = some p → c.Awaited y → p.2.2 ∈ c.proposed) :
    Sound first (c.act y (s, [])) := by
  have hchannel : (c.act y (s, [])).channel = c.channel := by
    funext z
    revert z
    refine (sides y).mpr ⟨?_, ?_⟩
    · rw [act_channel_self, List.append_nil]
    · exact act_channel_other _ _ _
  have hactive : ∀ z, ((c.act y (s, [])).client z).activeQuality = (c.client z).activeQuality := by
    refine (sides y).mpr ⟨?_, ?_⟩
    · rw [act_client_self]
      exact hsame
    · rw [act_client_other]
  constructor
  · rw [hchannel]
    exact hc.proposals
  · rw [hchannel]
    exact hc.responses
  · rw [hchannel]
    exact hc.ordered
  · intro z
    rw [hchannel, hactive]
    exact hc.confirming z
  · rw [hchannel, hactive, hactive]
    exact hc.settled
  · intro z
    rw [hactive]
    exact hc.known z
  · rw [hchannel]
    exact hc.confirmedKnown
  · simp only [Awaited, hchannel]
    refine (sides y).mpr ⟨?_, ?_⟩
    · rw [act_client_self]
      exact hpending
    · rw [act_client_other]
      exact hc.pendingKnown (!y)

/-- The next message is taken out of the channel. -/
def pop (c : UpgradeCall) (x : Bool) (rest : List SignalMessage) : UpgradeCall :=
  { c with channel := Function.update c.channel x rest }

section
variable {x : Bool} {m : SignalMessage} {rest : List SignalMessage}

theorem pop_self (c : UpgradeCall) (x : Bool) (rest : List SignalMessage) :
    (c.pop x rest).channel x = rest := Function.update_self _ _ _

theorem pop_other (c : UpgradeCall) (x : Bool) (rest : List SignalMessage) :
    (c.pop x rest).channel (!x) = c.channel (!x) := Function.update_of_ne (by cases x <;> decide) _ _

theorem pop_sublist (h : c.channel x = m :: rest) (z : Bool) :
    ((c.pop x rest).channel z).Sublist (c.channel z) := by
  revert z
  refine (sides x).mpr ⟨?_, ?_⟩
  · rw [pop_self, h]
    exact List.sublist_cons_self m rest
  · rw [pop_other]

theorem oneWay_sublist {kind : SignalMessage → Bool} {channel channel' : Bool → List SignalMessage}
    (hsub : ∀ z, (channel' z).Sublist (channel z))
    (h : ∀ z, (∃ k ∈ channel z, kind k = true) → ∀ k ∈ channel (!z), kind k = false) (z : Bool) :
    (∃ k ∈ channel' z, kind k = true) → ∀ k ∈ channel' (!z), kind k = false := by
  rintro ⟨o, ho, hkind⟩ k hk
  exact h z ⟨o, (hsub z).subset ho, hkind⟩ k ((hsub (!z)).subset hk)

theorem Awaited.of_sublist {c' : UpgradeCall} (hsub : ∀ z, (c'.channel z).Sublist (c.channel z))
    {z : Bool} (h : c'.Awaited z) : c.Awaited z :=
  h.imp (fun ⟨m, hm, hkind⟩ => ⟨m, (hsub z).subset hm, hkind⟩)
    fun ⟨m, hm, hkind⟩ => ⟨m, (hsub (!z)).subset hm, hkind⟩

/-- A message that confirms nothing is taken. -/
theorem Sound.pop (hc : Sound first c) (h : c.channel x = m :: rest) (hm : confirms m = none) :
    Sound first (c.pop x rest) := by
  have hconfirmed : ∀ z, confirmed ((c.pop x rest).channel z) = confirmed (c.channel z) := by
    refine (sides x).mpr ⟨?_, ?_⟩
    · rw [pop_self, h, confirmed, confirmed, List.filterMap_cons_none hm]
    · rw [pop_other]
  constructor
  · exact oneWay_sublist (pop_sublist h) hc.proposals
  · exact oneWay_sublist (pop_sublist h) hc.responses
  · exact fun z => (hc.ordered z).sublist (pop_sublist h z)
  · intro z
    rw [hconfirmed, hconfirmed]
    exact hc.confirming z
  · intro hnone
    exact hc.settled fun z => hconfirmed z ▸ hnone z
  · exact hc.known
  · intro z
    rw [hconfirmed]
    exact hc.confirmedKnown z
  · exact fun z p hp hawaited => hc.pendingKnown z p hp (hawaited.of_sublist (pop_sublist h))

/-- A confirmation is taken and put into force. -/
theorem Sound.confirm (hc : Sound first c) {callId proposalId : String} {q : QualityProfile}
    (h : c.channel x = .upgradeConfirm callId proposalId q :: rest) :
    Sound first ((c.pop x rest).act (!x) ((c.client (!x)).handleUpgradeConfirm q, [])) := by
  have hcons : confirmed (c.channel x) = q :: confirmed rest := by
    rw [h]
    rfl
  obtain ⟨hlast, hnone⟩ := hc.confirming x (hcons ▸ List.cons_ne_nil _ _)
  have hq : q ∈ c.proposed := hc.confirmedKnown x q (hcons ▸ List.mem_cons_self)
  have hchannel : ∀ z, ((c.pop x rest).act (!x)
      ((c.client (!x)).handleUpgradeConfirm q, [])).channel z = (c.pop x rest).channel z := by
    refine (sides (!x)).mpr ⟨?_, act_channel_other _ _ _⟩
    rw [act_channel_self, List.append_nil]
  have hself := pop_self c x rest
  have hother := pop_other c x rest
  have htaker : (((c.pop x rest).act (!x)
      ((c.client (!x)).handleUpgradeConfirm q, [])).client (!x)).activeQuality = q :=
    congrArg QualityState.activeQuality (act_client_self _ _ _)
  have hsender : ((c.pop x rest).act (!x)
      ((c.client (!x)).handleUpgradeConfirm q, [])).client x = c.client x := by
    have heq := act_client_other (c.pop x rest) (!x) ((c.client (!x)).handleUpgradeConfirm q, [])
    rwa [Bool.not_not] at heq
  have hsub : ∀ z, (((c.pop x rest).act (!x)
      ((c.client (!x)).handleUpgradeConfirm q, [])).channel z).Sublist (c.channel z) := fun z =>
    hchannel z ▸ pop_sublist h z
  constructor
  · exact oneWay_sublist hsub hc.proposals
  · exact oneWay_sublist hsub hc.responses
  · exact fun z => (hc.ordered z).sublist (hsub z)
  · refine (sides x).mpr ⟨?_, ?_⟩
    · rw [hchannel, hchannel, hself, hother, hsender]
      intro hne
      refine ⟨?_, hnone⟩
      rw [hcons, List.getLast?_cons] at hlast
      cases hrest : (confirmed rest).getLast? with
      | none => exact absurd (List.getLast?_eq_none_iff.mp hrest) hne
      | some last =>
          rw [hrest] at hlast
          exact hlast
    · rw [hchannel, hother]
      intro hne
      exact absurd hnone hne
  · intro hsettled
    have hrest := hsettled x
    rw [hchannel, hself] at hrest
    rw [hcons, hrest] at hlast
    have hall : ∀ z, (((c.pop x rest).act (!x)
        ((c.client (!x)).handleUpgradeConfirm q, [])).client z).activeQuality = q := by
      refine (sides x).mpr ⟨?_, htaker⟩
      rw [hsender]
      exact (Option.some.inj hlast).symm
    exact (hall false).trans (hall true).symm
  · refine (sides x).mpr ⟨?_, ?_⟩
    · rw [hsender]
      exact hc.known x
    · rw [htaker]
      exact Or.inr hq
  · refine (sides x).mpr ⟨?_, ?_⟩
    · rw [hchannel, hself]
      intro q' hq'
      exact hc.confirmedKnown x q' (hcons ▸ List.mem_cons_of_mem _ hq')
    · rw [hchannel, hother]
      exact hc.confirmedKnown (!x)
  · refine (sides x).mpr ⟨?_, ?_⟩
    · rw [hsender]
      exact fun p hp hawaited => hc.pendingKnown x p hp (hawaited.of_sublist hsub)
    · rw [act_client_self]
      exact fun p hp hawaited => hc.pendingKnown (!x) p hp (hawaited.of_sublist hsub)

/-- A rejected proposal stays in the slot, any other answer empties it. -/
theorem handleUpgradeResponse_cases (s : QualityState) (callId proposalId : String)
    (accepted : Bool) :
    (∃ p sig, s.sig.pendingUpgrade = some p ∧ sig.pendingUpgrade = none ∧
        s.handleUpgradeResponse callId proposalId accepted =
          (⟨sig, p.2.2⟩, [.upgradeConfirm callId proposalId p.2.2])) ∨
      ∃ sig, s.handleUpgradeResponse callId proposalId accepted = ({ s with sig }, []) ∧
        ∀ p, sig.pendingUpgrade = some p → s.sig.pendingUpgrade = some p := by
  unfold QualityState.handleUpgradeResponse Desktop.handleUpgradeResponse
  cases accepted with
  | false => exact Or.inr ⟨s.sig, rfl, fun _ h => h⟩
  | true =>
      rw [if_pos rfl]
      cases hpending : s.sig.pendingUpgrade with
      | none => exact Or.inr ⟨s.sig, rfl, fun _ h => by rw [hpending] at h; cases h⟩
      | some p =>
          obtain ⟨call, pid, profile⟩ := p
          by_cases hid : pid = proposalId
          · refine Or.inl ⟨(call, pid, profile), { s.sig with pendingUpgrade := none }, rfl, rfl, ?_⟩
            dsimp only
            rw [if_pos hid]
          · refine Or.inr ⟨{ s.sig with pendingUpgrade := none }, ?_, fun p h => by cases h⟩
            dsimp only
            rw [if_neg hid]

theorem Sound.propose (hc : Sound first c) (callId proposalId : String) (profile : QualityProfile)
    (hfree : ∀ m ∈ c.channel (!x), isProposal m = false) :
    Sound first
      { c.act x ((c.client x).propose callId proposalId profile) with
        proposed := profile :: c.proposed } := by
  have hmore : Sound first { c with proposed := profile :: c.proposed } :=
    ⟨hc.proposals, hc.responses, hc.ordered, hc.confirming, hc.settled,
      fun z => (hc.known z).imp_right (List.mem_cons_of_mem _),
      fun z q hq => List.mem_cons_of_mem _ (hc.confirmedKnown z q hq),
      fun z p hp hawaited => List.mem_cons_of_mem _ (hc.pendingKnown z p hp hawaited)⟩
  refine hmore.send (y := x) (m := .upgradeProposal callId proposalId) (fun _ => hfree)
    (fun h => by cases h) (fun k _ => ⟨fun _ => rfl, fun _ => rfl⟩) (fun _ => rfl)
    (fun q h => by cases h) (fun p hp _ => ?_) fun p _ h => by cases h
  obtain rfl := Option.some.inj hp
  exact List.mem_cons_self

/-- A proposal is answered. -/
theorem Sound.respond (hc : Sound first c) {callId proposalId : String} (accepted : Bool)
    (h : c.channel x = .upgradeProposal callId proposalId :: rest) :
    Sound first ((c.pop x rest).act (!x)
      (c.client (!x), [.upgradeResponse callId proposalId accepted])) := by
  have hordered := hc.ordered x
  rw [h] at hordered
  have hbehind := (List.pairwise_cons.mp hordered).1
  refine (hc.pop h rfl).send (fun h => by cases h) (fun _ k hk => ?_) (fun k hk => ⟨fun _ => rfl, ?_⟩)
    (fun _ => rfl) (fun q h => by cases h) (fun p hp hawaited => ?_) fun p hp _ => ?_
  · rw [Bool.not_not, pop_self] at hk
    exact (hbehind k hk).2 rfl
  · rw [pop_other] at hk
    intro hkind
    have hnone := hc.proposals x ⟨_, h ▸ List.mem_cons_self, rfl⟩ k hk
    rw [hnone] at hkind
    cases hkind
  · rcases hawaited with hawaited | hresponse
    · exact hc.pendingKnown (!x) p hp (hawaited.of_sublist (pop_sublist h))
    · cases hresponse
  · -- the proposer of what is answered has its own proposal in the slot
    rw [Bool.not_not] at hp
    exact hc.pendingKnown x p hp (Or.inl ⟨_, h ▸ List.mem_cons_self, rfl⟩)

theorem Sound.answered (hc : Sound first c) {callId proposalId : String} {accepted : Bool}
    (h : c.channel x = .upgradeResponse callId proposalId accepted :: rest) :
    Sound first ((c.pop x rest).act (!x)
      ((c.client (!x)).handleUpgradeResponse callId proposalId accepted)) := by
  have hordered := hc.ordered x
  rw [h] at hordered
  have hbehind := (List.pairwise_cons.mp hordered).1
  have hawaited : c.Awaited (!x) := by
    rw [Awaited, Bool.not_not, h]
    exact Or.inr ⟨_, List.mem_cons_self, rfl⟩
  rcases handleUpgradeResponse_cases (c.client (!x)) callId proposalId accepted with
    ⟨p, sig, hpending, hempty, hresult⟩ | ⟨sig, hresult, hkept⟩
  · rw [hresult]
    refine (hc.pop h rfl).send (fun h => by cases h) (fun h => by cases h)
      (fun k hk => ⟨fun hkind => ?_, fun _ => rfl⟩) (fun h => by cases h) (fun q hq => ?_)
      (fun p hp => by rw [hempty] at hp; cases hp) fun p _ h => by cases h
    · rw [pop_other] at hk
      have hnone := hc.responses x ⟨_, h ▸ List.mem_cons_self, rfl⟩ k hk
      rw [hnone] at hkind
      cases hkind
    · obtain rfl := Option.some.inj hq
      refine ⟨rfl, ?_, hc.pendingKnown (!x) p hpending hawaited⟩
      rw [Bool.not_not, pop_self, confirmed, List.filterMap_eq_nil_iff]
      exact fun k hk => (hbehind k hk).1 rfl
  · rw [hresult]
    exact (hc.pop h rfl).keep rfl fun p hp _ => hc.pendingKnown (!x) p (hkept p hp) hawaited

theorem sound_step (callId : String) (hc : Sound first c) {e : UpgradeEvent}
    (hfree : c.Uncrossed e) : Sound first (c.step callId e) := by
  cases e with
  | propose x proposalId profile => exact hc.propose callId proposalId profile hfree
  | deliver x =>
      rw [step]
      split
      · exact hc
      · rename_i msg rest h
        change Sound first ((c.pop x rest).act (!x) ((c.client (!x)).recvUpgrade msg))
        have hkeep : confirms msg = none → Sound first ((c.pop x rest).act (!x) (c.client (!x), [])) :=
          fun hm => (hc.pop h hm).keep rfl ((hc.pop h hm).pendingKnown (!x))
        cases msg with
        | upgradeProposal callId proposalId => exact hc.respond true h
        | upgradeResponse callId proposalId accepted => exact hc.answered h
        | upgradeConfirm callId proposalId profile => exact hc.confirm h
        | _ => exact hkeep rfl
  | reject x =>
      rw [step]
      split
      · rename_i callId proposalId rest h
        exact hc.respond false h
      · exact hc

end

theorem sound_start (hsame : (first false).activeQuality = (first true).activeQuality) :
    Sound first (start first) where
  proposals _ h := by
    obtain ⟨m, hm, -⟩ := h
    cases hm
  responses _ h := by
    obtain ⟨m, hm, -⟩ := h
    cases hm
  ordered _ := List.Pairwise.nil
  confirming _ h := absurd rfl h
  settled _ := hsame
  known _ := Or.inl rfl
  confirmedKnown _ q hq := by cases hq
  pendingKnown _ _ _ hawaited := by
    rcases hawaited with ⟨m, hm, -⟩ | ⟨m, hm, -⟩
    · cases hm
    · cases hm

theorem Sound.agrees (hc : Sound first c) : c.Agrees first where
  same hquiescent := hc.settled fun x => by rw [hquiescent x]; rfl
  known := hc.known

/-- Unless proposals cross, the clients agree whenever all is processed exactly if they
have come to the call with the same quality, whatever is left in their slots. -/
theorem upgrades_agree (callId : String) (first : Bool → QualityState) (events : List UpgradeEvent)
    (hfree : EachStep (step callId) Uncrossed (start first) events) :
    Throughout (step callId) (Agrees first) (start first) events ↔
      (first false).activeQuality = (first true).activeQuality := by
  constructor
  · intro h
    exact h.head.same fun _ => rfl
  · intro hsame
    have hsound : Throughout (step callId) (Sound first) (start first) events :=
      throughout_of_eachStep (fun _ _ hc hok => sound_step callId hc hok) (sound_start hsame) hfree
    exact hsound.mono fun _ hc => hc.agrees

/-- A proposal, replaced by a second one, and one of the other client behind its response. -/
def orderlyUpgrade : List UpgradeEvent :=
  [.propose false "a" .studio32k, .propose false "b" .studio48k, .deliver false, .deliver false,
    .propose true "c" .studio64k, .deliver true, .deliver true, .deliver true, .deliver false,
    .deliver true]

/-- Both have come with the good profile, one with a proposal that was never answered. -/
def returning (x : Bool) : QualityState :=
  ⟨{ SignalState.new with pendingUpgrade := if x then some ("old", "c", .studio32k) else none },
    .good⟩

theorem upgrades_agree_orderly :
    EachStep (step "call") Uncrossed (start returning) orderlyUpgrade ∧
      Throughout (step "call") (Agrees returning) (start returning) orderlyUpgrade := by
  have hfree : EachStep (step "call") Uncrossed (start returning) orderlyUpgrade := by
    decide +kernel
  exact ⟨hfree, (upgrades_agree "call" _ _ hfree).mpr rfl⟩

/-- Both propose at once, and each proposal is accepted. -/
def crossedUpgrade : List UpgradeEvent :=
  [.propose false "a" .studio48k, .propose true "b" .studio64k, .deliver false, .deliver true,
    .deliver true, .deliver false, .deliver false, .deliver true]

/-- Each client ends with what the other proposed. -/
theorem crossed_upgrades_differ :
    ¬ Throughout (step "call") (Agrees returning) (start returning) crossedUpgrade := by
  intro h
  have hquiescent : (run (step "call") (start returning) crossedUpgrade).Quiescent := by
    intro x
    cases x <;> exact List.isEmpty_iff.mp (by decide +kernel)
  have hcodec := congrArg QualityProfile.codec (h.last.same hquiescent)
  exact absurd hcodec (by decide +kernel)

end UpgradeCall
end Wzp.Desktop
