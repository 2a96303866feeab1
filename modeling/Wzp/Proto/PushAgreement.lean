import Wzp.Proto.JitterWindow

/-!
# The two ways to push

A push takes the packet's timestamp for its time of arrival. It also lowers the depth
before playout to the target, which by then is never below it.
-/
namespace Wzp.Proto
open Runs

namespace AdaptivePlayoutDelay
variable {d : AdaptivePlayoutDelay} {now : ℕ} {arrivalMs expectedMs : UInt64}

def setMobileMode (d : AdaptivePlayoutDelay) (enabled : Bool) : AdaptivePlayoutDelay :=
  if enabled then
    { d with
      safetyMargin := 3.0
      alphaUp := 0.3
      alphaDown := 0.02
      spikeThresholdMultiplier := 3.0
      spikeCooldown := 2000000000 }
  else
    { d with
      safetyMargin := defaultSafetyMargin
      alphaUp := defaultAlpha
      alphaDown := defaultAlpha
      spikeThresholdMultiplier := 3.0
      spikeCooldown := 2000000000 }

/-- An estimator that was given an empty range and has not adjusted its target yet. -/
structure Unadjusted (d : AdaptivePlayoutDelay) : Prop where
  empty : d.maxDelay < d.minDelay
  jitter : d.jitterEma = 0.0
  spike : d.spikeDetectedAt = none
  target : d.targetDelay = d.minDelay

/-- What an estimator is before its clamp panics. -/
def Sound (d : AdaptivePlayoutDelay) : Prop := d.Ranged ∨ d.Unadjusted

theorem new_sound (minDelay maxDelay : ℕ) : (new minDelay maxDelay).Sound := by
  cases Nat.lt_or_ge maxDelay minDelay with
  | inl hempty => exact Or.inr ⟨hempty, rfl, rfl, rfl⟩
  | inr hrange => exact Or.inl (new_ranged hrange)

theorem setMobileMode_sound (h : d.Sound) (enabled : Bool) : (d.setMobileMode enabled).Sound := by
  unfold setMobileMode
  split
  · exact h.imp (fun h => ⟨h.range, h.target⟩) fun h => ⟨h.empty, h.jitter, h.spike, h.target⟩
  · exact h.imp (fun h => ⟨h.range, h.target⟩) fun h => ⟨h.empty, h.jitter, h.spike, h.target⟩

/-- Without jitter so far there is no spike, and an empty range gives its lower end. -/
theorem Unadjusted.adjust (h : d.Unadjusted) (now : ℕ) (a e : Float) :
    (d.adjust now a e).spikeDetectedAt = none ∧ (d.adjust now a e).targetDelay = d.minDelay := by
  have hzero : decide ((0.0 : Float) > 0) = false := by decide +kernel
  have hspike : (d.adjust now a e).spikeDetectedAt = none := by
    unfold AdaptivePlayoutDelay.adjust
    dsimp only
    rw [h.jitter, hzero, h.spike, Bool.false_and, if_neg Bool.false_ne_true]
    rfl
  refine ⟨hspike, ?_⟩
  have htarget : (d.adjust now a e).targetDelay =
      if (d.adjust now a e).spikeDetectedAt.isSome then d.maxDelay
      else max d.minDelay (min (((d.adjust now a e).jitterEma / frameDurationMs).ceil +
        d.safetyMargin).toUInt64.toNat d.maxDelay) := rfl
  rw [htarget, hspike, Option.isSome_none, if_neg Bool.false_ne_true]
  exact Nat.max_eq_left ((Nat.min_le_right _ _).trans h.empty.le)

/-- The target is never below the lower end of the range. -/
theorem Sound.target (h : d.Sound) : d.minDelay ≤ (d.update now arrivalMs expectedMs).targetDelay := by
  cases h with
  | inl hranged =>
      rw [← update_minDelay d now arrivalMs expectedMs]
      exact (update_ranged hranged now arrivalMs expectedMs).target
  | inr hunadjusted =>
      unfold update
      split
      · exact (hunadjusted.adjust now _ _).2.ge
      · exact hunadjusted.target.ge

/-- An estimator stays sound until it panics. -/
theorem Sound.update (h : d.Sound) (hok : d.clampPanics now arrivalMs expectedMs = false) :
    (d.update now arrivalMs expectedMs).Sound := by
  cases h with
  | inl hranged => exact Or.inl (update_ranged hranged now arrivalMs expectedMs)
  | inr hunadjusted =>
      refine Or.inr ?_
      unfold clampPanics at hok
      unfold AdaptivePlayoutDelay.update
      split
      · next lastArrival lastExpected harrival hexpected =>
          rw [harrival, hexpected] at hok
          dsimp only at hok
          rw [(hunadjusted.adjust now _ _).1, decide_eq_true hunadjusted.empty] at hok
          exact absurd hok (by decide)
      · exact ⟨hunadjusted.empty, hunadjusted.jitter, hunadjusted.spike, hunadjusted.target⟩

end AdaptivePlayoutDelay

namespace JitterBuffer
variable {jb : JitterBuffer} {packet : MediaPacket} {seq : UInt32} {now : ℕ} {arrivalMs : UInt64}

/-- As the constructors make it. -/
inductive Made : JitterBuffer → Prop where
  | new (targetDepth maxDepth minDepth : ℕ) : Made (.new targetDepth maxDepth minDepth)
  | newAdaptive (minDelay maxDelay : ℕ) : Made (.newAdaptive minDelay maxDelay)

/-! ## The branches of a push -/

/-- What a push does, however the estimator is fed. -/
inductive Branch (jb : JitterBuffer) (packet : MediaPacket)
    (result : (JitterBuffer → JitterBuffer) → JitterBuffer) : Prop where
  | duplicate (key : jb.containsKey packet.header.seq = true)
      (counts : ∀ tune, result tune = { jb.receive packet.header.seq with
        stats := { (jb.receive packet.header.seq).stats with
          packetsDuplicate := jb.stats.packetsDuplicate + 1 } })
  | late (key : jb.containsKey packet.header.seq = false)
      (late : jb.isLate packet.header.seq = true)
      (known : jb.isNewSender packet.header.seq = false)
      (counts : ∀ tune, result tune = { jb.receive packet.header.seq with
        stats := { (jb.receive packet.header.seq).stats with
          packetsLate := jb.stats.packetsLate + 1 } })
  | renewed (sender : jb.isNewSender packet.header.seq = true)
      (accepts : ∀ tune, result tune = accept { jb.receive packet.header.seq with
        buffer := []
        nextPlayoutSeq := packet.header.seq
        stats := { (jb.receive packet.header.seq).stats with packetsLate := 0 } } packet tune)
  | accepted (key : jb.containsKey packet.header.seq = false)
      (early : jb.isLate packet.header.seq = false)
      (accepts : ∀ tune, result tune = (jb.receive packet.header.seq).accept packet tune)

/-- The first packet of all is not late. -/
theorem late_receive (jb : JitterBuffer) (seq : UInt32) :
    (decide (0 < (jb.receive seq).stats.packetsPlayed) &&
      seqBefore seq (jb.receive seq).nextPlayoutSeq) = jb.isLate seq := by
  cases hinit : jb.initialized with
  | false => rw [receive_first hinit, isLate, hinit, seqBefore_self, Bool.and_false, Bool.false_and,
      Bool.false_and]
  | true => rw [receive_later hinit, isLate, hinit, Bool.true_and]

theorem isLate_initialized (h : jb.isLate seq = true) : jb.initialized = true := by
  rw [isLate, Bool.and_eq_true, Bool.and_eq_true] at h
  exact h.1.1

theorem pushTuned_branch (jb : JitterBuffer) (packet : MediaPacket) :
    Branch jb packet (jb.pushTuned packet) := by
  have hcontains : (jb.receive packet.header.seq).containsKey packet.header.seq =
      jb.containsKey packet.header.seq := rfl
  cases hkey : jb.containsKey packet.header.seq with
  | true =>
      refine .duplicate hkey fun tune => ?_
      rw [pushTuned]
      dsimp only
      rw [hcontains, hkey, if_pos rfl]
      rfl
  | false =>
      cases hlate : jb.isLate packet.header.seq with
      | false =>
          refine .accepted hkey hlate fun tune => ?_
          rw [pushTuned]
          dsimp only
          rw [hcontains, hkey, late_receive, hlate, if_neg Bool.false_ne_true,
            if_neg Bool.false_ne_true]
      | true =>
          have hnext : (jb.receive packet.header.seq).nextPlayoutSeq = jb.nextPlayoutSeq := by
            rw [receive_later (isLate_initialized hlate)]
          have hsender : jb.isNewSender packet.header.seq =
              decide (100 < jb.nextPlayoutSeq - packet.header.seq) := by
            rw [isNewSender, hkey, hlate]
            rfl
          by_cases hfar : 100 < jb.nextPlayoutSeq - packet.header.seq
          · refine .renewed (by rw [hsender, decide_eq_true hfar]) fun tune => ?_
            rw [pushTuned]
            dsimp only
            rw [hcontains, hkey, late_receive, hlate, if_neg Bool.false_ne_true, if_pos rfl, hnext,
              if_pos hfar]
          · refine .late hkey hlate (by rw [hsender, decide_eq_false hfar]) fun tune => ?_
            rw [pushTuned]
            dsimp only
            rw [hcontains, hkey, late_receive, hlate, if_neg Bool.false_ne_true, if_pos rfl, hnext,
              if_neg hfar]
            rfl

/-! ## What a push does to the estimator -/

/-- The push gets as far as the estimator. -/
def feeds (jb : JitterBuffer) (packet : MediaPacket) : Bool :=
  !jb.initialized || jb.joins packet.header.seq || jb.isNewSender packet.header.seq

/-- The push gets as far as the estimator, whose clamp panics. -/
def pushWithArrivalPanics (jb : JitterBuffer) (now : ℕ) (packet : MediaPacket)
    (arrivalMs : UInt64) : Bool :=
  jb.feeds packet &&
    jb.adaptive.any fun d => d.clampPanics now arrivalMs packet.header.timestamp.toUInt64

/-- Nothing is kept before the first packet. -/
def Unused (jb : JitterBuffer) : Prop :=
  jb.initialized = false → jb.buffer = [] ∧ jb.stats.packetsPlayed = 0

/-- A buffer in use, with the estimator and the depth before playout that it had. -/
structure Alongside (jb jb' : JitterBuffer) : Prop where
  initialized : jb'.initialized = true
  adaptive : jb'.adaptive = jb.adaptive
  minDepth : jb'.minDepth = jb.minDepth

/-- A push leaves the estimator alone, or it accepts the packet and so feeds it once. -/
theorem pushTuned_fed (h : jb.Unused) (packet : MediaPacket) :
    (jb.feeds packet = false ∧ ∃ after, Alongside jb after ∧
      ∀ tune, jb.pushTuned packet tune = after) ∨
    (jb.feeds packet = true ∧ ∃ before, Alongside jb before ∧
      ∀ tune, jb.pushTuned packet tune = before.accept packet tune) := by
  cases pushTuned_branch jb packet with
  | duplicate key counts =>
      have hinit : jb.initialized = true := by
        by_contra hnot
        rw [containsKey, (h (Bool.eq_false_of_not_eq_true hnot)).1] at key
        exact Bool.false_ne_true key
      refine Or.inl ⟨?_, _, ?_, counts⟩
      on_goal 2 => exact ⟨rfl, rfl, rfl⟩
      rw [feeds, joins, isNewSender, hinit, key]
      rfl
  | late key late known counts =>
      refine Or.inl ⟨?_, _, ?_, counts⟩
      on_goal 2 => exact ⟨rfl, rfl, rfl⟩
      rw [feeds, joins, isLate_initialized late, late, known, Bool.not_true, Bool.and_false]
      rfl
  | renewed sender accepts =>
      refine Or.inr ⟨?_, _, ?_, accepts⟩
      on_goal 2 => exact ⟨rfl, rfl, rfl⟩
      rw [feeds, sender, Bool.or_true]
  | accepted key early accepts =>
      refine Or.inr ⟨?_, _, ?_, accepts⟩
      on_goal 2 => exact ⟨rfl, rfl, rfl⟩
      rw [feeds, joins, key, early]
      cases jb.initialized <;> rfl

theorem Alongside.trans {jb'' jb' : JitterBuffer} (h : Alongside jb jb') (h' : Alongside jb' jb'') :
    Alongside jb jb'' :=
  ⟨h'.initialized, h'.adaptive.trans h.adaptive, h'.minDepth.trans h.minDepth⟩

theorem evict_alongside (hinit : jb.initialized = true) (entries : List (UInt32 × MediaPacket)) :
    Alongside jb (jb.evict entries) := by
  induction entries generalizing jb with
  | nil => exact ⟨hinit, rfl, rfl⟩
  | cons e rest ih =>
      have hnext : ∀ b : JitterBuffer, Alongside jb b → Alongside jb (b.evict rest) :=
        fun b hb => hb.trans (ih hb.initialized)
      unfold evict
      split
      · dsimp only
        split
        · exact hnext _ ⟨hinit, rfl, rfl⟩
        · exact hnext _ ⟨hinit, rfl, rfl⟩
      · exact ⟨hinit, rfl, rfl⟩

/-- The buffer that an accepted packet makes the estimator work on. -/
theorem accept_fed (hinit : jb.initialized = true) (packet : MediaPacket) :
    ∃ fed, Alongside jb fed ∧ ∀ tune : JitterBuffer → JitterBuffer, jb.accept packet tune =
      ((tune fed).evict (insertSorted packet.header.seq packet (tune fed).buffer)).recordDepth := by
  refine ⟨if jb.stats.packetsPlayed = 0 && seqBefore packet.header.seq jb.nextPlayoutSeq then
    { jb with nextPlayoutSeq := packet.header.seq } else jb, ?_, fun _ => rfl⟩
  split
  · exact ⟨hinit, rfl, rfl⟩
  · exact ⟨hinit, rfl, rfl⟩

/-! ## The depth before playout -/

/-- The estimator never asks for less than the depth before playout. -/
structure Level (jb : JitterBuffer) : Prop where
  unused : jb.Unused
  depth : ∀ d, jb.adaptive = some d → jb.minDepth ≤ d.minDelay
  sound : ∀ d, jb.adaptive = some d → d.Sound

theorem Made.level (h : jb.Made) : jb.Level := by
  cases h with
  | new => exact ⟨fun _ => ⟨rfl, rfl⟩, fun _ h => (nomatch h), fun _ h => (nomatch h)⟩
  | newAdaptive minDelay maxDelay =>
      refine ⟨fun _ => ⟨rfl, rfl⟩, fun d hd => ?_, fun d hd => ?_⟩
      · obtain rfl := Option.some.inj hd
        exact Nat.le_refl _
      · obtain rfl := Option.some.inj hd
        exact AdaptivePlayoutDelay.new_sound minDelay maxDelay

/-- The minimum that a push takes is the depth that there is. -/
theorem tune_eq {fed : JitterBuffer} (h : jb.Level) (hfed : Alongside jb fed) :
    tune now packet fed = tuneWithArrival now packet.header.timestamp.toUInt64 packet fed := by
  rw [tune, tuneWithArrival]
  cases hd : fed.adaptive with
  | none => rfl
  | some d =>
      have hd' : jb.adaptive = some d := hfed.adaptive.symm.trans hd
      have hmin : fed.minDepth ≤ (d.update now packet.header.timestamp.toUInt64
          packet.header.timestamp.toUInt64).targetDelay := by
        rw [hfed.minDepth]
        exact (h.depth d hd').trans (h.sound d hd').target
      dsimp only
      rw [Nat.min_eq_left hmin]

theorem push_eq (h : jb.Level) (now : ℕ) (packet : MediaPacket) :
    jb.push now packet = jb.pushWithArrival now packet packet.header.timestamp.toUInt64 := by
  rw [push, pushWithArrival]
  rcases pushTuned_fed h.unused packet with ⟨-, after, -, hafter⟩ | ⟨-, before, hbefore, haccept⟩
  · rw [hafter, hafter]
  · obtain ⟨fed, hfed, hevict⟩ := accept_fed hbefore.initialized packet
    rw [haccept, haccept, hevict, hevict, tune_eq h (hbefore.trans hfed)]

theorem Level.of_alongside {jb' : JitterBuffer} (h : jb.Level) (hsame : Alongside jb jb') :
    jb'.Level where
  unused hinit := absurd hsame.initialized (Bool.eq_false_iff.mp hinit)
  depth d hd := by
    rw [hsame.minDepth]
    exact h.depth d (hsame.adaptive.symm.trans hd)
  sound d hd := h.sound d (hsame.adaptive.symm.trans hd)

theorem Level.pushWithArrival (h : jb.Level)
    (hok : jb.pushWithArrivalPanics now packet arrivalMs = false) :
    (jb.pushWithArrival now packet arrivalMs).Level := by
  rw [JitterBuffer.pushWithArrival]
  rcases pushTuned_fed h.unused packet with ⟨-, after, hafter, heq⟩ | ⟨hfeeds, before, hbefore, heq⟩
  · rw [heq]
    exact h.of_alongside hafter
  obtain ⟨fed, hfed, hevict⟩ := accept_fed hbefore.initialized packet
  have hlevel := h.of_alongside (hbefore.trans hfed)
  rw [pushWithArrivalPanics, hfeeds, Bool.true_and, ← hbefore.adaptive, ← hfed.adaptive] at hok
  -- the estimator is fed, and the eviction leaves what it says
  have htuned : (tuneWithArrival now arrivalMs packet fed).Level ∧
      (tuneWithArrival now arrivalMs packet fed).initialized = true := by
    rw [tuneWithArrival]
    cases hd : fed.adaptive with
    | none => exact ⟨hlevel, hfed.initialized⟩
    | some d =>
        rw [hd, Option.any_some] at hok
        refine ⟨⟨fun hinit => ?_, fun d' hd' => ?_, fun d' hd' => ?_⟩, hfed.initialized⟩
        · exact absurd hfed.initialized (Bool.eq_false_iff.mp hinit)
        · obtain rfl := Option.some.inj hd'
          rw [AdaptivePlayoutDelay.update_minDelay]
          exact hlevel.depth d hd
        · obtain rfl := Option.some.inj hd'
          exact (hlevel.sound d hd).update hok
  rw [heq, hevict]
  have hkept := htuned.1.of_alongside (evict_alongside htuned.2
    (insertSorted packet.header.seq packet (tuneWithArrival now arrivalMs packet fed).buffer))
  exact ⟨hkept.unused, hkept.depth, hkept.sound⟩

/-! ## Every use of a buffer -/

/-- What is called on a buffer or on its estimator. -/
inductive Call where
  | jitter (e : JitterEvent)
  | updateEstimator (now : ℕ) (arrivalMs expectedMs : UInt64)
  | setMobileMode (enabled : Bool)

def call (jb : JitterBuffer) : Call → JitterBuffer
  | .jitter e => jb.apply e
  | .updateEstimator now arrivalMs expectedMs =>
      { jb with adaptive := jb.adaptive.map (·.update now arrivalMs expectedMs) }
  | .setMobileMode enabled => { jb with adaptive := jb.adaptive.map (·.setMobileMode enabled) }

def callPanics (jb : JitterBuffer) : Call → Bool
  | .jitter (.push now packet) => jb.pushPanics now packet
  | .jitter (.pushWithArrival now packet arrivalMs) => jb.pushWithArrivalPanics now packet arrivalMs
  | .updateEstimator now arrivalMs expectedMs =>
      jb.adaptive.any (·.clampPanics now arrivalMs expectedMs)
  | _ => false

theorem Level.pop (h : jb.Level) : jb.pop.2.Level := by
  have hsame : jb.pop.2.adaptive = jb.adaptive ∧ jb.pop.2.minDepth = jb.minDepth := by
    unfold JitterBuffer.pop
    split
    · exact ⟨rfl, rfl⟩
    split
    · exact ⟨rfl, rfl⟩
    dsimp only
    split <;> exact ⟨rfl, rfl⟩
  refine ⟨fun hinit => ?_, fun d hd => ?_, fun d hd => ?_⟩
  · rw [pop_initialized] at hinit
    rw [pop_unused hinit]
    exact h.unused hinit
  · rw [hsame.2]
    exact h.depth d (hsame.1.symm.trans hd)
  · exact h.sound d (hsame.1.symm.trans hd)

/-- A change of the estimator alone. -/
theorem Level.map (h : jb.Level) {f : AdaptivePlayoutDelay → AdaptivePlayoutDelay}
    (hmin : ∀ d, (f d).minDelay = d.minDelay)
    (hsound : ∀ d, jb.adaptive = some d → d.Sound → (f d).Sound) :
    Level { jb with adaptive := jb.adaptive.map f } := by
  refine ⟨h.unused, fun d' hd' => ?_, fun d' hd' => ?_⟩
  · obtain ⟨d, hd, rfl⟩ := Option.map_eq_some_iff.mp hd'
    rw [hmin]
    exact h.depth d hd
  · obtain ⟨d, hd, rfl⟩ := Option.map_eq_some_iff.mp hd'
    exact hsound d hd (h.sound d hd)

theorem level_call (h : jb.Level) {c : Call} (hok : jb.callPanics c = false) :
    (jb.call c).Level := by
  cases c with
  | jitter e =>
      cases e with
      | push now packet =>
          change (jb.push now packet).Level
          rw [push_eq h]
          exact h.pushWithArrival hok
      | pushWithArrival now packet arrivalMs => exact h.pushWithArrival hok
      | pop => exact h.pop
      | reset => exact ⟨fun _ => ⟨rfl, rfl⟩, h.depth, h.sound⟩
      | resetStats => exact ⟨fun hinit => ⟨(h.unused hinit).1, rfl⟩, h.depth, h.sound⟩
      | recordUnderrun | recordDecode | setTargetDepth => exact ⟨h.unused, h.depth, h.sound⟩
  | updateEstimator now arrivalMs expectedMs =>
      refine h.map (fun d => d.update_minDelay now arrivalMs expectedMs) fun d hd hsound => ?_
      rw [callPanics, hd, Option.any_some] at hok
      exact hsound.update hok
  | setMobileMode enabled =>
      refine h.map (fun d => ?_) fun d _ hsound => AdaptivePlayoutDelay.setMobileMode_sound hsound enabled
      rw [AdaptivePlayoutDelay.setMobileMode]
      split <;> rfl

/-- A push that may panic. -/
def tryPush (jb : JitterBuffer) (now : ℕ) (packet : MediaPacket) : Option JitterBuffer :=
  if jb.pushPanics now packet then none else some (jb.push now packet)

def tryPushWithArrival (jb : JitterBuffer) (now : ℕ) (packet : MediaPacket) (arrivalMs : UInt64) :
    Option JitterBuffer :=
  if jb.pushWithArrivalPanics now packet arrivalMs then none
  else some (jb.pushWithArrival now packet arrivalMs)

/-- However a buffer has been used, a push is one with the packet's timestamp for its time of
arrival. -/
theorem tryPush_eq_tryPushWithArrival (h : jb.Made) (calls : List Call)
    (hok : EachStep call (fun jb c => jb.callPanics c = false) jb calls) (now : ℕ)
    (packet : MediaPacket) :
    (run call jb calls).tryPush now packet =
      (run call jb calls).tryPushWithArrival now packet packet.header.timestamp.toUInt64 := by
  have hlevel : (run call jb calls).Level :=
    (throughout_of_eachStep (P := Level) (fun _ _ h => level_call h) h.level hok).last
  rw [tryPush, tryPushWithArrival, push_eq hlevel]
  rfl

def tone (seq timestamp : UInt32) : MediaPacket :=
  ⟨⟨2, 0, .audio, .opus24k, 0, 0, seq, timestamp, 0⟩, [], none⟩

theorem tryPush_eq_adaptive :
    (run call (newAdaptive 3 50) [.setMobileMode true, .jitter (.push 0 (tone 7 40))]).tryPush
        30000000 (tone 8 60) =
      (run call (newAdaptive 3 50) [.setMobileMode true,
        .jitter (.push 0 (tone 7 40))]).tryPushWithArrival 30000000 (tone 8 60) 60 :=
  tryPush_eq_tryPushWithArrival (.newAdaptive 3 50) [.setMobileMode true, .jitter (.push 0 (tone 7 40))]
    ⟨rfl, rfl, trivial⟩ 30000000 (tone 8 60)

end JitterBuffer
end Wzp.Proto
