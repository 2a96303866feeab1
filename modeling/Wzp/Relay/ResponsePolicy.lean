import Wzp.Lib.Table
import Wzp.Relay.VideoScorer

/-!
# The response policy

Verdicts become actions. A fingerprint that is abusive again within a day is to be blocked.
The policy keeps one instant for each fingerprint and violation code.
-/
namespace Wzp.Relay

inductive ViolationCode where
  | bitrate
  | packetRate
  | timestampDrift
  | payloadSize
  | rateCap
  | entropy
  deriving DecidableEq

/-- The code as the debug format writes it. -/
def ViolationCode.debug : ViolationCode → String
  | .bitrate => "Bitrate"
  | .packetRate => "PacketRate"
  | .timestampDrift => "TimestampDrift"
  | .payloadSize => "PayloadSize"
  | .rateCap => "RateCap"
  | .entropy => "Entropy"

structure PolicyViolation where
  code : ViolationCode
  reason : String
  deriving DecidableEq

inductive Action where
  | allow
  | throttle
  | close (reason : PolicyViolation)
  | block
  deriving DecidableEq

/-- 24 hours, in nanoseconds. -/
def day : ℕ := 86400 * 1000000000

structure ResponsePolicy where
  cooldowns : Table (String × ViolationCode) ℕ
  blockDuration : ℕ

namespace ResponsePolicy

def new : ResponsePolicy := ⟨∅, day⟩

/-- An entry is younger than the block duration. -/
def fresh (policy : ResponsePolicy) (now last : ℕ) : Bool := now - last < policy.blockDuration

def isRepeat (policy : ResponsePolicy) (fingerprint : String) (code : ViolationCode) (now : ℕ) :
    Bool :=
  ((policy.cooldowns.lookup (fingerprint, code)).map (policy.fresh now)).getD false

def evaluate (policy : ResponsePolicy) (fingerprint : String) (code : ViolationCode)
    (verdict : Verdict) (now : ℕ) : ResponsePolicy × Action :=
  match verdict with
  | .legitimate => (policy, .allow)
  | .suspect => (policy, .throttle)
  | .abusive =>
      if policy.isRepeat fingerprint code now then (policy, .block)
      else
        ({ policy with cooldowns := policy.cooldowns.insert (fingerprint, code) now },
          .close ⟨code, "Tier G enforcement: " ++ code.debug⟩)

def isBlocked (policy : ResponsePolicy) (fingerprint : String) (now : ℕ) : Bool :=
  policy.cooldowns.entries.any fun entry =>
    entry.1.1 = fingerprint && policy.fresh now entry.2

def prune (policy : ResponsePolicy) (now : ℕ) : ResponsePolicy :=
  { policy with cooldowns := policy.cooldowns.retain fun _ last => policy.fresh now last }

end ResponsePolicy

/-! ## Histories -/

inductive PolicyCall where
  | evaluate (fingerprint : String) (code : ViolationCode) (verdict : Verdict)
  | isBlocked (fingerprint : String)
  | prune

/-- A call, so long after the one before. -/
structure PolicyEvent where
  elapsed : ℕ
  call : PolicyCall

structure Evaluation where
  instant : ℕ
  fingerprint : String
  code : ViolationCode
  verdict : Verdict
  action : Action
  /-- The verdict is abusive, and so was one for the same code less than a day before. -/
  again : Bool

/-- An abusive verdict on a fingerprint for a code. -/
def Evaluation.Offends (x : Evaluation) (fingerprint : String) (code : ViolationCode) : Prop :=
  x.fingerprint = fingerprint ∧ x.code = code ∧ x.verdict = .abusive

instance (x : Evaluation) (fingerprint : String) (code : ViolationCode) :
    Decidable (x.Offends fingerprint code) := inferInstanceAs (Decidable (_ ∧ _ ∧ _))

/-- The policy and its past. -/
structure PolicyRun where
  now : ℕ
  policy : ResponsePolicy
  /-- The policy as it would be, had it not been pruned. -/
  unpruned : ResponsePolicy
  past : List Evaluation

namespace PolicyRun

def start (now : ℕ) : PolicyRun := ⟨now, .new, .new, []⟩

def wait (run : PolicyRun) (elapsed : ℕ) : PolicyRun := { run with now := run.now + elapsed }

/-- The fingerprint was abusive in the same way in the day before. -/
def abusiveBefore (run : PolicyRun) (fingerprint : String) (code : ViolationCode) : Bool :=
  run.past.any fun x => x.Offends fingerprint code && run.now - x.instant < day

/-- A call now. -/
def take (run : PolicyRun) : PolicyCall → PolicyRun
  | .evaluate fingerprint code verdict =>
      let r := run.policy.evaluate fingerprint code verdict run.now
      { run with
        policy := r.1
        unpruned := (run.unpruned.evaluate fingerprint code verdict run.now).1
        past := ⟨run.now, fingerprint, code, verdict, r.2,
          verdict = .abusive && run.abusiveBefore fingerprint code⟩ :: run.past }
  | .isBlocked _ => run
  | .prune => { run with policy := run.policy.prune run.now }

def step (run : PolicyRun) (e : PolicyEvent) : PolicyRun := (run.wait e.elapsed).take e.call

/-- Repeated abuse is blocked and shows as blocked for a day, and nothing depends on pruning. -/
def EscalatesNow (run : PolicyRun) : PolicyCall → Prop
  | .evaluate fingerprint code verdict =>
      (verdict = .abusive →
        ((run.policy.evaluate fingerprint code verdict run.now).2 = .block ↔
          ∃ x ∈ run.past, x.Offends fingerprint code ∧ run.now - x.instant < day)) ∧
      (run.policy.evaluate fingerprint code verdict run.now).2 =
        (run.unpruned.evaluate fingerprint code verdict run.now).2
  | .isBlocked fingerprint =>
      (run.policy.isBlocked fingerprint run.now = true ↔
        ∃ x ∈ run.past, x.fingerprint = fingerprint ∧ x.action = .block ∧
          run.now - x.instant < day) ∧
      run.policy.isBlocked fingerprint run.now = run.unpruned.isBlocked fingerprint run.now
  | .prune => True

def Escalates (run : PolicyRun) (e : PolicyEvent) : Prop :=
  (run.wait e.elapsed).EscalatesNow e.call

/-- No abuse has left the last day that was itself less than a day before some abuse in it; and
a fingerprint that is asked about began to be abusive in the last day exactly if it was abusive
again in it. -/
def OneDayAtATimeNow (run : PolicyRun) : PolicyCall → Prop
  | .evaluate fingerprint code verdict =>
      verdict = .abusive → ∀ x ∈ run.past, ∀ y ∈ run.past,
        x.Offends fingerprint code → y.Offends fingerprint code →
        y.instant - x.instant < day → run.now - y.instant < day → run.now - x.instant < day
  | .isBlocked fingerprint =>
      (∃ x ∈ run.past, x.fingerprint = fingerprint ∧ x.verdict = .abusive ∧ x.again = false ∧
        run.now - x.instant < day) ↔
      ∃ x ∈ run.past, x.fingerprint = fingerprint ∧ x.again = true ∧ run.now - x.instant < day
  | .prune => True

def OneDayAtATime (run : PolicyRun) (e : PolicyEvent) : Prop :=
  (run.wait e.elapsed).OneDayAtATimeNow e.call

end PolicyRun

end Wzp.Relay
