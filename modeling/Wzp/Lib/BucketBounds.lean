import Wzp.Lib.RateMeters

/-!
# A bucket that refuses

What a token bucket cannot pay for is refused and costs nothing. The tokens are what the
tightest of the intervals that end now has left.
-/
namespace RateMeters
open Runs

variable {ε : Type*}

/-- A bucket, and what it has been asked for with its answers. -/
structure Account (ε : Type*) where
  bucket : Bucket
  asked : List (ε × Bool)

section Accounts
variable (time : ε → ℤ) (weight : ε → ℕ) (capacity rate : ℚ)

/-- What was granted. -/
def granted (asked : List (ε × Bool)) : ℕ :=
  (asked.map fun a => if a.2 then weight a.1 else 0).sum

/-- What an interval allows. -/
def budget (t u : ℤ) : ℚ := capacity + rate * (u - t)

namespace Account

def grants (s : Account ε) (e : ε) : Bool :=
  decide ((weight e : ℚ) ≤ s.bucket.refilled capacity rate (time e))

def ask (s : Account ε) (e : ε) : Account ε :=
  let paid : ℕ := if s.grants time weight capacity rate e then weight e else 0
  ⟨⟨s.bucket.refilled capacity rate (time e) - paid, time e⟩,
    s.asked ++ [(e, s.grants time weight capacity rate e)]⟩

/-- No interval that ends here has got more than its budget, and a refusal is one that the
budget of such an interval asks for. -/
def Bounded (s : Account ε) (e : ε) : Prop :=
  (∀ a rest, a :: rest <:+ (s.ask time weight capacity rate e).asked →
    (granted weight (a :: rest) : ℚ) ≤ budget capacity rate (time a.1) (time e)) ∧
  (s.grants time weight capacity rate e = false →
    ∃ a rest, a :: rest <:+ (s.ask time weight capacity rate e).asked ∧
      budget capacity rate (time a.1) (time e) < (granted weight (a :: rest) : ℚ) + weight e)

/-- The tokens are within the budget of every interval, and one of them has no more. -/
structure Tight (s : Account ε) : Prop where
  nonneg : 0 ≤ s.bucket.tokens
  within : ∀ a rest, a :: rest <:+ s.asked →
    (granted weight (a :: rest) : ℚ) + s.bucket.tokens ≤
      budget capacity rate (time a.1) s.bucket.last
  attained : s.asked = [] ∧ s.bucket.tokens = capacity ∨ ∃ a rest, a :: rest <:+ s.asked ∧
    (granted weight (a :: rest) : ℚ) + s.bucket.tokens =
      budget capacity rate (time a.1) s.bucket.last

end Account

variable {time weight capacity rate}

theorem granted_concat (asked : List (ε × Bool)) (e : ε) (ok : Bool) :
    granted weight (asked ++ [(e, ok)]) = granted weight asked + if ok then weight e else 0 := by
  unfold granted
  rw [List.map_append, List.sum_append, List.map_singleton, List.sum_singleton]

/-- The intervals that end with a new request. -/
theorem cons_suffix_concat_iff {a x : ε × Bool} {rest asked : List (ε × Bool)} :
    a :: rest <:+ asked ++ [x] ↔
      a = x ∧ rest = [] ∨ ∃ rest', rest = rest' ++ [x] ∧ a :: rest' <:+ asked := by
  rw [List.suffix_concat_iff]
  constructor
  · rintro (hnil | ⟨t, ht, hsuffix⟩)
    · exact absurd hnil (List.cons_ne_nil a rest)
    · cases t with
      | nil =>
          obtain ⟨rfl, rfl⟩ := List.cons.inj ht
          exact .inl ⟨rfl, rfl⟩
      | cons b rest' =>
          obtain ⟨rfl, rfl⟩ := List.cons.inj ht
          exact .inr ⟨rest', rfl, hsuffix⟩
  · rintro (⟨rfl, rfl⟩ | ⟨rest', rfl, hsuffix⟩)
    · exact .inr ⟨[], rfl, List.nil_suffix⟩
    · exact .inr ⟨a :: rest', rfl, hsuffix⟩

namespace Account
variable {s : Account ε} {e : ε} {es : List ε}

section
variable (h : s.Tight time weight capacity rate)
include h

/-- A bucket that has been asked is refilled for the time since. A new one is full. -/
theorem Tight.refilled_eq (hrate : 0 ≤ rate) (htime : s.asked = [] ∨ s.bucket.last ≤ time e) :
    s.bucket.refilled capacity rate (time e) = capacity ∨ s.asked ≠ [] ∧
      s.bucket.refilled capacity rate (time e) =
        s.bucket.tokens + rate * (time e - s.bucket.last) := by
  have hspan : 0 ≤ rate * durationSince (time e) s.bucket.last :=
    mul_nonneg hrate (Nat.cast_nonneg _)
  by_cases hnew : s.asked = []
  · left
    rcases h.attained with ⟨-, hfull⟩ | ⟨a, rest, hsuffix, -⟩
    · rw [Bucket.refilled, hfull]
      exact min_eq_left (le_add_of_nonneg_right hspan)
    · rw [hnew] at hsuffix
      exact absurd (List.suffix_nil.mp hsuffix) (List.cons_ne_nil a rest)
  · have hlast := htime.resolve_left hnew
    rw [Bucket.refilled, cast_durationSince hlast]
    rcases min_choice capacity (s.bucket.tokens + rate * (time e - s.bucket.last)) with hmin | hmin
    · exact .inl hmin
    · exact .inr ⟨hnew, hmin⟩

theorem Tight.refilled_within (htime : s.asked = [] ∨ s.bucket.last ≤ time e) {a : ε × Bool}
    {rest : List (ε × Bool)} (hsuffix : a :: rest <:+ s.asked) :
    (granted weight (a :: rest) : ℚ) + s.bucket.refilled capacity rate (time e) ≤
      budget capacity rate (time a.1) (time e) := by
  have hne : s.asked ≠ [] := by
    intro hnil
    rw [hnil] at hsuffix
    exact List.cons_ne_nil a rest (List.suffix_nil.mp hsuffix)
  have hwithin := h.within a rest hsuffix
  have hle : s.bucket.refilled capacity rate (time e) ≤
      s.bucket.tokens + rate * (time e - s.bucket.last) := by
    rw [Bucket.refilled, cast_durationSince (htime.resolve_left hne)]
    exact min_le_right _ _
  unfold budget at hwithin ⊢
  linarith

theorem Tight.refilled_attained (hrate : 0 ≤ rate)
    (htime : s.asked = [] ∨ s.bucket.last ≤ time e) :
    s.bucket.refilled capacity rate (time e) = capacity ∨ ∃ a rest, a :: rest <:+ s.asked ∧
      (granted weight (a :: rest) : ℚ) + s.bucket.refilled capacity rate (time e) =
        budget capacity rate (time a.1) (time e) := by
  rcases h.refilled_eq hrate htime with hfull | ⟨hne, hrefilled⟩
  · exact .inl hfull
  · right
    rcases h.attained with ⟨hnil, -⟩ | ⟨a, rest, hsuffix, heq⟩
    · exact absurd hnil hne
    · refine ⟨a, rest, hsuffix, ?_⟩
      rw [hrefilled]
      unfold budget at heq ⊢
      linarith

theorem Tight.refilled_nonneg (hcapacity : 0 ≤ capacity) (hrate : 0 ≤ rate) :
    0 ≤ s.bucket.refilled capacity rate (time e) :=
  le_min hcapacity (add_nonneg h.nonneg (mul_nonneg hrate (Nat.cast_nonneg _)))

theorem Tight.ask (hcapacity : 0 ≤ capacity) (hrate : 0 ≤ rate)
    (htime : s.asked = [] ∨ s.bucket.last ≤ time e) :
    (s.ask time weight capacity rate e).Tight time weight capacity rate := by
  have hfull : s.bucket.refilled capacity rate (time e) ≤ capacity := min_le_left _ _
  have hnow : budget capacity rate (time e) (time e) = capacity := by
    rw [budget, sub_self, mul_zero, add_zero]
  set ok := s.grants time weight capacity rate e with hok
  set paid : ℕ := if ok then weight e else 0 with hpaid
  have hone : granted weight [(e, ok)] = paid := by
    rw [hpaid]
    exact Nat.add_zero _
  refine ⟨?_, ?_, .inr ?_⟩
  · change 0 ≤ s.bucket.refilled capacity rate (time e) - paid
    have hle : (paid : ℚ) ≤ s.bucket.refilled capacity rate (time e) := by
      rw [hpaid]
      split
      · next hgrant => exact of_decide_eq_true (hok.symm.trans hgrant)
      · rw [Nat.cast_zero]
        exact h.refilled_nonneg hcapacity hrate
    exact sub_nonneg.mpr hle
  · intro a rest hsuffix
    change (granted weight (a :: rest) : ℚ) + (s.bucket.refilled capacity rate (time e) - paid) ≤
      budget capacity rate (time a.1) (time e)
    rcases cons_suffix_concat_iff.mp hsuffix with ⟨rfl, rfl⟩ | ⟨rest', rfl, hold⟩
    · rw [hone, hnow]
      linarith
    · have hwithin := h.refilled_within htime hold
      rw [← List.cons_append, granted_concat, ← hpaid, Nat.cast_add]
      linarith
  · change ∃ a rest, a :: rest <:+ s.asked ++ [(e, ok)] ∧
      (granted weight (a :: rest) : ℚ) + (s.bucket.refilled capacity rate (time e) - paid) =
        budget capacity rate (time a.1) (time e)
    rcases h.refilled_attained hrate htime with hcapped | ⟨a, rest, hold, heq⟩
    · refine ⟨(e, ok), [], cons_suffix_concat_iff.mpr (.inl ⟨rfl, rfl⟩), ?_⟩
      rw [hone, hnow]
      linarith
    · refine ⟨a, rest ++ [(e, ok)], cons_suffix_concat_iff.mpr (.inr ⟨rest, rfl, hold⟩), ?_⟩
      rw [← List.cons_append, granted_concat, ← hpaid, Nat.cast_add]
      linarith

theorem Tight.bounded (hcapacity : 0 ≤ capacity) (hrate : 0 ≤ rate)
    (htime : s.asked = [] ∨ s.bucket.last ≤ time e) :
    s.Bounded time weight capacity rate e := by
  have htight := h.ask hcapacity hrate htime
  constructor
  · intro a rest hsuffix
    have hwithin := htight.within a rest hsuffix
    exact (le_add_of_nonneg_right htight.nonneg).trans hwithin
  · intro hrefused
    have hshort : s.bucket.refilled capacity rate (time e) < weight e :=
      not_le.mp (of_decide_eq_false hrefused)
    rcases htight.attained with ⟨hnil, -⟩ | ⟨a, rest, hsuffix, heq⟩
    · exact absurd hnil (List.concat_ne_nil _ _)
    · refine ⟨a, rest, hsuffix, ?_⟩
      have htokens : (s.ask time weight capacity rate e).bucket.tokens =
          s.bucket.refilled capacity rate (time e) := by
        unfold Account.ask
        rw [hrefused]
        exact sub_zero _
      rw [htokens] at heq
      exact heq.symm.trans_lt (by linarith)

end

/-- Requests in the order of their times, after those the account has seen. -/
theorem bounded_of_inOrder (hcapacity : 0 ≤ capacity) (hrate : 0 ≤ rate)
    (h : s.Tight time weight capacity rate) (horder : InOrder time es)
    (hlast : s.asked = [] ∨ ∀ e ∈ es, s.bucket.last ≤ time e) :
    EachStep (Account.ask time weight capacity rate) (Account.Bounded time weight capacity rate)
      s es := by
  induction es generalizing s with
  | nil => trivial
  | cons e es ih =>
      obtain ⟨hhead, htail⟩ := List.pairwise_cons.mp horder
      have htime : s.asked = [] ∨ s.bucket.last ≤ time e :=
        hlast.imp_right fun hall => hall e List.mem_cons_self
      exact ⟨h.bounded hcapacity hrate htime, ih (h.ask hcapacity hrate htime) htail (.inr hhead)⟩

end Account

end Accounts

end RateMeters
