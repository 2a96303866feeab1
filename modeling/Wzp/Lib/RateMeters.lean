import Mathlib.Algebra.Order.BigOperators.Group.List
import Mathlib.Data.Rat.Cast.Order
import Mathlib.Tactic.Linarith
import Mathlib.Tactic.Push
import Wzp.Lib.Runs

/-!
# Meters of a flow

Arrivals have a time and a weight and come in the order of their times. A meter
with a fixed window, a token bucket and a bounded trail of arrivals each let a
flow pass or not. What a flow must keep to, to pass them, is said of the flow
alone.
-/
namespace RateMeters
open Runs

variable {ε : Type*} (time : ε → ℤ) (weight : ε → ℕ)

/-- The time from `earlier` to `now`, zero if it is negative. -/
def durationSince (now earlier : ℤ) : ℕ := (now - earlier).toNat

/-- What arrives from `t` on and before `u`. -/
def within (t u : ℤ) (es : List ε) : ℕ :=
  ((es.filter fun e => t ≤ time e ∧ time e < u).map weight).sum

/-- The arrivals are in the order of their times. -/
def InOrder (es : List ε) : Prop := es.Pairwise fun a b => time a ≤ time b

variable {time weight} {es kept : List ε} {e : ε} {t u : ℤ}

@[simp] theorem within_nil : within time weight t u [] = 0 := rfl

theorem within_cons_of_mem (ht : t ≤ time e) (hu : time e < u) :
    within time weight t u (e :: es) = weight e + within time weight t u es := by
  have hmem : decide (t ≤ time e ∧ time e < u) = true := decide_eq_true ⟨ht, hu⟩
  simp only [within, List.filter_cons, hmem, if_true, List.map_cons, List.sum_cons]

theorem within_cons_of_not_mem (h : ¬ (t ≤ time e ∧ time e < u)) :
    within time weight t u (e :: es) = within time weight t u es := by
  have hmem : decide (t ≤ time e ∧ time e < u) = false := decide_eq_false h
  simp only [within, List.filter_cons, hmem, Bool.false_eq_true, if_false]

theorem within_le_of_sublist (h : kept.Sublist es) :
    within time weight t u kept ≤ within time weight t u es :=
  List.Sublist.sum_le_sum ((h.filter _).map weight) fun _ _ => Nat.zero_le _

theorem within_le_cons : within time weight t u es ≤ within time weight t u (e :: es) :=
  within_le_of_sublist (List.sublist_cons_self e es)

/-- Only the arrivals themselves say where a window begins. -/
theorem within_congr_left {t' : ℤ} (ht : ∀ e ∈ es, t ≤ time e) (ht' : ∀ e ∈ es, t' ≤ time e) :
    within time weight t u es = within time weight t' u es := by
  refine congrArg (fun l => (List.map weight l).sum) (List.filter_congr fun e he => ?_)
  simp only [ht e he, ht' e he, true_and]

/-! ## A fixed window -/

/-- A counter and the time since which it counts. -/
structure Window where
  start : ℤ
  total : ℕ

/-- The counter begins again with the first arrival after its window. -/
def Window.add (time : ε → ℤ) (weight : ε → ℕ) (width : ℤ) (w : Window) (e : ε) : Window :=
  if width ≤ time e - w.start then ⟨time e, weight e⟩ else ⟨w.start, w.total + weight e⟩

def Window.Fits (time : ε → ℤ) (weight : ε → ℕ) (width : ℤ) (limit : ℕ) (w : Window) (e : ε) :
    Prop :=
  (w.add time weight width e).total ≤ limit

section Windows
variable {width : ℤ} {limit : ℕ} {w : Window}

/-- A flow with no more than the limit in any window passes. -/
theorem window_passes (hwidth : 0 < width) (horder : InOrder time es)
    (hstart : ∀ e ∈ es, w.start ≤ time e)
    (hany : ∀ t, within time weight t (t + width) es ≤ limit)
    (hrest : w.total + within time weight w.start (w.start + width) es ≤ limit) :
    EachStep (Window.add time weight width) (Window.Fits time weight width limit) w es := by
  induction es generalizing w with
  | nil => trivial
  | cons e es ih =>
      obtain ⟨hhead, htail⟩ := List.pairwise_cons.mp horder
      have hany' : ∀ t, within time weight t (t + width) es ≤ limit := fun t =>
        within_le_cons.trans (hany t)
      have hfirst := hstart e List.mem_cons_self
      by_cases hnew : width ≤ time e - w.start
      · have hadd : w.add time weight width e = ⟨time e, weight e⟩ := if_pos hnew
        have hfull := hany (time e)
        rw [within_cons_of_mem le_rfl (by omega)] at hfull
        constructor
        · rw [Window.Fits, hadd]
          exact (Nat.le_add_right _ _).trans hfull
        · rw [hadd]
          exact ih htail hhead hany' hfull
      · have hadd : w.add time weight width e = ⟨w.start, w.total + weight e⟩ := if_neg hnew
        rw [within_cons_of_mem hfirst (by omega), ← Nat.add_assoc] at hrest
        constructor
        · rw [Window.Fits, hadd]
          exact (Nat.le_add_right _ _).trans hrest
        · rw [hadd]
          exact ih htail (fun e' he' => hstart e' (List.mem_cons_of_mem e he')) hany' hrest

/-- Arrivals of one window that pass fit into it together. -/
theorem sum_le_of_passes (hin : ∀ e ∈ es, time e < w.start + width) (hne : es ≠ [])
    (hpass : EachStep (Window.add time weight width) (Window.Fits time weight width limit) w es) :
    w.total + (es.map weight).sum ≤ limit := by
  induction es generalizing w with
  | nil => exact absurd rfl hne
  | cons e es ih =>
      have hlt := hin e List.mem_cons_self
      have hadd : w.add time weight width e = ⟨w.start, w.total + weight e⟩ := if_neg (by omega)
      obtain ⟨hfits, hrest⟩ := hpass
      rw [Window.Fits, hadd] at hfits
      rw [hadd] at hrest
      rw [List.map_cons, List.sum_cons, ← Nat.add_assoc]
      cases es with
      | nil => simpa only [List.map_nil, List.sum_nil, Nat.add_zero] using hfits
      | cons e' es =>
          exact ih (w := ⟨w.start, w.total + weight e⟩)
            (fun x hx => hin x (List.mem_cons_of_mem e hx)) (List.cons_ne_nil e' es) hrest

/-- If what arrives in a window passes on its own, after a counter that is old,
then it is no more than the limit. -/
theorem within_le_of_passes (horder : InOrder time es)
    (hold : ∀ e ∈ es, w.start + width ≤ time e)
    (hpass : EachStep (Window.add time weight width) (Window.Fits time weight width limit) w
      (es.filter fun e => t ≤ time e ∧ time e < t + width)) :
    within time weight t (t + width) es ≤ limit := by
  have hsub : (es.filter fun e => t ≤ time e ∧ time e < t + width).Sublist es := List.filter_sublist
  have horder' := horder.sublist hsub
  have hin : ∀ e ∈ es.filter fun e => t ≤ time e ∧ time e < t + width,
      t ≤ time e ∧ time e < t + width := fun e he => of_decide_eq_true (List.mem_filter.mp he).2
  rw [within]
  generalize es.filter (fun e => t ≤ time e ∧ time e < t + width) = l at *
  cases l with
  | nil => exact Nat.zero_le _
  | cons e l =>
      have hadd : w.add time weight width e = ⟨time e, weight e⟩ :=
        if_pos (by have := hold e (hsub.subset List.mem_cons_self); omega)
      obtain ⟨hfits, hrest⟩ := hpass
      rw [Window.Fits, hadd] at hfits
      rw [hadd] at hrest
      have hlow := (hin e List.mem_cons_self).1
      rw [List.map_cons, List.sum_cons]
      cases l with
      | nil => simpa only [List.map_nil, List.sum_nil, Nat.add_zero] using hfits
      | cons e' l =>
          refine sum_le_of_passes (fun x hx => ?_) (List.cons_ne_nil e' l) hrest
          have hhigh := (hin x (List.mem_cons_of_mem e hx)).2
          change time x < time e + width
          omega

end Windows

/-! ## A token bucket -/

/-- Tokens and the time up to which they have been refilled. -/
structure Bucket where
  tokens : ℚ
  last : ℤ

section Buckets
variable (time weight) (capacity rate : ℚ)

def Bucket.refilled (b : Bucket) (now : ℤ) : ℚ :=
  min capacity (b.tokens + rate * durationSince now b.last)

def Bucket.draw (b : Bucket) (e : ε) : Bucket :=
  ⟨b.refilled capacity rate (time e) - weight e, time e⟩

def Bucket.Affords (b : Bucket) (e : ε) : Prop :=
  (weight e : ℚ) ≤ b.refilled capacity rate (time e)

/-- In no interval does more arrive than a full bucket and the refill. -/
def Curbed (es : List ε) : Prop :=
  ∀ t u, t ≤ u → (within time weight t (u + 1) es : ℚ) ≤ capacity + rate * (u - t)

variable {time weight capacity rate} {b : Bucket}

theorem Curbed.sublist (h : Curbed time weight capacity rate es) (hsub : kept.Sublist es) :
    Curbed time weight capacity rate kept := fun t u htu =>
  (Nat.cast_le.mpr (within_le_of_sublist hsub)).trans (h t u htu)

theorem cast_durationSince {now earlier : ℤ} (h : earlier ≤ now) :
    (durationSince now earlier : ℚ) = now - earlier := by
  have hcast : ((durationSince now earlier : ℤ) : ℚ) = ((now - earlier : ℤ) : ℚ) :=
    congrArg _ (Int.toNat_of_nonneg (by omega))
  rwa [Int.cast_natCast, Int.cast_sub] at hcast

/-- What arrives up to a time is paid from the tokens and the refill until then. -/
theorem bucket_passes_of_paid (horder : InOrder time es) (hlast : ∀ e ∈ es, b.last ≤ time e)
    (hcurb : Curbed time weight capacity rate es)
    (hpaid : ∀ u, b.last ≤ u →
      (within time weight b.last (u + 1) es : ℚ) ≤ b.tokens + rate * (u - b.last)) :
    EachStep (Bucket.draw time weight capacity rate) (Bucket.Affords time weight capacity rate)
      b es := by
  induction es generalizing b with
  | nil => trivial
  | cons e es ih =>
      obtain ⟨hhead, htail⟩ := List.pairwise_cons.mp horder
      have hle := hlast e List.mem_cons_self
      have hstart : ∀ e' ∈ e :: es, time e ≤ time e' := fun e' he' =>
        (List.mem_cons.mp he').elim (fun h => h ▸ le_rfl) (hhead e')
      -- the refilled bucket pays for what is still to come
      have hpaid' : ∀ u, time e ≤ u → (weight e + within time weight (time e) (u + 1) es : ℚ) ≤
          b.refilled capacity rate (time e) + rate * (u - time e) := by
        intro u hu
        have hcons : within time weight (time e) (u + 1) (e :: es) =
            weight e + within time weight (time e) (u + 1) es :=
          within_cons_of_mem le_rfl (by omega)
        have hcurbed := hcurb (time e) u hu
        have hfrom := hpaid u (hle.trans hu)
        rw [within_congr_left hlast hstart] at hfrom
        rw [hcons, Nat.cast_add] at hcurbed hfrom
        rw [Bucket.refilled, cast_durationSince hle]
        rcases min_choice capacity (b.tokens + rate * (time e - b.last)) with hmin | hmin
        · rw [hmin]
          exact hcurbed
        · rw [hmin]
          linarith
      constructor
      · have hnow := hpaid' (time e) le_rfl
        rw [sub_self, mul_zero, add_zero] at hnow
        exact (le_add_of_nonneg_right (Nat.cast_nonneg _)).trans hnow
      · refine ih htail hhead (hcurb.sublist (List.sublist_cons_self e es)) fun u hu => ?_
        have hnow := hpaid' u hu
        change (within time weight (time e) (u + 1) es : ℚ) ≤
          b.refilled capacity rate (time e) - weight e + rate * (u - time e)
        linarith

theorem paid_of_bucket_passes (hrate : 0 ≤ rate) (horder : InOrder time es)
    (hlast : ∀ e ∈ es, b.last ≤ time e) (hne : 0 ≤ b.tokens)
    (hpass : EachStep (Bucket.draw time weight capacity rate)
      (Bucket.Affords time weight capacity rate) b es) (hu : b.last ≤ u) :
    (within time weight b.last (u + 1) es : ℚ) ≤ b.tokens + rate * (u - b.last) := by
  have hspan : (0 : ℚ) ≤ rate * (u - b.last) :=
    mul_nonneg hrate (sub_nonneg.mpr (Int.cast_le.mpr hu))
  induction es generalizing b with
  | nil =>
      rw [within_nil, Nat.cast_zero]
      exact add_nonneg hne hspan
  | cons e es ih =>
      obtain ⟨hhead, htail⟩ := List.pairwise_cons.mp horder
      have hle := hlast e List.mem_cons_self
      obtain ⟨hafford, hrest⟩ := hpass
      by_cases hin : time e ≤ u
      · have hstep := ih (b := b.draw time weight capacity rate e) htail hhead
          (sub_nonneg.mpr hafford) hrest hin
          (mul_nonneg hrate (sub_nonneg.mpr (Int.cast_le.mpr hin)))
        have hrefill : b.refilled capacity rate (time e) ≤
            b.tokens + rate * (time e - b.last) := by
          rw [Bucket.refilled, cast_durationSince hle]
          exact min_le_right _ _
        rw [within_cons_of_mem hle (by omega), Nat.cast_add,
          within_congr_left (fun x hx => hlast x (List.mem_cons_of_mem e hx)) hhead]
        change (within time weight (time e) (u + 1) es : ℚ) ≤
          b.refilled capacity rate (time e) - weight e + rate * (u - time e) at hstep
        linarith
      · have hnone : ∀ x ∈ e :: es, ¬ (b.last ≤ time x ∧ time x < u + 1) := by
          intro x hx
          rcases List.mem_cons.mp hx with rfl | hx
          · omega
          · have := hhead x hx
            omega
        have hzero : within time weight b.last (u + 1) (e :: es) = 0 := by
          rw [within, List.filter_eq_nil_iff.mpr fun x hx =>
            Bool.not_eq_true _ ▸ decide_eq_false (hnone x hx)]
          rfl
        rw [hzero, Nat.cast_zero]
        exact add_nonneg hne hspan

theorem curbed_of_bucket_passes (hcapacity : 0 ≤ capacity) (hrate : 0 ≤ rate)
    (horder : InOrder time es) (hlast : ∀ e ∈ es, b.last ≤ time e)
    (hpass : EachStep (Bucket.draw time weight capacity rate)
      (Bucket.Affords time weight capacity rate) b es) : Curbed time weight capacity rate es := by
  intro t u htu
  have hspan : (0 : ℚ) ≤ rate * (u - t) := mul_nonneg hrate (sub_nonneg.mpr (Int.cast_le.mpr htu))
  induction es generalizing b with
  | nil =>
      rw [within_nil, Nat.cast_zero]
      exact add_nonneg hcapacity hspan
  | cons e es ih =>
      obtain ⟨hhead, htail⟩ := List.pairwise_cons.mp horder
      obtain ⟨hafford, hrest⟩ := hpass
      by_cases hin : t ≤ time e ∧ time e < u + 1
      · -- no more than a full bucket is left when the first of them comes
        have hpaid := paid_of_bucket_passes (b := b.draw time weight capacity rate e) (u := u) hrate
          htail hhead (sub_nonneg.mpr hafford) hrest (by change time e ≤ u; omega)
        change (within time weight (time e) (u + 1) es : ℚ) ≤
          b.refilled capacity rate (time e) - weight e + rate * (u - time e) at hpaid
        have hfull : b.refilled capacity rate (time e) ≤ capacity := min_le_left _ _
        have hspans : rate * (u - time e) ≤ rate * (u - t) :=
          mul_le_mul_of_nonneg_left (sub_le_sub_left (Int.cast_le.mpr hin.1) _) hrate
        rw [within_cons_of_mem hin.1 hin.2, Nat.cast_add,
          within_congr_left (fun x hx => hin.1.trans (hhead x hx)) hhead]
        linarith
      · rw [within_cons_of_not_mem hin]
        exact ih (b := b.draw time weight capacity rate e) htail hhead hrest

end Buckets

/-! ## A bounded trail -/

section Trails
variable {Near : ε → ε → Prop} {n : ℕ} {q : List ε} {a b : ε}

/-- The last `n` arrivals. -/
def trail (n : ℕ) (q : List ε) (e : ε) : List ε :=
  let q := q ++ [e]
  if n < q.length then q.tail else q

/-- The oldest arrival of the trail is near to the newest, if it is another one. -/
def EndsNear (Near : ε → ε → Prop) (q : List ε) : Prop :=
  ∀ a b, 2 ≤ q.length → q.head? = some a → q.getLast? = some b → Near a b

theorem trail_sublist : (trail n q e).Sublist (q ++ [e]) := by
  unfold trail
  dsimp only
  split
  · exact List.tail_sublist _
  · exact List.Sublist.refl _

theorem endsNear_of_pairwise (h : q.Pairwise Near) : EndsNear Near q := by
  intro a b hlen hhead hlast
  match q, h, hlen with
  | x :: y :: l, h, _ =>
      obtain rfl := Option.some.inj hhead
      rw [List.getLast?_cons_cons] at hlast
      exact List.rel_of_pairwise_cons h (List.mem_of_getLast? hlast)

/-- A flow whose arrivals are all near to each other passes. -/
theorem trail_passes (h : (q ++ es).Pairwise Near) :
    EachStep (trail n) (fun q e => EndsNear Near (trail n q e)) q es := by
  induction es generalizing q with
  | nil => trivial
  | cons e es ih =>
      have hsub : (trail n q e ++ es).Sublist (q ++ e :: es) := by
        rw [List.append_cons]
        exact trail_sublist.append (List.Sublist.refl es)
      have hnext := h.sublist hsub
      exact ⟨endsNear_of_pairwise (List.pairwise_append.mp hnext).1, ih hnext⟩

/-- Two arrivals that pass on their own are near to each other. -/
theorem near_of_passes (hn : 2 ≤ n)
    (h : EachStep (trail n) (fun q e => EndsNear Near (trail n q e)) [] [a, b]) : Near a b := by
  have hone : trail n [] a = [a] := if_neg (by simp only [List.nil_append, List.length_singleton]; omega)
  have htwo : trail n [a] b = [a, b] :=
    if_neg (by simp only [List.cons_append, List.nil_append, List.length_cons, List.length_nil]; omega)
  have hpass := h.2.1
  rw [hone, htwo] at hpass
  exact hpass a b le_rfl rfl rfl

end Trails

/-! ## Meters side by side -/

section Together
variable {σ τ : Type*}

def both (step : σ → ε → σ) (step' : τ → ε → τ) (s : σ × τ) (e : ε) : σ × τ :=
  (step s.1 e, step' s.2 e)

def BothAccept (ok : σ → ε → Prop) (ok' : τ → ε → Prop) (s : σ × τ) (e : ε) : Prop :=
  ok s.1 e ∧ ok' s.2 e

variable {step : σ → ε → σ} {ok : σ → ε → Prop} {step' : τ → ε → τ} {ok' : τ → ε → Prop}

/-- A flow passes two meters at once if it passes each of them. -/
theorem eachStep_both {s : σ × τ} :
    EachStep (both step step') (BothAccept ok ok') s es ↔
      EachStep step ok s.1 es ∧ EachStep step' ok' s.2 es := by
  induction es generalizing s with
  | nil => exact ⟨fun _ => ⟨trivial, trivial⟩, fun _ => trivial⟩
  | cons e es ih =>
      rw [EachStep, EachStep, EachStep, ih]
      exact and_and_and_comm

/-- A meter can be replaced by another one that follows it as long as it lets
the flow pass. `I` is what else is known of its states. -/
theorem eachStep_image (I : σ → Prop) (f : σ → τ)
    (hinv : ∀ s, ∀ e ∈ es, I s → ok s e → I (step s e))
    (hok : ∀ s, ∀ e ∈ es, I s → (ok s e ↔ ok' (f s) e))
    (hstep : ∀ s, ∀ e ∈ es, I s → ok s e → f (step s e) = step' (f s) e) {s : σ} (hs : I s) :
    EachStep step ok s es ↔ EachStep step' ok' (f s) es := by
  induction es generalizing s with
  | nil => exact Iff.rfl
  | cons e es ih =>
      have hmem := @List.mem_cons_self _ e es
      have hrest : ok s e → (EachStep step ok (step s e) es ↔
          EachStep step' ok' (f (step s e)) es) := fun hpass =>
        ih (fun s x hx => hinv s x (List.mem_cons_of_mem e hx))
          (fun s x hx => hok s x (List.mem_cons_of_mem e hx))
          (fun s x hx => hstep s x (List.mem_cons_of_mem e hx)) (hinv s e hmem hs hpass)
      constructor
      · rintro ⟨hpass, hes⟩
        refine ⟨(hok s e hmem hs).mp hpass, ?_⟩
        rw [← hstep s e hmem hs hpass]
        exact (hrest hpass).mp hes
      · rintro ⟨hpass', hes⟩
        have hpass := (hok s e hmem hs).mpr hpass'
        rw [← hstep s e hmem hs hpass] at hes
        exact ⟨hpass, (hrest hpass).mpr hes⟩

/-- A meter that sees only a part of each arrival. -/
theorem eachStep_map {κ : Type*} (step : σ → κ → σ) (ok : σ → κ → Prop) (g : ε → κ) {s : σ} :
    EachStep (fun s e => step s (g e)) (fun s e => ok s (g e)) s es ↔
      EachStep step ok s (es.map g) := by
  induction es generalizing s with
  | nil => exact Iff.rfl
  | cons e es ih => exact and_congr Iff.rfl ih

end Together

/-! ## Spaced arrivals -/

/-- Arrivals a gap apart from each other are not many in an interval. -/
theorem length_mul_gap_lt {gap : ℕ} (hspaced : es.Pairwise fun a b => time a + gap ≤ time b)
    (hin : ∀ e ∈ es, t ≤ time e ∧ time e < u) (hne : es ≠ []) :
    (es.length * gap : ℤ) + t < u + gap := by
  induction es generalizing t with
  | nil => exact absurd rfl hne
  | cons e es ih =>
      obtain ⟨hhead, htail⟩ := List.pairwise_cons.mp hspaced
      obtain ⟨hlow, hhigh⟩ := hin e List.mem_cons_self
      rw [List.length_cons, Nat.cast_add, Nat.cast_one, add_mul, one_mul]
      cases es with
      | nil =>
          simp only [List.length_nil, Nat.cast_zero, zero_mul]
          omega
      | cons e' es =>
          have hrest := ih (t := t + gap) htail (fun x hx =>
            ⟨by have := hhead x hx; omega, (hin x (List.mem_cons_of_mem e hx)).2⟩)
            (List.cons_ne_nil e' es)
          omega

theorem within_filter_add (q : ε → Bool) (es : List ε) :
    within time weight t u (es.filter q) + within time weight t u (es.filter fun e => !q e) =
      within time weight t u es := by
  induction es with
  | nil => rfl
  | cons e es ih =>
      have hsplit : ∀ b, q e = b → (e :: es).filter q = (if b then [e] else []) ++ es.filter q ∧
          ((e :: es).filter fun e => !q e) = (if b then [] else [e]) ++ es.filter fun e => !q e := by
        rintro b rfl
        cases hq : q e
        · exact ⟨List.filter_cons_of_neg (by rw [hq]; exact Bool.false_ne_true),
            List.filter_cons_of_pos (by rw [hq]; rfl)⟩
        · exact ⟨List.filter_cons_of_pos hq,
            List.filter_cons_of_neg (by rw [hq]; exact Bool.false_ne_true)⟩
      obtain ⟨hyes, hno⟩ := hsplit (q e) rfl
      rw [hyes, hno]
      by_cases hin : t ≤ time e ∧ time e < u
      · rw [within_cons_of_mem hin.1 hin.2, ← ih]
        cases q e
        · exact (congrArg _ (within_cons_of_mem hin.1 hin.2)).trans (Nat.add_left_comm _ _ _)
        · exact (congrArg (· + _) (within_cons_of_mem hin.1 hin.2)).trans (Nat.add_assoc _ _ _)
      · rw [within_cons_of_not_mem hin, ← ih]
        cases q e
        · exact congrArg _ (within_cons_of_not_mem hin)
        · exact congrArg (· + _) (within_cons_of_not_mem hin)

theorem within_le_mul {c : ℕ} (hweight : ∀ e ∈ es, weight e ≤ c) :
    within time weight t u es ≤
      (es.filter fun e => t ≤ time e ∧ time e < u).length * c := by
  rw [within]
  have hle := List.sum_le_card_nsmul
    ((es.filter fun e => t ≤ time e ∧ time e < u).map weight) c fun n hn => by
      obtain ⟨e, he, rfl⟩ := List.mem_map.mp hn
      exact hweight e (List.mem_filter.mp he).1
  rw [List.length_map] at hle
  exact hle

/-- Light arrivals a gap apart do not weigh much in an interval. -/
theorem within_le_of_spaced {gap c : ℕ} (hspaced : es.Pairwise fun a b => time a + gap ≤ time b)
    (hweight : ∀ e ∈ es, weight e ≤ c) (t u : ℤ) : ∃ n : ℕ,
      within time weight t u es ≤ n * c ∧ (n = 0 ∨ (n * gap : ℤ) + t < u + gap) := by
  refine ⟨_, within_le_mul hweight, ?_⟩
  by_cases hne : (es.filter fun e => t ≤ time e ∧ time e < u) = []
  · exact Or.inl (congrArg List.length hne)
  · exact Or.inr (length_mul_gap_lt (hspaced.sublist List.filter_sublist)
      (fun e he => of_decide_eq_true (List.mem_filter.mp he).2) hne)

end RateMeters
