import Mathlib.Data.List.Basic

/-!
# Copies between buffers

Ranges of some buffers are copied one after another into ranges of another one, which keeps
its length. A range that leaves its buffer stops everything.
-/
/-- `len` elements of `source` from `start` on, which go to `dst`. -/
structure Copy (α : Type*) where
  source : List α
  start : ℕ
  dst : ℕ
  len : ℕ

namespace Copy
variable {α : Type*}

/-- Both ranges lie in their buffers, of which the one that is written has `n` elements. -/
def InRange (c : Copy α) (n : ℕ) : Prop :=
  c.start + c.len ≤ c.source.length ∧ c.dst + c.len ≤ n

instance (c : Copy α) (n : ℕ) : Decidable (c.InRange n) := inferInstanceAs (Decidable (_ ∧ _))

/-- The copy writes the element `i`. -/
def Covers (c : Copy α) (i : ℕ) : Prop := c.dst ≤ i ∧ i < c.dst + c.len

instance (c : Copy α) (i : ℕ) : Decidable (c.Covers i) := inferInstanceAs (Decidable (_ ∧ _))

/-- What the copy writes to `i`. -/
def value (c : Copy α) (i : ℕ) : Option α := c.source[c.start + (i - c.dst)]?

/-- The elements that a copy writes are those of its source, in order. -/
theorem covers_iff {source : List α} {start dst len i : ℕ} :
    (Copy.mk source start dst len).Covers i ↔ ∃ k < len, i = dst + k := by
  constructor
  · rintro ⟨hfrom, hto⟩
    exact ⟨i - dst, Nat.sub_lt_left_of_lt_add hfrom hto, (Nat.add_sub_cancel' hfrom).symm⟩
  · rintro ⟨k, hk, rfl⟩
    exact ⟨Nat.le_add_right dst k, Nat.add_lt_add_left hk dst⟩

theorem value_add (source : List α) (start dst len k : ℕ) :
    (Copy.mk source start dst len).value (dst + k) = source[start + k]? := by
  rw [value, Nat.add_sub_cancel_left]

def into (out : List α) (c : Copy α) : Option (List α) :=
  if c.InRange out.length then
    some (out.take c.dst ++ ((c.source.drop c.start).take c.len ++ out.drop (c.dst + c.len)))
  else none

/-- One copy after another. -/
def allInto (out : List α) (cs : List (Copy α)) : Option (List α) := cs.foldlM into out

/-- A range of a buffer, if it lies in it. -/
def range (b : List α) (start len : ℕ) : Option (List α) :=
  if start + len ≤ b.length then some ((b.drop start).take len) else none

variable {out out' : List α} {c : Copy α} {cs : List (Copy α)} {i : ℕ}

theorem exists_range {b : List α} {start len : ℕ} (h : start + len ≤ b.length) :
    ∃ r, range b start len = some r :=
  ⟨_, if_pos h⟩

theorem range_length {b r : List α} {start len : ℕ} (h : range b start len = some r) :
    r.length = len := by
  rw [range] at h
  split at h
  · next hin =>
      obtain rfl := Option.some.inj h
      rw [List.length_take, List.length_drop]
      omega
  · cases h

theorem range_getElem? {b r : List α} {start len : ℕ} (h : range b start len = some r)
    (hi : i < len) : r[i]? = b[start + i]? := by
  rw [range] at h
  split at h
  · obtain rfl := Option.some.inj h
    rw [List.getElem?_take_of_lt hi, List.getElem?_drop]
  · cases h

/-! ## One copy -/

theorem into_length (h : into out c = some out') : out'.length = out.length := by
  rw [into] at h
  split at h
  · next hin =>
      obtain rfl := Option.some.inj h
      obtain ⟨hsource, hdst⟩ := hin
      simp only [List.length_append, List.length_take, List.length_drop]
      omega
  · cases h

theorem into_getElem? (h : into out c = some out') (i : ℕ) :
    out'[i]? = if c.Covers i then c.value i else out[i]? := by
  rw [into] at h
  split at h
  · next hin =>
      obtain rfl := Option.some.inj h
      obtain ⟨hsource, hdst⟩ := hin
      have htake : (out.take c.dst).length = c.dst := by
        rw [List.length_take]
        omega
      have hcopied : ((c.source.drop c.start).take c.len).length = c.len := by
        rw [List.length_take, List.length_drop]
        omega
      rcases Nat.lt_or_ge i c.dst with hbefore | hfrom
      · rw [List.getElem?_append_left (by omega), List.getElem?_take_of_lt hbefore,
          if_neg fun hc => Nat.not_le.mpr hbefore hc.1]
      rw [List.getElem?_append_right (by omega), htake]
      rcases Nat.lt_or_ge i (c.dst + c.len) with hin | hbehind
      · rw [List.getElem?_append_left (by omega), List.getElem?_take_of_lt (by omega),
          List.getElem?_drop, if_pos ⟨hfrom, hin⟩]
        rfl
      · rw [List.getElem?_append_right (by omega), hcopied, List.getElem?_drop,
          if_neg fun hc => Nat.not_le.mpr hc.2 hbehind]
        congr 1
        omega
  · cases h

/-! ## All of them -/

theorem allInto_cons (out : List α) (c : Copy α) (cs : List (Copy α)) :
    allInto out (c :: cs) = (into out c).bind (allInto · cs) := rfl

theorem allInto_length (h : allInto out cs = some out') : out'.length = out.length := by
  induction cs generalizing out with
  | nil => rw [Option.some.inj h]
  | cons c cs ih =>
      rw [allInto_cons] at h
      obtain ⟨mid, hmid, hrest⟩ := Option.bind_eq_some_iff.mp h
      rw [ih hrest, into_length hmid]

/-- All copies succeed exactly if each is in range. -/
theorem allInto_isSome : (allInto out cs).isSome ↔ ∀ c ∈ cs, c.InRange out.length := by
  induction cs generalizing out with
  | nil => exact iff_of_true rfl fun c hc => absurd hc List.not_mem_nil
  | cons c cs ih =>
      rw [allInto_cons, List.forall_mem_cons]
      cases hone : into out c with
      | none =>
          refine iff_of_false Bool.false_ne_true fun h => ?_
          rw [into, if_pos h.1] at hone
          cases hone
      | some mid =>
          have hin : c.InRange out.length := by
            rw [into] at hone
            split at hone
            · assumption
            · cases hone
          rw [Option.bind_some, ih, into_length hone]
          exact (and_iff_right hin).symm

/-- An element is `x` in the end, if every copy that writes it writes `x`, and it is written
or was `x` before. -/
theorem allInto_getElem? (h : allInto out cs = some out') {x : Option α}
    (hagree : ∀ c ∈ cs, c.Covers i → c.value i = x)
    (hwritten : (∃ c ∈ cs, c.Covers i) ∨ out[i]? = x) : out'[i]? = x := by
  induction cs generalizing out with
  | nil =>
      obtain rfl := Option.some.inj h
      exact hwritten.resolve_left fun ⟨c, hc, _⟩ => absurd hc List.not_mem_nil
  | cons c cs ih =>
      rw [allInto_cons] at h
      obtain ⟨mid, hmid, hrest⟩ := Option.bind_eq_some_iff.mp h
      have hvalue := into_getElem? hmid i
      refine ih hrest (fun c' hc' => hagree c' (List.mem_cons_of_mem c hc')) ?_
      by_cases hcovers : c.Covers i
      · rw [if_pos hcovers] at hvalue
        exact Or.inr (hvalue.trans (hagree c List.mem_cons_self hcovers))
      · rw [if_neg hcovers] at hvalue
        rcases hwritten with ⟨c', hc', hlater⟩ | hbefore
        · rcases List.mem_cons.mp hc' with rfl | htail
          · exact absurd hlater hcovers
          · exact Or.inl ⟨c', htail, hlater⟩
        · exact Or.inr (hvalue.trans hbefore)

theorem allInto_append (out : List α) (cs cs' : List (Copy α)) :
    allInto out (cs ++ cs') = (allInto out cs).bind (allInto · cs') := by
  rw [allInto, List.foldlM_append]
  rfl

end Copy
