import Mathlib.Data.Int.ModEq
import Mathlib.Data.List.Chain
import Mathlib.Data.List.Nodup
import Mathlib.Tactic.Ring

/-!
# Serial numbers

A counter that is only seen modulo `m` is read back as the one integer of its
residue class in the half-open interval of length `m` around a reference.
-/
namespace Serial

/-- The integer congruent to `s` in `[h - m / 2, h - m / 2 + m)`. -/
def nearest (m h s : ℤ) : ℤ := h - m / 2 + (s - (h - m / 2)) % m

variable {m h s e : ℤ}

theorem nearest_modEq : nearest m h s ≡ s [ZMOD m] := by
  have hmod : (s - (h - m / 2)) % m ≡ s - (h - m / 2) [ZMOD m] := Int.mod_modEq _ _
  have hadd := hmod.add_left (h - m / 2)
  rwa [add_sub_cancel] at hadd

theorem le_nearest (hm : 0 < m) : h - m / 2 ≤ nearest m h s := by
  have hnonneg := Int.emod_nonneg (s - (h - m / 2)) hm.ne'
  unfold nearest
  omega

theorem nearest_lt (hm : 0 < m) : nearest m h s < h - m / 2 + m := by
  have hlt := Int.emod_lt_of_pos (s - (h - m / 2)) hm
  unfold nearest
  omega

/-- Two integers of one residue class in an interval of length `m` are equal. -/
theorem eq_of_modEq {a b lo : ℤ} (hab : a ≡ b [ZMOD m]) (ha : lo ≤ a) (ha' : a < lo + m)
    (hb : lo ≤ b) (hb' : b < lo + m) : a = b := by
  have hshift : a - lo ≡ b - lo [ZMOD m] := hab.sub_right lo
  have ha0 : (a - lo) % m = a - lo := Int.emod_eq_of_lt (by omega) (by omega)
  have hb0 : (b - lo) % m = b - lo := Int.emod_eq_of_lt (by omega) (by omega)
  have heq : (a - lo) % m = (b - lo) % m := hshift
  omega

theorem nearest_unique (hm : 0 < m) (he : e ≡ s [ZMOD m]) (hlo : h - m / 2 ≤ e)
    (hhi : e < h - m / 2 + m) : nearest m h s = e :=
  eq_of_modEq (nearest_modEq.trans he.symm) (le_nearest hm) (nearest_lt hm) hlo hhi

/-! ## 32-bit counters -/

theorem toNat_sub_modEq (a b : UInt32) :
    ((a - b).toNat : ℤ) ≡ (a.toNat : ℤ) - b.toNat [ZMOD 2 ^ 32] := by
  have ha := a.toNat_lt
  have hb := b.toNat_lt
  rw [UInt32.toNat_sub, Int.ModEq]
  push_cast
  omega

/-- A counter less than half the range ahead is read back ahead. -/
theorem nearest_ahead {hi s : UInt32} (hh : (hi.toNat : ℤ) ≡ h [ZMOD 2 ^ 32])
    (hd : (s - hi).toNat < 2 ^ 31) : nearest (2 ^ 32) h s.toNat = h + (s - hi).toNat := by
  have hmod : h + ((s - hi).toNat : ℤ) ≡ s.toNat [ZMOD 2 ^ 32] := by
    calc h + ((s - hi).toNat : ℤ) ≡ hi.toNat + ((s.toNat : ℤ) - hi.toNat) [ZMOD 2 ^ 32] :=
          hh.symm.add (toNat_sub_modEq s hi)
      _ = s.toNat := by ring
  exact nearest_unique (by decide) hmod (by omega) (by omega)

/-- One at least half the range ahead is read back behind. -/
theorem nearest_behind {hi s : UInt32} (hh : (hi.toNat : ℤ) ≡ h [ZMOD 2 ^ 32])
    (hd : ¬ (s - hi).toNat < 2 ^ 31) : nearest (2 ^ 32) h s.toNat = h - (hi - s).toNat := by
  have hback : (hi - s).toNat ≤ 2 ^ 31 := by
    have hs := s.toNat_lt
    have hhi := hi.toNat_lt
    rw [UInt32.toNat_sub] at hd ⊢
    omega
  have hmod : h - ((hi - s).toNat : ℤ) ≡ s.toNat [ZMOD 2 ^ 32] := by
    calc h - ((hi - s).toNat : ℤ) ≡ hi.toNat - ((hi.toNat : ℤ) - s.toNat) [ZMOD 2 ^ 32] :=
          hh.symm.sub (toNat_sub_modEq hi s)
      _ = s.toNat := by ring
  exact nearest_unique (by decide) hmod (by omega) (by omega)

/-! ## Order -/

/-- `b` comes after `a`, by less than half the range. -/
def Before (a b : UInt32) : Prop := 0 < (b - a).toNat ∧ (b - a).toNat < 2 ^ 31

/-- `b` is `a`, or comes after it. -/
def AtOrAfter (a b : UInt32) : Prop := (b - a).toNat < 2 ^ 31

instance (a b : UInt32) : Decidable (Before a b) :=
  inferInstanceAs (Decidable (0 < (b - a).toNat ∧ (b - a).toNat < 2 ^ 31))

instance (a b : UInt32) : Decidable (AtOrAfter a b) :=
  inferInstanceAs (Decidable ((b - a).toNat < 2 ^ 31))

theorem toNat_sub (a b : UInt32) : (a - b).toNat = (2 ^ 32 - b.toNat + a.toNat) % 2 ^ 32 :=
  UInt32.toNat_sub a b

theorem toNat_add_one (a : UInt32) : (a + 1).toNat = (a.toNat + 1) % 2 ^ 32 := by
  rw [UInt32.toNat_add]
  rfl

@[simp] theorem atOrAfter_self (a : UInt32) : AtOrAfter a a := by
  rw [AtOrAfter, UInt32.sub_self]
  decide

theorem before_add_one (a : UInt32) : Before a (a + 1) := by
  rw [Before, toNat_sub, toNat_add_one]
  have ha := a.toNat_lt
  omega

/-- What is at another place at or after `a` is still so after the next number. -/
theorem AtOrAfter.next {a b : UInt32} (h : AtOrAfter a b) (hne : b ≠ a) : AtOrAfter (a + 1) b := by
  have hne' : b.toNat ≠ a.toNat := fun heq => hne (UInt32.toNat_inj.mp heq)
  rw [AtOrAfter, toNat_sub] at h ⊢
  rw [toNat_add_one]
  have ha := a.toNat_lt
  have hb := b.toNat_lt
  omega

/-! ## Sequences, the latest number first -/

/-- Each number comes after the one that was there before it. -/
def Ascending (numbers : List UInt32) : Prop := numbers.IsChain fun b a => Before a b

/-- The place of `b` behind numbers with these places. -/
def placeAfter (b : UInt32) : List UInt32 → List ℕ → ℕ
  | a :: _, n :: _ => n + (b - a).toNat
  | _, _ => b.toNat

/-- The places of the numbers, counted on from the first without coming round. -/
def positions : List UInt32 → List ℕ
  | [] => []
  | b :: rest => placeAfter b rest (positions rest) :: positions rest

instance (numbers : List UInt32) : Decidable (Ascending numbers) :=
  inferInstanceAs (Decidable (numbers.IsChain fun b a => Before a b))

theorem positions_eq_nil {numbers : List UInt32} (h : positions numbers = []) : numbers = [] := by
  cases numbers with
  | nil => rfl
  | cons b rest => exact absurd h (List.cons_ne_nil _ _)

theorem Ascending.positions_pairwise {numbers : List UInt32} (h : Ascending numbers) :
    (positions numbers).Pairwise (· > ·) := by
  induction numbers with
  | nil => exact List.Pairwise.nil
  | cons b rest ih =>
      cases rest with
      | nil => exact List.pairwise_singleton _ _
      | cons a rest =>
          obtain ⟨hbefore, hrest⟩ := List.isChain_cons_cons.mp h
          have hpairs := ih hrest
          cases hpos : positions (a :: rest) with
          | nil => exact absurd (positions_eq_nil hpos) (List.cons_ne_nil _ _)
          | cons n ns =>
              rw [hpos] at hpairs
              rw [positions, hpos, placeAfter]
              refine List.pairwise_cons.mpr ⟨fun m hm => ?_, hpairs⟩
              have hpositive := hbefore.1
              cases List.mem_cons.mp hm with
              | inl heq => omega
              | inr hmem =>
                  have hlt := (List.pairwise_cons.mp hpairs).1 m hmem
                  omega

/-- So none of the places is taken twice. -/
theorem Ascending.positions_nodup {numbers : List UInt32} (h : Ascending numbers) :
    (positions numbers).Nodup :=
  h.positions_pairwise.imp fun hgt => Nat.ne_of_gt hgt

end Serial
