import Wzp.Lib.Bytes

/-!
# Numbers to the base 128

A number is written from its low end in groups of seven bits, and every byte but the
last says that more follow. Groups that are zero may follow, so a number has many
encodings, of which `encode` is the shortest.
-/
namespace Leb128
open Bytes

/-- The bytes are an encoding of the number. -/
inductive Encodes : ℕ → Buf → Prop where
  | last {b : UInt8} (h : b.toNat < 128) : Encodes b.toNat [b]
  | more {b : UInt8} {n : ℕ} {bytes : Buf} (h : 128 ≤ b.toNat) (rest : Encodes n bytes) :
      Encodes (b.toNat % 128 + 128 * n) (b :: bytes)

def encode (n : ℕ) : Buf :=
  if n < 128 then [UInt8.ofNat n] else UInt8.ofNat (n % 128 + 128) :: encode (n / 128)

variable {n m : ℕ} {bytes bytes' : Buf}

theorem encode_of_lt (h : n < 128) : encode n = [UInt8.ofNat n] := by
  rw [encode, if_pos h]

theorem encode_of_le (h : 128 ≤ n) :
    encode n = UInt8.ofNat (n % 128 + 128) :: encode (n / 128) := by
  rw [encode, if_neg (Nat.not_lt_of_le h)]

theorem encodes_encode (n : ℕ) : Encodes n (encode n) := by
  induction n using encode.induct with
  | case1 n hlt =>
      have hbyte := UInt8.toNat_ofNat_of_lt' (show n < 256 by omega)
      have hlast := Encodes.last (hbyte.symm ▸ hlt)
      rw [encode_of_lt hlt]
      rwa [hbyte] at hlast
  | case2 n hge ih =>
      have hbyte := UInt8.toNat_ofNat_of_lt' (show n % 128 + 128 < 256 by omega)
      have hmore := Encodes.more (show 128 ≤ (UInt8.ofNat (n % 128 + 128)).toNat by omega) ih
      have hvalue : (UInt8.ofNat (n % 128 + 128)).toNat % 128 + 128 * (n / 128) = n := by omega
      rw [encode_of_le (Nat.le_of_not_lt hge)]
      rwa [hvalue] at hmore

theorem Encodes.ne_nil (h : Encodes n bytes) : bytes ≠ [] := by
  cases h with
  | last => exact List.cons_ne_nil _ _
  | more => exact List.cons_ne_nil _ _

/-- No encoding is shorter. -/
theorem length_encode_le (h : Encodes n bytes) : (encode n).length ≤ bytes.length := by
  induction h with
  | last hlt => rw [encode_of_lt hlt]; exact Nat.le_refl 1
  | @more b n bytes hge hrest ih =>
      rcases Nat.lt_or_ge (b.toNat % 128 + 128 * n) 128 with hlt | hge'
      · rw [encode_of_lt hlt]
        exact Nat.succ_le_succ (Nat.zero_le _)
      · have hdiv : (b.toNat % 128 + 128 * n) / 128 = n := by omega
        rw [encode_of_le hge', hdiv]
        exact Nat.succ_le_succ ih

theorem length_encode_le_of_lt {k : ℕ} (h : n < 128 ^ (k + 1)) : (encode n).length ≤ k + 1 := by
  induction k generalizing n with
  | zero => rw [encode_of_lt (by omega)]; exact Nat.le_refl 1
  | succ k ih =>
      rcases Nat.lt_or_ge n 128 with hlt | hge
      · rw [encode_of_lt hlt]
        exact Nat.succ_le_succ (Nat.zero_le _)
      · rw [encode_of_le hge]
        refine Nat.succ_le_succ (ih ?_)
        rw [Nat.div_lt_iff_lt_mul (by decide), ← Nat.pow_succ]
        exact h

/-- Where an encoding ends is seen from its bytes. -/
theorem Encodes.append_inj (h : Encodes n bytes) (h' : Encodes m bytes') {rest rest' : Buf}
    (heq : bytes ++ rest = bytes' ++ rest') : n = m ∧ rest = rest' := by
  induction h generalizing m bytes' with
  | @last b hlt =>
      cases h' with
      | last =>
          obtain ⟨rfl, hrest⟩ := List.cons.inj heq
          exact ⟨rfl, hrest⟩
      | more hge =>
          obtain ⟨rfl, -⟩ := List.cons.inj heq
          omega
  | @more b n bytes hge hmore ih =>
      cases h' with
      | last hlt =>
          obtain ⟨rfl, -⟩ := List.cons.inj heq
          omega
      | more hge' hmore' =>
          obtain ⟨rfl, htail⟩ := List.cons.inj heq
          obtain ⟨rfl, hrest⟩ := ih hmore' htail
          exact ⟨rfl, hrest⟩

/-! ## The last group -/

/-- A number is its last group, and less than one of that group below it. -/
theorem Encodes.split (h : Encodes n bytes) : ∃ hi b low, bytes = hi ++ [b] ∧
    (∀ x ∈ hi, 128 ≤ x.toNat) ∧ b.toNat < 128 ∧ low < 128 ^ hi.length ∧
      n = low + b.toNat * 128 ^ hi.length := by
  induction h with
  | @last b hlt =>
      refine ⟨[], b, 0, rfl, fun x hx => absurd hx List.not_mem_nil, hlt, Nat.one_pos, ?_⟩
      rw [List.length_nil, Nat.pow_zero, Nat.mul_one, Nat.zero_add]
  | @more first n bytes hge hrest ih =>
      obtain ⟨hi, b, low, rfl, hhi, hlt, hlow, rfl⟩ := ih
      refine ⟨first :: hi, b, first.toNat % 128 + 128 * low, rfl, fun x hx => ?_, hlt, ?_, ?_⟩
      · obtain rfl | hx := List.mem_cons.mp hx
        · exact hge
        · exact hhi x hx
      · rw [List.length_cons, Nat.pow_succ]
        omega
      · have hgroup : 128 * (b.toNat * 128 ^ hi.length) = b.toNat * 128 ^ (hi.length + 1) := by
          rw [Nat.pow_succ, Nat.mul_left_comm, Nat.mul_comm 128]
        rw [List.length_cons, ← hgroup, Nat.mul_add, Nat.add_assoc]

/-- Groups that announce more, and a last one, are an encoding. -/
theorem exists_encodes {hi : Buf} {b : UInt8} (hhi : ∀ x ∈ hi, 128 ≤ x.toNat) (hb : b.toNat < 128) :
    ∃ n, Encodes n (hi ++ [b]) := by
  induction hi with
  | nil => exact ⟨b.toNat, .last hb⟩
  | cons first hi ih =>
      obtain ⟨n, hn⟩ := ih fun x hx => hhi x (List.mem_cons_of_mem first hx)
      exact ⟨_, .more (hhi first List.mem_cons_self) hn⟩

theorem Encodes.lt (h : Encodes n bytes) : n < 128 ^ bytes.length := by
  induction h with
  | last hlt => exact hlt
  | @more b n bytes hge hrest ih =>
      rw [List.length_cons, Nat.pow_succ]
      omega

end Leb128
