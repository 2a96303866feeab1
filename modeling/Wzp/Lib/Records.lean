import Mathlib.Tactic.Positivity
import Mathlib.Tactic.Ring
import Wzp.Lib.Bytes

/-!
# Files of records

Each record is a stamp of eight bytes, a length of four and a body, the numbers with their
last byte first. The file may end anywhere, as it does when its writer is stopped.
-/
namespace Records
open Bytes

/-- A number with its last byte first. -/
def leBytes (k n : ℕ) : Buf := (octets k n).reverse

def ofLeBytes (b : Buf) : ℕ := ofOctets b.reverse

@[simp] theorem leBytes_length (k n : ℕ) : (leBytes k n).length = k := by
  rw [leBytes, List.length_reverse, octets_length]

theorem ofLeBytes_leBytes (k n : ℕ) : ofLeBytes (leBytes k n) = n % 256 ^ k := by
  rw [ofLeBytes, leBytes, List.reverse_reverse, ofOctets_octets]

/-- A body that fits its length. -/
structure Record where
  stamp : UInt64
  body : Buf
  body_length : body.length < 2 ^ 32

def Record.encode (r : Record) : Buf :=
  leBytes 8 r.stamp.toNat ++ (leBytes 4 r.body.length ++ r.body)

def encodeAll (rs : List Record) : Buf := rs.flatMap Record.encode

variable {r : Record} {rs : List Record} {b rest : Buf}

theorem Record.encode_length (r : Record) : r.encode.length = 12 + r.body.length := by
  rw [encode, List.length_append, List.length_append, leBytes_length, leBytes_length]
  omega

/-! ## The reader -/

inductive Next where
  | done
  | cut
  | record (stamp : UInt64) (body rest : Buf)
  deriving DecidableEq

/-- The next record. A file may end where a record would start, and before the stamp of a
record is whole. -/
def next (b : Buf) : Next :=
  match split 8 b with
  | .error _ => .done
  | .ok (stamp, b) =>
      match split 4 b with
      | .error _ => .cut
      | .ok (len, b) =>
          match split (ofLeBytes len) b with
          | .error _ => .cut
          | .ok (body, rest) => .record (UInt64.ofNat (ofLeBytes stamp)) body rest

theorem split_left {x : Buf} {n : ℕ} (h : x.length = n) : split n (x ++ b) = .ok (x, b) := by
  rw [← h, split_append]

theorem split_short {n : ℕ} (h : b.length < n) : split n b = .error .outOfRange := by
  rw [split, if_pos h]

theorem next_encode : next (r.encode ++ rest) = .record r.stamp r.body rest := by
  have hlen : ofLeBytes (leBytes 4 r.body.length) = r.body.length := by
    rw [ofLeBytes_leBytes]
    exact Nat.mod_eq_of_lt r.body_length
  have hstamp : UInt64.ofNat (ofLeBytes (leBytes 8 r.stamp.toNat)) = r.stamp := by
    rw [ofLeBytes_leBytes, show (256 : ℕ) ^ 8 = 2 ^ 64 from rfl, Nat.mod_eq_of_lt r.stamp.toNat_lt,
      UInt64.ofNat_toNat]
  simp only [next, Record.encode, List.append_assoc, split_left (leBytes_length _ _), hlen,
    split_append, hstamp]

/-- What is cut off inside `x` is cut off from what follows it. -/
theorem take_behind {x : Buf} {k n : ℕ} (hx : x.length = k) (hn : k ≤ n) (b : Buf) :
    (x ++ b).take n = x ++ b.take (n - k) := by
  rw [List.take_append, hx, List.take_of_length_le (by omega)]

/-- A part of a record is the end of the file or a cut. -/
theorem next_take {n : ℕ} (hn : n < r.encode.length) :
    next (r.encode.take n) = if n < 8 then .done else .cut := by
  have htake : (r.encode.take n).length = n := List.length_take_of_le (Nat.le_of_lt hn)
  rw [r.encode_length] at hn
  by_cases hstamp : n < 8
  · rw [if_pos hstamp, next, split_short (by rw [htake]; exact hstamp)]
  · rw [if_neg hstamp, next, Record.encode,
      take_behind (leBytes_length _ _) (Nat.le_of_not_lt hstamp)]
    simp only [split_left (leBytes_length _ _)]
    by_cases hlen : n - 8 < 4
    · rw [split_short]
      rw [List.length_take]
      omega
    · rw [take_behind (leBytes_length _ _) (Nat.le_of_not_lt hlen)]
      have hbody : ofLeBytes (leBytes 4 r.body.length) = r.body.length := by
        rw [ofLeBytes_leBytes]
        exact Nat.mod_eq_of_lt r.body_length
      simp only [split_left (leBytes_length _ _), hbody]
      rw [split_short]
      rw [List.length_take]
      omega

/-! ## Numbers from bytes -/

theorem foldl_ofOctets (b : Buf) (acc : ℕ) :
    b.foldl (fun n x => n * 256 + x.toNat) acc = acc * 256 ^ b.length + ofOctets b := by
  induction b generalizing acc with
  | nil => rw [List.foldl_nil, List.length_nil, Nat.pow_zero, Nat.mul_one]; rfl
  | cons x b ih =>
      rw [ofOctets, List.foldl_cons, List.foldl_cons, ih, ih (0 * 256 + _), List.length_cons,
        Nat.pow_succ, Nat.add_mul, Nat.mul_assoc, Nat.mul_comm 256 (256 ^ _), Nat.zero_mul,
        Nat.zero_add, Nat.add_assoc]

theorem ofOctets_cons (x : UInt8) (b : Buf) :
    ofOctets (x :: b) = x.toNat * 256 ^ b.length + ofOctets b := by
  rw [ofOctets, List.foldl_cons, foldl_ofOctets, Nat.zero_mul, Nat.zero_add]

theorem ofOctets_lt (b : Buf) : ofOctets b < 256 ^ b.length := by
  induction b with
  | nil => exact Nat.one_pos
  | cons x b ih =>
      have hx := x.toNat_lt
      have hle : (x.toNat + 1) * 256 ^ b.length ≤ 256 * 256 ^ b.length :=
        Nat.mul_le_mul_right _ (by omega)
      rw [Nat.add_mul, Nat.one_mul] at hle
      rw [ofOctets_cons, List.length_cons, Nat.pow_succ, Nat.mul_comm _ 256]
      omega

/-- The last digits do not see what is in front of them. -/
theorem octets_mul_add (k a m : ℕ) : octets k (a * 256 ^ k + m) = octets k m := by
  have hdigits : ∀ j ≤ k, octets j (a * 256 ^ k + m) = octets j m := by
    intro j hj
    induction j with
    | zero => rfl
    | succ j ih =>
        rw [octets, octets, ih (by omega)]
        congr 1
        apply UInt8.toNat_inj.mp
        obtain ⟨d, rfl⟩ : ∃ d, k = j + 1 + d := ⟨k - (j + 1), by omega⟩
        have hsplit : a * 256 ^ (j + 1 + d) + m = m + 256 ^ j * (256 * (a * 256 ^ d)) := by
          rw [Nat.pow_add, Nat.pow_succ]
          ring
        rw [toNat_digit, toNat_digit, hsplit, Nat.add_mul_div_left _ _ (by positivity),
          Nat.add_mul_mod_self_left]
  exact hdigits k (Nat.le_refl k)

theorem octets_ofOctets (b : Buf) : octets b.length (ofOctets b) = b := by
  induction b with
  | nil => rfl
  | cons x b ih =>
      have hfirst : digit (x.toNat * 256 ^ b.length + ofOctets b) b.length = x := by
        apply UInt8.toNat_inj.mp
        rw [toNat_digit, Nat.add_comm, Nat.add_mul_div_right _ _ (by positivity),
          Nat.div_eq_of_lt (ofOctets_lt b), Nat.zero_add, Nat.mod_eq_of_lt x.toNat_lt]
      rw [List.length_cons, octets, ofOctets_cons, hfirst, octets_mul_add, ih]

theorem leBytes_ofLeBytes (b : Buf) : leBytes b.length (ofLeBytes b) = b := by
  rw [leBytes, ofLeBytes, ← List.length_reverse, octets_ofOctets, List.reverse_reverse]

theorem ofLeBytes_lt (b : Buf) : ofLeBytes b < 256 ^ b.length := by
  have hlt := ofOctets_lt b.reverse
  rwa [List.length_reverse] at hlt

/-! ## What is read -/

theorem split_ok {n : ℕ} {x : Buf} (h : split n b = .ok (x, rest)) :
    b = x ++ rest ∧ x.length = n := by
  rw [split] at h
  split at h
  · cases h
  · obtain ⟨rfl, rfl⟩ := Prod.mk.inj (Except.ok.inj h)
    exact ⟨(List.take_append_drop n b).symm, List.length_take_of_le (by omega)⟩

/-- Whatever the file is, a record that is read is what stands there. -/
theorem eq_of_next {stamp : UInt64} {body : Buf} (h : next b = .record stamp body rest) :
    ∃ hbody : body.length < 2 ^ 32, b = Record.encode ⟨stamp, body, hbody⟩ ++ rest := by
  rw [next] at h
  split at h
  · cases h
  next first b₁ hfirst =>
  split at h
  · cases h
  next len b₂ hlen =>
  split at h
  · cases h
  next body' rest' hbody =>
  obtain ⟨rfl, rfl, rfl⟩ := Next.record.inj h
  obtain ⟨rfl, hfirst'⟩ := split_ok hfirst
  obtain ⟨rfl, hlen'⟩ := split_ok hlen
  obtain ⟨rfl, hbody'⟩ := split_ok hbody
  have hlt := ofLeBytes_lt len
  rw [hlen'] at hlt
  refine ⟨by rw [hbody']; exact hlt, ?_⟩
  have hstamp : (UInt64.ofNat (ofLeBytes first)).toNat = ofLeBytes first := by
    have hsmall := ofLeBytes_lt first
    rw [hfirst'] at hsmall
    exact UInt64.toNat_ofNat_of_lt' hsmall
  have hfirst'' := leBytes_ofLeBytes first
  have hlen'' := leBytes_ofLeBytes len
  rw [hfirst'] at hfirst''
  rw [hlen'] at hlen''
  simp only [Record.encode, hstamp, hbody', hfirst'', hlen'', List.append_assoc]

theorem next_length {stamp : UInt64} {body : Buf} (h : next b = .record stamp body rest) :
    rest.length < b.length := by
  obtain ⟨hbody, rfl⟩ := eq_of_next h
  rw [List.length_append, Record.encode_length]
  omega

/-! ## All records -/
variable {α ε : Type*}

inductive Ending (ε : Type*) where
  | done
  | cut
  | refused (error : ε)

/-- Reads to the end, to a cut, or to a record that `decode` refuses. -/
def readAll (decode : UInt64 → Buf → Except ε α) (b : Buf) : List α × Ending ε :=
  match _h : next b with
  | .done => ([], .done)
  | .cut => ([], .cut)
  | .record stamp body rest =>
      match decode stamp body with
      | .error e => ([], .refused e)
      | .ok x => (x :: (readAll decode rest).1, (readAll decode rest).2)
termination_by b.length
decreasing_by all_goals exact next_length _h

variable {decode : UInt64 → Buf → Except ε α} {x : α}

theorem readAll_done (h : next b = .done) : readAll decode b = ([], .done) := by
  rw [readAll]
  split
  · rfl
  · next hcut => rw [h] at hcut; cases hcut
  · next hrec => rw [h] at hrec; cases hrec

theorem readAll_cut (h : next b = .cut) : readAll decode b = ([], .cut) := by
  rw [readAll]
  split
  · next hdone => rw [h] at hdone; cases hdone
  · rfl
  · next hrec => rw [h] at hrec; cases hrec

theorem readAll_record {stamp : UInt64} {body : Buf} (h : next b = .record stamp body rest) :
    readAll decode b = match decode stamp body with
      | .error e => ([], .refused e)
      | .ok x => (x :: (readAll decode rest).1, (readAll decode rest).2) := by
  rw [readAll]
  split
  · next hdone => rw [h] at hdone; cases hdone
  · next hcut => rw [h] at hcut; cases hcut
  · next hrec =>
      rw [h] at hrec
      obtain ⟨rfl, rfl, rfl⟩ := Next.record.inj hrec
      rfl

theorem readAll_encode (h : decode r.stamp r.body = .ok x) :
    readAll decode (r.encode ++ rest) =
      (x :: (readAll decode rest).1, (readAll decode rest).2) := by
  rw [readAll_record next_encode, h]

/-- How many pieces of the given sizes the first `n` bytes hold. -/
def whole : List ℕ → ℕ → ℕ
  | [], _ => 0
  | size :: sizes, n => if size ≤ n then whole sizes (n - size) + 1 else 0

/-- The bytes of the piece that is not whole. -/
def left : List ℕ → ℕ → ℕ
  | [], _ => 0
  | size :: sizes, n => if size ≤ n then left sizes (n - size) else n

theorem whole_of_le {sizes : List ℕ} {n : ℕ} (h : sizes.sum ≤ n) :
    whole sizes n = sizes.length ∧ left sizes n = 0 := by
  induction sizes generalizing n with
  | nil => exact ⟨rfl, rfl⟩
  | cons size sizes ih =>
      rw [List.sum_cons] at h
      obtain ⟨hwhole, hleft⟩ := ih (n := n - size) (by omega)
      rw [whole, left, if_pos (by omega), if_pos (by omega), hwhole, hleft]
      exact ⟨rfl, rfl⟩

/-- A file that ends anywhere gives its whole records, and its end is seen as a cut once
the stamp of the next record is there. -/
theorem readAll_take {xs : List α}
    (hdecode : List.Forall₂ (fun r x => decode r.stamp r.body = .ok x) rs xs) (n : ℕ) :
    readAll decode ((encodeAll rs).take n) =
      (xs.take (whole (rs.map (·.encode.length)) n),
        if left (rs.map (·.encode.length)) n < 8 then .done else .cut) := by
  induction hdecode generalizing n with
  | nil =>
      have hnil : (encodeAll []).take n = [] := List.take_nil
      rw [hnil, readAll_done rfl]
      rfl
  | @cons r x rs xs hr _ ih =>
      have hencode : encodeAll (r :: rs) = r.encode ++ encodeAll rs := rfl
      by_cases hwhole : r.encode.length ≤ n
      · rw [hencode, take_behind rfl hwhole, readAll_encode hr, ih, List.map_cons, whole, left,
          if_pos hwhole, if_pos hwhole, List.take_succ_cons]
      · have hpart : (encodeAll (r :: rs)).take n = r.encode.take n := by
          rw [hencode, List.take_append_of_le_length (by omega)]
        have hnext := next_take (r := r) (Nat.lt_of_not_le hwhole)
        rw [hpart, List.map_cons, whole, left, if_neg hwhole, if_neg hwhole]
        by_cases hstamp : n < 8
        · rw [if_pos hstamp] at hnext ⊢
          rw [readAll_done hnext]
          rfl
        · rw [if_neg hstamp] at hnext ⊢
          rw [readAll_cut hnext]
          rfl

/-- Whatever the file is, what is read stands at its start, and nothing but a part of a
stamp is behind it if the reader ends well. -/
theorem eq_of_readAll {xs : List α} {ending : Ending ε} (h : readAll decode b = (xs, ending)) :
    ∃ rs rest, b = encodeAll rs ++ rest ∧
      List.Forall₂ (fun r x => decode r.stamp r.body = .ok x) rs xs ∧
      (ending = .done → rest.length < 8) := by
  induction hn : b.length using Nat.strongRecOn generalizing b xs ending with
  | ind n ih =>
      subst hn
      cases hnext : next b with
      | done =>
          rw [readAll_done hnext] at h
          obtain ⟨rfl, rfl⟩ := Prod.mk.inj h
          refine ⟨[], b, rfl, List.Forall₂.nil, fun _ => ?_⟩
          by_contra hlong
          rw [next, split, if_neg hlong] at hnext
          simp only at hnext
          split at hnext
          · cases hnext
          · split at hnext <;> cases hnext
      | cut =>
          rw [readAll_cut hnext] at h
          obtain ⟨rfl, rfl⟩ := Prod.mk.inj h
          exact ⟨[], b, rfl, List.Forall₂.nil, fun hdone => by cases hdone⟩
      | record stamp body rest =>
          rw [readAll_record hnext] at h
          have hlt := next_length hnext
          obtain ⟨hbody, rfl⟩ := eq_of_next hnext
          cases hdecode : decode stamp body with
          | error e =>
              rw [hdecode] at h
              obtain ⟨rfl, rfl⟩ := Prod.mk.inj h
              exact ⟨[], _, rfl, List.Forall₂.nil, fun hdone => by cases hdone⟩
          | ok x =>
              rw [hdecode] at h
              obtain ⟨rfl, rfl⟩ := Prod.mk.inj h
              obtain ⟨rs, tail, hrest, hread, hend⟩ := ih _ hlt rfl rfl
              refine ⟨⟨stamp, body, hbody⟩ :: rs, tail, ?_, List.Forall₂.cons hdecode hread, hend⟩
              change _ = Record.encode _ ++ encodeAll rs ++ tail
              rw [List.append_assoc, ← hrest]

end Records
