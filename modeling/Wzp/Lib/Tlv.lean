import Wzp.Lib.Bytes

/-!
# Fields of a type, a length and a value

Each field starts with its type and the length of its value, both of 16 bits, and
is padded to a multiple of four bytes. A reader walks them until what is left is too short.
-/
namespace Tlv
open Bytes

/-- How many bytes pad a value of this length. -/
def padLen (n : ℕ) : ℕ := (4 - n % 4) % 4

structure Field where
  kind : UInt16
  value : Buf
  padding : Buf
  value_length : value.length < 65536
  padding_length : padding.length = padLen value.length

/-- Type, length and value. -/
def header (kind : UInt16) (value : Buf) : Buf :=
  putU16 kind ++ (putU16 (UInt16.ofNat value.length) ++ value)

def Field.encode (f : Field) : Buf := header f.kind f.value ++ f.padding

def encodeAll (fs : List Field) : Buf := fs.flatMap Field.encode

/-- The next field, and what follows it and its padding. None if it is not all there. -/
def next (b : Buf) : Except OutOfRange (Option (UInt16 × Buf × Buf)) :=
  if b.length < 4 then .ok none
  else do
    let kind ← readU16 b
    let len ← readU16 kind.2
    if len.2.length < len.1.toNat then .ok none
    else do
      let value ← split len.1.toNat len.2
      .ok (some (kind.1, value.1, value.2.drop (padLen len.1.toNat)))

variable {b rest value : Buf} {kind : UInt16} {f : Field} {fs : List Field}

@[simp] theorem encodeAll_cons : encodeAll (f :: fs) = f.encode ++ encodeAll fs := rfl

@[simp] theorem header_length : (header kind value).length = 4 + value.length := by
  rw [header, List.length_append, List.length_append]
  change 2 + (2 + value.length) = 4 + value.length
  omega

theorem toNat_length (h : value.length < 65536) : (UInt16.ofNat value.length).toNat = value.length :=
  UInt16.toNat_ofNat_of_lt' h

/-- A field that starts the buffer is read. -/
theorem next_header (hvalue : value.length < 65536) :
    next (header kind value ++ rest) =
      .ok (some (kind, value, rest.drop (padLen value.length))) := by
  have hlong : ¬ (header kind value ++ rest).length < 4 := by
    rw [List.length_append, header_length]
    omega
  have hvalue' : ¬ (value ++ rest).length < value.length := by
    rw [List.length_append]
    omega
  rw [next, if_neg hlong, header, List.append_assoc, List.append_assoc]
  simp only [readU16_put, ok_read_bind, toNat_length hvalue, if_neg hvalue', split_append]

theorem next_encode : next (f.encode ++ rest) = .ok (some (f.kind, f.value, rest)) := by
  rw [Field.encode, List.append_assoc, next_header f.value_length, ← f.padding_length,
    List.drop_left]

/-- Whatever the bytes are, reading goes no further than they do. -/
theorem next_cases (b : Buf) : next b = .ok none ∨
    ∃ kind value rest, value.length < 65536 ∧ b = header kind value ++ rest := by
  by_cases hshort : b.length < 4
  · exact Or.inl (by rw [next, if_pos hshort])
  obtain ⟨kind, b, rfl⟩ := exists_putU16 (Nat.le_trans (by decide : 2 ≤ 4) (Nat.le_of_not_lt hshort))
  have hlen : 2 ≤ b.length := by
    rw [List.length_append] at hshort
    change ¬ 2 + b.length < 4 at hshort
    omega
  obtain ⟨len, b, rfl⟩ := exists_putU16 hlen
  by_cases htruncated : b.length < len.toNat
  · refine Or.inl ?_
    rw [next, if_neg hshort]
    simp only [readU16_put, ok_read_bind, if_pos htruncated]
  · have htake : (b.take len.toNat).length = len.toNat :=
      List.length_take_of_le (Nat.le_of_not_lt htruncated)
    refine Or.inr ⟨kind, b.take len.toNat, b.drop len.toNat, ?_, ?_⟩
    · rw [htake]
      exact len.toNat_lt
    · rw [header, htake, UInt16.ofNat_toNat, List.append_assoc, List.append_assoc,
        List.take_append_drop]

theorem next_lt (h : next b = .ok (some (kind, value, rest))) : rest.length < b.length := by
  rcases next_cases b with hnone | ⟨kind', value', rest', hvalue, rfl⟩
  · rw [hnone] at h
    cases h
  · rw [next_header hvalue] at h
    have hrest : rest'.drop (padLen value'.length) = rest := by
      injection h with h
      injection h with h
      exact congrArg (fun x => x.2.2) h
    rw [← hrest, List.length_append, header_length, List.length_drop]
    omega

/-! ## The walk -/

variable {σ : Type*} {visit : σ → UInt16 → Buf → Except OutOfRange σ} {s : σ}

/-- Each field in turn is handed to `visit`. -/
def walk (visit : σ → UInt16 → Buf → Except OutOfRange σ) (b : Buf) (s : σ) : Except OutOfRange σ :=
  match _h : next b with
  | .error e => .error e
  | .ok none => .ok s
  | .ok (some field) => do
      let s ← visit s field.1 field.2.1
      walk visit field.2.2 s
termination_by b.length
decreasing_by exact next_lt _h

theorem walk_of_none (h : next b = .ok none) : walk visit b s = .ok s := by
  rw [walk]
  split
  · next e he => rw [h] at he; cases he
  · rfl
  · next field hf => rw [h] at hf; cases hf

theorem walk_of_some (h : next b = .ok (some (kind, value, rest))) :
    walk visit b s = (do
      let s ← visit s kind value
      walk visit rest s) := by
  rw [walk]
  split
  · next e he => rw [h] at he; cases he
  · next hn => rw [h] at hn; cases hn
  · next field hf =>
      rw [h] at hf
      cases hf
      rfl

theorem walk_nil : walk visit [] s = .ok s := walk_of_none rfl

theorem walk_encode {s' : σ} (hvisit : visit s f.kind f.value = .ok s') :
    walk visit (f.encode ++ rest) s = walk visit rest s' := by
  rw [walk_of_some next_encode, hvisit]
  rfl

/-- The fields leave the state as a relation `R` to the first one allows. -/
theorem walk_encodeAll {R : σ → σ → Prop} (hrefl : ∀ s, R s s)
    (htrans : ∀ s s' s'', R s s' → R s' s'' → R s s'')
    (hvisit : ∀ f ∈ fs, ∀ s, ∃ s', visit s f.kind f.value = .ok s' ∧ R s s') (s : σ) (rest : Buf) :
    ∃ s', R s s' ∧ walk visit (encodeAll fs ++ rest) s = walk visit rest s' := by
  induction fs generalizing s with
  | nil => exact ⟨s, hrefl s, rfl⟩
  | cons f fs ih =>
      obtain ⟨s', hs', hR⟩ := hvisit f List.mem_cons_self s
      obtain ⟨s'', hR', hrest⟩ := ih (fun g hg => hvisit g (List.mem_cons_of_mem f hg)) s'
      refine ⟨s'', htrans s s' s'' hR hR', ?_⟩
      rw [encodeAll_cons, List.append_assoc, walk_encode hs', hrest]

/-- Whole fields, then type, length and value of this one, stand in the buffer. -/
def Present (kind : UInt16) (value b : Buf) : Prop :=
  value.length < 65536 ∧ ∃ before rest, b = encodeAll before ++ (header kind value ++ rest)

theorem Present.cons (h : Present kind value rest) (f : Field) :
    Present kind value (f.encode ++ rest) := by
  obtain ⟨hvalue, before, after, rfl⟩ := h
  refine ⟨hvalue, f :: before, after, ?_⟩
  rw [encodeAll_cons, List.append_assoc]

/-- What is present behind a field and its padding is present with it. -/
theorem Present.of_drop {first : UInt16} {start : Buf} (hstart : start.length < 65536)
    (h : Present kind value (rest.drop (padLen start.length))) :
    Present kind value (header first start ++ rest) := by
  by_cases hpad : padLen start.length ≤ rest.length
  · have hfield := h.cons
      ⟨first, start, rest.take (padLen start.length), hstart, List.length_take_of_le hpad⟩
    rw [Field.encode, List.append_assoc, List.take_append_drop] at hfield
    exact hfield
  · -- The padding is cut short, so nothing is left that could be present.
    obtain ⟨-, before, after, heq⟩ := h
    rw [List.drop_of_length_le (Nat.le_of_not_le hpad)] at heq
    have hlength := congrArg List.length heq
    rw [List.length_append, List.length_append, header_length, List.length_nil] at hlength
    omega

/-- What every visit of a field that is present keeps, the walk keeps. It ends without an error. -/
theorem walk_invariant {I : σ → Prop} (b : Buf)
    (hvisit : ∀ kind value, Present kind value b → ∀ s, I s → ∃ s', visit s kind value = .ok s' ∧ I s')
    (hs : I s) : ∃ s', walk visit b s = .ok s' ∧ I s' := by
  induction hn : b.length using Nat.strongRecOn generalizing b s with
  | _ n ih =>
      rcases next_cases b with hnone | ⟨kind, value, rest, hvalue, rfl⟩
      · exact ⟨s, walk_of_none hnone, hs⟩
      · obtain ⟨s', hs', hI⟩ := hvisit kind value ⟨hvalue, [], rest, rfl⟩ s hs
        have hread := (next_header hvalue : next (header kind value ++ rest) = _)
        have hrest : ∀ k v, Present k v (rest.drop (padLen value.length)) →
            ∀ s, I s → ∃ s', visit s k v = .ok s' ∧ I s' :=
          fun k v hpresent => hvisit k v (hpresent.of_drop hvalue)
        obtain ⟨s'', hwalk, hI'⟩ := ih _ (hn ▸ next_lt hread) _ hrest hI rfl
        refine ⟨s'', ?_, hI'⟩
        rw [walk_of_some hread, hs']
        exact hwalk

end Tlv
