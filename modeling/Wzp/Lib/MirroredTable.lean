import Mathlib.Data.List.Induction

/-!
# A table mirrored by announcements

The owner of a table leaves notices of its changes in a queue. A notice becomes
a message when it is taken from the queue, with the entry as it is then; the
messages reach a copy of the table in order. What the copy is going to hold can
be told from what is under way.
-/
namespace MirroredTable

inductive Notice (κ : Type*) where
  | refresh (k : κ)
  | withdraw (k : κ)
  deriving DecidableEq

inductive Message (κ α : Type*) where
  | put (k : κ) (a : α)
  | drop (k : κ)

variable {κ α : Type*} [DecidableEq κ] (clears : κ → κ → Bool) (blank : α)

/-- What a message makes of the entry of `k`; dropping `j` may clear further keys. -/
def Message.entry (k : κ) (old : α) : Message κ α → α
  | .put j a => if j = k then a else old
  | .drop j => if clears j k then blank else old

omit [DecidableEq κ] in
def Notice.message (current : κ → α) : Notice κ → Message κ α
  | .refresh k => .put k (current k)
  | .withdraw k => .drop k

/-- What the copy holds once everything under way has arrived. -/
def eventual (copy current : κ → α) (wire : List (Message κ α)) (notices : List (Notice κ)) (k : κ) : α :=
  (wire ++ notices.map (Notice.message current)).foldl (Message.entry clears blank k) (copy k)

/-- The last notice that concerns `k` is to refresh it. -/
def Refreshing (k : κ) (notices : List (Notice κ)) : Bool :=
  notices.foldl (fun pending notice =>
    match notice with
    | .refresh j => if j = k then true else pending
    | .withdraw j => if clears j k then false else pending) false

variable {clears} {blank} {copy current current' : κ → α} {wire : List (Message κ α)}
  {notices : List (Notice κ)} {j k : κ}

/-! ## Everything under way arrives in order -/

theorem eventual_settled : eventual clears blank copy current [] [] k = copy k := rfl

theorem eventual_announce (notice : Notice κ) :
    eventual clears blank copy current (wire ++ [notice.message current]) notices k =
      eventual clears blank copy current wire (notice :: notices) k := by
  rw [eventual, List.append_assoc, List.singleton_append]
  rfl

theorem eventual_receive {copy' : κ → α} {msg : Message κ α}
    (h : copy' k = msg.entry clears blank k (copy k)) :
    eventual clears blank copy' current wire notices k =
      eventual clears blank copy current (msg :: wire) notices k := by
  rw [eventual, h]
  rfl

theorem eventual_copy {copy' : κ → α} (h : copy' k = copy k) :
    eventual clears blank copy' current wire notices k =
      eventual clears blank copy current wire notices k := by
  rw [eventual, h]
  rfl

/-! ## New notices -/

theorem eventual_append (notice : Notice κ) :
    eventual clears blank copy current wire (notices ++ [notice]) k =
      (notice.message current).entry clears blank k
        (eventual clears blank copy current wire notices k) := by
  rw [eventual, List.map_append, ← List.append_assoc, List.foldl_append]
  rfl

theorem eventual_refresh_self :
    eventual clears blank copy current wire (notices ++ [.refresh k]) k = current k := by
  rw [eventual_append]
  exact if_pos rfl

theorem eventual_refresh_ne (hne : j ≠ k) :
    eventual clears blank copy current wire (notices ++ [.refresh j]) k =
      eventual clears blank copy current wire notices k := by
  rw [eventual_append]
  exact if_neg hne

theorem eventual_withdraw (hclears : clears j k = true) :
    eventual clears blank copy current wire (notices ++ [.withdraw j]) k = blank := by
  rw [eventual_append]
  exact if_pos hclears

theorem eventual_withdraw_other (hclears : clears j k = false) :
    eventual clears blank copy current wire (notices ++ [.withdraw j]) k =
      eventual clears blank copy current wire notices k := by
  rw [eventual_append, Notice.message, Message.entry, hclears]
  rfl

theorem refreshing_append (notice : Notice κ) :
    Refreshing clears k (notices ++ [notice]) =
      match notice with
      | .refresh j => if j = k then true else Refreshing clears k notices
      | .withdraw j => if clears j k then false else Refreshing clears k notices :=
  List.foldl_append

/-! ## Changes of the table -/

theorem eventual_of_refreshing (h : Refreshing clears k notices = true) :
    eventual clears blank copy current wire notices k = current k := by
  induction notices using List.reverseRecOn with
  | nil => exact absurd h Bool.false_ne_true
  | append_singleton notices notice ih =>
      rw [refreshing_append] at h
      cases notice with
      | refresh j =>
          by_cases hj : j = k
          · rw [hj]
            exact eventual_refresh_self
          · rw [eventual_refresh_ne hj]
            exact ih (by simpa only [if_neg hj] using h)
      | withdraw j =>
          cases hclears : clears j k with
          | true => simp only [hclears, if_true, Bool.false_eq_true] at h
          | false =>
              rw [eventual_withdraw_other hclears]
              exact ih (by simpa only [hclears, Bool.false_eq_true, if_false] using h)

/-- Unless it is to be refreshed, an entry arrives as it was announced. -/
theorem eventual_of_not_refreshing (h : Refreshing clears k notices = false) :
    eventual clears blank copy current wire notices k =
      eventual clears blank copy current' wire notices k := by
  induction notices using List.reverseRecOn with
  | nil => rfl
  | append_singleton notices notice ih =>
      rw [refreshing_append] at h
      cases notice with
      | refresh j =>
          by_cases hj : j = k
          · simp only [if_pos hj, Bool.true_eq_false] at h
          · rw [eventual_refresh_ne hj, eventual_refresh_ne hj]
            exact ih (by simpa only [if_neg hj] using h)
      | withdraw j =>
          cases hclears : clears j k with
          | true => rw [eventual_withdraw hclears, eventual_withdraw hclears]
          | false =>
              rw [eventual_withdraw_other hclears, eventual_withdraw_other hclears]
              exact ih (by simpa only [hclears, Bool.false_eq_true, if_false] using h)

theorem eventual_congr (h : current k = current' k) :
    eventual clears blank copy current wire notices k =
      eventual clears blank copy current' wire notices k := by
  cases hrefreshing : Refreshing clears k notices with
  | true => rw [eventual_of_refreshing hrefreshing, eventual_of_refreshing hrefreshing, h]
  | false => exact eventual_of_not_refreshing hrefreshing

end MirroredTable
