import Mathlib.Data.List.Flatten
import Mathlib.Data.List.Perm.Basic
import Mathlib.Algebra.BigOperators.Group.List.Basic
import Mathlib.Algebra.GroupWithZero.Nat
import Mathlib.Tactic.Common

/-!
# A first-in first-out queue of labelled lots

A queue is a list of lots `(a, k)`, oldest first: `k` units under the label `a`. `take n` is what
leaves when `n` units are asked for and `drop n` is what stays; a lot that is asked for in part is
split. Their meaning is the list of the queue's single units: `units_take` and `units_drop` say that
`take` and `drop` are `List.take` and `List.drop` on units, and the laws of quantities (`total`,
`held`) follow from that. What single units do not show, which lots stay and in which order, is
said of the lots themselves.
-/

namespace Fifo

variable {α : Type*}

/-- The units of a queue, oldest first. -/
def units (q : List (α × ℕ)) : List α := q.flatMap fun lot => List.replicate lot.2 lot.1

/-- The number of units of a queue. -/
def total (q : List (α × ℕ)) : ℕ := (q.map Prod.snd).sum

/-- The lots that leave a queue when `n` units are asked for. -/
def take : ℕ → List (α × ℕ) → List (α × ℕ)
  | _, [] => []
  | n, (a, k) :: q => if n = 0 then [] else if k ≤ n then (a, k) :: take (n - k) q else [(a, n)]

/-- The queue that stays when `n` units have left. -/
def drop : ℕ → List (α × ℕ) → List (α × ℕ)
  | _, [] => []
  | n, (a, k) :: q =>
    if n = 0 then (a, k) :: q else if k ≤ n then drop (n - k) q else (a, k - n) :: q

@[simp] theorem units_nil : units ([] : List (α × ℕ)) = [] := rfl

@[simp] theorem units_cons (lot : α × ℕ) (q : List (α × ℕ)) :
    units (lot :: q) = List.replicate lot.2 lot.1 ++ units q := by
  simp [units]

/-- The units of a longer queue. -/
@[simp] theorem units_append (q r : List (α × ℕ)) : units (q ++ r) = units q ++ units r := by
  simp [units]

@[simp] theorem total_nil : total ([] : List (α × ℕ)) = 0 := rfl

@[simp] theorem total_cons (lot : α × ℕ) (q : List (α × ℕ)) :
    total (lot :: q) = lot.2 + total q := by
  simp [total]

/-- The quantity of a longer queue. -/
@[simp] theorem total_append (q r : List (α × ℕ)) : total (q ++ r) = total q + total r := by
  simp [total]

/-- The number of units of a queue is the length of its list of units. -/
theorem length_units (q : List (α × ℕ)) : (units q).length = total q := by
  induction q with
  | nil => rfl
  | cons lot q ih => simp [ih]

@[simp] theorem take_nil (n : ℕ) : take n ([] : List (α × ℕ)) = [] := rfl

@[simp] theorem drop_nil (n : ℕ) : drop n ([] : List (α × ℕ)) = [] := rfl

@[simp] theorem take_zero (q : List (α × ℕ)) : take 0 q = [] := by cases q <;> simp [take]

@[simp] theorem drop_zero (q : List (α × ℕ)) : drop 0 q = q := by cases q <;> simp [drop]

/-- A label has a unit iff it has a lot that is not empty. -/
theorem mem_units {a : α} {q : List (α × ℕ)} :
    a ∈ units q ↔ ∃ lot ∈ q, lot.1 = a ∧ 0 < lot.2 := by
  simp only [units, List.mem_flatMap, List.mem_replicate]
  refine exists_congr fun lot => and_congr_right fun _ => ?_
  rw [and_comm, eq_comm, Nat.pos_iff_ne_zero]

/-- What relates the labels of a queue, each also to itself, relates its units. -/
theorem pairwise_units {R : α → α → Prop} (hr : ∀ a, R a a) {q : List (α × ℕ)}
    (h : (q.map Prod.fst).Pairwise R) : (units q).Pairwise R := by
  induction q with
  | nil => exact List.Pairwise.nil
  | cons lot q ih =>
    rw [List.map_cons, List.pairwise_cons] at h
    rw [units_cons, List.pairwise_append]
    refine ⟨List.pairwise_replicate.2 (.inr (hr _)), ih h.2, ?_⟩
    intro a ha b hb
    obtain ⟨lot', hlot', rfl, -⟩ := mem_units.1 hb
    rw [List.eq_of_mem_replicate ha]
    exact h.1 _ (List.mem_map_of_mem hlot')

/-! ## `take` and `drop` on units -/

/-- Asking for `n` units takes the first `n` units. -/
theorem units_take (n : ℕ) (q : List (α × ℕ)) : units (take n q) = (units q).take n := by
  fun_induction take n q with
  | case1 => simp
  | case2 => simp
  | case3 n a k q _ hk ih =>
    simp only [units_cons, ih, List.take_append, List.length_replicate, List.take_replicate]
    rw [Nat.min_eq_right hk]
  | case4 n a k q _ hk =>
    have hkn : n ≤ k := by omega
    simp [List.take_append, List.take_replicate, Nat.min_eq_left hkn, Nat.sub_eq_zero_of_le hkn]

/-- After `n` units have left, the other units stay. -/
theorem units_drop (n : ℕ) (q : List (α × ℕ)) : units (drop n q) = (units q).drop n := by
  fun_induction drop n q with
  | case1 => simp
  | case2 => simp
  | case3 n a k q _ hk ih =>
    simp [ih, List.drop_append, List.drop_replicate, Nat.sub_eq_zero_of_le hk]
  | case4 n a k q _ hk =>
    have hkn : n - k = 0 := by omega
    simp [List.drop_append, List.drop_replicate, hkn]

/-- What leaves, and then what stays, is what was there. -/
theorem units_take_drop (n : ℕ) (q : List (α × ℕ)) :
    units (take n q) ++ units (drop n q) = units q := by
  rw [units_take, units_drop, List.take_append_drop]

/-- Two requests in a row take the units of one request for both. -/
theorem units_take_add (m n : ℕ) (q : List (α × ℕ)) :
    units (take m q) ++ units (take n (drop m q)) = units (take (m + n) q) := by
  simp only [units_take, units_drop, List.take_add]

/-- What is taken, as far as there is any. -/
@[simp] theorem total_take (n : ℕ) (q : List (α × ℕ)) : total (take n q) = min n (total q) := by
  rw [← length_units, units_take, List.length_take, length_units]

/-- What is left when some is taken. -/
@[simp] theorem total_drop (n : ℕ) (q : List (α × ℕ)) : total (drop n q) = total q - n := by
  rw [← length_units, units_drop, List.length_drop, length_units]

/-! ## Lots -/

/-- Two requests in a row leave what one request for both leaves. -/
theorem drop_drop (m n : ℕ) (q : List (α × ℕ)) : drop n (drop m q) = drop (m + n) q := by
  fun_induction drop m q with
  | case1 => simp
  | case2 => simp
  | case3 m a k q hm hk ih =>
    rw [ih, drop, if_neg (by omega), if_pos (by omega)]
    congr 1
    omega
  | case4 m a k q hm hk =>
    by_cases hn : n = 0
    · simp [drop, hn, hm, hk]
    by_cases hkn : k - m ≤ n
    · have hle : k ≤ m + n := by omega
      have hsub : n - (k - m) = m + n - k := by omega
      simp [drop, hn, hkn, hle, hsub]
    · have hlt : ¬ k ≤ m + n := by omega
      simp [drop, hn, hkn, hlt, Nat.sub_sub]

/-- A request splits one lot at most. -/
theorem length_take_add_length_drop (n : ℕ) (q : List (α × ℕ)) :
    (take n q).length + (drop n q).length ≤ q.length + 1 := by
  fun_induction take n q with
  | case1 => simp
  | case2 => simp
  | case3 n a k q hn hk ih =>
    rw [drop, if_neg hn, if_pos hk]
    simp only [List.length_cons]
    omega
  | case4 n a k q hn hk =>
    rw [drop, if_neg hn, if_neg hk]
    simp only [List.length_cons, List.length_nil]
    omega

/-- Only a request within the total leaves a lot. -/
theorem le_total_of_drop_ne_nil {n : ℕ} {q : List (α × ℕ)} (h : drop n q ≠ []) : n ≤ total q := by
  fun_induction drop n q with
  | case1 => exact absurd rfl h
  | case2 => exact Nat.zero_le _
  | case3 n a k q _ _ ih =>
    have := ih h
    rw [total_cons]
    omega
  | case4 n a k q _ hk =>
    rw [total_cons]
    omega

/-- The labels of the lots that stay are the last labels of the queue. -/
theorem drop_labels_suffix (n : ℕ) (q : List (α × ℕ)) :
    (drop n q).map Prod.fst <:+ q.map Prod.fst := by
  fun_induction drop n q with
  | case1 => simp
  | case2 => simp
  | case3 n a k q _ _ ih => exact ih.trans (List.suffix_cons _ _)
  | case4 => simp

/-- What leaves a queue and what stays does not depend on the labels. -/
theorem drop_map_label {β : Type*} (f : α → β) (n : ℕ) (q : List (α × ℕ)) :
    drop n (q.map (Prod.map f id)) = (drop n q).map (Prod.map f id) := by
  fun_induction drop n q with
  | case1 => rfl
  | case2 => simp
  | case3 n a k q hn hk ih => simpa [drop, hn, hk] using ih
  | case4 n a k q hn hk => simp [drop, hn, hk]

/-- Labels do not count. -/
theorem total_map_label {β : Type*} (f : α → β) (q : List (α × ℕ)) :
    total (q.map (Prod.map f id)) = total q := by
  simp [total, Function.comp_def]

/-- Every lot is positive. -/
def Pos (q : List (α × ℕ)) : Prop := ∀ lot ∈ q, 0 < lot.2

@[simp] theorem pos_nil : Pos ([] : List (α × ℕ)) := by simp [Pos]

@[simp] theorem pos_cons {lot : α × ℕ} {q : List (α × ℕ)} :
    Pos (lot :: q) ↔ 0 < lot.2 ∧ Pos q := by
  simp [Pos]

/-- A longer queue without empty lots. -/
@[simp] theorem pos_append {q r : List (α × ℕ)} : Pos (q ++ r) ↔ Pos q ∧ Pos r := by
  simp [Pos, or_imp, forall_and]

/-- The labels of positive lots are among the units, in their order. -/
theorem Pos.labels_sublist_units {q : List (α × ℕ)} (h : Pos q) :
    (q.map Prod.fst).Sublist (units q) := by
  induction q with
  | nil => exact List.Sublist.slnil
  | cons lot q ih =>
    obtain ⟨hlot, hq⟩ := pos_cons.1 h
    have hone : (List.replicate 1 lot.1).Sublist (List.replicate lot.2 lot.1) :=
      (List.replicate_sublist_replicate lot.1).2 hlot
    rw [List.map_cons, units_cons, ← List.singleton_append]
    exact hone.append (ih hq)

/-- What is left has no empty lot. -/
theorem Pos.drop {q : List (α × ℕ)} (h : Pos q) (n : ℕ) : Pos (drop n q) := by
  fun_induction Fifo.drop n q with
  | case1 => simp
  | case2 => exact h
  | case3 n a k q _ _ ih => exact ih (pos_cons.1 h).2
  | case4 n a k q _ hk => exact pos_cons.2 ⟨by dsimp only; omega, (pos_cons.1 h).2⟩

/-- What is taken has no empty lot. -/
theorem Pos.take {q : List (α × ℕ)} (h : Pos q) (n : ℕ) : Pos (take n q) := by
  fun_induction Fifo.take n q with
  | case1 => simp
  | case2 => simp
  | case3 n a k q _ _ ih => exact pos_cons.2 ⟨(pos_cons.1 h).1, ih (pos_cons.1 h).2⟩
  | case4 n a k q hn _ => exact pos_cons.2 ⟨Nat.pos_of_ne_zero hn, pos_nil⟩

/-- A queue of positive lots is empty iff it has no unit. -/
theorem Pos.total_eq_zero {q : List (α × ℕ)} (h : Pos q) : total q = 0 ↔ q = [] := by
  cases q with
  | nil => simp
  | cons lot q =>
    have := (pos_cons.1 h).1
    simp
    omega

/-- A queue of positive lots is used up iff at least its total is asked for. -/
theorem Pos.drop_eq_nil {q : List (α × ℕ)} (h : Pos q) (n : ℕ) :
    Fifo.drop n q = [] ↔ total q ≤ n := by
  rw [← (h.drop n).total_eq_zero, total_drop]
  omega

/-! ## Quantities under a label -/

section
variable [DecidableEq α]

/-- The units a queue holds under the label `a`. -/
def held (a : α) (q : List (α × ℕ)) : ℕ := (units q).count a

@[simp] theorem held_nil (a : α) : held a [] = 0 := rfl

@[simp] theorem held_cons (a : α) (lot : α × ℕ) (q : List (α × ℕ)) :
    held a (lot :: q) = (if lot.1 = a then lot.2 else 0) + held a q := by
  simp [held, List.count_replicate]

/-- What a longer queue holds for a label. -/
@[simp] theorem held_append (a : α) (q r : List (α × ℕ)) :
    held a (q ++ r) = held a q + held a r := by
  simp [held]

/-- A label that is not in the queue holds nothing. -/
theorem held_eq_zero {a : α} {q : List (α × ℕ)} (h : a ∉ q.map Prod.fst) : held a q = 0 := by
  induction q with
  | nil => rfl
  | cons lot q ih =>
    simp only [List.map_cons, List.mem_cons, not_or] at h
    simp [ih h.2, Ne.symm h.1]

/-- Under distinct labels a label's units are its one lot. -/
theorem held_of_mem {lot : α × ℕ} {q : List (α × ℕ)} (hnd : (q.map Prod.fst).Nodup)
    (h : lot ∈ q) : held lot.1 q = lot.2 := by
  induction q with
  | nil => simp at h
  | cons l q ih =>
    simp only [List.map_cons, List.nodup_cons] at hnd
    rcases List.mem_cons.1 h with rfl | h
    · simp [held_eq_zero hnd.1]
    · have hne : l.1 ≠ lot.1 := fun he => hnd.1 (he ▸ List.mem_map_of_mem h)
      simp [ih hnd.2 h, hne]

end

end Fifo
