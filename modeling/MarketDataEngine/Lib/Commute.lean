import Mathlib.Data.List.Basic
import Mathlib.Tactic.Common

/-!
# Steps that commute

A run is a list of steps, each under a key, and steps under different keys commute. Then a run is
known by what it does under each key: two runs with the same steps under every key, in the same
order, end in the same state (`Commuting.foldl_eq`). An interleaving of two lists is the case of two
keys.
-/

namespace Commute

variable {σ α κ : Type*}

/-- The two lists have the same steps under every key, in the same order. -/
def SameByKey [DecidableEq κ] (key : α → κ) (l m : List α) : Prop :=
  ∀ k, (l.filter fun a => key a = k) = m.filter fun a => key a = k

/-- The third list has the members of the first two, each in their order. -/
inductive Interleaving : List α → List α → List α → Prop
  | nil : Interleaving [] [] []
  | left {a : α} {l m is : List α} (h : Interleaving l m is) : Interleaving (a :: l) m (a :: is)
  | right {a : α} {l m is : List α} (h : Interleaving l m is) : Interleaving l (a :: m) (a :: is)

/-- In the states that satisfy `Inv`, which the steps that satisfy `Ok` keep, such steps commute
under different keys. -/
structure Commuting (Inv : σ → Prop) (Ok : α → Prop) (step : σ → α → σ) (key : α → κ) : Prop where
  keeps : ∀ {s a}, Inv s → Ok a → Inv (step s a)
  comm : ∀ {s a b}, Inv s → Ok a → Ok b → key a ≠ key b → step (step s a) b = step (step s b) a

/-! ## Lists with the same steps by key -/

section
variable [DecidableEq κ] {key : α → κ}

/-- Lists that agree by key do so both ways. -/
theorem SameByKey.symm {l m : List α} (h : SameByKey key l m) : SameByKey key m l :=
  fun k => (h k).symm

/-- Lists that agree by key with a third agree with each other. -/
theorem SameByKey.trans {l m n : List α} (h : SameByKey key l m) (h' : SameByKey key m n) :
    SameByKey key l n :=
  fun k => (h k).trans (h' k)

/-- Lists that agree by key have the same members. -/
theorem SameByKey.mem_iff {l m : List α} (h : SameByKey key l m) (a : α) : a ∈ l ↔ a ∈ m := by
  have hmem := congrArg (a ∈ ·) (h (key a))
  simpa using hmem

/-- The first step of one list is in the other behind steps under other keys only. -/
theorem SameByKey.exists_split {a : α} {l m : List α} (h : SameByKey key (a :: l) m) :
    ∃ pre post, m = pre ++ a :: post ∧ (∀ b ∈ pre, key b ≠ key a) ∧
      SameByKey key l (pre ++ post) := by
  have hfilter := (h (key a)).symm
  rw [List.filter_cons_of_pos (by simp), List.filter_eq_cons_iff] at hfilter
  obtain ⟨pre, post, rfl, hpre, -, -⟩ := hfilter
  have hpre : ∀ b ∈ pre, key b ≠ key a := by simpa using hpre
  refine ⟨pre, post, rfl, hpre, ?_⟩
  intro k
  have hk := h k
  rw [List.filter_append] at hk ⊢
  rcases eq_or_ne (key a) k with rfl | hne
  · have hnil : (pre.filter fun b => key b = key a) = [] := by simpa using hpre
    rw [List.filter_cons_of_pos (by simp), List.filter_cons_of_pos (by simp), hnil] at hk
    rw [hnil]
    exact (List.cons.inj hk).2
  · rwa [List.filter_cons_of_neg (by simpa using hne),
      List.filter_cons_of_neg (by simpa using hne)] at hk

/-- An interleaving has its two lists under their two keys. -/
theorem Interleaving.sameByKey {l m is : List α} (h : Interleaving l m is) {k k' : κ}
    (hne : k ≠ k') (hl : ∀ a ∈ l, key a = k) (hm : ∀ a ∈ m, key a = k') :
    SameByKey key is (l ++ m) := by
  induction h with
  | nil => exact fun _ => rfl
  | @left a l m is h ih =>
    obtain ⟨-, hl⟩ := List.forall_mem_cons.1 hl
    intro x
    rw [List.cons_append, List.filter_cons, List.filter_cons, ih hl hm x]
  | @right a l m is h ih =>
    obtain ⟨ha, hm⟩ := List.forall_mem_cons.1 hm
    have ih := ih hl hm
    intro x
    have hx := ih x
    rw [List.filter_append] at hx ⊢
    rcases eq_or_ne k' x with rfl | hx'
    · have hnil : (l.filter fun b => key b = k') = [] :=
        List.filter_eq_nil_iff.2 fun b hb => by simp [hl b hb, hne]
      rw [hnil, List.nil_append] at hx ⊢
      rw [List.filter_cons_of_pos (by simpa using ha), List.filter_cons_of_pos (by simpa using ha),
        hx]
    · have hax : key a ≠ x := fun he => hx' (ha.symm.trans he)
      rw [List.filter_cons_of_neg (by simpa using hax),
        List.filter_cons_of_neg (by simpa using hax), hx]

end

/-- One list and then the other is an interleaving. -/
theorem interleaving_append (l m : List α) : Interleaving l m (l ++ m) := by
  induction l with
  | nil =>
    induction m with
    | nil => exact .nil
    | cons a m ih => exact .right ih
  | cons a l ih => exact .left ih

/-! ## Runs -/

section
variable {Inv : σ → Prop} {Ok : α → Prop} {step : σ → α → σ} {key : α → κ}

/-- A step may be made before the steps under other keys. -/
theorem Commuting.bubble (h : Commuting Inv Ok step key) {s : σ} (hs : Inv s) {a : α} (ha : Ok a)
    {pre : List α} (hok : ∀ b ∈ pre, Ok b) (hkey : ∀ b ∈ pre, key b ≠ key a) :
    step (pre.foldl step s) a = pre.foldl step (step s a) := by
  induction pre generalizing s with
  | nil => rfl
  | cons b pre ih =>
    obtain ⟨hb, hok⟩ := List.forall_mem_cons.1 hok
    obtain ⟨hne, hkey⟩ := List.forall_mem_cons.1 hkey
    calc step ((b :: pre).foldl step s) a
        = pre.foldl step (step (step s b) a) := ih (h.keeps hs hb) hok hkey
      _ = pre.foldl step (step (step s a) b) := by rw [h.comm hs hb ha hne]

/-- **A run is known by what it does under each key.** -/
theorem Commuting.foldl_eq [DecidableEq κ] (h : Commuting Inv Ok step key) {s : σ} (hs : Inv s)
    {l m : List α} (hok : ∀ a ∈ l, Ok a) (hsame : SameByKey key l m) :
    l.foldl step s = m.foldl step s := by
  induction l generalizing s m with
  | nil =>
    have hnil : m = [] := List.eq_nil_iff_forall_not_mem.2 fun a ha => by
      simpa using (hsame.mem_iff a).2 ha
    rw [hnil]
  | cons a l ih =>
    obtain ⟨ha, hok'⟩ := List.forall_mem_cons.1 hok
    obtain ⟨pre, post, rfl, hkey, hrest⟩ := hsame.exists_split
    have hpre : ∀ b ∈ pre, Ok b := fun b hb =>
      hok b ((hsame.mem_iff b).2 (List.mem_append_left _ hb))
    calc (a :: l).foldl step s
        = (pre ++ post).foldl step (step s a) := ih (h.keeps hs ha) hok' hrest
      _ = post.foldl step (step (pre.foldl step s) a) := by
        rw [List.foldl_append, h.bubble hs ha hpre hkey]
      _ = (pre ++ a :: post).foldl step s := by rw [List.foldl_append, List.foldl_cons]

end

end Commute
