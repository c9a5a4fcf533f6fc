import Mathlib.Data.List.DropRight
import Mathlib.Data.List.Infix
import Mathlib.Algebra.BigOperators.Group.List.Basic
import Mathlib.Algebra.GroupWithZero.Nat
import Mathlib.Tactic.Common

/-!
# Histories of a deterministic machine

A history is a list, oldest entry first. `Always ok l` says that every entry of `l` satisfies `ok`
together with the entries before it; `tally w l` is the weight of `l` and `since p l` what follows
the last entry of a kind. A `Machine` answers each input with a list of outputs, so a run is the
list of its inputs: `state` and `log` are what it has reached and emitted after them.
`forall_prefix_iff_always` is the rule for exact conditions: a property of runs holds at every point
of a run iff every input meets the condition under which one step keeps it.
-/

namespace History

variable {α β σ ι ω : Type*}

/-! ## Properties of an entry and its past -/

/-- Every entry of `l` satisfies `ok` together with the entries before it. -/
def Always (ok : List α → α → Prop) (l : List α) : Prop :=
  ∀ pre a post, l = pre ++ a :: post → ok pre a

@[simp] theorem always_nil (ok : List α → α → Prop) : Always ok [] := by
  intro pre a post h
  simp at h

/-- `Always` over an append: the second part sees the first as its past. -/
theorem always_append {ok : List α → α → Prop} {l m : List α} :
    Always ok (l ++ m) ↔ Always ok l ∧ Always (fun pre a => ok (l ++ pre) a) m := by
  refine ⟨?_, ?_⟩
  · intro h
    refine ⟨fun pre a post hl => h pre a (post ++ m) ?_, fun pre a post hm => h _ a post ?_⟩
    · rw [hl, List.append_assoc, List.cons_append]
    · rw [hm, List.append_assoc]
  · rintro ⟨hl, hm⟩ pre a post h
    rcases List.append_eq_append_iff.1 h with ⟨d, rfl, hd⟩ | ⟨d, rfl, hd⟩
    · exact hm d a post hd
    · cases d with
      | nil => simpa using hm [] a post (by simpa using hd.symm)
      | cons b d =>
        obtain ⟨rfl, rfl⟩ := List.cons.inj hd
        exact hl pre a d rfl

/-- `Always` over one more entry. -/
theorem always_concat {ok : List α → α → Prop} {l : List α} {a : α} :
    Always ok (l ++ [a]) ↔ Always ok l ∧ ok l a := by
  rw [always_append]
  refine and_congr_right fun _ => ⟨fun h => by simpa using h [] a [] rfl, ?_⟩
  intro h pre b post hb
  obtain ⟨rfl, rfl, rfl⟩ : pre = [] ∧ b = a ∧ post = [] := by
    cases pre with
    | nil => simpa [eq_comm] using hb
    | cons c pre => simp at hb
  simpa using h

/-- `Always` over one entry before the others. -/
theorem always_cons {ok : List α → α → Prop} {a : α} {l : List α} :
    Always ok (a :: l) ↔ ok [] a ∧ Always (fun pre b => ok (a :: pre) b) l := by
  have hone : Always ok [a] ↔ ok [] a := by
    rw [← List.nil_append [a], always_concat]
    exact and_iff_right (always_nil ok)
  rw [← List.singleton_append, always_append, hone]
  rfl

/-- A condition that can be decided at every entry can be decided of a history. -/
def decidableAlways : ∀ (ok : List α → α → Prop) [∀ pre a, Decidable (ok pre a)] (l : List α),
    Decidable (Always ok l)
  | ok, _, [] => .isTrue (always_nil ok)
  | ok, _, a :: l =>
    have := decidableAlways (fun pre b => ok (a :: pre) b) l
    decidable_of_iff _ always_cons.symm

instance (ok : List α → α → Prop) [∀ pre a, Decidable (ok pre a)] (l : List α) :
    Decidable (Always ok l) :=
  decidableAlways ok l

/-- A weaker property holds as well. -/
theorem Always.mono {ok ok' : List α → α → Prop} {l : List α} (h : Always ok l)
    (himp : ∀ pre a, ok pre a → ok' pre a) : Always ok' l :=
  fun pre a post hl => himp pre a (h pre a post hl)

/-- A condition that does not read the past is a condition on every member. -/
theorem always_mem {p : α → Prop} {l : List α} : Always (fun _ a => p a) l ↔ ∀ a ∈ l, p a := by
  refine ⟨?_, ?_⟩
  · intro h a ha
    obtain ⟨pre, post, rfl⟩ := List.append_of_mem ha
    exact h pre a post rfl
  · rintro h pre a post rfl
    exact h a (by simp)

/-! ## Weights -/

/-- The total weight of a history. -/
def tally (w : α → ℕ) (l : List α) : ℕ := (l.map w).sum

@[simp] theorem tally_nil (w : α → ℕ) : tally w [] = 0 := rfl

@[simp] theorem tally_cons (w : α → ℕ) (a : α) (l : List α) :
    tally w (a :: l) = w a + tally w l := by
  simp [tally]

/-- Weights add up. -/
@[simp] theorem tally_append (w : α → ℕ) (l m : List α) :
    tally w (l ++ m) = tally w l + tally w m := by
  simp [tally]

/-- Weights are pulled back along a map. -/
theorem tally_map (f : β → α) (w : α → ℕ) (l : List β) :
    tally w (l.map f) = tally (fun b => w (f b)) l := by
  simp [tally, Function.comp_def]

/-- Weights are summed in two steps. -/
theorem tally_flatMap (f : β → List α) (w : α → ℕ) (l : List β) :
    tally w (l.flatMap f) = tally (fun b => tally w (f b)) l := by
  induction l with
  | nil => rfl
  | cons b l ih => simp [ih]

/-- Only the weights of members count. -/
theorem tally_congr {w w' : α → ℕ} {l : List α} (h : ∀ a ∈ l, w a = w' a) :
    tally w l = tally w' l := by
  rw [tally, tally, List.map_congr_left h]

/-- Members without weight have none together. -/
theorem tally_eq_zero {w : α → ℕ} {l : List α} (h : ∀ a ∈ l, w a = 0) : tally w l = 0 := by
  rw [tally_congr h]
  simp [tally]

/-- The weight of the entries of a kind, and of the others. -/
theorem tally_split (p : α → Prop) [DecidablePred p] (w : α → ℕ) (l : List α) :
    tally w l = tally (fun a => if p a then w a else 0) l + tally w (l.filter fun a => ¬ p a) := by
  induction l with
  | nil => rfl
  | cons a l ih =>
    rw [tally_cons, tally_cons, ih]
    rcases Decidable.em (p a) with ha | ha
    · rw [if_pos ha, List.filter_cons_of_neg (by simpa using ha), Nat.add_assoc]
    · rw [if_neg ha, List.filter_cons_of_pos (by simpa using ha), tally_cons]
      omega

/-- The order does not count. -/
theorem tally_perm {w : α → ℕ} {l m : List α} (h : l.Perm m) : tally w l = tally w m :=
  (h.map w).sum_eq

/-- A prefix weighs no more. -/
theorem tally_prefix_le (w : α → ℕ) {l m : List α} (h : l <+: m) : tally w l ≤ tally w m := by
  obtain ⟨t, rfl⟩ := h
  simp

/-! ## Since the last entry of a kind -/

/-- The entries after the last one that satisfies `p`. -/
def since (p : α → Bool) (l : List α) : List α := l.rtakeWhile fun a => !p a

@[simp] theorem since_nil (p : α → Bool) : since p [] = [] := rfl

/-- What came since was there. -/
theorem mem_of_mem_since {p : α → Bool} {a : α} {l : List α} (h : a ∈ since p l) : a ∈ l :=
  (List.rtakeWhile_suffix _ l).subset h

/-- What is no mark comes after the last mark. -/
theorem since_append_of_none {p : α → Bool} {m : List α} (h : ∀ a ∈ m, p a = false) (l : List α) :
    since p (l ++ m) = since p l ++ m := by
  induction m using List.reverseRecOn with
  | nil => simp
  | append_singleton m a ih =>
    rw [List.forall_mem_append, List.forall_mem_singleton] at h
    rw [← List.append_assoc, since, List.rtakeWhile_concat_pos _ _ _ (by simp [h.2]), ← since,
      ih h.1, List.append_assoc]

/-- An entry that satisfies `p` cuts off what is before it. -/
theorem since_append_cons {p : α → Bool} {a : α} {m : List α} (ha : p a) (h : ∀ b ∈ m, p b = false)
    (l : List α) : since p (l ++ a :: m) = m := by
  have hcut : since p (l ++ [a]) = [] := List.rtakeWhile_concat_neg _ _ _ (by simp [ha])
  rw [List.append_cons, since_append_of_none h, hcut, List.nil_append]

/-! ## Machines -/

/-- A deterministic machine: it answers every input with a list of outputs. -/
structure Machine (σ ι ω : Type*) where
  init : σ
  step : σ → ι → σ × List ω

namespace Machine

variable (M : Machine σ ι ω)

/-- The state after a run. -/
def state (is : List ι) : σ := is.foldl (fun s i => (M.step s i).1) M.init

/-- One step of a run: the state it reaches, and the outputs emitted so far. -/
def advance (r : σ × List ω) (i : ι) : σ × List ω :=
  ((M.step r.1 i).1, r.2 ++ (M.step r.1 i).2)

/-- The outputs of a run, oldest first. -/
def log (is : List ι) : List ω := (is.foldl M.advance (M.init, [])).2

@[simp] theorem state_nil : M.state [] = M.init := rfl

/-- The state after one more input. -/
@[simp] theorem state_concat (is : List ι) (i : ι) :
    M.state (is ++ [i]) = (M.step (M.state is) i).1 := by
  simp [state]

/-- The state of a run that keeps its log. -/
theorem foldl_advance_fst (is : List ι) : (is.foldl M.advance (M.init, [])).1 = M.state is := by
  induction is using List.reverseRecOn with
  | nil => rfl
  | append_singleton is i ih => simp [advance, ih]

@[simp] theorem log_nil : M.log [] = [] := rfl

/-- The log after one more input. -/
@[simp] theorem log_concat (is : List ι) (i : ι) :
    M.log (is ++ [i]) = M.log is ++ (M.step (M.state is) i).2 := by
  simp [log, advance, foldl_advance_fst]

/-- An invariant of every state of every run. -/
theorem state_invariant {Inv : σ → Prop} (h0 : Inv M.init)
    (hs : ∀ s i, Inv s → Inv (M.step s i).1) (is : List ι) : Inv (M.state is) := by
  induction is using List.reverseRecOn with
  | nil => exact h0
  | append_singleton is i ih => rw [state_concat]; exact hs _ i ih

/-- An invariant that ties every state to the log so far. -/
theorem log_invariant {Inv : σ → List ω → Prop} (h0 : Inv M.init [])
    (hs : ∀ s l i, Inv s l → Inv (M.step s i).1 (l ++ (M.step s i).2)) (is : List ι) :
    Inv (M.state is) (M.log is) := by
  induction is using List.reverseRecOn with
  | nil => exact h0
  | append_singleton is i ih => rw [state_concat, log_concat]; exact hs _ _ i ih

end Machine

/-! ## Exact conditions -/

/-- **Exact conditions.** `P` holds at every point of a run iff every input meets `C`, as soon as
`P` holds at the start and, after inputs that meet `C`, one input keeps `P` iff it meets `C`. -/
theorem forall_prefix_iff_always {P : List ι → Prop} {C : List ι → ι → Prop} (h0 : P [])
    (hs : ∀ pre i, Always C pre → (P (pre ++ [i]) ↔ C pre i)) (is : List ι) :
    (∀ pre, pre <+: is → P pre) ↔ Always C is := by
  induction is using List.reverseRecOn with
  | nil => simpa [List.prefix_nil] using h0
  | append_singleton is i ih =>
    rw [always_concat, ← ih]
    refine ⟨?_, ?_⟩
    · intro h
      have hpre : ∀ pre, pre <+: is → P pre := fun pre hp =>
        h pre (hp.trans (List.prefix_append _ _))
      exact ⟨hpre, (hs is i (ih.1 hpre)).1 (h _ (List.prefix_refl _))⟩
    · rintro ⟨hpre, hC⟩ pre hp
      rcases List.prefix_concat_iff.1 hp with rfl | hp
      · exact (hs is i (ih.1 hpre)).2 hC
      · exact hpre pre hp

end History
