import MarketDataEngine.Noninterference

/-!
# Ghost levels

A level should be in its book exactly while an order is queued there. `consume` keeps to this: it
erases the level whose queue it empties. `apply` does not: `levels_[price]` creates a level, and for
a reported quantity of zero no order follows (`noGhosts_fails`). `noGhosts_iff` is the exact
condition: no `New` or `Change` reports zero for a price without a level.
-/

namespace MarketDataEngine

open History Correlator

variable {s : Side} {p : Price} {c c' : Correlator} {u : L2Update}

/-- The price has a level iff an order with a positive quantity is queued there. -/
def LevelBacked (s : Side) (p : Price) (c : Correlator) : Prop :=
  (c.bookFor s).hasLevel p ↔ ∃ o ∈ (c.level s p).orders, 0 < o.qty

/-- A call that creates no level without an order. -/
def CreatesNoGhost (s : Side) (p : Price) (c : Correlator) : Call → Prop
  | .trade _ => True
  | .l2Update u => u.side = s ∧ u.price = p → u.action ≠ .delete → u.newQty = 0 →
      (c.bookFor s).hasLevel p

/-- As queued orders are positive, a level is backed iff its queue is not empty. -/
theorem levelBacked_iff (hc : Queues c) : LevelBacked s p c ↔
    ∀ level, (c.bookFor s).levels[p]? = some level → level.orders ≠ [] := by
  have horders : (c.level s p).orders = (((c.bookFor s).levels[p]?).getD {}).orders := by
    rw [level, ShadowBook.level_eq_getD]
  have hpos : (∃ o ∈ (c.level s p).orders, 0 < o.qty) ↔ (c.level s p).orders ≠ [] := by
    refine ⟨?_, ?_⟩
    · rintro ⟨o, ho, -⟩
      exact List.ne_nil_of_mem ho
    · intro hne
      obtain ⟨o, ho⟩ := List.exists_mem_of_ne_nil _ hne
      have hlot := hc.pos s p o.lot (lots_eq c s p ▸ List.mem_map_of_mem ho)
      exact ⟨o, ho, qty_pos_iff.2 hlot⟩
  rw [LevelBacked, hpos, ShadowBook.hasLevel_iff, horders]
  cases (c.bookFor s).levels[p]? with
  | none => simp
  | some level => simp

/-- What an update makes of the levels of its book. -/
theorem ShadowBook.updated_levels (b : ShadowBook) (u : L2Update) (p : Price) :
    (b.updated u).levels[p]? =
      if p = u.price then
        if u.action = .delete then none
        else if b.getQty u.price < u.newQty then
          some
            { totalQty := u.newQty + (u.newQty - b.getQty u.price)
              orders := (b.level u.price).orders ++ [⟨b.nextOrderId, u.newQty - b.getQty u.price⟩] }
        else if u.newQty < b.getQty u.price then
          LevelState.less { b.level u.price with totalQty := u.newQty }
            (b.getQty u.price - u.newQty)
        else some { b.level u.price with totalQty := u.newQty }
      else b.levels[p]? := by
  dsimp only [updated]
  by_cases hp : p = u.price
  · subst hp
    by_cases ha : u.action = .delete
    · have hlt : ¬ b.getQty u.price < 0 := by simp [UInt32.lt_iff_toNat_lt]
      rw [reported_of_delete u ha, if_neg hlt]
      split
      · simp [consume_levels, apply_levels, ha]
      · simp [apply_levels, ha]
    · rw [reported_of_ne u ha]
      simp only [ha, if_true, if_false]
      split
      · simp [addOrder_levels, apply_level, ha]
      · split
        · simp [consume_levels, apply_levels, ha]
        · simp [apply_levels, ha]
  · simp only [hp, if_false]
    split
    · simp [addOrder_levels, apply_levels, hp]
    · split <;> simp [consume_levels, apply_levels, hp]

/-- A level that stays when its queue is taken from has an order left. -/
theorem LevelState.orders_of_less {level level' : LevelState} {qty : Qty}
    (h : level.less qty = some level') : level'.orders ≠ [] := by
  unfold less at h
  split at h
  · cases h
  · rename_i hne
    obtain rfl := Option.some.inj h
    exact hne

/-- A price without a level has no quantity and no order. -/
theorem ShadowBook.level_of_not_hasLevel {b : ShadowBook} (h : ¬ b.hasLevel p) :
    b.level p = {} := by
  rw [hasLevel_iff] at h
  rw [level_eq_getD, Option.eq_none_iff_forall_ne_some.2 fun level hl => h ⟨level, hl⟩]
  rfl

/-- On a backed level, an update leaves an order iff it is none that creates a ghost. -/
theorem ShadowBook.updated_backed {b : ShadowBook}
    (hb : ∀ level, b.levels[u.price]? = some level → level.orders ≠ []) :
    (∀ level, (b.updated u).levels[u.price]? = some level → level.orders ≠ []) ↔
      (u.action ≠ .delete → u.newQty = 0 → b.hasLevel u.price) := by
  have horders : b.hasLevel u.price → (b.level u.price).orders ≠ [] := by
    intro h
    obtain ⟨level, hl⟩ := (b.hasLevel_iff u.price).1 h
    rw [level_eq_getD, hl]
    exact hb level hl
  have hqty : ¬ b.hasLevel u.price → b.getQty u.price = 0 := fun h => by
    rw [getQty_eq, level_of_not_hasLevel h]
  rw [updated_levels, if_pos rfl]
  split
  · rename_i ha
    simp [ha]
  rename_i ha
  simp only [ha, not_false_eq_true, true_imp_iff, ne_eq]
  split
  · rename_i hraised
    have hne : u.newQty ≠ 0 := fun hz => by simp [hz, UInt32.lt_iff_toNat_lt] at hraised
    simp [hne]
  split
  · rename_i hlow
    refine iff_of_true (fun level hl => LevelState.orders_of_less hl) ?_
    intro _
    by_contra hlevel
    simp [hqty hlevel, UInt32.lt_iff_toNat_lt] at hlow
  · rename_i hraised hlow
    -- the report changes nothing, so the level stays as it was, or appears
    have hsame : u.newQty = b.getQty u.price :=
      UInt32.le_antisymm (UInt32.not_lt.1 hraised) (UInt32.not_lt.1 hlow)
    simp only [Option.some.injEq, forall_eq']
    refine ⟨?_, fun h => horders ?_⟩
    · intro hne _
      exact Decidable.byContradiction fun hlevel => hne (by rw [level_of_not_hasLevel hlevel])
    · exact Decidable.byContradiction fun hlevel => hlevel (h (hsame.trans (hqty hlevel)))

variable {pre : List Call}

/-- One call keeps a level backed iff it creates no ghost. -/
theorem levelBacked_step (hb : LevelBacked s p (engine.state pre)) (call : Call) :
    LevelBacked s p (engine.state (pre ++ [call])) ↔
      CreatesNoGhost s p (engine.state pre) call := by
  cases call with
  | trade t =>
    rw [state_trade]
    exact iff_of_true hb trivial
  | l2Update u =>
    rw [levelBacked_iff (queues_state _)] at hb ⊢
    rw [state_l2Update, onL2Update_bookFor, CreatesNoGhost]
    rcases Decidable.em (u.side = s ∧ u.price = p) with ⟨rfl, rfl⟩ | hsp
    · simpa using ShadowBook.updated_backed hb
    · refine iff_of_true ?_ fun h => absurd h hsp
      split
      · rename_i hs
        rw [ShadowBook.updated_levels, if_neg fun hp => hsp ⟨hs.symm, hp.symm⟩]
        exact hb
      · exact hb

/-- At first there is no level. -/
theorem levelBacked_init (s : Side) (p : Price) : LevelBacked s p (engine.state []) := by
  rw [levelBacked_iff (queues_state [])]
  cases s <;> simp [engine, bookFor]

/-- Calls that create no ghost leave the level backed. -/
theorem levelBacked_run
    (h : Always (fun pre call => CreatesNoGhost s p (engine.state pre) call) pre) :
    LevelBacked s p (engine.state pre) := by
  induction pre using List.reverseRecOn with
  | nil => exact levelBacked_init s p
  | append_singleton pre call ih =>
    obtain ⟨hpre, hcall⟩ := always_concat.1 h
    exact (levelBacked_step (ih hpre) call).2 hcall

/-- **No ghost levels.** A price has a level exactly while an order is queued there, throughout a
run, iff no call creates a ghost. -/
theorem noGhosts_iff (s : Side) (p : Price) (calls : List Call) :
    (∀ pre, pre <+: calls → LevelBacked s p (engine.state pre)) ↔
      Always (fun pre call => CreatesNoGhost s p (engine.state pre) call) calls :=
  forall_prefix_iff_always (levelBacked_init s p)
    (fun _ call hpre => levelBacked_step (levelBacked_run hpre) call) calls

/-- A level that is new with a quantity of zero has no order. -/
theorem noGhosts_fails : ¬ ∀ s p calls, LevelBacked s p (engine.state calls) := by
  intro h
  have hghost := h .bid 1000 [.l2Update ⟨1, .new, 1000, 0, .bid, 0⟩]
  revert hghost
  unfold LevelBacked
  decide +kernel

end MarketDataEngine
