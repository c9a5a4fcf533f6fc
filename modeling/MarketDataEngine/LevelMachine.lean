import MarketDataEngine.Effects
import MarketDataEngine.Lib.Simulation

/-!
# Every level is a machine of its own

But for the ids of its orders a level depends on the reports for its side and price alone, and so
does the flow of units into it and out of it: trades, the other levels and the other side have no
part in it. `levelMachine` is a level without ids, and the engine seen at one side and price is a
run of it (`level_simulated`). A Delete brings this machine back to its start, so engines with
different pasts agree on a level from then on (`levels_converge`).
-/

namespace MarketDataEngine

open History Correlator

/-- A level without the ids of its orders. -/
structure LevelSketch where
  totalQty : Qty := 0
  queue : List (Unit × ℕ) := []
  deriving DecidableEq, Repr

/-- What the L2 feed says of a level. -/
structure Report where
  action : L2Action
  newQty : Qty
  deriving DecidableEq, Repr

/-- A unit that enters a level, or leaves it by a fill or a cancel. -/
inductive Flow
  | added
  | removed
  deriving DecidableEq, Repr

/-- A report raises the level by one order, lowers it from the front of its queue, or leaves it. -/
def LevelSketch.report (l : LevelSketch) (r : Report) : LevelSketch × List Flow :=
  if r.action = .delete then ({}, [])
  else if l.totalQty < r.newQty then
    ({ totalQty := r.newQty + (r.newQty - l.totalQty)
       queue := l.queue ++ [((), (r.newQty - l.totalQty).toNat)] },
      List.replicate (r.newQty - l.totalQty).toNat .added)
  else if r.newQty < l.totalQty then
    let decrease := (l.totalQty - r.newQty).toNat
    let queue := Fifo.drop decrease l.queue
    ({ totalQty := if queue = [] then 0 else r.newQty - (l.totalQty - r.newQty), queue := queue },
      List.replicate (min decrease (Fifo.total l.queue)) .removed)
  else (l, [])

/-- The machine of one level, over the reports of its level. -/
def levelMachine : Machine LevelSketch Report Flow where
  init := {}
  step := LevelSketch.report

/-- The level of a side and price. -/
def Correlator.sketch (s : Side) (p : Price) (c : Correlator) : LevelSketch where
  totalQty := c.totalQty s p
  queue := (c.lots s p).map (Prod.map (fun _ => ()) id)

/-- The reports of a call for the level. -/
def Call.reportsAt (s : Side) (p : Price) : Call → List Report
  | .trade _ => []
  | .l2Update u => if u.side = s ∧ u.price = p then [⟨u.action, u.newQty⟩] else []

/-- The units that an event moves at a side and price. -/
def L3Event.flowAt (s : Side) (p : Price) (e : L3Event) : List Flow :=
  if e.side = s ∧ e.price = p then
    List.replicate e.qty.toNat (if e.type = .orderAdd then .added else .removed)
  else []

/-- The flow of a log entry at the level. -/
def Entry.flowAt (s : Side) (p : Price) : Entry → List Flow
  | .event e => e.flowAt s p
  | _ => []

variable {s : Side} {p : Price} {c c' : Correlator} {u : L2Update} {es : List L3Event}

/-! ## One update -/

/-- Only the events of a log flow. -/
theorem flowAt_log (l : List Entry) :
    l.flatMap (Entry.flowAt s p) = (events l).flatMap (L3Event.flowAt s p) := by
  induction l with
  | nil => rfl
  | cons entry l ih =>
    cases entry with
    | call c | anomaly f => exact ih
    | event e => exact congrArg (e.flowAt s p ++ ·) ih

/-- Nothing flows at another level. -/
theorem L2Step.flowAt_of_ne (h : L2Step c u c' es) (hne : ¬ (u.side = s ∧ u.price = p)) :
    es.flatMap (L3Event.flowAt s p) = [] := by
  refine List.flatMap_eq_nil_iff.2 fun e he => if_neg fun hsp => hne ?_
  obtain ⟨hs, hp, -⟩ := h.event_fields e he
  exact ⟨hs.symm.trans hsp.1, hp.symm.trans hsp.2⟩

/-- Fills and cancels together move out what they take. -/
theorem flowAt_removed (h : ∀ e ∈ es, e.type ≠ .orderAdd ∧ e.side = s ∧ e.price = p) :
    es.flatMap (L3Event.flowAt s p) =
      List.replicate (Fifo.total (es.map L3Event.lot)) .removed := by
  induction es with
  | nil => rfl
  | cons e es ih =>
    obtain ⟨he, hes⟩ := List.forall_mem_cons.1 h
    rw [List.flatMap_cons, ih hes, List.map_cons, Fifo.total_cons, List.replicate_add,
      L3Event.flowAt, if_pos he.2, if_neg he.1, L3Event.lot]

/-- A lowered level moves out its decrease, as far as its queue goes. -/
theorem Reduced.flowAt {fills cancels : List L3Event} (h : Reduced c u c' fills cancels) :
    (fills ++ cancels).flatMap (L3Event.flowAt u.side u.price) =
      List.replicate (min (c.decrease u) (Fifo.total (c.lots u.side u.price))) .removed := by
  have hfields : ∀ e ∈ fills ++ cancels,
      e.type ≠ .orderAdd ∧ e.side = u.side ∧ e.price = u.price := fun e he =>
    ⟨(h.event_fields e he).1, (h.event_fields e he).2.1, (h.event_fields e he).2.2.1⟩
  rw [flowAt_removed hfields, ← Fifo.length_units, h.event_units, Fifo.length_units,
    Fifo.total_take]

/-- An update reports to its level. -/
theorem L2Step.report (h : L2Step c u c' es) :
    (c.sketch u.side u.price).report ⟨u.action, u.newQty⟩ =
      (c'.sketch u.side u.price, es.flatMap (L3Event.flowAt u.side u.price)) := by
  unfold LevelSketch.report sketch
  cases h with
  | deleted ha _ _ hl => simp [ha, lots_of_deleted hl, totalQty_eq, hl]
  | added ha hlt _ _ hl =>
    simp [ha, hlt, lots_of_added hl, totalQty_eq c', hl, L3Event.flowAt, addEvent]
  | kept ha hsame _ _ hl =>
    simp [ha, hsame, lots_of_kept hl, totalQty_eq c', hl, ← totalQty_eq, UInt32.lt_irrefl]
  | reduced fills cancels hr =>
    have hle := UInt32.le_of_lt hr.lowered
    have hd : (c.totalQty u.side u.price - u.newQty).toNat = c.decrease u := by
      rw [decrease, reported_of_ne u hr.action, UInt32.toNat_sub_of_le _ _ hle]
    simp [hr.action, UInt32.not_lt.2 hle, hr.lowered, hd, hr.flowAt, hr.totalQty, hr.lots,
      Fifo.drop_map_label, Fifo.total_map_label]

/-- The sketch of another level stays. -/
theorem Frame.sketch (h : Frame c c' u.side u.price) (hne : ¬ (s = u.side ∧ p = u.price)) :
    c'.sketch s p = c.sketch s p := by
  rw [Correlator.sketch, Correlator.sketch, h.lots hne, h.totalQty hne]

/-! ## Runs -/

/-- The engine simulates the machine of each of its levels. -/
theorem level_simulation (s : Side) (p : Price) :
    Machine.Simulation engine levelMachine (Correlator.sketch s p) (Call.reportsAt s p)
      (Entry.flowAt s p) where
  init := by
    rw [Correlator.sketch, totalQty_init, lots_init]
    rfl
  step c call := by
    cases call with
    | trade t => rfl
    | l2Update u =>
      have hstep := c.onL2Update_step u
      have hlog : (engine.step c (.l2Update u)).2.flatMap (Entry.flowAt s p) =
          (c.onL2Update u).2.2.flatMap (L3Event.flowAt s p) := by
        rw [flowAt_log]
        exact congrArg (List.flatMap (L3Event.flowAt s p)) (events_l2Update c u)
      rw [hlog, Call.reportsAt]
      split <;> rename_i hsp
      · obtain ⟨rfl, rfl⟩ := hsp
        rw [Machine.run_singleton]
        exact hstep.report
      · have hps : ¬ (s = u.side ∧ p = u.price) := fun h => hsp ⟨h.1.symm, h.2.symm⟩
        rw [hstep.flowAt_of_ne hsp, Machine.run_nil]
        exact congrArg (·, []) (hstep.frame.sketch hps).symm

/-- **Every level is a machine of its own.** After any run, the quantity and the queue of a side and
price and all the units that have flowed there are what the reports for this side and price make of
a level on its own. -/
theorem level_simulated (s : Side) (p : Price) (calls : List Call) :
    (engine.state calls).sketch s p = levelMachine.state (calls.flatMap (Call.reportsAt s p)) ∧
      (emitted calls).flatMap (L3Event.flowAt s p) =
        levelMachine.log (calls.flatMap (Call.reportsAt s p)) := by
  refine ⟨(level_simulation s p).state calls, ?_⟩
  rw [emitted, ← flowAt_log]
  exact (level_simulation s p).log calls

/-- The update deletes the level of a side and price. -/
def L2Update.Deletes (s : Side) (p : Price) (u : L2Update) : Prop :=
  u.side = s ∧ u.price = p ∧ u.action = .delete

/-- A deleted level looks like a new one. -/
theorem sketch_deleted (c : Correlator) (h : u.Deletes s p) :
    (engine.step c (.l2Update u)).1.sketch s p = {} := by
  obtain ⟨rfl, rfl, haction⟩ := h
  have hreport := congrArg Prod.fst (c.onL2Update_step u).report
  rw [LevelSketch.report, if_pos haction] at hreport
  exact hreport.symm

/-- **A deleted level starts over.** Two engines with any pasts, one of which may just have been
started, agree on a level after each has got a Delete for it, and move the same units there from
then on, while they get the same reports for it. -/
theorem levels_converge (s : Side) (p : Price) (pre pre' post post' : List Call) (u u' : L2Update)
    (hu : u.Deletes s p) (hu' : u'.Deletes s p)
    (hreports : post.flatMap (Call.reportsAt s p) = post'.flatMap (Call.reportsAt s p)) :
    let c := engine.state (pre ++ [.l2Update u])
    let c' := engine.state (pre' ++ [.l2Update u'])
    (engine.run c post).1.sketch s p = (engine.run c' post').1.sketch s p ∧
      (events (engine.run c post).2).flatMap (L3Event.flowAt s p) =
        (events (engine.run c' post').2).flatMap (L3Event.flowAt s p) := by
  intro c c'
  have hdeleted : ∀ {pre u}, u.Deletes s p →
      (engine.state (pre ++ [.l2Update u])).sketch s p = {} := by
    intro pre u hu
    rw [Machine.state_concat]
    exact sketch_deleted _ hu
  have hsame : c.sketch s p = c'.sketch s p := (hdeleted hu).trans (hdeleted hu').symm
  rw [← flowAt_log, ← flowAt_log]
  exact (level_simulation s p).congr hsame hreports

/-- An engine that joins late, and gets a report for another level between. -/
theorem levels_converge_example :
    let pre : List Call := [.l2Update ⟨1, .new, 10, 5, .bid, 0⟩, .trade ⟨2, 10, 2, .bid, 7⟩,
      .l2Update ⟨2, .change, 10, 3, .bid, 0⟩]
    let delete : L2Update := ⟨3, .delete, 10, 0, .bid, 0⟩
    let post : List Call := [.l2Update ⟨4, .new, 10, 6, .bid, 0⟩]
    let post' : List Call := .l2Update ⟨4, .new, 10, 9, .ask, 0⟩ :: post
    let c := engine.state (pre ++ [.l2Update delete])
    let c' := engine.state [.l2Update delete]
    (engine.run c post).1.sketch .bid 10 = (engine.run c' post').1.sketch .bid 10 ∧
      (events (engine.run c post).2).flatMap (L3Event.flowAt .bid 10) =
        (events (engine.run c' post').2).flatMap (L3Event.flowAt .bid 10) := by
  intro pre delete post post'
  have hdelete : delete.Deletes .bid 10 := ⟨rfl, rfl, rfl⟩
  exact levels_converge .bid 10 pre [] post post' delete delete hdelete hdelete rfl

/-- A report of eight after one of five takes two units. -/
example : levelMachine.log [⟨.new, 5⟩, ⟨.change, 8⟩] =
    List.replicate 5 .added ++ List.replicate 2 .removed := by
  decide +kernel

end MarketDataEngine
