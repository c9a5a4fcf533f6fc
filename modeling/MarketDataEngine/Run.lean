import MarketDataEngine.Correlator.Step
import MarketDataEngine.Lib.History

/-!
# Runs of the correlator

A run is the list of calls made of `on_trade` and `on_l2_update`, in any order and with any
arguments. Its log has every call, followed by what the call logged as unmatched and what it passed
to the event callback. `emitted` is the stream of events, `qtyOf` the quantity of the events of a
kind, and `lastReported` what the L2 feed last said of a side and price.
-/

namespace MarketDataEngine

open History

/-- A call of the correlator, with its arguments. -/
inductive Call
  | trade (t : Trade)
  | l2Update (u : L2Update)
  deriving DecidableEq, Repr

/-- An entry of the log of a run. -/
inductive Entry
  | call (c : Call)
  | anomaly (f : FlushedEntry)
  | event (e : L3Event)
  deriving DecidableEq, Repr

/-- A call, and what it adds to the log. -/
def Correlator.step (c : Correlator) : Call → Correlator × List Entry
  | .trade t => (c.onTrade t, [.call (.trade t)])
  | .l2Update u =>
    let (c', flushed, events) := c.onL2Update u
    (c', .call (.l2Update u) :: (flushed.map .anomaly ++ events.map .event))

/-- A correlator with a callback, from its initial state. -/
def engine : Machine Correlator Call Entry where
  init := {}
  step := Correlator.step

/-- The event of a log entry that is one. -/
def Entry.event? : Entry → Option L3Event
  | .event e => some e
  | _ => none

/-- The events of a log. -/
def events (l : List Entry) : List L3Event := l.filterMap Entry.event?

/-- The event stream of a run. -/
def emitted (calls : List Call) : List L3Event := events (engine.log calls)

/-- The events that a call emits after the calls before it. -/
def emittedBy (pre : List Call) (call : Call) : List L3Event :=
  events (engine.step (engine.state pre) call).2

/-- Induction over runs, by their last call. -/
@[elab_as_elim]
theorem run_induction {motive : List Call → Prop} (nil : motive [])
    (trade : ∀ calls t, motive calls → motive (calls ++ [.trade t]))
    (l2Update : ∀ calls u, motive calls → motive (calls ++ [.l2Update u])) (calls : List Call) :
    motive calls := by
  induction calls using List.reverseRecOn with
  | nil => exact nil
  | append_singleton calls call ih =>
    cases call with
    | trade t => exact trade calls t ih
    | l2Update u => exact l2Update calls u ih

/-- The quantity of the events that satisfy `sel`. -/
def qtyOf (sel : L3Event → Prop) [DecidablePred sel] (es : List L3Event) : ℕ :=
  tally (fun e => if sel e then e.qty.toNat else 0) es

/-- What the L2 feed last reported for a side and price. -/
def lastReported (s : Side) (p : Price) (calls : List Call) : Qty :=
  calls.foldl (fun q call =>
    match call with
    | .trade _ => q
    | .l2Update u => if u.side = s ∧ u.price = p then u.reported else q) 0

/-- The events of a log that goes on. -/
@[simp] theorem events_append (l m : List Entry) : events (l ++ m) = events l ++ events m := by
  simp [events]

/-- A call is no event. -/
@[simp] theorem events_call (c : Call) (l : List Entry) : events (.call c :: l) = events l := rfl

/-- A line of the log is no event. -/
@[simp] theorem events_anomalies (fs : List FlushedEntry) : events (fs.map .anomaly) = [] := by
  induction fs with
  | nil => rfl
  | cons f fs ih => exact ih

/-- The events of events are all of them. -/
@[simp] theorem events_map_event (es : List L3Event) : events (es.map .event) = es := by
  induction es with
  | nil => rfl
  | cons e es ih => exact congrArg (e :: ·) ih

/-- The state after a trade. -/
@[simp] theorem state_trade (calls : List Call) (t : Trade) :
    engine.state (calls ++ [.trade t]) = (engine.state calls).onTrade t := by
  rw [Machine.state_concat]
  rfl

/-- The state after an update. -/
@[simp] theorem state_l2Update (calls : List Call) (u : L2Update) :
    engine.state (calls ++ [.l2Update u]) = ((engine.state calls).onL2Update u).1 := by
  rw [Machine.state_concat]
  rfl

@[simp] theorem emitted_nil : emitted [] = [] := rfl

/-- A trade emits nothing. -/
@[simp] theorem emitted_trade (calls : List Call) (t : Trade) :
    emitted (calls ++ [.trade t]) = emitted calls := by
  rw [emitted, Machine.log_concat, events_append, emitted]
  exact List.append_nil _

/-- The events of an update's part of the log. -/
theorem events_l2Update (c : Correlator) (u : L2Update) :
    events (c.step (.l2Update u)).2 = (c.onL2Update u).2.2 := by
  simp [Correlator.step]

/-- A trade emits nothing. -/
@[simp] theorem emittedBy_trade (pre : List Call) (t : Trade) :
    emittedBy pre (.trade t) = [] := rfl

/-- What an update emits. -/
@[simp] theorem emittedBy_l2Update (pre : List Call) (u : L2Update) :
    emittedBy pre (.l2Update u) = ((engine.state pre).onL2Update u).2.2 :=
  events_l2Update _ u

/-- What is emitted up to an update. -/
@[simp] theorem emitted_l2Update (calls : List Call) (u : L2Update) :
    emitted (calls ++ [.l2Update u]) =
      emitted calls ++ ((engine.state calls).onL2Update u).2.2 := by
  rw [emitted, Machine.log_concat, events_append, emitted]
  exact congrArg _ (events_l2Update _ u)

@[simp] theorem lastReported_nil (s : Side) (p : Price) : lastReported s p [] = 0 := rfl

/-- A trade reports nothing. -/
@[simp] theorem lastReported_trade (s : Side) (p : Price) (calls : List Call) (t : Trade) :
    lastReported s p (calls ++ [.trade t]) = lastReported s p calls := by
  simp [lastReported]

/-- An update reports for its level. -/
@[simp] theorem lastReported_l2Update (s : Side) (p : Price) (calls : List Call) (u : L2Update) :
    lastReported s p (calls ++ [.l2Update u]) =
      if u.side = s ∧ u.price = p then u.reported else lastReported s p calls := by
  simp [lastReported]

/-! ## Views after a trade -/

/-- A trade leaves the levels as they are. -/
@[simp] theorem onTrade_level (c : Correlator) (t : Trade) (s : Side) (p : Price) :
    (c.onTrade t).level s p = c.level s p := rfl

/-- A trade leaves the queues as they are. -/
@[simp] theorem onTrade_lots (c : Correlator) (t : Trade) (s : Side) (p : Price) :
    (c.onTrade t).lots s p = c.lots s p := rfl

/-- A trade leaves the quantities as they are. -/
@[simp] theorem onTrade_totalQty (c : Correlator) (t : Trade) (s : Side) (p : Price) :
    (c.onTrade t).totalQty s p = c.totalQty s p := rfl

/-- A trade gives out no id. -/
@[simp] theorem onTrade_nextOrderId (c : Correlator) (t : Trade) (s : Side) :
    (c.onTrade t).nextOrderId s = c.nextOrderId s := rfl

/-! ## Quantities of events -/

section
variable (sel : L3Event → Prop) [DecidablePred sel]

@[simp] theorem qtyOf_nil : qtyOf sel [] = 0 := rfl

@[simp] theorem qtyOf_cons (e : L3Event) (es : List L3Event) :
    qtyOf sel (e :: es) = (if sel e then e.qty.toNat else 0) + qtyOf sel es := by
  simp [qtyOf]

/-- Quantities add up. -/
@[simp] theorem qtyOf_append (es es' : List L3Event) :
    qtyOf sel (es ++ es') = qtyOf sel es + qtyOf sel es' := by
  simp [qtyOf]

variable {sel} {es : List L3Event}

/-- What is not selected has no quantity. -/
theorem qtyOf_eq_zero (h : ∀ e ∈ es, ¬ sel e) : qtyOf sel es = 0 :=
  tally_eq_zero fun e he => if_neg (h e he)

/-- When all events are of the kind, their quantity is that of their lots. -/
theorem qtyOf_eq_total (h : ∀ e ∈ es, sel e) : qtyOf sel es = Fifo.total (es.map L3Event.lot) := by
  induction es with
  | nil => rfl
  | cons e es ih =>
    rw [List.forall_mem_cons] at h
    simp [h.1, ih h.2, L3Event.lot]

end

end MarketDataEngine
