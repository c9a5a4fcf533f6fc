import MarketDataEngine.Lib.Json.Parse
import MarketDataEngine.Lib.Simulation
import MarketDataEngine.Prices

/-!
# Feeds

A feed is the list of messages that `on_message` gets, each with the time it is received at. `feed`
is the handler over a feed: it has no state once a message has thrown, as that terminates the
process. The messages of a feed are one run of calls, up to the message that throws (`feed_run`),
and every event of it carries the times of the one message that brings it (`feed_stamped`).
-/

namespace MarketDataEngine

open Json History MarketDataHandler

/-- A message, and when it is received. -/
structure RawMessage where
  recvTs : UInt64
  text : List Char

variable (D : Doubles) (parse : List Char → Option Json)

/-- The handler over the messages it gets, while the process runs. -/
def feed : Machine (Option MarketDataHandler) RawMessage Entry where
  init := some {}
  step h m :=
    match h with
    | none => (none, [])
    | some h => h.onMessage D parse m.recvTs m.text

/-- The calls of the messages up to one that throws, and what that throws. -/
def feedCalls : List RawMessage → List Call × Option StdException
  | [] => ([], none)
  | m :: ms =>
    let (calls, escaped) := messageCalls D parse m.recvTs m.text
    match escaped with
    | some e => (calls, some e)
    | none =>
      let (rest, escaped) := feedCalls ms
      (calls ++ rest, escaped)

/-- The handler, unless the process has been terminated. -/
def unlessEscaped (escaped : Option StdException) (h : MarketDataHandler) :
    Option MarketDataHandler :=
  match escaped with
  | none => some h
  | some _ => none

/-- A handler is left iff nothing was thrown. -/
theorem unlessEscaped_eq_some {escaped : Option StdException} {h h' : MarketDataHandler} :
    unlessEscaped escaped h = some h' ↔ escaped = none ∧ h' = h := by
  cases escaped with
  | none => simp [unlessEscaped, eq_comm]
  | some e => simp [unlessEscaped]

/-- A message is the run of its calls. -/
theorem onMessage_run (h : MarketDataHandler) (recvTs : UInt64) (text : List Char) :
    h.onMessage D parse recvTs text =
      (unlessEscaped (messageCalls D parse recvTs text).2
        (handler.run h (messageCalls D parse recvTs text).1).1,
        (handler.run h (messageCalls D parse recvTs text).1).2) := by
  rw [onMessage]
  cases h : (messageCalls D parse recvTs text).2 <;> simp only [h] <;> rfl

/-- Nothing happens once the process has been terminated. -/
theorem feed_none (ms : List RawMessage) : (feed D parse).run none ms = (none, []) := by
  induction ms with
  | nil => rfl
  | cons m ms ih =>
    rw [Machine.run_cons]
    exact Prod.ext (congrArg Prod.fst ih) (congrArg Prod.snd ih)

/-- The messages are the run of their calls, up to one that throws. -/
theorem feed_some (h : MarketDataHandler) (ms : List RawMessage) :
    (feed D parse).run (some h) ms =
      (unlessEscaped (feedCalls D parse ms).2 (handler.run h (feedCalls D parse ms).1).1,
        (handler.run h (feedCalls D parse ms).1).2) := by
  induction ms generalizing h with
  | nil => rfl
  | cons m ms ih =>
    have hstep : (feed D parse).step (some h) m = _ := onMessage_run D parse h m.recvTs m.text
    rw [Machine.run_cons, hstep, feedCalls]
    cases hescaped : (messageCalls D parse m.recvTs m.text).2 with
    | none =>
      simp only [hescaped, unlessEscaped]
      rw [ih, Machine.run_append]
      rfl
    | some e =>
      simp only [hescaped, unlessEscaped]
      rw [feed_none, List.append_nil]

/-- **A feed is a run of calls.** The handler does for the messages of a feed what it does for their
calls, up to the first message that throws; the process runs on iff none throws. -/
theorem feed_run (ms : List RawMessage) :
    (feed D parse).log ms = handler.log (feedCalls D parse ms).1 ∧
      (feed D parse).state ms =
        unlessEscaped (feedCalls D parse ms).2 (handler.state (feedCalls D parse ms).1) := by
  have hrun := feed_some D parse {} ms
  have hfeed : (feed D parse).run (some {}) ms = ((feed D parse).state ms, (feed D parse).log ms) :=
    (feed D parse).run_init ms
  have hhandler : handler.run {} (feedCalls D parse ms).1 = _ := handler.run_init _
  rw [hfeed, hhandler] at hrun
  exact ⟨congrArg Prod.snd hrun, congrArg Prod.fst hrun⟩

/-! ## The times of events -/

/-- The data of a notification. -/
def data? (text : List Char) : Option Json :=
  if IsSubscription parse text then (parse text).bind (path? ["params", "data"]) else none

/-- The timestamp of a book notification. -/
def bookTimestamp? (text : List Char) : Option Timestamp :=
  (((data? parse text).bind (field? "timestamp")).bind int64?).map Int64.toUInt64

variable {D parse}

/-- The calls of trades are trades. -/
theorem trade_of_mem_tradeCalls {elements : List Json} {call : Call}
    (h : call ∈ (tradeCalls D elements).1) : ∃ t, call = .trade t := by
  induction elements with
  | nil => simp [tradeCalls] at h
  | cons e es ih =>
    rw [tradeCalls] at h
    cases hvalid : validTrade? D e with
    | none =>
      simp only [hvalid] at h
      exact ih h
    | some t =>
      cases hid : tradeId e with
      | error => simp [hvalid, hid] at h
      | ok id =>
        simp only [hvalid, hid, List.mem_cons] at h
        exact h.elim (fun h => ⟨_, h⟩) ih

/-- A call of a book has the timestamp of the book. -/
theorem mem_bookCalls {data : Json} {recvTs : UInt64} {call : Call}
    (h : call ∈ bookCalls D data recvTs) : ∃ ts side element,
      (data.field? "timestamp").bind int64? = some ts ∧
        levelCall? D ts.toUInt64 side recvTs element = some call := by
  have hlevels : ∀ {levels ts side}, call ∈ processLevels D levels ts side recvTs →
      ∃ element, levelCall? D ts side recvTs element = some call := by
    intro levels ts side hcall
    unfold processLevels at hcall
    split at hcall
    · cases hcall
    · obtain ⟨element, -, helement⟩ := List.mem_filterMap.1 hcall
      exact ⟨element, helement⟩
  unfold bookCalls at h
  split at h
  · cases h
  · rename_i ts hts
    rcases List.mem_append.1 h with h | h
    · obtain ⟨element, helement⟩ := hlevels h
      exact ⟨ts, .bid, element, hts, helement⟩
    · obtain ⟨element, helement⟩ := hlevels h
      exact ⟨ts, .ask, element, hts, helement⟩

/-- The calls of a message are trades, or those of the book that is its data. -/
theorem mem_messageCalls {recvTs : UInt64} {text : List Char} {call : Call}
    (h : call ∈ (messageCalls D parse recvTs text).1) :
    (∃ t, call = .trade t) ∨ ∃ data, data? parse text = some data ∧
      call ∈ bookCalls D data recvTs := by
  unfold messageCalls at h
  split at h
  · cases h
  rename_i hsub
  split at h
  · cases h
  rename_i params hparams
  split at h
  · exact .inl (trade_of_mem_tradeCalls h)
  split at h
  · rename_i data hdata
    refine .inr ⟨data, ?_, h⟩
    obtain ⟨data', hdata', hobj⟩ := Option.bind_eq_some_iff.1 hdata
    have hsame : data' = data := by
      cases data' with
      | obj members => exact Option.some.inj hobj
      | null | bool | num | str | arr => cases hobj
    subst hsame
    obtain ⟨v, hv, hobj'⟩ := Option.bind_eq_some_iff.1 hparams
    obtain ⟨doc, hdoc, hfield⟩ := Option.bind_eq_some_iff.1 hv
    rw [data?, if_pos (not_not.1 hsub), hdoc, Option.bind_some, ← bind_obj?_bind_field?, hfield,
      Option.bind_some, hobj', Option.bind_some, hdata']
  · cases h

/-- An update has the timestamp of its message, and the time that it is received at. -/
theorem messageCalls_times {recvTs : UInt64} {text : List Char} {u : L2Update}
    (h : .l2Update u ∈ (messageCalls D parse recvTs text).1) :
    bookTimestamp? parse text = some u.ts ∧ u.recvTs = recvTs := by
  rcases mem_messageCalls h with ⟨t, ht⟩ | ⟨data, hdata, hcall⟩
  · cases ht
  obtain ⟨ts, side, element, hts, helement⟩ := mem_bookCalls hcall
  simp only [levelCall?, Option.bind_eq_bind, Option.bind_eq_some_iff] at helement
  obtain ⟨_, -, _, -, _, -, _, -, hu⟩ := helement
  obtain rfl := Call.l2Update.inj (Option.some.inj hu)
  rw [bookTimestamp?, hdata, Option.bind_some, hts]
  exact ⟨rfl, rfl⟩

/-- What the handler emits in a run of calls is emitted for updates among them. -/
theorem event_of_run {h : MarketDataHandler} {calls : List Call} {e : L3Event}
    (he : e ∈ events (handler.run h calls).2) :
    ∃ u, .l2Update u ∈ calls ∧ e.exchangeTs = u.ts ∧ e.recvTsNs = u.recvTs := by
  induction calls generalizing h with
  | nil => cases he
  | cons call calls ih =>
    rw [Machine.run_cons, events_append, List.mem_append] at he
    rcases he with he | he
    · cases call with
      | trade t => cases he
      | l2Update u =>
        have hstep := h.correlator.onL2Update_step u
        have hemitted : events (handler.step h (.l2Update u)).2 = _ :=
          events_l2Update h.correlator u
        rw [hemitted] at he
        obtain ⟨-, -, hts, hrecv⟩ := hstep.event_fields e he
        exact ⟨u, List.mem_cons_self .., hts, hrecv⟩
    · obtain ⟨u, hu, htimes⟩ := ih he
      exact ⟨u, List.mem_cons_of_mem _ hu, htimes⟩

/-- **An event has the times of its message.** Whatever the handler has seen before, every event
that a message brings is stamped with the timestamp of the book in this message and with the time at
which this message was received; a message that is not a book notification brings none. -/
theorem feed_stamped (D : Doubles) (parse : List Char → Option Json) (ms : List RawMessage)
    (m : RawMessage) : ∀ e ∈ events ((feed D parse).step ((feed D parse).state ms) m).2,
      bookTimestamp? parse m.text = some e.exchangeTs ∧ e.recvTsNs = m.recvTs := by
  intro e he
  cases hstate : (feed D parse).state ms with
  | none =>
    rw [hstate] at he
    cases he
  | some h =>
    have hstep : (feed D parse).step (some h) m = _ := onMessage_run D parse h m.recvTs m.text
    rw [hstate, hstep] at he
    obtain ⟨u, hu, hts, hrecv⟩ := event_of_run he
    obtain ⟨hbook, hrecv'⟩ := messageCalls_times hu
    exact ⟨hts ▸ hbook, hrecv.trans hrecv'⟩

/-- A second message is stamped with its own times, and not with those of the message before. -/
theorem feed_stamped_example :
    let D := Doubles.binary64 ⟨fun _ => 0, fun _ => 0⟩
    let message (book : String) :=
      ("\x7b\"method\":\"subscription\",\"params\":\x7b\"data\":" ++ book ++ "\x7d\x7d").toList
    let first : RawMessage :=
      ⟨60, message "\x7b\"timestamp\":4,\"asks\":[[\"new\",1001.5,2]]\x7d"⟩
    let second : RawMessage :=
      ⟨70, message "\x7b\"timestamp\":5,\"bids\":[[\"new\",1000.5,3]]\x7d"⟩
    ∃ e ∈ events ((feed D Json.parse).step ((feed D Json.parse).state [first]) second).2,
      bookTimestamp? Json.parse second.text = some e.exchangeTs ∧ e.recvTsNs = 70 := by
  intro D message first second
  have he : ⟨.orderAdd, .bid, 1, 10005, 3, 5, 70, 0⟩ ∈
      events ((feed D Json.parse).step ((feed D Json.parse).state [first]) second).2 := by
    decide +kernel
  exact ⟨_, he, feed_stamped D Json.parse [first] second _ he⟩

end MarketDataEngine
