import MarketDataEngine.Connections
import MarketDataEngine.Filters
import MarketDataEngine.Notifications
import MarketDataEngine.TradeMessages

/-!
# The program

`main` gives the client's messages to a handler and connects once (`src/main.cpp`). `program` is the
two together: what the client forwards goes to `on_message`, and an exception there terminates the
process as a thread that is replaced does.

The two share nothing else. In every run that websocketpp can bring about, what the handler does is
what it does for the marked texts alone, in the order and at the times that they are received
(`data_plane`): the connection, the authentication, the subscriptions, heartbeats, other messages
and a shutdown have no part in it, and only a marked text that throws ends the process. So the
exchange's notifications become exactly the events of their calls (`notifications_become_events`).
-/

namespace MarketDataEngine

open Json History DeribitClient

/-- An event of the client, and the time of the clock that `on_message` reads. -/
structure ProgramEvent where
  event : ClientEvent
  recvTs : UInt64

/-- What others see of the program: of its client, or of its handler. -/
inductive ProgramEffect
  | client (x : Effect)
  | handler (x : Entry)

/-- The program: the client and the handler of its messages. -/
structure Program where
  client : DeribitClient
  handler : MarketDataHandler

/-- The message callback. -/
def Effect.forwarded? (recvTs : UInt64) : Effect → Option RawMessage
  | .forwarded text => some ⟨recvTs, text⟩
  | _ => none

/-- The log entry of the handler, if it is one. -/
def ProgramEffect.entry? : ProgramEffect → Option Entry
  | .handler x => some x
  | .client _ => none

/-- The texts that `handle_message` finds the mark in. -/
def ProgramEvent.marked (e : ProgramEvent) : List RawMessage :=
  match e.event with
  | .message text _ => if subscriptionMark <:+: text then [⟨e.recvTs, text⟩] else []
  | _ => []

section
variable (D : Doubles) (parse : List Char → Option Json) (config : DeribitConfig)

/-- An event of the client, whose forwarded messages go to the handler. -/
def Program.step (p : Program) (e : ProgramEvent) : Option Program × List ProgramEffect :=
  let (client, effects) := p.client.event parse e.event
  let (handler, entries) :=
    (feed D parse).run (some p.handler) (effects.filterMap (Effect.forwarded? e.recvTs))
  (client.bind fun client => handler.map fun handler => ⟨client, handler⟩,
    effects.map .client ++ entries.map .handler)

/-- The program over what happens to its client, while the process runs. -/
def program : Machine (Option Program) ProgramEvent ProgramEffect where
  init := some ⟨.new config, {}⟩
  step
    | none, _ => (none, [])
    | some p, e => p.step D parse e

/-- What the handler has logged. -/
def handlerLog (es : List ProgramEvent) : List Entry :=
  ((program D parse config).log es).filterMap ProgramEffect.entry?

end

section
variable {D : Doubles} {parse : List Char → Option Json} {config : DeribitConfig}

/-- A request forwards nothing. -/
theorem forwarded?_of_send (c : DeribitClient) (request : Request) (answer : Answer)
    (recvTs : UInt64) : (c.send request answer).filterMap (Effect.forwarded? recvTs) = [] := by
  rcases c.send_eq request answer with h | h <;> rw [h] <;> rfl

variable (parse) in
/-- What is forwarded does not depend on the client. -/
theorem forwarded?_event (c : DeribitClient) (e : ProgramEvent) :
    (c.event parse e.event).2.filterMap (Effect.forwarded? e.recvTs) = e.marked := by
  obtain ⟨e, recvTs⟩ := e
  cases e with
  | connect answer =>
    simp only [DeribitClient.event, DeribitClient.connect]
    split <;> rfl
  | stop answer =>
    simp only [DeribitClient.event, DeribitClient.stop]
    split <;> rfl
  | opened answer => exact forwarded?_of_send _ _ _ recvTs
  | closed | failed | loopFailed | wake => rfl
  | beat answer =>
    simp only [DeribitClient.event]
    split
    · exact forwarded?_of_send _ _ _ recvTs
    · rfl
  | message text answers =>
    have hhandled := handleMessage_handled parse c text answers
    show (c.handleMessage parse text answers).2.filterMap (Effect.forwarded? recvTs) =
      if subscriptionMark <:+: text then _ else _
    generalize c.handleMessage parse text answers = res at hhandled
    have hsent : ∀ requests : List Request,
        (requests.map Effect.sent).filterMap (Effect.forwarded? recvTs) = [] := by
      intro requests
      rw [List.filterMap_map]
      exact List.filterMap_eq_nil_iff.2 fun _ _ => rfl
    cases hhandled with
    | authenticated response flag thread result requests =>
      rw [if_neg response.1.1, List.filterMap_append, hsent]
      rfl
    | terminated response => exact (if_neg response.1.1).symm
    | subscribed response => exact (if_neg response.1.1).symm
    | forwarded mark => exact (if_pos mark).symm
    | ignored mark => exact (if_neg mark).symm

/-- A step of the program is one of the client, and a run of the handler over what that forwards. -/
theorem program_step (p : Program) (e : ProgramEvent) :
    p.step D parse e =
      (((p.client.event parse e.event).1.bind fun client =>
          ((feed D parse).run (some p.handler) e.marked).1.map fun handler => ⟨client, handler⟩),
        (p.client.event parse e.event).2.map .client ++
          ((feed D parse).run (some p.handler) e.marked).2.map .handler) := by
  rw [← forwarded?_event parse p.client e]
  rfl

/-- The entries of the handler among all effects. -/
theorem entry?_effects (effects : List Effect) (entries : List Entry) :
    (effects.map ProgramEffect.client ++ entries.map ProgramEffect.handler).filterMap
      ProgramEffect.entry? = entries := by
  have hnone : effects.filterMap (ProgramEffect.entry? ∘ .client) = [] :=
    List.filterMap_eq_nil_iff.2 fun _ _ => rfl
  rw [List.filterMap_append, List.filterMap_map, List.filterMap_map, hnone, List.nil_append]
  exact List.filterMap_some

/-- A program whose client is not terminated is the client and the feed of the marked texts. -/
theorem program_run (es : List ProgramEvent)
    (h : ∀ pre, pre <+: es → ((deribit parse config).state (pre.map ProgramEvent.event)).isSome) :
    handlerLog D parse config es = (feed D parse).log (es.flatMap ProgramEvent.marked) ∧
      (program D parse config).state es =
        ((deribit parse config).state (es.map ProgramEvent.event)).bind fun client =>
          ((feed D parse).state (es.flatMap ProgramEvent.marked)).map fun handler =>
            ⟨client, handler⟩ := by
  induction es using List.reverseRecOn with
  | nil => exact ⟨rfl, rfl⟩
  | append_singleton es e ih =>
    obtain ⟨hlog, hstate⟩ := ih fun pre hpre => h pre (hpre.trans (List.prefix_append ..))
    obtain ⟨c, hc⟩ := Option.isSome_iff_exists.1 (h es (List.prefix_append ..))
    obtain ⟨c', hc'⟩ := Option.isSome_iff_exists.1 (h (es ++ [e]) (List.prefix_refl _))
    have hevent : (c.event parse e.event).1 = some c' := by
      rw [List.map_append, List.map_singleton, Machine.state_concat, hc] at hc'
      exact hc'
    rw [handlerLog, Machine.log_concat, Machine.state_concat, List.filterMap_append, ← handlerLog,
      hlog, hstate, hc, List.flatMap_append, List.flatMap_singleton, Machine.log_append,
      Machine.state_append, hc']
    cases hfeed : (feed D parse).state (es.flatMap ProgramEvent.marked) with
    | none =>
      rw [feed_none]
      exact ⟨rfl, rfl⟩
    | some handler =>
      have hstep : (program D parse config).step (some ⟨c, handler⟩) e = _ :=
        program_step ⟨c, handler⟩ e
      rw [Option.bind_some, Option.map_some, hstep, entry?_effects, hevent]
      exact ⟨rfl, rfl⟩

/-- In a possible run that connects once, the program is its client and its handler for as long as
no marked text throws. -/
theorem program_of_one_connection {es : List ProgramEvent}
    (h : Possible parse config (es.map ProgramEvent.event))
    (hone : tally ClientEvent.connects (es.map ProgramEvent.event) ≤ 1) :
    let calls := feedCalls D parse (es.flatMap ProgramEvent.marked)
    handlerLog D parse config es = handler.log calls.1 ∧
      ∃ c, (deribit parse config).state (es.map ProgramEvent.event) = some c ∧
        ∀ p, (program D parse config).state es = some p ↔
          calls.2 = none ∧ p = ⟨c, handler.state calls.1⟩ := by
  intro calls
  have hruns : ∀ pre, pre <+: es →
      ((deribit parse config).state (pre.map ProgramEvent.event)).isSome := by
    rintro pre ⟨post, rfl⟩
    rw [List.map_append] at h hone
    rw [tally_append] at hone
    obtain ⟨c, hc, -⟩ := owned_of_one_connection (always_append.1 h).1 (by omega)
    rw [hc]
    rfl
  obtain ⟨hlog, hstate⟩ := program_run (D := D) es hruns
  obtain ⟨hfeedLog, hfeedState⟩ := feed_run D parse (es.flatMap ProgramEvent.marked)
  obtain ⟨c, hc⟩ := Option.isSome_iff_exists.1 (hruns es (List.prefix_refl es))
  refine ⟨hlog.trans hfeedLog, c, hc, fun p => ?_⟩
  rw [hstate, hfeedState, hc, Option.bind_some, Option.map_eq_some_iff]
  simp only [unlessEscaped_eq_some]
  refine ⟨?_, ?_⟩
  · rintro ⟨_, ⟨hnone, rfl⟩, rfl⟩
    exact ⟨hnone, rfl⟩
  · rintro ⟨hnone, rfl⟩
    exact ⟨_, ⟨hnone, rfl⟩, rfl⟩

/-- **The data plane.** In every run that websocketpp can bring about and that calls `connect` once,
the handler has logged what it logs for the marked texts alone, up to the first that throws. The
process runs on iff none throws, and the handler and the client are then what each is on its own. -/
theorem data_plane (D : Doubles) (parse : List Char → Option Json) (config : DeribitConfig)
    (es : List ProgramEvent) (h : Possible parse config (es.map ProgramEvent.event))
    (hone : tally ClientEvent.connects (es.map ProgramEvent.event) ≤ 1) :
    let calls := feedCalls D parse (es.flatMap ProgramEvent.marked)
    handlerLog D parse config es = handler.log calls.1 ∧
      (((program D parse config).state es).isSome ↔ calls.2 = none) ∧
        ∀ p ∈ (program D parse config).state es, p.handler = handler.state calls.1 ∧
          (deribit parse config).state (es.map ProgramEvent.event) = some p.client := by
  obtain ⟨hlog, c, hc, hsome⟩ := program_of_one_connection (D := D) h hone
  refine ⟨hlog, ?_, ?_⟩
  · rw [Option.isSome_iff_exists]
    refine ⟨?_, ?_⟩
    · rintro ⟨p, hp⟩
      exact ((hsome p).1 hp).1
    · intro hnone
      exact ⟨_, (hsome _).2 ⟨hnone, rfl⟩⟩
  · intro p hp
    obtain ⟨-, rfl⟩ := (hsome p).1 hp
    exact ⟨rfl, hc⟩

/-- Two marked texts, the second of which throws, and what goes on around them. -/
theorem data_plane_example :
    let es : List ProgramEvent :=
      [⟨.connect .ok, 0⟩, ⟨.opened .ok, 0⟩,
        ⟨.message "\x7b\"id\":1,\"result\":\x7b\x7d\x7d".toList [], 0⟩,
        ⟨.message (write (notification [tradeElement "17"])) [], 5⟩, ⟨.beat .ok, 0⟩,
        ⟨.message (write (notification [tradeElement "ETH-1"])) [], 6⟩, ⟨.closed, 0⟩]
    let calls := feedCalls .natural Json.parse (es.flatMap ProgramEvent.marked)
    handlerLog .natural Json.parse {} es = handler.log calls.1 ∧
      (((program .natural Json.parse {}).state es).isSome ↔ calls.2 = none) ∧
        ∀ p ∈ (program .natural Json.parse {}).state es, p.handler = handler.state calls.1 ∧
          (deribit Json.parse {}).state (es.map ProgramEvent.event) = some p.client := by
  refine data_plane _ _ _ _ ?_ ?_
  · decide +kernel
  · decide

end

end MarketDataEngine
