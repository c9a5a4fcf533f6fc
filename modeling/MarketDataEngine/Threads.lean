import MarketDataEngine.DeribitClient.Step

/-!
# The threads of the client

The client owns a thread for the event loop and one for the heartbeat. Neither should be replaced
while it is joinable, which terminates the process. Both can be (`threadsSafe_fails`): a close
resets `authenticated_` while the heartbeat goes on, so the next authentication starts another, and
a client that does not reconnect can connect again without a `stop`. `threadsSafe_iff` is the exact
condition: between two accepted authentications, and between two initiated connections, there is a
`stop` that joins the thread.
-/

namespace MarketDataEngine

open History DeribitClient

namespace Effect

/-- A `stop`, which joins the heartbeat. -/
def isStop : Effect → Bool
  | .stopped _ => true
  | _ => false

/-- A `stop` that joins the event loop too: websocketpp has not thrown before. -/
def isFullStop : Effect → Bool
  | .stopped .ok => true
  | _ => false

/-- One for a heartbeat loop that is started. -/
def started (e : Effect) : ℕ := if e = .heartbeatStarted then 1 else 0

/-- One for a heartbeat loop that is joined. -/
def joined (e : Effect) : ℕ := if e = .heartbeatJoined then 1 else 0

/-- The effect concerns no thread. -/
def Quiet : Effect → Prop
  | .authenticated | .initiated | .heartbeatStarted | .heartbeatJoined | .stopped _ => False
  | _ => True

end Effect

section
variable (parse : List Char → Option Json) (config : DeribitConfig)

/-- The process has not been terminated, and at most one heartbeat loop exists. -/
structure ThreadsSafe (es : List ClientEvent) : Prop where
  running : ((deribit parse config).state es).isSome
  loops : tally Effect.started ((deribit parse config).log es) ≤
    tally Effect.joined ((deribit parse config).log es) + 1

/-- An accepted authentication finds none since the last `stop`, and an initiated connection none
since the last `stop` that has joined the event loop. -/
def ThreadFree (log : List Effect) (c : DeribitClient) : ClientEvent → Prop
  | .message text _ => AuthResponse parse text → c.authenticated = false →
    .authenticated ∉ since Effect.isStop log
  | .connect answer => c.wsClient.state = .disconnected → answer = .ok →
    .initiated ∉ since Effect.isFullStop log
  | _ => True

end

/-- The threads that a client owns, by its effects so far. -/
structure Owned (c : DeribitClient) (log : List Effect) : Prop where
  heartbeat : c.heartbeatThread = .joinable ↔ .authenticated ∈ since Effect.isStop log
  background : c.wsClient.backgroundThread = .joinable ↔
    .initiated ∈ since Effect.isFullStop log
  loops : tally Effect.started log = tally Effect.joined log +
    if c.heartbeatThread = .joinable then 1 else 0

/-- What is quiet ends no heartbeat. -/
theorem Effect.Quiet.isStop {e : Effect} (h : e.Quiet) : e.isStop = false := by
  cases e with
  | stopped => cases h
  | _ => rfl

/-- What is quiet ends no event loop. -/
theorem Effect.Quiet.isFullStop {e : Effect} (h : e.Quiet) : e.isFullStop = false := by
  cases e with
  | stopped => cases h
  | _ => rfl

section
variable {parse : List Char → Option Json} {c c' : DeribitClient} {log out : List Effect}

/-- An event that touches no thread keeps the threads owned. -/
theorem Owned.quiet (h : Owned c log) (hheartbeat : c'.heartbeatThread = c.heartbeatThread)
    (hbackground : c'.wsClient.backgroundThread = c.wsClient.backgroundThread)
    (hout : ∀ e ∈ out, e.Quiet) : Owned c' (log ++ out) where
  heartbeat := by
    have hauth : .authenticated ∉ out := fun hmem => hout _ hmem
    rw [hheartbeat, h.heartbeat, since_append_of_none fun e he => (hout e he).isStop]
    simp [hauth]
  background := by
    have hinit : .initiated ∉ out := fun hmem => hout _ hmem
    rw [hbackground, h.background, since_append_of_none fun e he => (hout e he).isFullStop]
    simp [hinit]
  loops := by
    have hstarted : tally Effect.started out = 0 := tally_eq_zero fun e he =>
      if_neg fun heq => by subst heq; exact hout _ he
    have hjoined : tally Effect.joined out = 0 := tally_eq_zero fun e he =>
      if_neg fun heq => by subst heq; exact hout _ he
    rw [tally_append, tally_append, hstarted, hjoined, hheartbeat, h.loops]
    omega

/-- A connection that is initiated leaves the thread of its event loop joinable. -/
theorem Owned.initiated (h : Owned c log) (hheartbeat : c'.heartbeatThread = c.heartbeatThread)
    (hbackground : c'.wsClient.backgroundThread = .joinable) :
    Owned c' (log ++ [.initiated]) where
  heartbeat := by
    rw [hheartbeat, h.heartbeat, since_append_of_none (by simp [Effect.isStop])]
    simp
  background := by
    rw [since_append_of_none (by simp [Effect.isFullStop])]
    simp [hbackground]
  loops := by simp [h.loops, hheartbeat, Effect.started, Effect.joined]

/-- An authentication leaves the thread of its heartbeat joinable. -/
theorem Owned.authenticated (h : Owned c log) (text : List Char) (result : Json)
    (hthread : c.heartbeatThread ≠ .joinable) (requests : List Request) :
    Owned (c.authenticate result) (log ++ .received text ::
      ([.authenticated, .stateChanged true, .heartbeatStarted] ++ requests.map .sent)) where
  heartbeat := by
    rw [since_append_of_none (by simp [Effect.isStop])]
    simp [authenticate]
  background := by
    rw [since_append_of_none (by simp [Effect.isFullStop])]
    simpa [authenticate, withTokens] using h.background
  loops := by
    have hstarted : tally Effect.started (requests.map .sent) = 0 := tally_eq_zero (by
      simp [Effect.started])
    have hjoined : tally Effect.joined (requests.map .sent) = 0 := tally_eq_zero (by
      simp [Effect.joined])
    simp [h.loops, hthread, hstarted, hjoined, authenticate, Effect.started, Effect.joined]

/-- A stop joins what it may, and keeps the threads owned. -/
theorem Owned.stop (h : Owned c log) (answer : Answer) :
    Owned (c.stop answer).1 (log ++ (c.stop answer).2) where
  heartbeat := by
    rw [DeribitClient.stop, ← List.append_assoc, since_append_cons rfl (by simp)]
    cases c.heartbeatThread <;> simp [Thread.join]
  background := by
    cases answer with
    | ok =>
      rw [DeribitClient.stop, ← List.append_assoc, since_append_cons rfl (by simp)]
      cases hthread : c.wsClient.backgroundThread <;>
        simp [WebSocketClient.stop, Thread.join, hthread]
    | error =>
      rw [DeribitClient.stop, since_append_of_none (by
        simp only [List.forall_mem_append, List.forall_mem_singleton]
        exact ⟨by split <;> simp [Effect.isFullStop], rfl⟩)]
      simpa [DeribitClient.stop, WebSocketClient.stop] using h.background
  loops := by
    have hloops := h.loops
    cases hthread : c.heartbeatThread <;>
      simp_all [DeribitClient.stop, Thread.join, Effect.started, Effect.joined]

/-- A request touches no thread. -/
theorem quiet_send (c : DeribitClient) (request : Request) (answer : Answer) :
    ∀ e ∈ c.send request answer, e.Quiet := by
  rcases c.send_eq request answer with h | h <;> simp [h, Effect.Quiet]

/-- What one event does to the threads: with the condition the client owns them as before, and
without it the process is terminated. -/
def Settled (parse : List Char → Option Json) (log : List Effect) (c : DeribitClient)
    (e : ClientEvent) : Prop :=
  (ThreadFree parse log c e ∧
      ∃ c', (c.event parse e).1 = some c' ∧ Owned c' (log ++ (c.event parse e).2)) ∨
    (¬ ThreadFree parse log c e ∧ (c.event parse e).1 = none)

/-- The step of `connect`, which starts the thread of the event loop. -/
theorem Owned.connect (h : Owned c log) (answer : Answer) :
    Settled parse log c (.connect answer) := by
  unfold Settled
  simp only [DeribitClient.event, DeribitClient.connect]
  have hsnd := c.wsClient.connect_snd c.baseUrl answer
  have hthread := c.wsClient.connect_backgroundThread c.baseUrl answer
  generalize c.wsClient.connect c.baseUrl answer = res at hsnd hthread ⊢
  obtain ⟨ws, initiated⟩ := res
  cases initiated with
  | false =>
    refine .inl ⟨fun hstate hanswer => ?_, _, rfl, h.quiet rfl hthread (List.forall_mem_nil _)⟩
    exact nomatch hsnd.2 ⟨hstate, hanswer⟩
  | true =>
    obtain ⟨hstate, hanswer⟩ := hsnd.1 rfl
    dsimp only at hthread ⊢
    by_cases hjoinable : ws.backgroundThread = .joinable
    · have hbackground := h.background.1 (hthread.symm.trans hjoinable)
      rw [ws.runAsync_of_joinable hjoinable]
      exact .inr ⟨fun hfree => hfree hstate hanswer hbackground, rfl⟩
    · rw [ws.runAsync_of_ne hjoinable]
      refine .inl ⟨fun _ _ hbackground => ?_, _, rfl, h.initiated rfl rfl⟩
      exact hjoinable (hthread.trans (h.background.2 hbackground))

/-- The step of a message: an authentication starts the thread of the heartbeat. -/
theorem Owned.message (h : Owned c log) (text : List Char) (answers : List Answer) :
    Settled parse log c (.message text answers) := by
  unfold Settled
  simp only [DeribitClient.event, ThreadFree]
  have hhandled := handleMessage_handled parse c text answers
  generalize c.handleMessage parse text answers = res at hhandled
  cases hhandled with
  | authenticated response flag thread result requests =>
    exact .inl ⟨fun _ _ hmem => thread (h.heartbeat.2 hmem), _, rfl,
      h.authenticated text result thread requests⟩
  | terminated response flag thread =>
    exact .inr ⟨fun hfree => hfree response flag (h.heartbeat.1 thread), rfl⟩
  | subscribed response flag =>
    exact .inl ⟨fun hauth => absurd hauth response.not_auth, _, rfl,
      h.quiet rfl rfl (by simp [Effect.Quiet])⟩
  | forwarded mark =>
    exact .inl ⟨fun hauth => absurd mark hauth.1.1, _, rfl,
      h.quiet rfl rfl (by simp [Effect.Quiet])⟩
  | ignored mark auth sub =>
    refine .inl ⟨fun hauth hflag => ?_, _, rfl, h.quiet rfl rfl (by simp [Effect.Quiet])⟩
    exact nomatch hflag.symm.trans (auth hauth)

/-- One event keeps the threads owned, or terminates the process. -/
theorem Owned.settled (h : Owned c log) (e : ClientEvent) : Settled parse log c e := by
  cases e with
  | connect answer => exact h.connect answer
  | message text answers => exact h.message text answers
  | stop answer => exact .inl ⟨trivial, _, rfl, h.stop answer⟩
  | opened answer =>
    exact .inl ⟨trivial, _, rfl, h.quiet rfl rfl
      (List.forall_mem_cons.2 ⟨trivial, quiet_send _ _ _⟩)⟩
  | closed =>
    exact .inl ⟨trivial, _, rfl, h.quiet rfl (c.wsClient.onCloseHandler_backgroundThread)
      (List.forall_mem_cons.2 ⟨trivial, by simp [Effect.Quiet]⟩)⟩
  | failed =>
    exact .inl ⟨trivial, _, rfl, h.quiet rfl (c.wsClient.onFailHandler_backgroundThread)
      (List.forall_mem_nil _)⟩
  | loopFailed => exact .inl ⟨trivial, _, rfl, h.quiet rfl rfl (List.forall_mem_nil _)⟩
  | beat answer =>
    refine .inl ⟨trivial, _, rfl, h.quiet rfl rfl ?_⟩
    simp only [DeribitClient.event]
    split
    · exact quiet_send _ _ _
    · exact List.forall_mem_nil _
  | wake answer =>
    refine .inl ⟨trivial, _, rfl, h.quiet rfl ?_ (List.forall_mem_nil _)⟩
    show (if _ then _ else _ : WebSocketClient).backgroundThread = _
    split
    · exact c.wsClient.wake_backgroundThread answer
    · rfl

end

/-- A new client owns no thread. -/
theorem owned_new (config : DeribitConfig) : Owned (.new config) [] where
  heartbeat := by simp [new]
  background := by simp [new, WebSocketClient.setReconnectSetting]
  loops := by simp [new]

section
variable (parse : List Char → Option Json) (config : DeribitConfig)

/-- A client whose events all find their threads free owns its threads. -/
theorem owned_run (es : List ClientEvent)
    (h : Always (fun pre e => ∀ c, (deribit parse config).state pre = some c →
      ThreadFree parse ((deribit parse config).log pre) c e) es) :
    ∃ c, (deribit parse config).state es = some c ∧ Owned c ((deribit parse config).log es) := by
  induction es using List.reverseRecOn with
  | nil => exact ⟨_, rfl, owned_new config⟩
  | append_singleton es e ih =>
    obtain ⟨hes, he⟩ := always_concat.1 h
    obtain ⟨c, hc, howned⟩ := ih hes
    rw [Machine.state_concat, Machine.log_concat, hc]
    rcases howned.settled e with ⟨-, hsettled⟩ | ⟨hnot, -⟩
    · exact hsettled
    · exact absurd (he c hc) hnot

/-- **When no thread is replaced**: iff every accepted authentication and every initiated connection
is the first since a `stop` that has joined its thread. -/
theorem threadsSafe_iff (es : List ClientEvent) :
    (∀ pre, pre <+: es → ThreadsSafe parse config pre) ↔
      Always (fun pre e => ∀ c, (deribit parse config).state pre = some c →
        ThreadFree parse ((deribit parse config).log pre) c e) es := by
  refine forall_prefix_iff_always ⟨rfl, Nat.zero_le _⟩ ?_ es
  intro pre e hpre
  obtain ⟨c, hc, howned⟩ := owned_run parse config pre hpre
  rcases howned.settled e with ⟨hfree, c', hc', howned'⟩ | ⟨hnot, hnone⟩
  · refine iff_of_true ⟨?_, ?_⟩ ?_
    · rw [Machine.state_concat, hc]
      exact Option.isSome_iff_exists.2 ⟨c', hc'⟩
    · rw [Machine.log_concat, hc]
      refine (howned'.loops).trans_le (Nat.add_le_add_left ?_ _)
      split <;> omega
    · intro d hd
      rwa [← Option.some.inj (hc.symm.trans hd)]
  · refine iff_of_false ?_ fun hfree => hnot (hfree c hc)
    intro hsafe
    have hrunning := hsafe.running
    rw [Machine.state_concat, hc] at hrunning
    exact nomatch hrunning.symm.trans (congrArg Option.isSome hnone)

end

/-- A second authentication without a `stop` replaces the heartbeat, and a second connection the
event loop, which a client with no reconnection attempts gets to. -/
theorem threadsSafe_fails :
    let response :=
      "\x7b\"id\": 1, \"result\": \x7b\"access_token\": \"t\", \"expires_in\": 900\x7d\x7d".toList
    ¬ ThreadsSafe Json.parse {} [.connect .ok, .opened .ok, .message response [], .closed,
        .opened .ok, .message response []] ∧
      ¬ ThreadsSafe Json.parse { maxReconnectAttempts := 0 }
        [.connect .ok, .opened .ok, .closed, .connect .ok] := by
  refine ⟨fun h => absurd h.running ?_, fun h => absurd h.running ?_⟩
  · decide +kernel
  · decide +kernel

end MarketDataEngine
