import MarketDataEngine.Lib.Simulation
import MarketDataEngine.Reconnect
import MarketDataEngine.Threads

/-!
# One connection

websocketpp calls a handler for a connection that it has: a connection that was initiated opens or
fails once, and one that is open gets messages until it is closed. No handler is called while the
event loop sleeps in one. `deployed` is the client together with the connections that websocketpp
has for it, and a run is `Possible` if each of its events keeps to this.

`main` connects once. In such a program no thread is replaced, so the process is never terminated by
its threads (`threads_of_one_connection`), and a connection that is lost is lost for good: nothing
is opened, received, sent or forwarded from then on (`lost_for_good`), as no reconnection attempt
starts a connection.
-/

namespace MarketDataEngine

open History DeribitClient

/-- The connections that websocketpp has and has had for a client. -/
structure Wire where
  pending : ℕ := 0
  live : ℕ := 0
  ended : ℕ := 0
  deriving DecidableEq, Repr

/-- Whether the event initiates a connection. -/
def DeribitClient.initiates (c : DeribitClient) : ClientEvent → Bool
  | .connect answer => (c.wsClient.connect c.baseUrl answer).2
  | .wake answer => c.wsClient.asleep && !c.wsClient.shouldStop &&
    (({ c.wsClient with asleep := false } : WebSocketClient).connect c.wsClient.uri answer).2
  | _ => false

/-- The connections after an event. -/
def Wire.after (w : Wire) (c : DeribitClient) : ClientEvent → Wire
  | .opened _ => { w with pending := w.pending - 1, live := w.live + 1 }
  | .failed => { w with pending := w.pending - 1, ended := w.ended + 1 }
  | .closed => { w with live := w.live - 1, ended := w.ended + 1 }
  | e => if c.initiates e then { w with pending := w.pending + 1 } else w

/-- The event can happen: a handler has its connection, and its thread does not sleep. -/
def Wire.Permits (w : Wire) (c : DeribitClient) : ClientEvent → Prop
  | .opened _ | .failed => c.wsClient.asleep = false ∧ 0 < w.pending
  | .closed | .message .. => c.wsClient.asleep = false ∧ 0 < w.live
  | .loopFailed => c.wsClient.asleep = false
  | .connect _ | .stop _ | .beat _ | .wake _ => True

instance (w : Wire) (c : DeribitClient) (e : ClientEvent) : Decidable (w.Permits c e) := by
  cases e <;> unfold Wire.Permits <;> infer_instance

/-- A call of `connect`. -/
def ClientEvent.connects : ClientEvent → ℕ
  | .connect _ => 1
  | _ => 0

/-- The end of a connection. -/
def ClientEvent.loses : ClientEvent → ℕ
  | .closed | .failed => 1
  | _ => 0

section
variable (parse : List Char → Option Json) (config : DeribitConfig)

/-- The client and its connections. -/
def deployed : Machine (Option DeribitClient × Wire) ClientEvent Effect where
  init := (some (.new config), {})
  step s e :=
    match s with
    | (none, w) => ((none, w), [])
    | (some c, w) => (((c.event parse e).1, w.after c e), (c.event parse e).2)

/-- The event can happen after a run. -/
def PossibleAfter (pre : List ClientEvent) (e : ClientEvent) : Prop :=
  match (deployed parse config).state pre with
  | (none, _) => True
  | (some c, w) => w.Permits c e

instance (pre : List ClientEvent) (e : ClientEvent) :
    Decidable (PossibleAfter parse config pre e) := by
  unfold PossibleAfter
  split <;> infer_instance

/-- A run that websocketpp can bring about. -/
def Possible (es : List ClientEvent) : Prop := Always (PossibleAfter parse config) es

instance (es : List ClientEvent) : Decidable (Possible parse config es) :=
  inferInstanceAs (Decidable (Always _ _))

/-- The client does not notice its connections being counted. -/
theorem deployed_simulation :
    Machine.Simulation (deployed parse config) (deribit parse config) Prod.fst (fun e => [e])
      (fun x => [x]) where
  init := rfl
  step s e := by
    rw [Machine.run_singleton, List.flatMap_singleton']
    obtain ⟨_ | c, w⟩ := s <;> rfl

/-- The client of a deployed run is that of the run. -/
theorem deployed_state (es : List ClientEvent) :
    ((deployed parse config).state es).1 = (deribit parse config).state es := by
  rw [(deployed_simulation parse config).state, List.flatMap_singleton']

end

/-! ## What a client knows of its connections -/

/-- A client, its connections and its effects. -/
structure Linked (c : DeribitClient) (w : Wire) (log : List Effect) : Prop where
  dozing : Dozing c.wsClient
  connections : w.pending + w.live + w.ended = log.count .initiated
  opened : w.pending + log.count .opened ≤ log.count .initiated
  authenticated : c.authenticated → 0 < w.live
  heard : .authenticated ∈ log → c.authenticated ∨ 0 < w.ended

section
variable {parse : List Char → Option Json} {config : DeribitConfig} {c c' : DeribitClient}
  {w : Wire} {log out : List Effect} {e : ClientEvent}

/-- A client that sleeps initiates no connection when it wakes. -/
theorem Linked.initiates_wake (h : Linked c w log) (answer : Answer) :
    c.initiates (.wake answer) = false := by
  rw [Bool.eq_false_iff]
  intro hinit
  simp only [initiates, Bool.and_eq_true] at hinit
  have hstate := ((WebSocketClient.connect_snd _ _ _).1 hinit.2).1
  exact nomatch (h.dozing hinit.1.1).symm.trans hstate

/-- The effect concerns no connection and no authentication. -/
def Effect.Plain : Effect → Prop
  | .initiated | .opened | .authenticated => False
  | _ => True

/-- An event that concerns no connection keeps the link. -/
theorem Linked.plain (h : Linked c w log) (hdozing : Dozing c'.wsClient)
    (hauth : c'.authenticated = c.authenticated) (hout : ∀ x ∈ out, x.Plain) :
    Linked c' w (log ++ out) := by
  have hinitiated : out.count .initiated = 0 := List.count_eq_zero_of_not_mem fun hm => hout _ hm
  have hopened : out.count .opened = 0 := List.count_eq_zero_of_not_mem fun hm => hout _ hm
  refine ⟨hdozing, ?_, ?_, hauth ▸ h.authenticated, ?_⟩
  · rw [List.count_append, hinitiated, h.connections, Nat.add_zero]
  · rw [List.count_append, List.count_append, hinitiated, hopened]
    exact h.opened
  · intro hmem
    rw [hauth]
    exact h.heard ((List.mem_append.1 hmem).resolve_right fun hm => hout _ hm)

/-- A request concerns no connection. -/
theorem plain_send (c : DeribitClient) (request : Request) (answer : Answer) :
    ∀ x ∈ c.send request answer, x.Plain := by
  rcases c.send_eq request answer with h | h <;> simp [h, Effect.Plain]

/-- A connection that is initiated is pending. -/
theorem Linked.initiated (h : Linked c w log) (hdozing : Dozing c'.wsClient)
    (hauth : c'.authenticated = c.authenticated) :
    Linked c' { w with pending := w.pending + 1 } (log ++ [.initiated]) := by
  have hopened := h.opened
  have hconnections := h.connections
  refine ⟨hdozing, ?_, ?_, hauth ▸ h.authenticated, ?_⟩
  · simp
    omega
  · simp
    omega
  · simpa [hauth] using h.heard

/-- `connect` keeps the link. -/
theorem Linked.connect (h : Linked c w log) (answer : Answer)
    (hc' : (c.event parse (.connect answer)).1 = some c') :
    Linked c' (w.after c (.connect answer)) (log ++ (c.event parse (.connect answer)).2) := by
  have hdozing : Dozing (c.wsClient.connect c.baseUrl answer).1 :=
    dozing_event c.wsClient (.connect c.baseUrl answer) h.dozing
  have hafter : w.after c (.connect answer) =
    if (c.wsClient.connect c.baseUrl answer).2 then { w with pending := w.pending + 1 }
    else w := rfl
  rw [hafter]
  simp only [DeribitClient.event, DeribitClient.connect] at hc' ⊢
  generalize c.wsClient.connect c.baseUrl answer = res at hc' hdozing ⊢
  obtain ⟨ws, initiated⟩ := res
  cases initiated with
  | false =>
    obtain rfl := Option.some.inj hc'
    exact h.plain hdozing rfl (List.forall_mem_nil _)
  | true =>
    obtain ⟨ws', hws', rfl⟩ := Option.map_eq_some_iff.1 hc'
    obtain ⟨thread, -, rfl⟩ := Option.map_eq_some_iff.1 hws'
    exact h.initiated hdozing rfl

/-- A message on a live connection keeps the link. -/
theorem Linked.message (h : Linked c w log) (hlive : 0 < w.live) (text : List Char)
    (answers : List Answer)
    (hc' : (c.event parse (.message text answers)).1 = some c') :
    Linked c' w (log ++ (c.event parse (.message text answers)).2) := by
  simp only [DeribitClient.event] at hc' ⊢
  have hhandled := handleMessage_handled parse c text answers
  generalize c.handleMessage parse text answers = res at hhandled hc'
  cases hhandled with
  | authenticated response flag thread result requests =>
    obtain rfl := Option.some.inj hc'
    refine ⟨h.dozing, ?_, ?_, fun _ => hlive, fun _ => .inl rfl⟩
    · simpa [List.count_cons, List.count_append, List.count_eq_zero_of_not_mem] using h.connections
    · simpa [List.count_cons, List.count_append, List.count_eq_zero_of_not_mem] using h.opened
  | terminated => cases hc'
  | subscribed response flag =>
    obtain rfl := Option.some.inj hc'
    exact h.plain h.dozing rfl (by simp [Effect.Plain])
  | forwarded | ignored =>
    obtain rfl := Option.some.inj hc'
    exact h.plain h.dozing rfl (by simp [Effect.Plain])

/-- An event that can happen keeps what a client knows of its connections. -/
theorem Linked.event (h : Linked c w log) (e : ClientEvent) (hpermits : w.Permits c e)
    (hc' : (c.event parse e).1 = some c') :
    Linked c' (w.after c e) (log ++ (c.event parse e).2) := by
  cases e with
  | connect answer => exact h.connect answer hc'
  | message text answers => exact h.message hpermits.2 text answers hc'
  | stop answer =>
    obtain rfl := Option.some.inj hc'
    refine h.plain (dozing_event c.wsClient (.stop answer) h.dozing) rfl ?_
    refine List.forall_mem_append.2 ⟨?_, List.forall_mem_singleton.2 trivial⟩
    split <;> simp [Effect.Plain]
  | opened answer =>
    obtain ⟨hawake, hpending⟩ := hpermits
    obtain rfl := Option.some.inj hc'
    have hopened := h.opened
    have hconnections := h.connections
    have hlinked : Linked { c with wsClient := c.wsClient.onOpenHandler }
        (w.after c (.opened answer)) (log ++ [.opened]) := by
      refine ⟨dozing_of_awake hawake, ?_, ?_, fun _ => Nat.succ_pos _, ?_⟩
      · simp [Wire.after]
        omega
      · simp [Wire.after]
        omega
      · simpa [Wire.after] using h.heard
    have hsent := hlinked.plain hlinked.dozing rfl
      (plain_send { c with wsClient := c.wsClient.onOpenHandler } (.authentication
        c.config.credentials.apiKey c.config.credentials.apiSecret) answer)
    rw [← List.append_cons] at hsent
    exact hsent
  | closed =>
    obtain ⟨hawake, hlive⟩ := hpermits
    obtain rfl := Option.some.inj hc'
    have hconnections := h.connections
    refine ⟨dozing_ite { c.wsClient with state := .disconnected } hawake _, ?_, ?_, nofun,
      fun _ => .inr (Nat.succ_pos _)⟩
    · simp [Wire.after, DeribitClient.event, onClose]
      omega
    · simpa [Wire.after, DeribitClient.event, onClose] using h.opened
  | failed =>
    obtain ⟨hawake, hpending⟩ := hpermits
    obtain rfl := Option.some.inj hc'
    have hopened := h.opened
    have hconnections := h.connections
    refine ⟨dozing_ite { c.wsClient with state := .failed } hawake _, ?_, ?_, h.authenticated, ?_⟩
    · simp [Wire.after, DeribitClient.event]
      omega
    · simp [Wire.after, DeribitClient.event]
      omega
    · exact fun _ => .inr (Nat.succ_pos _)
  | loopFailed =>
    obtain rfl := Option.some.inj hc'
    exact h.plain (dozing_of_awake hpermits) rfl (List.forall_mem_nil _)
  | beat answer =>
    obtain rfl := Option.some.inj hc'
    refine h.plain h.dozing rfl ?_
    simp only [DeribitClient.event]
    split
    · exact plain_send c .heartbeat answer
    · exact List.forall_mem_nil _
  | wake answer =>
    obtain rfl := Option.some.inj hc'
    have hafter : w.after c (.wake answer) = w := if_neg (by simp [h.initiates_wake answer])
    rw [hafter]
    exact h.plain (dozing_event c.wsClient (.wake answer) h.dozing) rfl (List.forall_mem_nil _)

/-- Only a call of `connect` initiates a connection, and one at most. -/
theorem count_initiated_le (c : DeribitClient) (e : ClientEvent) :
    (c.event parse e).2.count .initiated ≤ e.connects := by
  have hplain : ∀ {out : List Effect}, (∀ x ∈ out, x ≠ .initiated) → out.count .initiated ≤ 0 :=
    fun hout => (List.count_eq_zero_of_not_mem fun hm => hout _ hm rfl).le
  have hsend : ∀ (c : DeribitClient) request answer, ∀ x ∈ c.send request answer,
      x ≠ .initiated := by
    rintro c request answer x hx rfl
    exact plain_send c request answer _ hx
  cases e with
  | connect answer =>
    simp only [DeribitClient.event, DeribitClient.connect]
    split
    · exact Nat.zero_le _
    · exact le_refl _
  | stop answer =>
    refine hplain (List.forall_mem_append.2 ⟨?_, by simp⟩)
    split <;> simp
  | opened answer => exact hplain (List.forall_mem_cons.2 ⟨by simp, hsend _ _ _⟩)
  | closed | failed | loopFailed | wake => exact hplain (by simp [DeribitClient.event, onClose])
  | message text answers =>
    have hhandled := handleMessage_handled parse c text answers
    have hout : ∀ x ∈ (c.handleMessage parse text answers).2, x ≠ .initiated := by
      generalize c.handleMessage parse text answers = res at hhandled
      cases hhandled <;> simp
    exact hplain (List.forall_mem_cons.2 ⟨by simp, hout⟩)
  | beat answer =>
    refine hplain ?_
    simp only [DeribitClient.event]
    split
    · exact hsend _ _ _
    · simp

/-- Every loss ends one connection. -/
theorem after_ended (w : Wire) (c : DeribitClient) (e : ClientEvent) :
    (w.after c e).ended = w.ended + e.loses := by
  cases e with
  | opened | closed | failed => rfl
  | connect | stop | message | loopFailed | beat | wake =>
    show (if _ = true then _ else _ : Wire).ended = _
    split <;> rfl

end

/-! ## Runs -/

section
variable {parse : List Char → Option Json} {config : DeribitConfig} {es pre : List ClientEvent}
  {c : DeribitClient} {w : Wire}

/-- The log of a deployed run is that of the run. -/
theorem deployed_log (es : List ClientEvent) :
    (deployed parse config).log es = (deribit parse config).log es := by
  have hlog := (deployed_simulation parse config).log es
  rw [List.flatMap_singleton', List.flatMap_singleton'] at hlog
  exact hlog

/-- A possible run keeps what the client knows of its connections. -/
theorem linked_run (h : Possible parse config es) :
    ∀ c w, (deployed parse config).state es = (some c, w) →
      Linked c w ((deployed parse config).log es) ∧ w.ended = tally ClientEvent.loses es := by
  induction es using List.reverseRecOn with
  | nil =>
    rintro c w heq
    obtain ⟨hc, rfl⟩ := Prod.mk.inj heq
    obtain rfl := Option.some.inj hc
    exact ⟨⟨dozing_of_awake rfl, rfl, Nat.zero_le _, nofun, nofun⟩, rfl⟩
  | append_singleton es e ih =>
    intro c' w' heq
    obtain ⟨hes, he⟩ := always_concat.1 h
    rw [Machine.state_concat] at heq
    rw [Machine.log_concat, tally_append]
    unfold PossibleAfter at he
    cases hstate : (deployed parse config).state es with
    | mk state w =>
      rw [hstate] at heq he
      cases state with
      | none => cases heq
      | some c =>
        obtain ⟨hc', rfl⟩ := Prod.mk.inj heq
        obtain ⟨hlinked, hended⟩ := ih hes c w hstate
        refine ⟨hlinked.event e he hc', ?_⟩
        rw [after_ended, hended]
        simp

/-- A run initiates a connection for each `connect` at most. -/
theorem count_initiated_run (es : List ClientEvent) :
    ((deribit parse config).log es).count .initiated ≤ tally ClientEvent.connects es := by
  induction es using List.reverseRecOn with
  | nil => exact le_refl _
  | append_singleton es e ih =>
    rw [Machine.log_concat, List.count_append, tally_append]
    refine Nat.add_le_add ih ?_
    cases (deribit parse config).state es with
    | none => exact Nat.zero_le _
    | some c => exact (count_initiated_le c e).trans (by simp)

/-- What a possible run with one call of `connect` knows before one of its events. -/
structure Before (parse : List Char → Option Json) (config : DeribitConfig)
    (pre : List ClientEvent) (e : ClientEvent) (c : DeribitClient) (w : Wire) : Prop where
  possible : Possible parse config pre
  once : tally ClientEvent.connects pre + e.connects ≤ 1
  state : (deployed parse config).state pre = (some c, w)
  permits : w.Permits c e
  linked : Linked c w ((deribit parse config).log pre)
  ended : w.ended = tally ClientEvent.loses pre
  one : ((deribit parse config).log pre).count .initiated + e.connects ≤ 1

/-- A client has its connections. -/
theorem exists_wire (hc : (deribit parse config).state pre = some c) :
    ∃ w, (deployed parse config).state pre = (some c, w) := by
  rw [← deployed_state] at hc
  exact ⟨((deployed parse config).state pre).2, Prod.ext hc rfl⟩

/-- The client before the event. -/
theorem Before.client {e : ClientEvent} (h : Before parse config pre e c w) :
    (deribit parse config).state pre = some c := by
  rw [← deployed_state, h.state]

/-- Every event of a possible run with one `connect` finds what `Before` says. -/
theorem before_event (h : Possible parse config es) (hone : tally ClientEvent.connects es ≤ 1)
    {post : List ClientEvent} {e : ClientEvent} (hes : es = pre ++ e :: post)
    (hw : (deployed parse config).state pre = (some c, w)) : Before parse config pre e c w := by
  subst hes
  obtain ⟨hpre, -⟩ := always_append.1 h
  have hpermits : PossibleAfter parse config pre e := h pre e post rfl
  obtain ⟨hlinked, hended⟩ := linked_run hpre c w hw
  rw [deployed_log] at hlinked
  unfold PossibleAfter at hpermits
  rw [hw] at hpermits
  have hcount : ((deribit parse config).log pre).count .initiated ≤
    tally ClientEvent.connects pre := count_initiated_run pre
  rw [tally_append, tally_cons] at hone
  exact ⟨hpre, by omega, hw, hpermits, hlinked, hended, by omega⟩

/-- The threads of a client that connects once are free when it starts them. -/
theorem Before.threadFree {e : ClientEvent} (h : Before parse config pre e c w) :
    ThreadFree parse ((deribit parse config).log pre) c e := by
  have hlinked := h.linked
  have hone := h.one
  have hconnections := hlinked.connections
  cases e with
  | connect answer =>
    intro _ _ hmem
    have hpos := List.count_pos_iff.2 (mem_of_mem_since hmem)
    simp only [ClientEvent.connects] at hone
    omega
  | message text answers =>
    intro _ hflag hmem
    have hlive : 0 < w.live := h.permits.2
    rcases hlinked.heard (mem_of_mem_since hmem) with hauth | hended
    · exact nomatch hflag.symm.trans hauth
    · omega
  | stop | opened | closed | failed | loopFailed | beat | wake => trivial

/-- The threads of a possible run that connects once. -/
theorem owned_of_one_connection (h : Possible parse config es)
    (hone : tally ClientEvent.connects es ≤ 1) :
    ∃ c, (deribit parse config).state es = some c ∧ Owned c ((deribit parse config).log es) := by
  refine owned_run parse config es ?_
  intro pre e post hes c hc
  obtain ⟨w, hw⟩ := exists_wire hc
  exact (before_event h hone hes hw).threadFree

/-- **A program that connects once keeps its threads.** In every run that websocketpp can bring
about and that calls `connect` once, as `main` does, no thread is replaced while it is joinable, so
the process is not terminated by its threads, and at most one heartbeat loop exists. -/
theorem threads_of_one_connection (parse : List Char → Option Json) (config : DeribitConfig)
    (es : List ClientEvent) (h : Possible parse config es)
    (hone : tally ClientEvent.connects es ≤ 1) : ThreadsSafe parse config es := by
  obtain ⟨c, hc, howned⟩ := owned_of_one_connection h hone
  refine ⟨by rw [hc]; rfl, howned.loops.trans_le (Nat.add_le_add_left ?_ _)⟩
  split <;> omega

/-- A connection that is closed after an authentication, and the calls of a shutdown. -/
theorem threads_of_one_connection_example :
    let response :=
      "\x7b\"id\": 1, \"result\": \x7b\"access_token\": \"t\", \"expires_in\": 900\x7d\x7d".toList
    ThreadsSafe Json.parse {} [.connect .ok, .opened .ok, .message response [], .beat .ok, .closed,
      .wake .ok, .beat .ok, .stop .ok] := by
  refine threads_of_one_connection _ _ _ ?_ ?_
  · decide +kernel
  · decide

/-- The effect is one of `stop`. -/
def Effect.OfStop : Effect → Prop
  | .heartbeatJoined | .stopped _ => True
  | _ => False

/-- **A lost connection is lost for good.** In every run that websocketpp can bring about and that
calls `connect` once, once the connection has been closed or has failed nothing happens but the
calls of `stop`: nothing is opened, sent, received or forwarded again, and no heartbeat goes on. -/
theorem lost_for_good (parse : List Char → Option Json) (config : DeribitConfig)
    (es : List ClientEvent) (h : Possible parse config es)
    (hone : tally ClientEvent.connects es ≤ 1) :
    Always (fun pre e => 0 < tally ClientEvent.loses pre →
      ∀ x ∈ ((deribit parse config).step ((deribit parse config).state pre) e).2, x.OfStop) es := by
  intro pre e post hes hlost
  cases hc : (deribit parse config).state pre with
  | none => exact List.forall_mem_nil _
  | some c =>
    obtain ⟨w, hw⟩ := exists_wire hc
    have hbefore := before_event h hone hes hw
    have hlinked := hbefore.linked
    have hconnections := hlinked.connections
    have hone := hbefore.one
    have hended : 0 < w.ended := hbefore.ended ▸ hlost
    cases e with
    | opened | failed =>
      have hpending : 0 < w.pending := hbefore.permits.2
      omega
    | closed | message =>
      have hlive : 0 < w.live := hbefore.permits.2
      omega
    | connect =>
      simp only [ClientEvent.connects] at hone
      omega
    | loopFailed | wake => exact List.forall_mem_nil _
    | stop answer =>
      refine List.forall_mem_append.2 ⟨?_, List.forall_mem_singleton.2 trivial⟩
      split <;> simp [Effect.OfStop]
    | beat answer =>
      have hauth : ¬ (c.heartbeatThread = .joinable ∧ c.authenticated) := by
        rintro ⟨-, hauth⟩
        have hlive := hlinked.authenticated hauth
        omega
      simp [deribit, DeribitClient.event, hauth]

/-- The loss of an open connection, and what still happens after it. -/
theorem lost_for_good_example :
    Always (fun pre e => 0 < tally ClientEvent.loses pre →
        ∀ x ∈ ((deribit Json.parse {}).step ((deribit Json.parse {}).state pre) e).2, x.OfStop)
      [.connect .ok, .opened .ok, .closed, .wake .ok, .beat .ok, .loopFailed, .stop .ok] := by
  refine lost_for_good _ _ _ ?_ ?_
  · decide +kernel
  · decide

end

end MarketDataEngine
