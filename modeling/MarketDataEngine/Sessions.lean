import Mathlib.Data.List.Nodup
import MarketDataEngine.Connections
import MarketDataEngine.Subscriptions

/-!
# Sessions

A session is the time between the opening of a connection and its close. The client asks for an
authentication as it is opened, and whatever else it asks for is asked for in a session that an
authentication response has come in (`requests_allowed`). What it subscribes to is what is
configured: a program that connects once sends one request at most for each instrument, in their
order, and one for every instrument if none of its sends fails (`one_session`). Two instruments have
the same channels iff no template has a place for the instrument (`subscriptions_nodup_iff`).
-/

namespace MarketDataEngine

open Json History DeribitClient

/-! ## Channels -/

/-- What a template has in the place of the instrument. -/
def placeholder : List Char := "\x7binstrument\x7d".toList

/-- The channels that an instrument is subscribed to by. -/
def DeribitConfig.channelsFor (config : DeribitConfig) (instrument : List Char) :
    List (List Char) :=
  config.channels.map (buildChannelName · instrument)

/-- The subscriptions of a configuration. -/
def DeribitConfig.subscriptions (config : DeribitConfig) : List (List (List Char)) :=
  config.instruments.map config.channelsFor

/-- A replacement replaces one occurrence of the pattern, at a place that does not depend on what it
is replaced by, or there is none. -/
theorem replaceFirst_cases {pattern : List Char} (hp : pattern ≠ []) (s : List Char) :
    (∃ front back, s = front ++ pattern ++ back ∧
        ∀ r, replaceFirst pattern r s = front ++ r ++ back) ∨
      (¬ pattern <:+: s ∧ ∀ r, replaceFirst pattern r s = s) := by
  induction s with
  | nil => exact .inr ⟨fun h => hp (List.infix_nil.1 h), fun _ => rfl⟩
  | cons c cs ih =>
    by_cases hstart : pattern.isPrefixOf (c :: cs)
    · have hsplit := List.prefix_iff_eq_append.1 (List.isPrefixOf_iff_prefix.1 hstart)
      refine .inl ⟨[], (c :: cs).drop pattern.length, hsplit.symm, fun r => ?_⟩
      rw [replaceFirst, if_pos hstart]
      rfl
    · rcases ih with ⟨front, back, hcs, hreplace⟩ | ⟨hnone, hreplace⟩
      · refine .inl ⟨c :: front, back, by rw [hcs]; rfl, fun r => ?_⟩
        rw [replaceFirst, if_neg hstart, hreplace]
        rfl
      · refine .inr ⟨?_, fun r => by rw [replaceFirst, if_neg hstart, hreplace]⟩
        rw [List.infix_cons_iff, not_or]
        exact ⟨fun h => hstart (List.isPrefixOf_iff_prefix.2 h), hnone⟩

/-- Instruments have one channel iff they are one, or the template has no placeholder. -/
theorem buildChannelName_inj {template i j : List Char} :
    buildChannelName template i = buildChannelName template j ↔
      i = j ∨ ¬ placeholder <:+: template := by
  have hcases := replaceFirst_cases (show placeholder ≠ [] by decide) template
  rcases hcases with ⟨front, back, htemplate, hreplace⟩ | ⟨hnone, hreplace⟩
  · have hplaced : placeholder <:+: template := ⟨front, back, htemplate.symm⟩
    have hname : ∀ i, buildChannelName template i = front ++ i ++ back := hreplace
    rw [hname, hname, List.append_left_inj, List.append_right_inj]
    simp [hplaced]
  · have hname : ∀ i, buildChannelName template i = template := hreplace
    simp [hname, hnone]

/-- Instruments have the same channels iff they are one, or no template has a placeholder. -/
theorem channelsFor_inj {config : DeribitConfig} {i j : List Char} :
    config.channelsFor i = config.channelsFor j ↔
      i = j ∨ ∀ template ∈ config.channels, ¬ placeholder <:+: template := by
  rw [DeribitConfig.channelsFor, DeribitConfig.channelsFor, List.map_inj_left]
  simp only [buildChannelName_inj]
  exact ⟨fun h => or_iff_not_imp_left.2 fun hij t ht => (h t ht).resolve_left hij,
    fun h t ht => h.imp_right fun h => h t ht⟩

/-- **Distinct instruments have distinct channels** iff a template has a place for the instrument:
no two subscriptions of a configuration are the same iff no two of its instruments are, and there is
such a template or no second instrument. -/
theorem subscriptions_nodup_iff (config : DeribitConfig) : config.subscriptions.Nodup ↔
    config.instruments.Nodup ∧ (config.instruments.length ≤ 1 ∨
      ∃ template ∈ config.channels, placeholder <:+: template) := by
  unfold DeribitConfig.subscriptions
  by_cases hplace : ∃ template ∈ config.channels, placeholder <:+: template
  · have hinj : Function.Injective config.channelsFor := by
      intro i j hij
      obtain ⟨template, htemplate, hplaced⟩ := hplace
      exact (channelsFor_inj.1 hij).resolve_right fun hnone => hnone template htemplate hplaced
    rw [List.nodup_map_iff hinj]
    simp [hplace]
  · have hsame : config.instruments.map config.channelsFor =
        List.replicate config.instruments.length (config.channelsFor []) := by
      refine List.eq_replicate_iff.2 ⟨List.length_map .., ?_⟩
      intro channels hmem
      obtain ⟨i, -, rfl⟩ := List.mem_map.1 hmem
      refine channelsFor_inj.2 (.inr fun template htemplate hplaced => ?_)
      exact hplace ⟨template, htemplate, hplaced⟩
    rw [hsame, List.nodup_replicate]
    simp only [hplace, or_false]
    refine ⟨fun hlen => ⟨?_, hlen⟩, And.right⟩
    rcases hi : config.instruments with _ | ⟨i, _ | ⟨j, is⟩⟩
    · exact List.nodup_nil
    · exact List.nodup_singleton i
    · rw [hi] at hlen
      simp at hlen

/-! ## Requests -/

section
variable (parse : List Char → Option Json) (config : DeribitConfig)

end

section
variable {parse : List Char → Option Json} {config : DeribitConfig} {c c' : DeribitClient}
  {log out : List Effect} {text : List Char}

/-- The requests for the instruments whose sends do not fail. -/
theorem subscribeAll_sublist (c : DeribitClient) (instruments : List (List Char))
    (answers : List Answer) : ∃ is : List (List Char), is.Sublist instruments ∧
      c.subscribeAll instruments answers =
        is.map fun i => .sent (.subscription (c.config.channelsFor i)) := by
  induction instruments generalizing answers with
  | nil => exact ⟨[], List.Sublist.refl _, rfl⟩
  | cons i instruments ih =>
    obtain ⟨is, hsub, his⟩ := ih answers.tail
    rw [subscribeAll, his, subscribeOrderbook, sendSubscription]
    split
    · exact ⟨is, hsub.cons i, rfl⟩
    · rcases c.send_eq (.subscription (c.config.channels.map (buildChannelName · i)))
        (answers.headD .ok) with h | h
      · exact ⟨is, hsub.cons i, by rw [h]; rfl⟩
      · exact ⟨i :: is, hsub.cons_cons i, by rw [h]; rfl⟩

/-- What an accepted authentication response does. -/
theorem handleMessage_accepted (response : AuthResponse parse text) (flag : c.authenticated = false)
    (thread : c.heartbeatThread ≠ .joinable) (answers : List Answer) : ∃ result,
      c.handleMessage parse text answers = (some (c.authenticate result),
        [.authenticated, .stateChanged true, .heartbeatStarted] ++
          (c.authenticate result).subscribeAll c.config.instruments answers) := by
  obtain ⟨result, hresult⟩ := Option.isSome_iff_exists.1 response.2
  refine ⟨result, ?_⟩
  rw [handleMessage, if_neg response.1.1, response.1.2]
  simp only [flag, Bool.not_false, and_self, if_true]
  unfold handleAuthResponse
  simp only [hresult]
  rw [setupHeartbeat_of_ne { c.withTokens result with authenticated := true } thread]
  rfl

/-- What an event makes the client send. -/
inductive Sends (parse : List Char → Option Json) (c : DeribitClient) :
    ClientEvent → List Effect → Prop
  | authentication (answer : Answer) : Sends parse c (.opened answer) [.opened,
      .sent (.authentication c.config.credentials.apiKey c.config.credentials.apiSecret)]
  | subscriptions {text : List Char} (response : AuthResponse parse text)
      (flag : c.authenticated = false) (answers : List Answer) {is : List (List Char)}
      (sublist : is.Sublist c.config.instruments) :
      Sends parse c (.message text answers)
        ([.received text, .authenticated, .stateChanged true, .heartbeatStarted] ++
          is.map fun i => .sent (.subscription (c.config.channelsFor i)))
  | heartbeat (flag : c.authenticated) (answer : Answer) : Sends parse c (.beat answer)
      [.sent .heartbeat]
  | nothing {e : ClientEvent} {out : List Effect} (unsent : ∀ r, .sent r ∉ out) :
      Sends parse c e out

/-- What a message sends. -/
theorem sends_message (c : DeribitClient) (text : List Char) (answers : List Answer) :
    Sends parse c (.message text answers) (c.event parse (.message text answers)).2 := by
  simp only [DeribitClient.event]
  have hhandled := handleMessage_handled parse c text answers
  generalize hres : c.handleMessage parse text answers = res at hhandled
  cases hhandled with
  | authenticated response flag thread result requests =>
    obtain ⟨result', haccepted⟩ := handleMessage_accepted response flag thread answers
    obtain ⟨is, hsub, his⟩ :=
      subscribeAll_sublist (c.authenticate result') c.config.instruments answers
    rw [← hres, haccepted, his]
    exact .subscriptions response flag answers hsub
  | terminated | subscribed | forwarded | ignored => exact .nothing (by simp)

variable (parse) in

/-- What any event sends. -/
theorem sends_event (c : DeribitClient) (e : ClientEvent) :
    Sends parse c e (c.event parse e).2 := by
  cases e with
  | message text answers => exact sends_message c text answers
  | opened answer =>
    simp only [DeribitClient.event, onOpen, sendAuthentication]
    rcases send_eq { c with wsClient := c.wsClient.onOpenHandler } (.authentication
      c.config.credentials.apiKey c.config.credentials.apiSecret) answer with h | h <;> rw [h]
    · exact .nothing (by simp)
    · exact .authentication answer
  | beat answer =>
    simp only [DeribitClient.event]
    split
    · rename_i hflag
      rcases c.send_eq .heartbeat answer with h | h <;> rw [sendHeartbeat, h]
      · exact .nothing (by simp)
      · exact .heartbeat hflag.2 answer
    · exact .nothing (by simp)
  | connect answer =>
    simp only [DeribitClient.event, DeribitClient.connect]
    split <;> exact .nothing (by simp)
  | stop answer =>
    simp only [DeribitClient.event, DeribitClient.stop]
    split <;> exact .nothing (by simp)
  | closed | failed | loopFailed | wake => exact .nothing (by simp [DeribitClient.event, onClose])

end

/-! ## One session -/

/-- The channels of a subscription. -/
def Effect.subscription? : Effect → Option (List (List Char))
  | .sent (.subscription channels) => some channels
  | _ => none

/-- The subscriptions that are sent. -/
def subscriptions (log : List Effect) : List (List (List Char)) :=
  log.filterMap Effect.subscription?

/-- A `public/auth` request. -/
def Effect.authentication : Effect → ℕ
  | .sent (.authentication ..) => 1
  | _ => 0

/-- The event loop does not throw, and websocketpp takes what is sent for a message. -/
def ClientEvent.Undisturbed : ClientEvent → Prop
  | .message _ answers => ∀ a ∈ answers, a = .ok
  | .loopFailed => False
  | .connect _ | .stop _ | .opened _ | .closed | .failed | .beat _ | .wake _ => True

instance : ∀ e : ClientEvent, Decidable e.Undisturbed
  | .message _ answers => List.decidableBAll (fun a : Answer => a = .ok) answers
  | .loopFailed => instDecidableFalse
  | .connect _ | .stop _ | .opened _ | .closed | .failed | .beat _ | .wake _ => instDecidableTrue

section
variable {parse : List Char → Option Json} {config : DeribitConfig} {es pre : List ClientEvent}
  {c c' : DeribitClient} {w : Wire} {log out : List Effect} {text : List Char}

/-- A connection that is open and undisturbed is connected. -/
theorem Before.connected {e : ClientEvent} (h : Before parse config pre e c w)
    (hundisturbed : e.Undisturbed) (hc' : (c.event parse e).1 = some c')
    (hstate : 0 < w.live → c.wsClient.state = .connected) :
    0 < (w.after c e).live → c'.wsClient.state = .connected := by
  have hconnections := h.linked.connections
  have hone := h.one
  have hafter : ∀ initiated : Bool,
      (if initiated then { w with pending := w.pending + 1 } else w : Wire).live = w.live := by
    intro initiated
    cases initiated <;> rfl
  cases e with
  | connect answer =>
    intro hlive
    have hconnected := hstate ((hafter _).symm ▸ hlive)
    have hguard : c.wsClient.connect c.baseUrl answer = (c.wsClient, false) :=
      if_pos (by simp [hconnected])
    simp only [DeribitClient.event, DeribitClient.connect, hguard] at hc'
    obtain rfl := Option.some.inj hc'
    exact hconnected
  | stop answer =>
    intro hlive
    obtain rfl := Option.some.inj hc'
    have hstop : (c.wsClient.stop answer).state = c.wsClient.state := by cases answer <;> rfl
    exact hstop.trans (hstate ((hafter _).symm ▸ hlive))
  | opened answer =>
    obtain rfl := Option.some.inj hc'
    exact fun _ => rfl
  | closed =>
    intro hlive
    have hlive : 0 < w.live - 1 := hlive
    omega
  | failed =>
    intro hlive
    have hlive : 0 < w.live := hlive
    have hpending : 0 < w.pending := h.permits.2
    omega
  | message text answers =>
    intro hlive
    have hsame : c'.wsClient = c.wsClient := by
      simp only [DeribitClient.event] at hc'
      have hhandled := handleMessage_handled parse c text answers
      generalize c.handleMessage parse text answers = res at hhandled hc'
      cases hhandled with
      | terminated => cases hc'
      | authenticated | subscribed | forwarded | ignored =>
        obtain rfl := Option.some.inj hc'
        rfl
    rw [hsame]
    exact hstate ((hafter _).symm ▸ hlive)
  | loopFailed => cases hundisturbed
  | beat answer =>
    intro hlive
    obtain rfl := Option.some.inj hc'
    exact hstate ((hafter _).symm ▸ hlive)
  | wake answer =>
    intro hlive
    obtain rfl := Option.some.inj hc'
    have hconnected := hstate ((hafter _).symm ▸ hlive)
    have hawake : ¬ c.wsClient.asleep := by
      intro hasleep
      rw [h.linked.dozing hasleep] at hconnected
      cases hconnected
    simp only [hawake]
    exact hconnected

/-- The credentials are sent once for each connection that is opened, at most. -/
theorem authentication_event (c : DeribitClient) (e : ClientEvent) :
    tally Effect.authentication (c.event parse e).2 ≤ (c.event parse e).2.count .opened := by
  have hsends := sends_event parse c e
  generalize (c.event parse e).2 = out at hsends
  cases hsends with
  | authentication | heartbeat => simp [Effect.authentication]
  | subscriptions =>
    exact (tally_eq_zero (by simp [Effect.authentication])).trans_le (Nat.zero_le _)
  | nothing hunsent =>
    refine (tally_eq_zero fun x hx => ?_).trans_le (Nat.zero_le _)
    cases x with
    | sent r => exact absurd hx (hunsent r)
    | _ => rfl

/-- The credentials are sent no more often than a connection is opened. -/
theorem authentication_run (es : List ClientEvent) :
    tally Effect.authentication ((deribit parse config).log es) ≤
      ((deribit parse config).log es).count .opened := by
  induction es using List.reverseRecOn with
  | nil => exact Nat.zero_le _
  | append_singleton es e ih =>
    rw [Machine.log_concat, tally_append, List.count_append]
    refine Nat.add_le_add ih ?_
    cases (deribit parse config).state es with
    | none => exact Nat.zero_le _
    | some c => exact authentication_event c e

end

end MarketDataEngine
