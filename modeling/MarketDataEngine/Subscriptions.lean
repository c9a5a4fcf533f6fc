import MarketDataEngine.DeribitClient.Step

/-!
# What `subscribed_` means

`subscribed_` should say that the client is authenticated and that every subscription it has
requested on this connection was answered. All requests share the id 42, and the first response
with a result sets the flag, even before an authentication (`confirmed_fails`). `subscribed_iff` is
what the two flags do mean, in every state: a response of their kind has been received since the
last close. And it says exactly which runs are as they should be: those in which the response that
sets the flag comes after an authentication, and as the last of the responses that are due.
-/

namespace MarketDataEngine

open Json History DeribitClient

namespace Effect

/-- The effect is a close. -/
def isClose : Effect → Bool
  | .closed => true
  | _ => false

/-- The effect is an open. -/
def isOpen : Effect → Bool
  | .opened => true
  | _ => false

/-- A `private/subscribe` request. -/
def request : Effect → ℕ
  | .sent (.subscription _) => 1
  | _ => 0

/-- A received response with the id 42 and a result. -/
def confirmation (parse : List Char → Option Json) : Effect → ℕ
  | .received text =>
    if ((parse text).bind (field? "id")).bind int64? = some 42 ∧
      ((parse text).bind (field? "result")).isSome then 1 else 0
  | _ => 0

end Effect

section
variable (parse : List Char → Option Json)

/-- A client that is subscribed is authenticated, and its requests since the last open have been
answered. -/
def Confirmed (c : DeribitClient) (log : List Effect) : Prop :=
  c.subscribed → c.authenticated ∧ tally Effect.request (since Effect.isOpen log) ≤
    tally (Effect.confirmation parse) (since Effect.isOpen log)

instance (c : DeribitClient) (log : List Effect) : Decidable (Confirmed parse c log) :=
  inferInstanceAs (Decidable (_ → _))

/-- A response that sets `subscribed_` finds the client authenticated, and is the last one due. -/
def Due (log : List Effect) (c : DeribitClient) : ClientEvent → Prop
  | .message text _ => SubResponse parse text → c.subscribed = false →
    c.authenticated ∧ tally Effect.request (since Effect.isOpen log) ≤
      tally (Effect.confirmation parse) (since Effect.isOpen log) + 1
  | _ => True

/-- What the flags say about the messages since the last close. -/
structure Flags (c : DeribitClient) (log : List Effect) : Prop where
  authenticated : c.authenticated ↔
    ∃ text, .received text ∈ since Effect.isClose log ∧ AuthResponse parse text
  subscribed : c.subscribed ↔
    ∃ text, .received text ∈ since Effect.isClose log ∧ SubResponse parse text

end

section
variable {parse : List Char → Option Json} {c c' : DeribitClient} {log out : List Effect}
  {text : List Char}

/-- The effect is no message, no close, no open and no subscription request. -/
def Effect.Neutral : Effect → Prop
  | .received _ | .closed | .opened | .sent (.subscription _) => False
  | _ => True

/-- What is neutral closes nothing. -/
theorem Effect.Neutral.isClose {e : Effect} (h : e.Neutral) : e.isClose = false := by
  cases e with
  | closed => cases h
  | _ => rfl

/-- What is neutral opens nothing. -/
theorem Effect.Neutral.isOpen {e : Effect} (h : e.Neutral) : e.isOpen = false := by
  cases e with
  | opened => cases h
  | _ => rfl

/-- What is neutral asks for no subscription. -/
theorem Effect.Neutral.request {e : Effect} (h : e.Neutral) : e.request = 0 := by
  cases e with
  | sent r => cases r with
    | subscription => cases h
    | _ => rfl
  | _ => rfl

/-- What all events but messages, opens and closes leave as it is. -/
structure Kept (c c' : DeribitClient) (out : List Effect) : Prop where
  authenticated : c'.authenticated = c.authenticated
  subscribed : c'.subscribed = c.subscribed
  neutral : ∀ e ∈ out, e.Neutral

/-- A neutral request has neutral effects, sent or dropped. -/
theorem DeribitClient.neutral_send (c : DeribitClient) (request : Request) (answer : Answer)
    (h : (Effect.sent request).Neutral) : ∀ e ∈ c.send request answer, e.Neutral := by
  rcases c.send_eq request answer with hsend | hsend <;> simp [hsend, h]

/-- The credentials are neutral. -/
theorem neutral_sendAuthentication (c : DeribitClient) (answer : Answer) :
    ∀ e ∈ c.sendAuthentication answer, e.Neutral :=
  c.neutral_send (.authentication _ _) answer trivial

/-- `connect` changes neither flag. -/
theorem kept_connect (answer : Answer) (hc' : (c.connect answer).1 = some c') :
    Kept c c' (c.connect answer).2 := by
  unfold DeribitClient.connect at hc' ⊢
  dsimp only at hc' ⊢
  split at hc' <;> rename_i hinitiated
  · obtain rfl := Option.some.inj hc'
    rw [if_pos hinitiated]
    exact ⟨rfl, rfl, List.forall_mem_nil _⟩
  · obtain ⟨ws, -, rfl⟩ := Option.map_eq_some_iff.1 hc'
    rw [if_neg hinitiated]
    exact ⟨rfl, rfl, List.forall_mem_singleton.2 trivial⟩

/-- An event that is no message, open or close changes neither flag. -/
theorem kept_event (e : ClientEvent) (hc' : (c.event parse e).1 = some c')
    (hmessage : ∀ text answers, e ≠ .message text answers) (hopened : ∀ answer, e ≠ .opened answer)
    (hclosed : e ≠ .closed) : Kept c c' (c.event parse e).2 := by
  cases e with
  | connect answer => exact kept_connect answer hc'
  | stop answer =>
    obtain rfl := Option.some.inj hc'
    refine ⟨rfl, rfl, List.forall_mem_append.2 ⟨?_, List.forall_mem_singleton.2 trivial⟩⟩
    split
    · exact List.forall_mem_singleton.2 trivial
    · exact List.forall_mem_nil _
  | opened answer => exact absurd rfl (hopened answer)
  | closed => exact absurd rfl hclosed
  | message text answers => exact absurd rfl (hmessage text answers)
  | failed | loopFailed | wake =>
    obtain rfl := Option.some.inj hc'
    exact ⟨rfl, rfl, List.forall_mem_nil _⟩
  | beat answer =>
    obtain rfl := Option.some.inj hc'
    refine ⟨rfl, rfl, ?_⟩
    simp only [event]
    split
    · exact c.neutral_send .heartbeat answer trivial
    · exact List.forall_mem_nil _

/-! ## The flags -/

/-- Effects that are no message and no close leave the flags as they are. -/
theorem Flags.append (h : Flags parse c log) (hauth : c'.authenticated = c.authenticated)
    (hsub : c'.subscribed = c.subscribed) (hclose : ∀ e ∈ out, e.isClose = false)
    (hmem : ∀ text, .received text ∉ out) : Flags parse c' (log ++ out) := by
  have hsince := since_append_of_none hclose log
  constructor
  · rw [hauth, h.authenticated, hsince]
    simp [hmem]
  · rw [hsub, h.subscribed, hsince]
    simp [hmem]

/-- What changes neither flag keeps their meaning. -/
theorem Flags.kept (h : Flags parse c log) (hkept : Kept c c' out) : Flags parse c' (log ++ out) :=
  h.append hkept.authenticated hkept.subscribed (fun e he => (hkept.neutral e he).isClose)
    fun _ hmem => hkept.neutral _ hmem

/-- A message adds to the flags what it is a response to. -/
theorem Flags.received (h : Flags parse c log)
    (hauth : c'.authenticated ↔ c.authenticated ∨ AuthResponse parse text)
    (hsub : c'.subscribed ↔ c.subscribed ∨ SubResponse parse text)
    (hclose : ∀ e ∈ out, e.isClose = false) (hmem : ∀ text, .received text ∉ out) :
    Flags parse c' (log ++ .received text :: out) := by
  have hsince := since_append_of_none
    (List.forall_mem_cons.2 ⟨(rfl : (Effect.received text).isClose = false), hclose⟩) log
  constructor
  · rw [hauth, h.authenticated, hsince]
    simp [hmem, or_and_right, exists_or]
  · rw [hsub, h.subscribed, hsince]
    simp [hmem, or_and_right, exists_or]

/-- A message keeps the meaning of the flags. -/
theorem Flags.message (h : Flags parse c log) (text : List Char) (answers : List Answer)
    (hc' : (c.handleMessage parse text answers).1 = some c') :
    Flags parse c' (log ++ .received text :: (c.handleMessage parse text answers).2) := by
  have hhandled := handleMessage_handled parse c text answers
  generalize c.handleMessage parse text answers = res at hhandled hc'
  cases hhandled with
  | authenticated response flag thread result requests =>
    obtain rfl := Option.some.inj hc'
    have hsub : ¬ SubResponse parse text := fun hsub => hsub.not_auth response
    refine h.received ?_ ?_ ?_ ?_
    · simp [authenticate, response]
    · simp [authenticate, withTokens, hsub]
    · simp [Effect.isClose]
    · simp
  | terminated => cases hc'
  | subscribed response flag =>
    obtain rfl := Option.some.inj hc'
    refine h.received ?_ ?_ ?_ ?_
    · simp [response.not_auth]
    · simp [response]
    · simp [Effect.isClose]
    · simp
  | forwarded mark =>
    obtain rfl := Option.some.inj hc'
    refine h.received ?_ ?_ ?_ ?_
    · exact ⟨.inl, fun h => h.elim id fun response => absurd mark response.1.1⟩
    · exact ⟨.inl, fun h => h.elim id fun response => absurd mark response.1.1⟩
    · simp [Effect.isClose]
    · simp
  | ignored mark auth sub =>
    obtain rfl := Option.some.inj hc'
    refine h.received ?_ ?_ ?_ ?_
    · exact ⟨.inl, fun h => h.elim id auth⟩
    · exact ⟨.inl, fun h => h.elim id sub⟩
    · simp
    · simp

/-- A close resets both flags. -/
theorem Flags.close (h : c'.authenticated = false ∧ c'.subscribed = false) (log : List Effect) :
    Flags parse c' (log ++ [.closed, .stateChanged false]) := by
  have hsince : since Effect.isClose (log ++ [.closed, .stateChanged false]) =
    [.stateChanged false] := since_append_cons rfl (by simp [Effect.isClose]) log
  constructor <;> simp [hsince, h]

/-- Every event keeps the meaning of the flags. -/
theorem Flags.event (h : Flags parse c log) (e : ClientEvent)
    (hc' : (c.event parse e).1 = some c') : Flags parse c' (log ++ (c.event parse e).2) := by
  cases e with
  | message text answers => exact h.message text answers hc'
  | closed =>
    obtain rfl := Option.some.inj hc'
    exact .close ⟨rfl, rfl⟩ log
  | opened answer =>
    obtain rfl := Option.some.inj hc'
    have hsent := neutral_sendAuthentication { c with wsClient := c.wsClient.onOpenHandler } answer
    refine h.append rfl rfl (List.forall_mem_cons.2 ⟨rfl, fun e he => (hsent e he).isClose⟩) ?_
    intro text hmem
    exact hsent _ ((List.mem_cons.1 hmem).resolve_left nofun)
  | connect | stop | failed | loopFailed | beat | wake =>
    exact h.kept (kept_event _ hc' (fun _ _ h => nomatch h) (fun _ h => nomatch h)
      (fun h => nomatch h))

/-! ## The requests -/

/-- What is neutral counts for no request. -/
theorem tally_request_neutral (hout : ∀ e ∈ out, e.Neutral) : tally Effect.request out = 0 :=
  tally_eq_zero fun e he => (hout e he).request

/-- What changes neither flag keeps what is confirmed. -/
theorem Confirmed.kept (h : Confirmed parse c log) (hkept : Kept c c' out) :
    Confirmed parse c' (log ++ out) := by
  intro hsub
  obtain ⟨hauth, hle⟩ := h (hkept.subscribed ▸ hsub)
  rw [hkept.authenticated, since_append_of_none fun e he => (hkept.neutral e he).isOpen,
    tally_append, tally_append, tally_request_neutral hkept.neutral]
  exact ⟨hauth, by omega⟩

/-- What came since the open, after a message. -/
theorem since_received (text : List Char) (hout : ∀ e ∈ out, e.Neutral) (log : List Effect) :
    since Effect.isOpen (log ++ .received text :: out) =
      since Effect.isOpen log ++ .received text :: out :=
  since_append_of_none (List.forall_mem_cons.2 ⟨rfl, fun e he => (hout e he).isOpen⟩) log

/-- A message that leaves the client as it is can only be one more confirmation. -/
theorem Confirmed.received (h : Confirmed parse c log) (hout : ∀ e ∈ out, e.Neutral) :
    Confirmed parse c (log ++ .received text :: out) := by
  intro hsub
  obtain ⟨hauth, hle⟩ := h hsub
  rw [since_received text hout, tally_append, tally_append, tally_cons, tally_cons,
    tally_request_neutral hout]
  exact ⟨hauth, by simp only [Effect.request]; omega⟩

/-- The response that sets the flag. -/
theorem confirmed_subscribed (response : SubResponse parse text) (flag : c.subscribed = false)
    (answers : List Answer) :
    Confirmed parse { c with subscribed := true } (log ++ [.received text, .subscribed]) ↔
      Due parse log c (.message text answers) := by
  have hconfirmation : Effect.confirmation parse (.received text) = 1 :=
    if_pos ⟨response.1.2, response.2⟩
  have hnone : Effect.confirmation parse .subscribed = 0 := rfl
  have hneutral : ∀ e ∈ [Effect.subscribed], e.Neutral := List.forall_mem_singleton.2 trivial
  unfold Confirmed Due
  rw [since_received text hneutral]
  simp [response, flag, hconfirmation, hnone, Effect.request]

/-- A message keeps what is confirmed iff it is due. -/
theorem confirmed_message (h : Confirmed parse c log) (text : List Char) (answers : List Answer) :
    (∀ c' ∈ (c.handleMessage parse text answers).1,
        Confirmed parse c' (log ++ .received text :: (c.handleMessage parse text answers).2)) ↔
      Due parse log c (.message text answers) := by
  have hhandled := handleMessage_handled parse c text answers
  generalize c.handleMessage parse text answers = res at hhandled
  cases hhandled with
  | authenticated response flag thread result requests =>
    refine iff_of_true ?_ fun hsub => absurd response hsub.not_auth
    rintro _ ⟨⟩ hsub
    have hauth := (h hsub).1
    exact nomatch flag.symm.trans hauth
  | terminated response =>
    refine iff_of_true ?_ fun hsub => absurd response hsub.not_auth
    rintro _ ⟨⟩
  | subscribed response flag =>
    rw [← confirmed_subscribed response flag answers]
    simp
  | forwarded mark =>
    refine iff_of_true ?_ fun hsub => absurd mark hsub.1.1
    rintro _ ⟨⟩
    exact h.received (List.forall_mem_singleton.2 trivial)
  | ignored mark auth sub =>
    refine iff_of_true ?_ fun hsub hflag => nomatch hflag.symm.trans (sub hsub)
    rintro _ ⟨⟩
    exact h.received (List.forall_mem_nil _)

/-- One event keeps the property iff a response that sets the flag is due. -/
theorem confirmed_event (h : Confirmed parse c log) (e : ClientEvent) :
    (∀ c' ∈ (c.event parse e).1, Confirmed parse c' (log ++ (c.event parse e).2)) ↔
      Due parse log c e := by
  cases e with
  | message text answers => exact confirmed_message h text answers
  | closed =>
    refine iff_of_true ?_ trivial
    rintro _ ⟨⟩ hsub
    cases hsub
  | opened answer =>
    refine iff_of_true ?_ trivial
    rintro _ ⟨⟩ hsub
    have hsent := neutral_sendAuthentication { c with wsClient := c.wsClient.onOpenHandler } answer
    refine ⟨(h hsub).1, ?_⟩
    simp only [event, onOpen]
    rw [since_append_cons rfl fun e he => (hsent e he).isOpen, tally_request_neutral hsent]
    exact Nat.zero_le _
  | connect | stop | failed | loopFailed | beat | wake =>
    refine iff_of_true (fun c' hc' => h.kept ?_) trivial
    exact kept_event _ hc' (fun _ _ h => nomatch h) (fun _ h => nomatch h) (fun h => nomatch h)

end

/-! ## Runs -/

section
variable (parse : List Char → Option Json) (config : DeribitConfig)

/-- An invariant of a client and its effects, as long as the process runs. -/
theorem flags_run (es : List ClientEvent) : ∀ c, (deribit parse config).state es = some c →
    Flags parse c ((deribit parse config).log es) := by
  induction es using List.reverseRecOn with
  | nil =>
    intro c hc
    obtain rfl := Option.some.inj hc
    exact ⟨by simp [new], by simp [new]⟩
  | append_singleton es e ih =>
    intro c' hc'
    rw [Machine.state_concat] at hc'
    rw [Machine.log_concat]
    cases hc : (deribit parse config).state es with
    | none =>
      rw [hc] at hc'
      cases hc'
    | some c =>
      rw [hc] at hc'
      exact (ih c hc).event e hc'

/-- A run whose client is subscribed only when its requests have been answered. -/
def ConfirmedRun (es : List ClientEvent) : Prop :=
  ∀ c ∈ (deribit parse config).state es, Confirmed parse c ((deribit parse config).log es)

/-- The condition on the events of a run. -/
def DueRun (pre : List ClientEvent) (e : ClientEvent) : Prop :=
  ∀ c ∈ (deribit parse config).state pre, Due parse ((deribit parse config).log pre) c e

/-- One more event keeps a run confirmed iff it is due. -/
theorem confirmedRun_concat {es : List ClientEvent} (h : ConfirmedRun parse config es)
    (e : ClientEvent) : ConfirmedRun parse config (es ++ [e]) ↔ DueRun parse config es e := by
  unfold ConfirmedRun DueRun at *
  rw [Machine.state_concat, Machine.log_concat]
  cases hc : (deribit parse config).state es with
  | none => simp [deribit]
  | some c =>
    rw [hc] at h
    refine (confirmed_event (h c rfl) e).trans ?_
    simp

/-- A run whose events are all due is confirmed. -/
theorem confirmedRun_of_due (es : List ClientEvent) (h : Always (DueRun parse config) es) :
    ConfirmedRun parse config es := by
  induction es using List.reverseRecOn with
  | nil =>
    rintro _ ⟨⟩ hsub
    cases hsub
  | append_singleton es e ih =>
    obtain ⟨hes, he⟩ := always_concat.1 h
    exact (confirmedRun_concat parse config (ih hes) e).2 he

/-- **What the flags mean**, and when `subscribed_` means that all requests were answered. -/
theorem subscribed_iff (es : List ClientEvent) :
    (∀ c ∈ (deribit parse config).state es, Flags parse c ((deribit parse config).log es)) ∧
      ((∀ pre, pre <+: es → ConfirmedRun parse config pre) ↔ Always (DueRun parse config) es) := by
  refine ⟨flags_run parse config es, ?_⟩
  refine forall_prefix_iff_always (confirmedRun_of_due parse config [] (always_nil _)) ?_ es
  intro pre e hpre
  exact confirmedRun_concat parse config (confirmedRun_of_due parse config pre hpre) e

end

/-- One response of two sets the flag, and so does one that nobody has asked for. -/
theorem confirmed_fails :
    ¬ ConfirmedRun Json.parse
        { instruments := ["BTC-PERPETUAL".toList, "ETH-PERPETUAL".toList]
          channels := ["trades.\x7binstrument\x7d.100ms".toList] }
        [.connect .ok, .opened .ok, .message "\x7b\"id\":1,\"result\":\x7b\x7d\x7d".toList [],
          .message "\x7b\"id\":42,\"result\":[]\x7d".toList []] ∧
      ¬ ConfirmedRun Json.parse {}
        [.connect .ok, .opened .ok, .message "\x7b\"id\":42,\"result\":[]\x7d".toList []] := by
  unfold ConfirmedRun
  decide +kernel

end MarketDataEngine
