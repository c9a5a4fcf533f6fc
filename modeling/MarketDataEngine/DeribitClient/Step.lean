import MarketDataEngine.DeribitClient
import MarketDataEngine.Lib.History

/-!
# What a message can do

`Handled` is all that a message can do to the client, one constructor for each way it goes: an
authentication response is accepted and starts a heartbeat, or terminates the process where a
heartbeat is still there; a subscription response is accepted; or nothing but a forward happens.
`handleMessage_handled` proves it of the code. `deribit` is the client as a machine.
-/

namespace MarketDataEngine

open Json History

namespace DeribitClient

variable {parse : List Char → Option Json} {c c' : DeribitClient} {text : List Char}
  {answers : List Answer}

/-- The message is handled as a response with the id. -/
def IsResponse (parse : List Char → Option Json) (id : Int64) (text : List Char) : Prop :=
  ¬ subscriptionMark <:+: text ∧ ((parse text).bind (field? "id")).bind int64? = some id

/-- An authentication response that is accepted. -/
def AuthResponse (parse : List Char → Option Json) (text : List Char) : Prop :=
  IsResponse parse 1 text ∧ (((parse text).bind (field? "result")).bind obj?).isSome

/-- A subscription response with a result. -/
def SubResponse (parse : List Char → Option Json) (text : List Char) : Prop :=
  IsResponse parse 42 text ∧ ((parse text).bind (field? "result")).isSome

instance (id : Int64) : Decidable (IsResponse parse id text) := inferInstanceAs (Decidable (_ ∧ _))

instance : Decidable (AuthResponse parse text) := inferInstanceAs (Decidable (_ ∧ _))

instance : Decidable (SubResponse parse text) := inferInstanceAs (Decidable (_ ∧ _))

/-- A response has one id. -/
theorem IsResponse.id_eq {id id' : Int64} (h : IsResponse parse id text)
    (h' : IsResponse parse id' text) : id = id' :=
  Option.some.inj (h.2.symm.trans h'.2)

/-- No response is one to both requests. -/
theorem SubResponse.not_auth (h : SubResponse parse text) : ¬ AuthResponse parse text := by
  intro hauth
  exact absurd (h.1.id_eq hauth.1) (by decide)

/-- The client after an authentication response. -/
def authenticate (c : DeribitClient) (result : Json) : DeribitClient :=
  { c.withTokens result with
    authenticated := true
    heartbeatRunning := true
    heartbeatThread := .joinable }

/-- What a message can do to the client, and its effects. -/
inductive Handled (parse : List Char → Option Json) (c : DeribitClient) (text : List Char) :
    Option DeribitClient × List Effect → Prop
  | authenticated (response : AuthResponse parse text) (flag : c.authenticated = false)
      (thread : c.heartbeatThread ≠ .joinable) (result : Json) (requests : List Request) :
      Handled parse c text (some (c.authenticate result),
        [.authenticated, .stateChanged true, .heartbeatStarted] ++ requests.map .sent)
  | terminated (response : AuthResponse parse text) (flag : c.authenticated = false)
      (thread : c.heartbeatThread = .joinable) :
      Handled parse c text (none, [.authenticated, .stateChanged true, .heartbeatStarted])
  | subscribed (response : SubResponse parse text) (flag : c.subscribed = false) :
      Handled parse c text (some { c with subscribed := true }, [.subscribed])
  | forwarded (mark : subscriptionMark <:+: text) :
      Handled parse c text (some c, [.forwarded text])
  | ignored (mark : ¬ subscriptionMark <:+: text) (auth : AuthResponse parse text → c.authenticated)
      (sub : SubResponse parse text → c.subscribed) : Handled parse c text (some c, [])

/-- A send hands over one request or none. -/
theorem send_eq (c : DeribitClient) (request : Request) (answer : Answer) :
    c.send request answer = [] ∨ c.send request answer = [.sent request] := by
  unfold send
  split
  · exact .inr rfl
  · exact .inl rfl

/-- `subscribe_orderbook` sends requests only. -/
theorem subscribeOrderbook_eq (c : DeribitClient) (instrument : List Char) (answer : Answer) :
    ∃ requests : List Request, c.subscribeOrderbook instrument answer = requests.map .sent := by
  unfold subscribeOrderbook sendSubscription
  split
  · exact ⟨[], rfl⟩
  · rcases c.send_eq (.subscription _) answer with h | h
    · exact ⟨[], h⟩
    · exact ⟨[_], h⟩

/-- The subscriptions of an authentication are nothing but requests. -/
theorem subscribeAll_eq (c : DeribitClient) (instruments : List (List Char))
    (answers : List Answer) :
    ∃ requests : List Request, c.subscribeAll instruments answers = requests.map .sent := by
  induction instruments generalizing answers with
  | nil => exact ⟨[], rfl⟩
  | cons instrument instruments ih =>
    obtain ⟨first, hfirst⟩ := c.subscribeOrderbook_eq instrument (answers.headD .ok)
    obtain ⟨rest, hrest⟩ := ih answers.tail
    exact ⟨first ++ rest, by rw [subscribeAll, hfirst, hrest, List.map_append]⟩

/-- A second heartbeat terminates the process. -/
theorem setupHeartbeat_of_joinable (c : DeribitClient) (h : c.heartbeatThread = .joinable) :
    c.setupHeartbeat = (none, [.heartbeatStarted]) := by
  simp [setupHeartbeat, h, Thread.assign]

/-- The first heartbeat makes its thread joinable. -/
theorem setupHeartbeat_of_ne (c : DeribitClient) (h : c.heartbeatThread ≠ .joinable) :
    c.setupHeartbeat = (some { c with heartbeatRunning := true, heartbeatThread := .joinable },
      [.heartbeatStarted]) := by
  simp [setupHeartbeat, Thread.assign_of_ne h]

/-- A response with a result authenticates, or terminates the process. -/
theorem handleAuthResponse_accepted (response : AuthResponse parse text)
    (flag : c.authenticated = false) (answers : List Answer) :
    Handled parse c text (c.handleAuthResponse parse text answers) := by
  obtain ⟨result, hresult⟩ := Option.isSome_iff_exists.1 response.2
  unfold handleAuthResponse
  simp only [hresult]
  by_cases hthread : c.heartbeatThread = .joinable
  · rw [setupHeartbeat_of_joinable { c.withTokens result with authenticated := true } hthread]
    exact .terminated response flag hthread
  · rw [setupHeartbeat_of_ne { c.withTokens result with authenticated := true } hthread]
    obtain ⟨requests, hrequests⟩ :=
      subscribeAll_eq (c.authenticate result) c.config.instruments answers
    have hhandled := Handled.authenticated response flag hthread result requests
    rw [← hrequests] at hhandled
    exact hhandled

/-- A response to the authentication is handled in one of the ways. -/
theorem handleAuthResponse_handled (hid : IsResponse parse 1 text) (flag : c.authenticated = false)
    (answers : List Answer) : Handled parse c text (c.handleAuthResponse parse text answers) := by
  by_cases response : AuthResponse parse text
  · exact handleAuthResponse_accepted response flag answers
  · have hresult : ((parse text).bind (field? "result")).bind obj? = none :=
      Option.not_isSome_iff_eq_none.1 fun hsome => response ⟨hid, hsome⟩
    rw [handleAuthResponse, hresult]
    refine .ignored hid.1 (fun hauth => absurd hauth response) ?_
    intro hsub
    exact absurd (hid.id_eq hsub.1) (by decide)

/-- A response to a subscription is handled in one of the ways. -/
theorem handleSubscriptionResponse_handled (hid : IsResponse parse 42 text)
    (flag : c.subscribed = false) :
    Handled parse c text (some (c.handleSubscriptionResponse parse text).1,
      (c.handleSubscriptionResponse parse text).2) := by
  unfold handleSubscriptionResponse
  cases hresult : (parse text).bind (field? "result") with
  | some result => exact .subscribed ⟨hid, by rw [hresult]; rfl⟩ flag
  | none =>
    refine .ignored hid.1 ?_ ?_
    · intro hauth
      exact absurd (hid.id_eq hauth.1) (by decide)
    · intro hsub
      exact nomatch hsub.2.symm.trans (congrArg Option.isSome hresult)

/-- Every message is handled in one of the ways. -/
theorem handleMessage_handled (parse : List Char → Option Json) (c : DeribitClient)
    (text : List Char) (answers : List Answer) :
    Handled parse c text (c.handleMessage parse text answers) := by
  unfold handleMessage
  split
  · exact .forwarded ‹_›
  rename_i hmark
  cases hid : ((parse text).bind (field? "id")).bind int64? with
  | none =>
    refine .ignored hmark ?_ ?_
    · intro hauth
      exact nomatch hid.symm.trans hauth.1.2
    · intro hsub
      exact nomatch hid.symm.trans hsub.1.2
  | some id =>
    have hresponse : IsResponse parse id text := ⟨hmark, hid⟩
    dsimp only
    split
    · rename_i h
      obtain ⟨rfl, hflag⟩ := h
      exact handleAuthResponse_handled hresponse (by simpa using hflag) answers
    rename_i hnotAuth
    split
    · rename_i h
      obtain ⟨rfl, hflag⟩ := h
      exact handleSubscriptionResponse_handled hresponse (by simpa using hflag)
    · rename_i hnotSub
      refine .ignored hmark ?_ ?_
      · intro hauth
        simpa [hresponse.id_eq hauth.1] using hnotAuth
      · intro hsub
        simpa [hresponse.id_eq hsub.1] using hnotSub

end DeribitClient

/-- The client as a machine. It has no state once the process is terminated. -/
def deribit (parse : List Char → Option Json) (config : DeribitConfig) :
    Machine (Option DeribitClient) ClientEvent Effect where
  init := some (.new config)
  step
    | none, _ => (none, [])
    | some c, e => c.event parse e

end MarketDataEngine
