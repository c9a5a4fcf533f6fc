import MarketDataEngine.ConfigLoader
import MarketDataEngine.WebSocketClient

/-!
# The Deribit client

`DeribitClient` authenticates, subscribes and tells market data from responses
(`src/utils/deribit_client.cpp`). The parser is a parameter, `parse`, and what websocketpp answers
to a call or to the requests of a callback comes with it. An operation returns what others see of
it as a list of `Effect`s, and no client if it terminates the process. A callback that is not set
does nothing, so the effects have the calls of the message and state callbacks in any case. The
wait of `connect` only reads the state and is left out.
-/

namespace MarketDataEngine

open Json

/-- The requests of the client. -/
inductive Request
  | authentication (apiKey apiSecret : List Char)
  | subscription (channels : List (List Char))
  | heartbeat
  deriving DecidableEq, Repr

/-- The channels of a subscription, each in quotes, with commas between. -/
def channelsText : List (List Char) → List Char
  | [] => []
  | [channel] => "\"".toList ++ channel ++ "\"".toList
  | channel :: channels => "\"".toList ++ channel ++ "\",".toList ++ channelsText channels

/-- The text of a request, pasted together from its parts. -/
def Request.text : Request → List Char
  | .authentication apiKey apiSecret =>
    "\x7b\"jsonrpc\":\"2.0\",\"id\":1,\"method\":\"public/auth\",\"params\":\x7b".toList ++
      "\"grant_type\":\"client_credentials\",\"client_id\":\"".toList ++ apiKey ++
      "\",\"client_secret\":\"".toList ++ apiSecret ++ "\"\x7d\x7d".toList
  | .subscription channels =>
    "\x7b\"jsonrpc\":\"2.0\",\"id\":42,\"method\":\"private/subscribe\",".toList ++
      "\"params\":\x7b\"channels\":[".toList ++ channelsText channels ++ "]\x7d\x7d".toList
  | .heartbeat =>
    "\x7b\"jsonrpc\":\"2.0\",\"id\":9929,\"method\":\"public/set_heartbeat\",".toList ++
      "\"params\":\x7b\"interval\":10\x7d\x7d".toList

/-- What others see of the client. -/
inductive Effect
  /-- `connect` has initiated a connection, and starts the thread of the event loop. -/
  | initiated
  | opened
  | closed
  | received (message : List Char)
  | sent (request : Request)
  /-- A call of the message callback. -/
  | forwarded (message : List Char)
  | authenticated
  | subscribed
  /-- A call of the state callback. -/
  | stateChanged (connected : Bool)
  | heartbeatStarted
  | heartbeatJoined
  | stopped (answer : Answer)
  deriving DecidableEq, Repr

/-- The client: its configuration, its socket, its two flags and its heartbeat thread. -/
structure DeribitClient where
  wsClient : WebSocketClient := {}
  config : DeribitConfig
  authenticated : Bool := false
  subscribed : Bool := false
  accessToken : List Char := []
  refreshToken : List Char := []
  expiresIn : Int64 := 0
  heartbeatThread : Thread := .none
  heartbeatRunning : Bool := false
  deriving DecidableEq, Repr

namespace DeribitClient

/-- The constructor. `setup_callbacks` passes the settings on. -/
def new (config : DeribitConfig) : DeribitClient :=
  { config := config
    wsClient :=
      ({} : WebSocketClient).setReconnectSetting config.maxReconnectAttempts.toInt32
        config.reconnectDelayMs }

/-! ## Requests -/

/-- A request that the socket takes is sent, and any other is dropped. -/
def send (c : DeribitClient) (request : Request) (answer : Answer) : List Effect :=
  if c.wsClient.send answer then [.sent request] else []

/-- `send_authentication`, with the credentials of the configuration. -/
def sendAuthentication (c : DeribitClient) (answer : Answer) : List Effect :=
  c.send (.authentication c.config.credentials.apiKey c.config.credentials.apiSecret) answer

/-- Replaces the first occurrence of the pattern. -/
def replaceFirst (pattern replacement : List Char) : List Char → List Char
  | [] => []
  | c :: cs =>
    if pattern.isPrefixOf (c :: cs) then replacement ++ (c :: cs).drop pattern.length
    else c :: replaceFirst pattern replacement cs

/-- `build_channel_name`: the first placeholder of the template is replaced. -/
def buildChannelName (channelTemplate instrument : List Char) : List Char :=
  replaceFirst "\x7binstrument\x7d".toList instrument channelTemplate

/-- `send_subscription` of some channels. -/
def sendSubscription (c : DeribitClient) (channels : List (List Char)) (answer : Answer) :
    List Effect :=
  if !c.authenticated then [] else c.send (.subscription channels) answer

/-- `subscribe_orderbook`: the channels of one instrument in one request. -/
def subscribeOrderbook (c : DeribitClient) (instrument : List Char) (answer : Answer) :
    List Effect :=
  c.sendSubscription (c.config.channels.map (buildChannelName · instrument)) answer

/-- A subscription for each instrument. -/
def subscribeAll (c : DeribitClient) : List (List Char) → List Answer → List Effect
  | [], _ => []
  | instrument :: instruments, answers =>
    c.subscribeOrderbook instrument (answers.headD .ok) ++ c.subscribeAll instruments answers.tail

/-- `send_heartbeat`. -/
def sendHeartbeat (c : DeribitClient) (answer : Answer) : List Effect := c.send .heartbeat answer

/-! ## Messages -/

/-- The new thread runs before the old one is given up. -/
def setupHeartbeat (c : DeribitClient) : Option DeribitClient × List Effect :=
  let c := { c with heartbeatRunning := true }
  (c.heartbeatThread.assign.map fun thread => { c with heartbeatThread := thread },
    [.heartbeatStarted])

/-- The client with the tokens of an authentication response, as far as it has them. -/
def withTokens (c : DeribitClient) (result : Json) : DeribitClient :=
  { c with
    accessToken := ((result.field? "access_token").bind str?).getD c.accessToken
    refreshToken := ((result.field? "refresh_token").bind str?).getD c.refreshToken
    expiresIn := ((result.field? "expires_in").bind int64?).getD c.expiresIn }

section
variable (parse : List Char → Option Json)

/-- `handle_auth_response`, or nothing if its thread terminates the process. -/
def handleAuthResponse (c : DeribitClient) (message : List Char) (answers : List Answer) :
    Option DeribitClient × List Effect :=
  match ((parse message).bind (field? "result")).bind obj? with
  | none => (some c, [])
  | some result =>
    let c := { c.withTokens result with authenticated := true }
    match c.setupHeartbeat with
    | (none, out) => (none, .authenticated :: .stateChanged true :: out)
    | (some c, out) =>
      (some c, .authenticated :: .stateChanged true :: out ++
        c.subscribeAll c.config.instruments answers)

/-- `handle_subscription_response`: any result confirms the subscriptions. -/
def handleSubscriptionResponse (c : DeribitClient) (message : List Char) :
    DeribitClient × List Effect :=
  match (parse message).bind (field? "result") with
  | none => (c, [])
  | some _ => ({ c with subscribed := true }, [.subscribed])

/-- The text that `handle_message` takes for the mark of a subscription notification. -/
def subscriptionMark : List Char := "\"method\":\"subscription\"".toList

/-- `handle_message`: a text with the mark is forwarded, and of the others a response is handled by
its id. -/
def handleMessage (c : DeribitClient) (message : List Char) (answers : List Answer) :
    Option DeribitClient × List Effect :=
  if subscriptionMark <:+: message then (some c, [.forwarded message])
  else
    match ((parse message).bind (field? "id")).bind int64? with
    | none => (some c, [])
    | some id =>
      if id = 1 ∧ !c.authenticated then c.handleAuthResponse parse message answers
      else if id = 42 ∧ !c.subscribed then
        let (c, out) := c.handleSubscriptionResponse parse message
        (some c, out)
      else (some c, [])

end

/-! ## Callbacks -/

/-- The callback on an open: the credentials are sent. -/
def onOpen (c : DeribitClient) (answer : Answer) : DeribitClient × List Effect :=
  let c := { c with wsClient := c.wsClient.onOpenHandler }
  (c, .opened :: c.sendAuthentication answer)

/-- The callback on a close: both flags fall. -/
def onClose (c : DeribitClient) : DeribitClient × List Effect :=
  ({ c with wsClient := c.wsClient.onCloseHandler, authenticated := false, subscribed := false },
    [.closed, .stateChanged false])

/-! ## Calls -/

/-- The address of the network that the configuration chooses. -/
def baseUrl (c : DeribitClient) : String :=
  if c.config.credentials.useTestnet then "wss://test.deribit.com/ws/api/v2"
  else "wss://www.deribit.com/ws/api/v2"

/-- `connect`: a connection is initiated and the thread of the event loop started. -/
def connect (c : DeribitClient) (answer : Answer) : Option DeribitClient × List Effect :=
  let (ws, initiated) := c.wsClient.connect c.baseUrl answer
  if !initiated then (some { c with wsClient := ws }, [])
  else (ws.runAsync.map fun ws => { c with wsClient := ws }, [.initiated])

/-- `stop`: the heartbeat is joined, then the socket stopped. -/
def stop (c : DeribitClient) (answer : Answer) : DeribitClient × List Effect :=
  ({ c with
      heartbeatRunning := false
      heartbeatThread := c.heartbeatThread.join
      wsClient := c.wsClient.stop answer },
    (if c.heartbeatThread = .joinable then [.heartbeatJoined] else []) ++ [.stopped answer])

end DeribitClient

/-! ## Runs -/

/-- What happens to the client, in any order: calls, callbacks on the thread of the event loop, a
turn of the heartbeat loop after its sleep, and the end of a sleep of `handle_reconnect`. -/
inductive ClientEvent
  | connect (answer : Answer)
  | stop (answer : Answer)
  | opened (answer : Answer)
  | closed
  | failed
  | message (text : List Char) (answers : List Answer)
  | loopFailed
  | beat (answer : Answer)
  | wake (answer : Answer)
  deriving DecidableEq, Repr

namespace DeribitClient

/-- What the client does when something happens to it. -/
def event (parse : List Char → Option Json) (c : DeribitClient) :
    ClientEvent → Option DeribitClient × List Effect
  | .connect answer => c.connect answer
  | .stop answer => let (c, out) := c.stop answer; (some c, out)
  | .opened answer => let (c, out) := c.onOpen answer; (some c, out)
  | .closed => let (c, out) := c.onClose; (some c, out)
  | .failed => (some { c with wsClient := c.wsClient.onFailHandler }, [])
  | .message text answers =>
    let (c, out) := c.handleMessage parse text answers; (c, .received text :: out)
  | .loopFailed => (some { c with wsClient := c.wsClient.runFailed }, [])
  | .beat answer =>
    (some c, if c.heartbeatThread = .joinable ∧ c.authenticated then c.sendHeartbeat answer else [])
  | .wake answer =>
    (some { c with wsClient := if c.wsClient.asleep then c.wsClient.wake answer else c.wsClient },
      [])

end DeribitClient
end MarketDataEngine
