import Mathlib.Tactic.Common

/-!
# The websocket client

`WebSocketClient` keeps the state of one connection (`src/utils/websocket_client.cpp`). websocketpp
is outside of the model: an operation that asks it for something takes its `Answer`, and the
handlers are called in an order that the model leaves open. `handle_reconnect` sleeps on the thread
of the event loop while other threads go on, so it is two functions, `handleReconnect` up to the
sleep and `wake` after it.
-/

namespace MarketDataEngine

/-- What websocketpp does when it is asked for something. -/
inductive Answer
  | ok
  | error
  deriving DecidableEq, Repr

/-- `ConnectionState`. `reconnected` is the state that `handle_reconnect` leaves before it sleeps.
-/
inductive ConnectionState
  | disconnected
  | connecting
  | connected
  | reconnected
  | failed
  deriving DecidableEq, Repr

/-- A `std::unique_ptr<std::thread>`. A thread that has ended stays joinable until it is joined. -/
inductive Thread
  | none
  | joinable
  | joined
  deriving DecidableEq, Repr

/-- Puts a new thread in the place of the owned one, or terminates the process if that is still
joinable. -/
def Thread.assign : Thread → Option Thread
  | .joinable => Option.none
  | .none | .joined => some .joinable

/-- A thread that is not joinable is replaced. -/
theorem Thread.assign_of_ne {t : Thread} (h : t ≠ .joinable) : t.assign = some .joinable := by
  cases t with
  | none | joined => rfl
  | joinable => exact absurd rfl h

/-- `if(thread && thread->joinable()) thread->join()`. -/
def Thread.join : Thread → Thread
  | .none => .none
  | .joinable | .joined => .joined

/-- The client: its connection, the thread of its event loop and its reconnection, with their
defaults. -/
structure WebSocketClient where
  state : ConnectionState := .disconnected
  uri : String := ""
  backgroundThread : Thread := .none
  shouldStop : Bool := false
  maxReconnectAttempts : Int32 := 5
  reconnectDelayMs : Int64 := 1000
  reconnectAttempts : Int32 := 0
  /-- The event loop sleeps in `handle_reconnect`. -/
  asleep : Bool := false
  deriving DecidableEq, Repr

namespace WebSocketClient

/-! ## Calls -/

/-- `connect`, and whether it returns true. -/
def connect (c : WebSocketClient) (uri : String) (answer : Answer) : WebSocketClient × Bool :=
  if c.state ≠ .disconnected then (c, false)
  else
    let c := { c with uri := uri, state := .connecting }
    match answer with
    | .error => ({ c with state := .failed }, false)
    | .ok => (c, true)

/-- `disconnect`: a connected client is disconnected, and reconnects no more. -/
def disconnect (c : WebSocketClient) : WebSocketClient :=
  let c := { c with shouldStop := true }
  -- what `close` answers is only printed
  if c.state = .connected then { c with state := .disconnected } else c

/-- Whether `send` hands the message over. -/
def send (c : WebSocketClient) (answer : Answer) : Bool :=
  if c.state ≠ .connected then false
  else
    match answer with
    | .error => false
    | .ok => true

/-- `set_reconnect_setting`. -/
def setReconnectSetting (c : WebSocketClient) (maxAttempts : Int32) (delayMs : Int64) :
    WebSocketClient :=
  { c with maxReconnectAttempts := maxAttempts, reconnectDelayMs := delayMs }

/-- `run` when the event loop throws. -/
def runFailed (c : WebSocketClient) : WebSocketClient := { c with state := .failed }

/-- `run_async`, or nothing if it terminates the process. -/
def runAsync (c : WebSocketClient) : Option WebSocketClient :=
  c.backgroundThread.assign.map fun thread => { c with backgroundThread := thread }

/-- `stop`: the event loop is stopped and its thread joined. -/
def stop (c : WebSocketClient) (answer : Answer) : WebSocketClient :=
  let c := { c with shouldStop := true }
  match answer with
  -- `client_->stop()` throws before the join
  | .error => c
  | .ok => { c with backgroundThread := c.backgroundThread.join }

/-! ## Handlers -/

/-- `handle_reconnect` up to its sleep. -/
def handleReconnect (c : WebSocketClient) : WebSocketClient :=
  if c.shouldStop then c
  else
    let attempts := c.reconnectAttempts
    let c := { c with reconnectAttempts := attempts + 1 }
    if attempts ≥ c.maxReconnectAttempts then { c with state := .failed }
    else { c with state := .reconnected, asleep := true }

/-- `handle_reconnect` after its sleep. `reset_connection` catches what websocketpp throws and
changes none of the fields. -/
def wake (c : WebSocketClient) (answer : Answer) : WebSocketClient :=
  let c := { c with asleep := false }
  if c.shouldStop then c else (c.connect c.uri answer).1

/-- `on_open_handler`: the attempts are counted anew. -/
def onOpenHandler (c : WebSocketClient) : WebSocketClient :=
  { c with state := .connected, reconnectAttempts := 0 }

/-- `on_close_handler`. -/
def onCloseHandler (c : WebSocketClient) : WebSocketClient :=
  let c := { c with state := .disconnected }
  if !c.shouldStop && decide (c.reconnectAttempts < c.maxReconnectAttempts) then c.handleReconnect
  else c

/-- `on_fail_handler`. -/
def onFailHandler (c : WebSocketClient) : WebSocketClient :=
  let c := { c with state := .failed }
  if !c.shouldStop && decide (c.reconnectAttempts < c.maxReconnectAttempts) then c.handleReconnect
  else c

/-! ## What the operations change -/

section
variable (c : WebSocketClient) (uri : String) (answer : Answer)

/-- `connect` initiates a connection iff the client is disconnected and websocketpp agrees. -/
theorem connect_snd : (c.connect uri answer).2 = true ↔
    c.state = .disconnected ∧ answer = .ok := by
  unfold connect
  split
  · simp_all
  · cases answer <;> simp_all

/-- `connect` changes the address and the state, and nothing else. -/
theorem connect_frame : ∃ uri' state',
    (c.connect uri answer).1 = { c with uri := uri', state := state' } := by
  unfold connect
  split
  · exact ⟨c.uri, c.state, rfl⟩
  · cases answer <;> exact ⟨uri, _, rfl⟩

/-- `connect` starts no thread. -/
@[simp] theorem connect_backgroundThread :
    (c.connect uri answer).1.backgroundThread = c.backgroundThread := by
  obtain ⟨_, _, h⟩ := c.connect_frame uri answer
  rw [h]

/-- `connect` takes no stop back. -/
@[simp] theorem connect_shouldStop :
    (c.connect uri answer).1.shouldStop = c.shouldStop := by
  obtain ⟨_, _, h⟩ := c.connect_frame uri answer
  rw [h]

/-- `connect` neither ends a sleep nor starts one. -/
@[simp] theorem connect_asleep :
    (c.connect uri answer).1.asleep = c.asleep := by
  obtain ⟨_, _, h⟩ := c.connect_frame uri answer
  rw [h]

/-- `handle_reconnect` changes the counter, the state and whether the event loop sleeps. -/
theorem handleReconnect_frame : ∃ attempts' state' asleep', c.handleReconnect =
    { c with reconnectAttempts := attempts', state := state', asleep := asleep' } := by
  unfold handleReconnect
  split
  · exact ⟨c.reconnectAttempts, c.state, c.asleep, rfl⟩
  · dsimp only
    split
    · exact ⟨_, .failed, c.asleep, rfl⟩
    · exact ⟨_, .reconnected, true, rfl⟩

/-- `handle_reconnect` starts no thread. -/
@[simp] theorem handleReconnect_backgroundThread :
    c.handleReconnect.backgroundThread = c.backgroundThread := by
  obtain ⟨_, _, _, h⟩ := c.handleReconnect_frame
  rw [h]

/-- `handle_reconnect` takes no stop back. -/
@[simp] theorem handleReconnect_shouldStop : c.handleReconnect.shouldStop = c.shouldStop := by
  obtain ⟨_, _, _, h⟩ := c.handleReconnect_frame
  rw [h]

/-- A second thread in the place of a joinable one terminates the process. -/
theorem runAsync_of_joinable (h : c.backgroundThread = .joinable) : c.runAsync = none := by
  rw [runAsync, h]
  rfl

/-- Otherwise the thread of the event loop is joinable from then on. -/
theorem runAsync_of_ne (h : c.backgroundThread ≠ .joinable) :
    c.runAsync = some { c with backgroundThread := .joinable } := by
  rw [runAsync, Thread.assign_of_ne h]
  rfl

/-- `on_close_handler` starts no thread. -/
@[simp] theorem onCloseHandler_backgroundThread :
    c.onCloseHandler.backgroundThread = c.backgroundThread := by
  simp [onCloseHandler, apply_ite]

/-- `on_fail_handler` starts no thread. -/
@[simp] theorem onFailHandler_backgroundThread :
    c.onFailHandler.backgroundThread = c.backgroundThread := by
  simp [onFailHandler, apply_ite]

/-- The end of a sleep starts no thread. -/
@[simp] theorem wake_backgroundThread :
    (c.wake answer).backgroundThread = c.backgroundThread := by
  unfold wake
  dsimp only
  split
  · rfl
  · rw [connect_backgroundThread]

end

end WebSocketClient
end MarketDataEngine
