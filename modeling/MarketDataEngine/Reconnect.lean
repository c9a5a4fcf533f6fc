import MarketDataEngine.WebSocketClient
import MarketDataEngine.Lib.History

/-!
# Reconnection attempts

When a connection is lost and attempts remain, `handle_reconnect` should start a new one: the client
is then connecting, or failed if websocketpp reports an error. It never does (`started_fails`):
`handle_reconnect` leaves the state `RECONNECTED` behind and `connect` wants `DISCONNECTED`, so the
nested `connect` returns at its guard and the client stays idle. `started_iff` says that a run is as
it should be only if no attempt is made in it.
-/

namespace MarketDataEngine

open History

/-- What happens to the client: calls of its user, handlers on the thread of the event loop, and the
end of that thread's sleep. -/
inductive SocketEvent
  | connect (uri : String) (answer : Answer)
  | disconnect
  | setReconnectSetting (maxAttempts : Int32) (delayMs : Int64)
  | stop (answer : Answer)
  | opened
  | closed
  | failed
  | runFailed
  | wake (answer : Answer)
  deriving DecidableEq, Repr

/-- A return of `handle_reconnect` from an attempt, with the state it leaves. -/
structure Attempt where
  answer : Answer
  returned : ConnectionState
  deriving DecidableEq, Repr

/-- The attempt has started a new connection, or websocketpp has reported an error for it. -/
def Attempt.Started (a : Attempt) : Prop :=
  a.returned = .connecting ∨ (a.returned = .failed ∧ a.answer = .error)

instance (a : Attempt) : Decidable a.Started := inferInstanceAs (Decidable (_ ∨ _))

namespace WebSocketClient

/-- The event is the end of a sleep with `should_stop_` still false. -/
def Attempts (c : WebSocketClient) : SocketEvent → Prop
  | .wake _ => c.asleep ∧ c.shouldStop = false
  | _ => False

/-- A handler runs on the thread of the event loop, so none runs while that sleeps. -/
def awake (c : WebSocketClient) (handler : WebSocketClient → WebSocketClient) : WebSocketClient :=
  if c.asleep then c else handler c

/-- What the client does when something happens to it. -/
def event (c : WebSocketClient) : SocketEvent → WebSocketClient
  | .connect uri answer => (c.connect uri answer).1
  | .disconnect => c.disconnect
  | .setReconnectSetting maxAttempts delayMs => c.setReconnectSetting maxAttempts delayMs
  | .stop answer => c.stop answer
  | .opened => c.awake onOpenHandler
  | .closed => c.awake onCloseHandler
  | .failed => c.awake onFailHandler
  | .runFailed => c.awake runFailed
  | .wake answer => if c.asleep then c.wake answer else c

/-- The attempt that the event makes, if any. -/
def attempt (c : WebSocketClient) : SocketEvent → List Attempt
  | .wake answer =>
    if c.asleep && !c.shouldStop then [{ answer := answer, returned := (c.wake answer).state }]
    else []
  | _ => []

end WebSocketClient

/-- The client over what happens to it, with its attempts. -/
def socket : Machine WebSocketClient SocketEvent Attempt where
  init := {}
  step c e := (c.event e, c.attempt e)

open WebSocketClient

/-- A client whose event loop sleeps is in the state that `handle_reconnect` has left. -/
def Dozing (c : WebSocketClient) : Prop := c.asleep → c.state = .reconnected

/-- A client that is awake is in any state. -/
theorem dozing_of_awake {c : WebSocketClient} (h : c.asleep = false) : Dozing c := by
  intro hasleep
  rw [h] at hasleep
  cases hasleep

/-- `handle_reconnect` leaves its state before it sleeps. -/
theorem dozing_handleReconnect {c : WebSocketClient} (h : c.asleep = false) :
    Dozing c.handleReconnect := by
  unfold handleReconnect
  split
  · exact dozing_of_awake h
  · dsimp only
    split
    · exact dozing_of_awake h
    · exact fun _ => rfl

/-- Both handlers reconnect only if the condition allows it. -/
theorem dozing_ite (c : WebSocketClient) (h : c.asleep = false) (allowed : Bool) :
    Dozing (if allowed then c.handleReconnect else c) := by
  cases allowed with
  | true => exact dozing_handleReconnect h
  | false => exact dozing_of_awake h

/-- A handler keeps the state of a sleep, as it runs awake. -/
theorem Dozing.awake {c : WebSocketClient} (h : Dozing c)
    {handler : WebSocketClient → WebSocketClient}
    (hhandler : c.asleep = false → Dozing (handler c)) : Dozing (c.awake handler) := by
  unfold WebSocketClient.awake
  split
  · exact h
  · exact hhandler (Bool.eq_false_iff.2 ‹_›)

/-- `connect` stops at its guard while the event loop sleeps. -/
theorem Dozing.connect_eq {c : WebSocketClient} (h : Dozing c) (hasleep : c.asleep) (uri : String)
    (answer : Answer) : c.connect uri answer = (c, false) := by
  have hstate : c.state ≠ .disconnected := by simp [h hasleep]
  rw [WebSocketClient.connect, if_pos hstate]

/-- No event ends a sleep in another state. -/
theorem dozing_event (c : WebSocketClient) (e : SocketEvent) (h : Dozing c) :
    Dozing (c.event e) := by
  cases e with
  | connect uri answer =>
    intro hasleep
    rw [event, connect_asleep] at hasleep
    rw [event, h.connect_eq hasleep]
    exact h hasleep
  | disconnect =>
    unfold event disconnect
    dsimp only
    split
    · intro hasleep
      have hstate := h hasleep
      simp_all
    · exact h
  | setReconnectSetting => exact h
  | stop answer => cases answer <;> exact h
  | opened => exact h.awake fun hawake => dozing_of_awake hawake
  | closed => exact h.awake fun hawake => dozing_ite { c with state := .disconnected } hawake _
  | failed => exact h.awake fun hawake => dozing_ite { c with state := .failed } hawake _
  | runFailed => exact h.awake fun hawake => dozing_of_awake hawake
  | wake answer =>
    show Dozing (if c.asleep then c.wake answer else c)
    split
    · unfold wake
      dsimp only
      split
      · exact dozing_of_awake rfl
      · exact dozing_of_awake (connect_asleep _ _ _)
    · exact h

/-- A client that sleeps is in the state of its sleep. -/
theorem dozing_state (es : List SocketEvent) : Dozing (socket.state es) :=
  socket.state_invariant (fun hasleep => nomatch hasleep) dozing_event es

/-- **A sleep ends idle**: the nested `connect` finds the state `RECONNECTED`. -/
theorem Dozing.wake_state {c : WebSocketClient} (h : Dozing c) (hasleep : c.asleep)
    (answer : Answer) : (c.wake answer).state = .reconnected := by
  have hstate := h hasleep
  simp [wake, WebSocketClient.connect, hstate]

/-- What an event adds to the log is started only if it adds nothing. -/
theorem Dozing.attempt_iff {c : WebSocketClient} (h : Dozing c) (e : SocketEvent) :
    (∀ a ∈ c.attempt e, a.Started) ↔ ¬ c.Attempts e := by
  cases e with
  | wake answer =>
    show (∀ a ∈ if c.asleep && !c.shouldStop then [_] else [], _) ↔
      ¬ (c.asleep ∧ c.shouldStop = false)
    split <;> rename_i hattempt <;> rw [Bool.and_eq_true, Bool.not_eq_true'] at hattempt
    · have hidle := h.wake_state hattempt.1 answer
      simp [hattempt, hidle, Attempt.Started]
    · simp [hattempt]
  | connect | disconnect | setReconnectSetting | stop | opened | closed | failed | runFailed =>
    simp [attempt, Attempts]

/-- **When every attempt is started**: only if no attempt is made. -/
theorem started_iff (es : List SocketEvent) :
    (∀ a ∈ socket.log es, a.Started) ↔
      Always (fun pre e => ¬ (socket.state pre).Attempts e) es := by
  induction es using List.reverseRecOn with
  | nil => simp
  | append_singleton es e ih =>
    rw [Machine.log_concat, always_concat, List.forall_mem_append, ih]
    exact and_congr_right fun _ => (dozing_state es).attempt_iff e

/-- The first attempt after a connection is closed leaves the client idle. -/
theorem started_fails : ¬ ∀ a ∈ socket.log
    [.connect "wss://test.deribit.com/ws/api/v2" .ok, .opened, .closed, .wake .ok], a.Started := by
  decide

end MarketDataEngine
