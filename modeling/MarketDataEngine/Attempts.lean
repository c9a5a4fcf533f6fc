import MarketDataEngine.Lib.Simulation
import MarketDataEngine.Reconnect

/-!
# The reconnection budget

`reconnect_attempts_` counts the attempts since a connection was last open. Both handlers that call
`handle_reconnect` have compared it with the setting before, so `handle_reconnect` never finds that
no attempt is left (`handleReconnect_of_lt`), and the counter cannot pass the setting or overflow
(`Budget`). So in a run that starts with the setting no more attempts are made between two opens
than it allows, and after a `stop` or a `disconnect` none is made again (`attempts_le`).
-/

namespace MarketDataEngine

open History WebSocketClient

/-- The event changes the reconnection setting. -/
def SocketEvent.Sets : SocketEvent → Prop
  | .setReconnectSetting .. => True
  | _ => False

/-- The event is a `stop` or a `disconnect`. -/
def SocketEvent.Stops : SocketEvent → Prop
  | .stop _ | .disconnect => True
  | _ => False

/-- `n` attempts and the one that is slept for have been counted, and the setting allows them. -/
structure Budget (maxAttempts : Int32) (n : ℕ) (c : WebSocketClient) : Prop where
  setting : c.maxReconnectAttempts = maxAttempts
  counted : (n : ℤ) + (if c.asleep then 1 else 0) ≤ c.reconnectAttempts.toInt
  allowed : c.reconnectAttempts.toInt ≤ max 0 maxAttempts.toInt

section
variable {maxAttempts : Int32} {n : ℕ} {c : WebSocketClient}

/-- An integer below another one has a successor that does not overflow. -/
theorem toInt_succ {a b : Int32} (h : a < b) : (a + 1).toInt = a.toInt + 1 := by
  have hlt := Int32.lt_iff_toInt_lt.1 h
  have hmax := b.toInt_lt
  have hmin := a.le_toInt
  have hone : (1 : Int32).toInt = 1 := rfl
  rw [Int32.toInt_add, hone]
  exact Int.bmod_eq_of_le (by omega) (by omega)

/-- `handle_reconnect` as the handlers call it. -/
theorem handleReconnect_of_lt (hstop : c.shouldStop = false)
    (hlt : c.reconnectAttempts < c.maxReconnectAttempts) : c.handleReconnect =
      { c with
        reconnectAttempts := c.reconnectAttempts + 1
        state := .reconnected
        asleep := true } := by
  have hnot : ¬ c.reconnectAttempts ≥ c.maxReconnectAttempts := by
    rw [ge_iff_le, Int32.le_iff_toInt_le, Int.not_le]
    exact Int32.lt_iff_toInt_lt.1 hlt
  rw [handleReconnect, if_neg (by simp [hstop])]
  exact if_neg hnot

/-- The counter is never negative. -/
theorem Budget.nonneg (h : Budget maxAttempts n c) : 0 ≤ c.reconnectAttempts.toInt := by
  have hcounted := h.counted
  omega

/-- The attempts counted so far may be left out. -/
theorem Budget.weaken (h : Budget maxAttempts n c) : Budget maxAttempts 0 c := by
  obtain ⟨hsetting, hcounted, hallowed⟩ := h
  exact ⟨hsetting, by omega, hallowed⟩

/-- What a handler does when a connection is lost. -/
theorem Budget.lost (h : Budget maxAttempts n c) (hawake : c.asleep = false) :
    Budget maxAttempts n
      (if !c.shouldStop && decide (c.reconnectAttempts < c.maxReconnectAttempts)
        then c.handleReconnect else c) := by
  obtain ⟨hsetting, hcounted, hallowed⟩ := h
  split
  · rename_i hcondition
    rw [Bool.and_eq_true, Bool.not_eq_true', decide_eq_true_iff] at hcondition
    obtain ⟨hstop, hlt⟩ := hcondition
    have hsucc := toInt_succ hlt
    have hlt' := Int32.lt_iff_toInt_lt.1 hlt
    rw [handleReconnect_of_lt hstop hlt]
    rw [hsetting] at hlt'
    simp only [hawake, Bool.false_eq_true, if_false] at hcounted
    refine ⟨hsetting, ?_, ?_⟩
    · simp only [if_true, hsucc]
      omega
    · simp only [hsucc]
      omega
  · exact ⟨hsetting, hcounted, hallowed⟩

/-- A handler keeps the budget if it does so while the event loop is awake. -/
theorem Budget.awake (h : Budget maxAttempts n c) {handler : WebSocketClient → WebSocketClient}
    (hhandler : c.asleep = false → Budget maxAttempts n (handler c)) :
    Budget maxAttempts n (c.awake handler) := by
  unfold WebSocketClient.awake
  split
  · exact h
  · exact hhandler (Bool.eq_false_iff.2 ‹_›)

/-- `connect` keeps the budget. -/
theorem Budget.connect (h : Budget maxAttempts n c) (uri : String) (answer : Answer) :
    Budget maxAttempts n (c.connect uri answer).1 := by
  obtain ⟨_, _, hframe⟩ := c.connect_frame uri answer
  rw [hframe]
  exact ⟨h.setting, h.counted, h.allowed⟩

/-- An attempt has been counted before it is made. -/
theorem Budget.wake (h : Budget maxAttempts n c) (answer : Answer) :
    Budget maxAttempts (n + (c.attempt (.wake answer)).length) (c.event (.wake answer)) := by
  obtain ⟨hsetting, hcounted, hallowed⟩ := h
  simp only [attempt, event]
  cases hasleep : c.asleep with
  | false =>
    simp only [hasleep, Bool.false_and, Bool.false_eq_true, if_false] at hcounted ⊢
    exact ⟨hsetting, by simpa [hasleep] using hcounted, hallowed⟩
  | true =>
    simp only [hasleep, if_true] at hcounted
    have hbudget : Budget maxAttempts (n + 1) { c with asleep := false } :=
      ⟨hsetting, by simpa using hcounted, hallowed⟩
    cases hstop : c.shouldStop with
    | true =>
      have hwake : c.wake answer = { c with asleep := false } := if_pos hstop
      rw [if_pos rfl, hwake]
      exact ⟨hsetting, by simp; omega, hallowed⟩
    | false =>
      have hwake : c.wake answer =
        (({ c with asleep := false } : WebSocketClient).connect c.uri answer).1 :=
          if_neg (by simp [hstop])
      rw [if_pos rfl, hwake]
      exact hbudget.connect c.uri answer

/-- An event that does not open a connection keeps the budget. -/
theorem Budget.event (h : Budget maxAttempts n c) (e : SocketEvent) (hset : ¬ e.Sets)
    (hopen : e = .opened → n = 0) :
    Budget maxAttempts (n + (c.attempt e).length) (c.event e) := by
  cases e with
  | connect uri answer => exact h.connect uri answer
  | disconnect =>
    simp only [WebSocketClient.event, disconnect]
    split <;> exact ⟨h.setting, h.counted, h.allowed⟩
  | setReconnectSetting => exact absurd trivial hset
  | stop answer => cases answer <;> exact ⟨h.setting, h.counted, h.allowed⟩
  | opened =>
    obtain rfl := hopen rfl
    exact h.awake fun hawake => ⟨h.setting, by simp [onOpenHandler, hawake], Int.le_max_left _ _⟩
  | closed =>
    refine h.awake fun hawake => Budget.lost (c := { c with state := .disconnected }) ?_ hawake
    exact ⟨h.setting, h.counted, h.allowed⟩
  | failed =>
    refine h.awake fun hawake => Budget.lost (c := { c with state := .failed }) ?_ hawake
    exact ⟨h.setting, h.counted, h.allowed⟩
  | runFailed => exact h.awake fun _ => ⟨h.setting, h.counted, h.allowed⟩
  | wake answer => exact h.wake answer

/-- The attempts of a run without an open are within the budget. -/
theorem Budget.run (h : Budget maxAttempts n c) (es : List SocketEvent) (hset : ∀ e ∈ es, ¬ e.Sets)
    (hopen : .opened ∉ es) :
    Budget maxAttempts (n + (socket.run c es).2.length) (socket.run c es).1 := by
  induction es generalizing n c with
  | nil => exact h
  | cons e es ih =>
    obtain ⟨he, hes⟩ := List.forall_mem_cons.1 hset
    rw [List.mem_cons, not_or] at hopen
    have hstep := h.event e he fun heq => absurd heq.symm hopen.1
    rw [Machine.run_cons, List.length_append, ← Nat.add_assoc]
    exact ih hstep hes hopen.2

/-- A client whose setting is not changed is within its budget. -/
theorem budget_state (delayMs : Int64) (es : List SocketEvent) (hset : ∀ e ∈ es, ¬ e.Sets) :
    Budget maxAttempts 0 (socket.state (.setReconnectSetting maxAttempts delayMs :: es)) := by
  induction es using List.reverseRecOn with
  | nil => exact ⟨rfl, Int.le_refl 0, Int.le_max_left _ _⟩
  | append_singleton es e ih =>
    obtain ⟨hes, he⟩ := List.forall_mem_append.1 hset
    rw [← List.cons_append, Machine.state_concat]
    exact ((ih hes).event e (he e (List.mem_singleton_self e)) fun _ => rfl).weaken

/-! ## Stops -/

/-- A stopped client makes no attempt. -/
theorem attempt_of_stopped (h : c.shouldStop) (e : SocketEvent) : c.attempt e = [] := by
  cases e with
  | wake answer => simp [attempt, h]
  | _ => rfl

/-- Nothing takes a stop back. -/
theorem stopped_event (h : c.shouldStop) (e : SocketEvent) : (c.event e).shouldStop := by
  cases e with
  | connect uri answer => rwa [event, connect_shouldStop]
  | disconnect =>
    simp only [event, disconnect]
    split <;> rfl
  | stop answer => cases answer <;> rfl
  | setReconnectSetting => exact h
  | opened | closed | failed | runFailed =>
    simp only [event, WebSocketClient.awake]
    split
    · exact h
    · simp [onOpenHandler, onCloseHandler, onFailHandler, runFailed, h]
  | wake answer =>
    simp only [event]
    split
    · simp [wake, h]
    · exact h

/-- A run of a stopped client makes no attempt. -/
theorem stopped_run (h : c.shouldStop) (es : List SocketEvent) : (socket.run c es).2 = [] := by
  induction es generalizing c with
  | nil => rfl
  | cons e es ih =>
    have hattempt : (socket.step c e).2 = [] := attempt_of_stopped h e
    rw [Machine.run_cons, hattempt, List.nil_append]
    exact ih (stopped_event h e)

/-- A client that was stopped anywhere in a run is stopped. -/
theorem stopped_state {es : List SocketEvent} (h : ∃ e ∈ es, e.Stops) :
    (socket.state es).shouldStop := by
  induction es using List.reverseRecOn with
  | nil => simp at h
  | append_singleton es e ih =>
    rw [Machine.state_concat]
    obtain ⟨e', hmem, hstops⟩ := h
    rcases List.mem_append.1 hmem with hmem | hmem
    · exact stopped_event (ih ⟨e', hmem, hstops⟩) e
    · obtain rfl := List.mem_singleton.1 hmem
      cases e' with
      | stop answer => cases answer <;> rfl
      | disconnect =>
        show (disconnect _).shouldStop
        unfold disconnect
        dsimp only
        split <;> rfl
      | _ => cases hstops

end

/-- **The reconnection budget.** In a run that starts with the setting, as `DeribitClient` makes it,
and does not change it later, however often connections are lost and in whatever order things
happen: no more attempts are made without an open between them than the setting allows, none if that
is negative; the counter stays between zero and the setting, so it does not overflow; and after a
`stop` or a `disconnect` no attempt is made at all. -/
theorem attempts_le (maxAttempts : Int32) (delayMs : Int64) (pre mid : List SocketEvent)
    (hset : ∀ e ∈ pre ++ mid, ¬ e.Sets) :
    let c := socket.state (.setReconnectSetting maxAttempts delayMs :: pre)
    (.opened ∉ mid → (socket.run c mid).2.length ≤ maxAttempts.toInt.toNat) ∧
      (0 ≤ (socket.run c mid).1.reconnectAttempts.toInt ∧
        (socket.run c mid).1.reconnectAttempts.toInt ≤ max 0 maxAttempts.toInt) ∧
      ((∃ e ∈ pre, e.Stops) → (socket.run c mid).2 = []) := by
  obtain ⟨hpre, hmid⟩ := List.forall_mem_append.1 hset
  refine ⟨?_, ?_, ?_⟩
  · intro hopen
    have hbudget : Budget maxAttempts 0 _ := budget_state delayMs pre hpre
    obtain ⟨-, hcounted, hallowed⟩ := hbudget.run mid hmid hopen
    split at hcounted <;> omega
  · have hbudget : Budget maxAttempts 0 _ := budget_state delayMs (pre ++ mid) hset
    rw [← List.cons_append, Machine.state_append] at hbudget
    exact ⟨hbudget.nonneg, hbudget.allowed⟩
  · rintro ⟨e, hmem, hstops⟩
    exact stopped_run (stopped_state ⟨e, List.mem_cons_of_mem _ hmem, hstops⟩) mid

/-- Three losses and two attempts; and a stop while the event loop sleeps. -/
theorem attempts_le_example :
    let opened : List SocketEvent := [.connect "wss://test.deribit.com/ws/api/v2" .ok, .opened]
    let c := socket.state (.setReconnectSetting 2 100 :: opened)
    let lost := socket.run c [.closed, .wake .ok, .failed, .wake .error, .closed, .wake .ok]
    let stopped := socket.state (.setReconnectSetting 2 100 :: (opened ++ [.closed, .stop .ok]))
    (lost.2.length ≤ (2 : Int32).toInt.toNat ∧ 0 ≤ lost.1.reconnectAttempts.toInt ∧
        lost.1.reconnectAttempts.toInt ≤ max 0 (2 : Int32).toInt) ∧
      (socket.run stopped [.wake .ok, .closed, .wake .ok, .disconnect]).2 = [] := by
  intro opened c lost stopped
  obtain ⟨hattempts, hcounter, -⟩ := attempts_le 2 100 opened
    [.closed, .wake .ok, .failed, .wake .error, .closed, .wake .ok]
    (by simp [opened, SocketEvent.Sets])
  obtain ⟨-, -, hstop⟩ := attempts_le 2 100 (opened ++ [.closed, .stop .ok])
    [.wake .ok, .closed, .wake .ok, .disconnect] (by simp [opened, SocketEvent.Sets])
  exact ⟨⟨hattempts (by simp), hcounter⟩, hstop ⟨.stop .ok, by simp, trivial⟩⟩

end MarketDataEngine
