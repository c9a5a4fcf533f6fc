import MarketDataEngine.Lib.Json.Write
import MarketDataEngine.OnMessage

/-!
# Trades messages

A message with trades should be harmless: one call of `on_trade` for each valid element, in their
order, whatever else is in the array, and no exception. The trade ids break this
(`isolated_fails`): `std::stoull` throws on a string that does not start with a number below 2^64.
`isolated_iff` is the exact condition: no valid element has such a string as its `trade_id`.
-/

namespace MarketDataEngine

open Json History MarketDataHandler

/-- The trade of an entry that is a call of `on_trade`, but for its id. -/
def Entry.trade? : Entry → Option Trade
  | .call (.trade t) => some { t with tradeId := 0 }
  | _ => none

@[simp] theorem trade?_trade (t : Trade) :
    Entry.trade? (.call (.trade t)) = some { t with tradeId := 0 } := rfl

@[simp] theorem trade?_l2Update (u : L2Update) : Entry.trade? (.call (.l2Update u)) = none := rfl

@[simp] theorem trade?_anomaly (f : FlushedEntry) : Entry.trade? (.anomaly f) = none := rfl

@[simp] theorem trade?_event (e : L3Event) : Entry.trade? (.event e) = none := rfl

/-- The calls of `on_trade` in a log, but for their trade ids. -/
def trades (log : List Entry) : List Trade := log.filterMap Entry.trade?

/-- The process goes on, and the trades made are those of the valid elements. -/
def Isolated (D : Doubles) (elements : List Json)
    (res : Option MarketDataHandler × List Entry) : Prop :=
  res.1.isSome ∧ trades res.2 = elements.filterMap (validTrade? D)

/-- The `trade_id` of the element is no string, or one that starts with a number below 2^64. -/
def HasId (element : Json) : Prop :=
  ∀ s, tradeIdString? element = some s → ∃ n, nat? (signAndDigits s).2 = some n ∧ n < 2 ^ 64

/-- An element has an id iff reading it throws nothing. -/
theorem hasId_iff (element : Json) : HasId element ↔ ∃ id, tradeId element = .ok id := by
  unfold HasId tradeId
  cases tradeIdString? element with
  | none => simp
  | some s => simpa using (stoull_ok_iff s).symm

section
variable {D : Doubles}

/-- A trade is valid before its id is read. -/
theorem validTrade?_tradeId {element : Json} {t : Trade} (h : validTrade? D element = some t) :
    t.tradeId = 0 := by
  simp only [validTrade?, Option.bind_eq_bind, Option.bind_eq_some_iff] at h
  obtain ⟨_, -, _, -, _, -, _, -, ht⟩ := h
  rw [← Option.some.inj ht]

/-- The calls are those of the valid elements iff all of these have ids. -/
theorem tradeCalls_iff (elements : List Json) :
    ((tradeCalls D elements).2 = none ∧
        (tradeCalls D elements).1.filterMap (Entry.trade? ∘ .call) =
          elements.filterMap (validTrade? D)) ↔
      ∀ e ∈ elements, (validTrade? D e).isSome → HasId e := by
  induction elements with
  | nil => simp [tradeCalls]
  | cons e es ih =>
    rw [List.forall_mem_cons, ← ih, hasId_iff, tradeCalls, List.filterMap_cons]
    cases hvalid : validTrade? D e with
    | none => simp
    | some t =>
      have hzero := validTrade?_tradeId hvalid
      cases hid : tradeId e with
      | error => simp
      | ok id =>
        have htrade : Entry.trade? (.call (.trade { t with tradeId := id })) = some t := by
          rw [trade?_trade, ← hzero]
        simp [htrade]

/-- The trades of one call. -/
theorem trades_step (h : MarketDataHandler) (call : Call) :
    trades (handler.step h call).2 = [call].filterMap (Entry.trade? ∘ .call) := by
  cases call with
  | trade t => rfl
  | l2Update u =>
    have hlog : (handler.step h (.l2Update u)).2 = .call (.l2Update u) ::
        ((h.correlator.onL2Update u).2.1.map .anomaly ++
          (h.correlator.onL2Update u).2.2.map .event) := rfl
    rw [hlog]
    generalize h.correlator.onL2Update u = out
    simp [trades, List.filterMap_cons]

/-- The handler logs the trades among its calls. -/
theorem trades_foldl (calls : List Call) (r : MarketDataHandler × List Entry) :
    trades (calls.foldl handler.advance r).2 =
      trades r.2 ++ calls.filterMap (Entry.trade? ∘ .call) := by
  induction calls generalizing r with
  | nil => simp
  | cons call calls ih =>
    have hstep : trades (handler.advance r call).2 =
        trades r.2 ++ trades (handler.step r.1 call).2 := List.filterMap_append
    rw [List.foldl_cons, ih, hstep, trades_step, List.append_assoc, ← List.filterMap_append]
    rfl

end

/-- **When bad trades are isolated**: iff no valid element has a `trade_id` that throws. -/
theorem isolated_iff (D : Doubles) (parse : List Char → Option Json) (h : MarketDataHandler)
    (recvTs : UInt64) (text : List Char) (doc : Json) (elements : List Json)
    (hparse : parse text = some doc)
    (hmethod : (doc.field? "method").bind str? = some "subscription".toList)
    (hdata : doc.path? ["params", "data"] = some (.arr elements)) :
    Isolated D elements (h.onMessage D parse recvTs text) ↔
      ∀ element ∈ elements, (validTrade? D element).isSome → HasId element := by
  obtain ⟨params, hparams, hfield⟩ := Option.bind_eq_some_iff.1 hdata
  have hobj : params.obj? = some params := by
    obtain ⟨data, hdata', -⟩ := Option.bind_eq_some_iff.1 hfield
    exact obj?_of_field? hdata'
  have hcalls : messageCalls D parse recvTs text = tradeCalls D elements := by
    have hsub : IsSubscription parse text := by
      rw [IsSubscription, hparse]
      exact hmethod
    have helements : (params.field? "data").bind arr? = some elements := by
      obtain ⟨data, hdata', hnil⟩ := Option.bind_eq_some_iff.1 hfield
      rw [hdata', Option.some.inj hnil]
      rfl
    rw [messageCalls, if_neg (not_not.2 hsub), hparse, Option.bind_some, hparams,
      Option.bind_some, hobj]
    simp only [helements]
  rw [← tradeCalls_iff, Isolated, onMessage, hcalls]
  dsimp only
  have htrades := (trades_foldl (tradeCalls D elements).1 (h, [])).trans (List.nil_append _)
  cases (tradeCalls D elements).2 with
  | none =>
    rw [← htrades]
    simp
  | some e => simp

/-- The doubles that are natural numbers. -/
def Doubles.natural : Doubles where
  Double := ℕ
  ofLiteral := nat?
  toPrice n := .ofNat (n * 10)
  toQty n := .ofNat n

/-- A notification with the elements as its data. -/
def notification (elements : List Json) : Json :=
  .obj [("method".toList, .str "subscription".toList),
    ("params".toList, .obj [("data".toList, .arr elements)])]

/-- A trade of 2 at the price 3. -/
def tradeElement (tradeId : String) : Json :=
  .obj [("timestamp".toList, .num "1".toList), ("price".toList, .num "3".toList),
    ("direction".toList, .str "buy".toList), ("amount".toList, .num "2".toList),
    ("trade_id".toList, .str tradeId.toList)]

/-- The numbers of an element are spelled as JSON numbers. -/
theorem tradeElement_spelled (tradeId : String) : NumbersSpelled (tradeElement tradeId) :=
  ⟨rfl, rfl, trivial, rfl, trivial, trivial⟩

/-- A notification is read back. -/
theorem parse_notification {elements : List Json} (h : ElemsSpelled elements) :
    Json.parse (write (notification elements)) = some (notification elements) :=
  parse_write ⟨trivial, ⟨h, trivial⟩, trivial⟩

/-- A trade, an element that is none, and an id with blanks, a sign and a letter after it. -/
theorem isolated_example : Isolated .natural [tradeElement "17", .null, tradeElement " -1x"]
    (({} : MarketDataHandler).onMessage .natural Json.parse 0
      (write (notification [tradeElement "17", .null, tradeElement " -1x"]))) := by
  refine (isolated_iff _ _ _ _ _ _ _ (parse_notification ?_) rfl rfl).2 ?_
  · exact ⟨tradeElement_spelled _, trivial, tradeElement_spelled _, trivial⟩
  · have hfirst : HasId (tradeElement "17") := (hasId_iff _).2 ⟨17, rfl⟩
    have hlast : HasId (tradeElement " -1x") := (hasId_iff _).2 ⟨-1, rfl⟩
    simp [hfirst, hlast, validTrade?, obj?, getDouble]

/-- A trade id with letters in front stops the engine. -/
theorem isolated_fails :
    Json.parse (write (notification [tradeElement "ETH-1"])) =
        some (notification [tradeElement "ETH-1"]) ∧
      ¬ Isolated .natural [tradeElement "ETH-1"]
        (({} : MarketDataHandler).onMessage .natural Json.parse 0
          (write (notification [tradeElement "ETH-1"]))) := by
  refine ⟨parse_notification ⟨tradeElement_spelled _, trivial⟩, fun h => absurd h.1 ?_⟩
  decide +kernel

end MarketDataEngine
