import MarketDataEngine.Lib.Json
import MarketDataEngine.Mirror

/-!
# Market data messages

`on_message` turns a subscription notification into calls of the correlator
(`src/utils/market_data_handler.cpp`): trades if its data is an array, and the levels of a book if
it is an object. The parser is a parameter, `parse`, and so is the arithmetic of doubles. simdjson
gives error codes for what a document does not have, so the one function that throws is
`std::stoull`; what it throws is not caught, and terminates the process at the `noexcept` boundary.
-/

namespace MarketDataEngine

open Json History

/-! ## `std::stoull` -/

/-- The exceptions that `std::stoull` throws. -/
inductive StdException
  | invalidArgument
  | outOfRange
  deriving DecidableEq, Repr

/-- The whitespace that `std::stoull` skips. -/
def isBlank (c : Char) : Bool := c = ' ' || (9 ≤ c.toNat && c.toNat ≤ 13)

/-- The number at the start of a string, after whitespace: if it has a minus, and its digits. -/
def signAndDigits (s : List Char) : Bool × List Char :=
  match s.dropWhile isBlank with
  | '-' :: s => (true, s.takeWhile Char.isDigit)
  | '+' :: s => (false, s.takeWhile Char.isDigit)
  | s => (false, s.takeWhile Char.isDigit)

/-- What follows the digits is not read, and a negative number wraps around. -/
def stoull (s : List Char) : Except StdException UInt64 :=
  let (negative, digits) := signAndDigits s
  match nat? digits with
  | none => .error .invalidArgument
  | some n =>
    if 2 ^ 64 ≤ n then .error .outOfRange else .ok (if negative then -.ofNat n else .ofNat n)

/-- `std::stoull` returns iff digits come first and their number fits. -/
theorem stoull_ok_iff (s : List Char) :
    (∃ id, stoull s = .ok id) ↔ ∃ n, nat? (signAndDigits s).2 = some n ∧ n < 2 ^ 64 := by
  unfold stoull
  dsimp only
  cases nat? (signAndDigits s).2 with
  | none => simp
  | some n =>
    dsimp only
    split
    · simpa using ‹_›
    · simpa using Nat.lt_of_not_le ‹_›

/-! ## Doubles -/

/-- The arithmetic of doubles: `get_double` on the spelling of a number, `to_price` and the cast to
a quantity. -/
structure Doubles where
  Double : Type
  ofLiteral : List Char → Option Double
  toPrice : Double → Price
  toQty : Double → Qty

namespace MarketDataHandler

section
variable (D : Doubles)

/-- `get_double`: the double of a number, and an error for any other value. -/
def getDouble (v : Option Json) : Option D.Double := (v.bind num?).bind D.ofLiteral

/-! ## Trades -/

/-- The trade of an element with a valid timestamp, price, direction and amount, but for its id. -/
def validTrade? (element : Json) : Option Trade := do
  let obj := element.obj?
  let ts ← (obj.bind (field? "timestamp")).bind int64?
  let price ← getDouble D (obj.bind (field? "price"))
  let direction ← (obj.bind (field? "direction")).bind str?
  let qty ← getDouble D (obj.bind (field? "amount"))
  some
    { ts := ts.toUInt64
      price := D.toPrice price
      qty := D.toQty qty
      aggressorSide := if direction = "buy".toList then .ask else .bid
      tradeId := 0 }

/-- The `trade_id` of an element, if that is a string. -/
def tradeIdString? (element : Json) : Option (List Char) :=
  (element.obj?.bind (field? "trade_id")).bind str?

/-- The id of a trade, or what `std::stoull` throws. -/
def tradeId (element : Json) : Except StdException UInt64 :=
  match tradeIdString? element with
  | none => .ok 0
  | some s => stoull s

/-- The calls for the elements up to one that throws, and what that throws. -/
def tradeCalls : List Json → List Call × Option StdException
  | [] => ([], none)
  | element :: elements =>
    match validTrade? D element with
    | none => tradeCalls elements
    | some trade =>
      match tradeId element with
      | .error e => ([], some e)
      | .ok id =>
        let (calls, escaped) := tradeCalls elements
        (.trade { trade with tradeId := id } :: calls, escaped)

/-! ## Books -/

/-- The call for an element of `bids` or `asks`. -/
def levelCall? (ts : Timestamp) (side : Side) (recvTs : UInt64) (element : Json) :
    Option Call := do
  let level ← element.arr?
  let action ← level[0]?.bind str?
  let price ← getDouble D level[1]?
  let qty ← getDouble D level[2]?
  some (.l2Update
    { ts := ts
      action := if action = "new".toList then .new
        else if action = "change".toList then .change else .delete
      price := D.toPrice price
      newQty := D.toQty qty
      side := side
      recvTs := recvTs })

/-- The calls for the levels of one side. -/
def processLevels (levels : Option Json) (ts : Timestamp) (side : Side) (recvTs : UInt64) :
    List Call :=
  match levels.bind arr? with
  | none => []
  | some elements => elements.filterMap (levelCall? D ts side recvTs)

/-- The calls for a book, bids first. -/
def bookCalls (data : Json) (recvTs : UInt64) : List Call :=
  match (data.field? "timestamp").bind int64? with
  | none => []
  | some ts =>
    processLevels D (data.field? "bids") ts.toUInt64 .bid recvTs ++
      processLevels D (data.field? "asks") ts.toUInt64 .ask recvTs

/-! ## Messages -/

variable (parse : List Char → Option Json)

/-- The top-level member `method` is the string `subscription`. -/
def IsSubscription (text : List Char) : Prop :=
  ((parse text).bind (field? "method")).bind str? = some "subscription".toList

instance (text : List Char) : Decidable (IsSubscription parse text) :=
  inferInstanceAs (Decidable (_ = _))

/-- The calls of a message, and the exception that ends them. -/
def messageCalls (recvTs : UInt64) (text : List Char) : List Call × Option StdException :=
  if ¬ IsSubscription parse text then ([], none)
  else
    match ((parse text).bind (field? "params")).bind obj? with
    | none => ([], none)
    | some params =>
      match (params.field? "data").bind arr? with
      | some elements => tradeCalls D elements
      | none =>
        match (params.field? "data").bind obj? with
        | some data => (bookCalls D data recvTs, none)
        | none => ([], none)

/-- `on_message`, received at `recvTs`: what the handler is then, if the process still runs, and the
log of the calls made. -/
def onMessage (h : MarketDataHandler) (recvTs : UInt64) (text : List Char) :
    Option MarketDataHandler × List Entry :=
  let (calls, escaped) := messageCalls D parse recvTs text
  let (h, log) := calls.foldl handler.advance (h, [])
  match escaped with
  | none => (some h, log)
  | some _ => (none, log)

end

end MarketDataHandler
end MarketDataEngine
