import MarketDataEngine.Lib.History
import MarketDataEngine.Lib.Fifo
import MarketDataEngine.Lib.MapWeight
import MarketDataEngine.Lib.Commute
import MarketDataEngine.Lib.Simulation
import MarketDataEngine.Lib.Rounding
import MarketDataEngine.Types
import MarketDataEngine.ShadowBook
import MarketDataEngine.Consume
import MarketDataEngine.TradeBuffer
import MarketDataEngine.Correlator
import MarketDataEngine.Correlator.Step
import MarketDataEngine.Run
import MarketDataEngine.L3OrderTracker
import MarketDataEngine.Effects
import MarketDataEngine.Replay
import MarketDataEngine.Mirror
import MarketDataEngine.Lifecycle
import MarketDataEngine.Noninterference
import MarketDataEngine.Interleavings
import MarketDataEngine.Trades
import MarketDataEngine.Attribution
import MarketDataEngine.Priority
import MarketDataEngine.Decreases
import MarketDataEngine.Levels
import MarketDataEngine.Arithmetic
import MarketDataEngine.Conservation
import MarketDataEngine.Accounts
import MarketDataEngine.Lib.Json
import MarketDataEngine.Lib.Json.Lex
import MarketDataEngine.Lib.Json.Parse
import MarketDataEngine.ConfigLoader
import MarketDataEngine.Lib.Json.Spelling
import MarketDataEngine.Lib.Json.Write
import MarketDataEngine.Lib.Json.Decimal
import MarketDataEngine.Reconnect
import MarketDataEngine.Attempts
import MarketDataEngine.DeribitClient
import MarketDataEngine.Lib.Json.Paste
import MarketDataEngine.Lib.Json.Prefix
import MarketDataEngine.Requests
import MarketDataEngine.DeribitClient.Step
import MarketDataEngine.Threads
import MarketDataEngine.Subscriptions
import MarketDataEngine.OnMessage
import MarketDataEngine.TradeMessages
import MarketDataEngine.Filters
import MarketDataEngine.Messages
import MarketDataEngine.Prices
import MarketDataEngine.Notifications
import MarketDataEngine.Connections
import MarketDataEngine.Program
import MarketDataEngine.Sessions
import MarketDataEngine.Startup
import MarketDataEngine.EventCount
import MarketDataEngine.Resting
import MarketDataEngine.LevelMachine
import MarketDataEngine.SideTracker
import MarketDataEngine.Waiting
