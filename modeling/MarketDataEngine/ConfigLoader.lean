import MarketDataEngine.Lib.Json.Write

/-!
# Loading the configuration

`load_config` reads the credentials, the connection settings and the subscriptions from a JSON file
(`src/utils/config_loader.cpp`). The parser is a parameter, `parse`, which gives the value of a text
or nothing, and the file is its content, or nothing if it cannot be opened.

Loading should undo storing. It does not for the connection settings (`loadConfig_fails`):
`reconnect_delay_ms` and `max_reconnect_attempts` are looked up, and then the heartbeat's value is
stored in their fields. `loadConfig_iff` is the exact condition, for every document that stores the
configuration; `document` is one of them.
-/

namespace MarketDataEngine

open Json

/-- The keys, and which network they are for. -/
structure Credentials where
  apiKey : List Char := []
  apiSecret : List Char := []
  useTestnet : Bool := true
  deriving DecidableEq, Repr

/-- The configuration, with its defaults. -/
structure DeribitConfig where
  credentials : Credentials := {}
  instruments : List (List Char) := []
  channels : List (List Char) := []
  heartbeatIntervalMs : Int64 := 10000
  reconnectDelayMs : Int64 := 2000
  maxReconnectAttempts : Int64 := 5
  deriving DecidableEq, Repr

namespace ConfigLoader

/-- The credentials of the section that `use_testnet` chooses. -/
def loadCredentials (deribit : Json) : Credentials :=
  let useTestnet := ((deribit.field? "use_testnet").bind bool?).getD true
  let envKey := if useTestnet then "testnet" else "mainnet"
  let env := (deribit.field? envKey).bind obj?
  { apiKey := ((env.bind (field? "api_key")).bind str?).getD []
    apiSecret := ((env.bind (field? "api_secret")).bind str?).getD []
    useTestnet := useTestnet }

/-- The connection settings. The values read for `reconnect_delay_ms` and `max_reconnect_attempts`
are not used. -/
def loadConnection (deribit : Json) (config : DeribitConfig) : DeribitConfig :=
  match (deribit.field? "connection").bind obj? with
  | none => config
  | some conn =>
    let heartbeat := (conn.field? "heartbeat_interval_ms").bind int64?
    let _reconnect := (conn.field? "reconnect_delay_ms").bind int64?
    let _maxAttempts := (conn.field? "max_reconnect_attempts").bind int64?
    { config with
      heartbeatIntervalMs := heartbeat.getD 10000
      reconnectDelayMs := heartbeat.getD 2000
      maxReconnectAttempts := heartbeat.getD 5 }

/-- The strings of an array of the subscriptions. -/
def loadStrings (subs : Option Json) (key : String) : List (List Char) :=
  match (subs.bind (field? key)).bind arr? with
  | none => []
  | some elems => elems.filterMap str?

/-- `load_config` of a file, if it can be read. -/
def loadConfig (parse : List Char → Option Json) (file : Option (List Char)) : DeribitConfig :=
  match file with
  | none => {}
  | some content =>
    match ((parse content).bind (field? "deribit")).bind obj? with
    | none => {}
    | some deribit =>
      let subs := (deribit.field? "subscriptions").bind obj?
      loadConnection deribit
        { credentials := loadCredentials deribit
          instruments := loadStrings subs "instruments"
          channels := loadStrings subs "channels" }

/-! ## Stored configurations -/

/-- The value at the path in the `deribit` section. -/
def setting (doc : Json) (keys : List String) : Option Json := doc.path? ("deribit" :: keys)

/-- A connection setting that is stored as an integer. -/
def connectionSetting (doc : Json) (key : String) : Option Int64 :=
  (setting doc ["connection", key]).bind int64?

/-- The document stores every field of the configuration under its own key, and the credentials in
the section that `use_testnet` chooses. A connection key that is missing or not an integer stands
for its field's default. -/
structure Stores (doc : Json) (c : DeribitConfig) : Prop where
  useTestnet : setting doc ["use_testnet"] = some (.bool c.credentials.useTestnet)
  apiKey : setting doc [if c.credentials.useTestnet then "testnet" else "mainnet", "api_key"] =
    some (.str c.credentials.apiKey)
  apiSecret : setting doc
    [if c.credentials.useTestnet then "testnet" else "mainnet", "api_secret"] =
    some (.str c.credentials.apiSecret)
  instruments : setting doc ["subscriptions", "instruments"] =
    some (.arr (c.instruments.map .str))
  channels : setting doc ["subscriptions", "channels"] = some (.arr (c.channels.map .str))
  heartbeat : (connectionSetting doc "heartbeat_interval_ms").getD 10000 = c.heartbeatIntervalMs
  reconnect : (connectionSetting doc "reconnect_delay_ms").getD 2000 = c.reconnectDelayMs
  maxAttempts : (connectionSetting doc "max_reconnect_attempts").getD 5 = c.maxReconnectAttempts

variable {parse : List Char → Option Json} {content : List Char} {doc : Json} {c : DeribitConfig}

/-- A list of strings is loaded as it is stored. -/
theorem loadStrings_eq {subs : Option Json} {key : String} {xs : List (List Char)}
    (h : subs.bind (field? key) = some (.arr (xs.map .str))) : loadStrings subs key = xs := by
  rw [loadStrings, h]
  simp [List.filterMap_map, Function.comp_def]

/-- A document that stores a configuration has a `deribit` section. -/
theorem Stores.exists_deribit (h : Stores doc c) : ∃ deribit, doc.field? "deribit" = some deribit ∧
    deribit.obj? = some deribit ∧ ∀ keys, setting doc keys = deribit.path? keys := by
  obtain ⟨deribit, hderibit, hfield⟩ := Option.bind_eq_some_iff.1 h.useTestnet
  obtain ⟨v, hv, -⟩ := Option.bind_eq_some_iff.1 hfield
  refine ⟨deribit, hderibit, obj?_of_field? hv, ?_⟩
  intro keys
  rw [setting, path?_cons, hderibit, Option.bind_some]

section
variable {deribit : Json} (hset : ∀ keys, setting doc keys = deribit.path? keys)
include hset

/-- The credentials are loaded as they are stored. -/
theorem loadCredentials_eq (h : Stores doc c) : loadCredentials deribit = c.credentials := by
  have htestnet : (deribit.field? "use_testnet").bind bool? = some c.credentials.useTestnet := by
    have := h.useTestnet
    rw [hset, path?_cons] at this
    obtain ⟨v, hv, hbool⟩ := Option.bind_eq_some_iff.1 this
    rw [hv, Option.some.inj hbool]
    rfl
  have hkey := h.apiKey
  have hsecret := h.apiSecret
  rw [hset, ← bind_obj?_bind_field?] at hkey hsecret
  unfold loadCredentials
  simp [htestnet, hkey, hsecret]

/-- The connection settings are all loaded from the heartbeat's. -/
theorem loadConnection_eq (h : Stores doc c) : loadConnection deribit
      { credentials := c.credentials, instruments := c.instruments, channels := c.channels } =
    { c with
      reconnectDelayMs := (connectionSetting doc "heartbeat_interval_ms").getD 2000
      maxReconnectAttempts := (connectionSetting doc "heartbeat_interval_ms").getD 5 } := by
  rw [← h.heartbeat]
  unfold loadConnection connectionSetting
  rw [hset, ← bind_obj?_bind_field?]
  cases (deribit.field? "connection").bind obj? with
  | none => rfl
  | some conn => rfl

end

/-- What is loaded from a document that stores a configuration: all of it, but for two fields. -/
theorem loadConfig_eq (hparse : parse content = some doc) (h : Stores doc c) :
    loadConfig parse (some content) =
      { c with
        reconnectDelayMs := (connectionSetting doc "heartbeat_interval_ms").getD 2000
        maxReconnectAttempts := (connectionSetting doc "heartbeat_interval_ms").getD 5 } := by
  obtain ⟨deribit, hderibit, hobj, hset⟩ := h.exists_deribit
  have hinstruments := h.instruments
  have hchannels := h.channels
  rw [hset, ← bind_obj?_bind_field?] at hinstruments hchannels
  unfold loadConfig
  simp only [hparse, Option.bind_some, hderibit, hobj, loadCredentials_eq hset h,
    loadStrings_eq hinstruments, loadStrings_eq hchannels, loadConnection_eq hset h]

/-! ## A stored configuration -/

/-- A document that stores the configuration. -/
def document (c : DeribitConfig) : Json :=
  .obj [("deribit".toList, .obj [
    ("use_testnet".toList, .bool c.credentials.useTestnet),
    ((if c.credentials.useTestnet then "testnet" else "mainnet").toList, .obj [
      ("api_key".toList, .str c.credentials.apiKey),
      ("api_secret".toList, .str c.credentials.apiSecret)]),
    ("connection".toList, .obj [
      ("heartbeat_interval_ms".toList, ofInt64 c.heartbeatIntervalMs),
      ("reconnect_delay_ms".toList, ofInt64 c.reconnectDelayMs),
      ("max_reconnect_attempts".toList, ofInt64 c.maxReconnectAttempts)]),
    ("subscriptions".toList, .obj [
      ("instruments".toList, .arr (c.instruments.map .str)),
      ("channels".toList, .arr (c.channels.map .str))])])]

/-- The document of a configuration stores it. -/
theorem stores_document (c : DeribitConfig) : Stores (document c) c := by
  obtain ⟨⟨_, _, useTestnet⟩, _, _, heartbeat, reconnect, maxAttempts⟩ := c
  cases useTestnet <;> constructor <;>
    simp [connectionSetting, setting, document, List.lookup_cons, int64?_ofInt64]

/-- Strings have no numbers in them. -/
theorem elemsSpelled_str (xs : List (List Char)) : ElemsSpelled (xs.map .str) := by
  induction xs with
  | nil => trivial
  | cons x xs ih => exact ⟨trivial, ih⟩

/-- The numbers of a configuration are spelled as JSON numbers. -/
theorem numbersSpelled_document (c : DeribitConfig) : NumbersSpelled (document c) := by
  simp [document, NumbersSpelled, MembersSpelled, elemsSpelled_str, ofInt64, isNumber_intLit]

/-- The document of a configuration is read back. -/
theorem parse_document (c : DeribitConfig) :
    Json.parse (write (document c)) = some (document c) :=
  parse_write (numbersSpelled_document c)

/-! ## When loading undoes storing -/

/-- The two settings that are loaded from the heartbeat's are the same as it, or the defaults if it
is missing. -/
def FollowHeartbeat (doc : Json) (c : DeribitConfig) : Prop :=
  (connectionSetting doc "heartbeat_interval_ms").getD 2000 = c.reconnectDelayMs ∧
    (connectionSetting doc "heartbeat_interval_ms").getD 5 = c.maxReconnectAttempts

instance (doc : Json) (c : DeribitConfig) : Decidable (FollowHeartbeat doc c) :=
  inferInstanceAs (Decidable (_ ∧ _))

/-- **When loading undoes storing**: iff `reconnect_delay_ms` and `max_reconnect_attempts` follow
the heartbeat's setting. -/
theorem loadConfig_iff (parse : List Char → Option Json) (content : List Char) (doc : Json)
    (c : DeribitConfig) (hparse : parse content = some doc) (h : Stores doc c) :
    loadConfig parse (some content) = c ↔ FollowHeartbeat doc c := by
  rw [loadConfig_eq hparse h]
  refine ⟨?_, ?_⟩
  · intro heq
    exact ⟨congrArg DeribitConfig.reconnectDelayMs heq,
      congrArg DeribitConfig.maxReconnectAttempts heq⟩
  · rintro ⟨hdelay, hattempts⟩
    rw [hdelay, hattempts]

/-- Three settings that are the same, and a key with a quote in it. -/
theorem loadConfig_example :
    let c : DeribitConfig :=
      { credentials := { apiKey := "k\"1".toList, useTestnet := false }
        instruments := ["BTC-PERPETUAL".toList, "ETH-PERPETUAL".toList]
        heartbeatIntervalMs := -30, reconnectDelayMs := -30, maxReconnectAttempts := -30 }
    loadConfig Json.parse (some (write (document c))) = c :=
  (loadConfig_iff Json.parse _ _ _ (parse_document _) (stores_document _)).2 (by decide +kernel)

/-- The stored defaults are not loaded back. -/
theorem loadConfig_fails :
    Stores (document {}) {} ∧ Json.parse (write (document {})) = some (document {}) ∧
      loadConfig Json.parse (some (write (document {}))) ≠ {} := by
  refine ⟨stores_document {}, parse_document {}, ?_⟩
  intro heq
  rw [loadConfig_eq (parse_document {}) (stores_document {})] at heq
  exact absurd (congrArg DeribitConfig.reconnectDelayMs heq) (by decide)

end ConfigLoader
end MarketDataEngine
