import MarketDataEngine.DeribitClient.Step
import MarketDataEngine.Lib.Json.Spelling
import MarketDataEngine.Lib.Json.Write
import MarketDataEngine.OnMessage

/-!
# The two message filters

`handle_message` forwards a text in which it finds `"method":"subscription"`, and `on_message`
processes a document whose top-level member `method` is the string `subscription`. They should
agree, and do not (`filtersAgree_fails`): the search misses another spelling of the member, and
finds it anywhere in the document. `filtersAgree_iff` says for which JSON objects they agree, by
what the search finds in the tokens of a text.
-/

namespace MarketDataEngine

open Json DeribitClient MarketDataHandler

/-- The top-level member `method` is the string `subscription`. -/
def TopLevel (members : List (List Char × Json)) : Prop :=
  (Json.obj members).field? "method" = some (.str "subscription".toList)

/-- The text has a string token `subscription` that follows one for `method`, with only a colon
between the two. -/
def MarkSpelled (text : List Char) : Prop :=
  ∃ toks, lex text = some toks ∧ Spelled "method".toList "subscription".toList toks

/-- The text is forwarded, and processed by `on_message`, iff its top-level `method` says so. -/
structure FiltersAgree (parse : List Char → Option Json) (c : DeribitClient) (answers : List Answer)
    (text : List Char) (members : List (List Char × Json)) : Prop where
  forwarded : .forwarded text ∈ (c.handleMessage parse text answers).2 ↔ TopLevel members
  processed : IsSubscription parse text ↔ TopLevel members

/-- A text is forwarded iff it has the mark in it. -/
theorem forwarded_iff (parse : List Char → Option Json) (c : DeribitClient) (text : List Char)
    (answers : List Answer) :
    .forwarded text ∈ (c.handleMessage parse text answers).2 ↔ subscriptionMark <:+: text := by
  have hhandled := handleMessage_handled parse c text answers
  generalize c.handleMessage parse text answers = res at hhandled
  cases hhandled with
  | authenticated response => simp [response.1.1]
  | terminated response => simp [response.1.1]
  | subscribed response => simp [response.1.1]
  | forwarded mark => simp [mark]
  | ignored mark => simp [mark]

/-- What the search for the mark finds in a document. -/
theorem subscriptionMark_infix_iff {text : List Char} {v : Json} (h : Document text v) :
    subscriptionMark <:+: text ↔ MarkSpelled text := by
  obtain ⟨toks, hlex, -⟩ := h
  obtain ⟨htext, hwf⟩ := lex_eq_some hlex
  have hinside : Inside 'm' := by decide
  have hplain : Plain "method".toList ∧ Plain "subscription".toList := by decide
  have hmark : subscriptionMark = memberText "method".toList "subscription".toList := rfl
  have hspelled : Spelled "method".toList "subscription".toList toks ↔ MarkSpelled text := by
    simp [MarkSpelled, hlex]
  rw [← hspelled, hmark, ← htext]
  exact infix_text_iff rfl hinside hplain.1 hplain.2 hwf

/-- **When the filters agree** on a JSON object: iff the member `method` is at its top level exactly
if the text spells it somewhere as the search wants it. -/
theorem filtersAgree_iff (parse : List Char → Option Json)
    (hparse : ∀ text v, Document text v → parse text = some v) (c : DeribitClient)
    (answers : List Answer) (text : List Char) (members : List (List Char × Json))
    (hdoc : Document text (.obj members)) :
    FiltersAgree parse c answers text members ↔ (TopLevel members ↔ MarkSpelled text) := by
  have hprocessed : IsSubscription parse text ↔ TopLevel members := by
    rw [IsSubscription, hparse text _ hdoc, Option.bind_some, bind_str?_eq_some, TopLevel]
  have hforwarded := (forwarded_iff parse c text answers).trans (subscriptionMark_infix_iff hdoc)
  refine ⟨?_, ?_⟩
  · intro h
    exact h.forwarded.symm.trans hforwarded
  · intro h
    exact ⟨hforwarded.trans h.symm, hprocessed⟩

/-- A notification among other members and whitespace, with another `method` inside of a member. -/
theorem filtersAgree_example :
    let text := ("\x7b \"id\" : 1,\n  \"method\":\"subscription\", " ++
      "\"params\" : \x7b\"method\" : \"get\", \"data\" : [ \x7b \x7d, null ]\x7d \x7d").toList
    let params := [("method".toList, .str "get".toList), ("data".toList, .arr [.obj [], .null])]
    FiltersAgree Json.parse (.new {}) [] text [("id".toList, .num "1".toList),
      ("method".toList, .str "subscription".toList), ("params".toList, .obj params)] := by
  intro text params
  have hspelled : NumbersSpelled (.obj [("id".toList, .num "1".toList),
      ("method".toList, .str "subscription".toList), ("params".toList, .obj params)]) :=
    ⟨rfl, trivial, ⟨trivial, ⟨trivial, trivial, trivial⟩, trivial⟩, trivial⟩
  have hdoc : Document text _ := document_of_lex hspelled (by decide +kernel)
  refine (filtersAgree_iff Json.parse (fun _ _ => parse_of_document) _ _ _ _ hdoc).2
    (iff_of_true rfl ?_)
  exact (subscriptionMark_infix_iff hdoc).1 (by decide +kernel)

/-- A notification with whitespace around a colon is dropped, and a response with the member inside
of another is swallowed. -/
theorem filtersAgree_fails :
    let spaced := "\x7b\"method\" : \"subscription\"\x7d".toList
    let members := [("method".toList, Json.str "subscription".toList)]
    let nested := [("id".toList, Json.num "1".toList), ("result".toList, .obj members)]
    (Document spaced (.obj members) ∧ ¬ FiltersAgree Json.parse (.new {}) [] spaced members) ∧
      (Document (write (.obj nested)) (.obj nested) ∧
        ¬ FiltersAgree Json.parse (.new {}) [] (write (.obj nested)) nested) := by
  refine ⟨⟨⟨_, rfl, .obj (.one rfl (.str rfl))⟩, ?_⟩,
    ⟨document_write ⟨rfl, ⟨trivial, trivial⟩, trivial⟩, ?_⟩⟩
  · intro h
    exact absurd (h.forwarded.2 rfl) (by decide +kernel)
  · intro h
    exact absurd (h.forwarded.1 (by decide +kernel)) nofun

end MarketDataEngine
