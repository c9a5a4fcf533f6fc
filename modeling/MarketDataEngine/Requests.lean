import MarketDataEngine.DeribitClient
import MarketDataEngine.Lib.Json.Paste
import MarketDataEngine.Lib.Json.Prefix

/-!
# The texts of the requests

`send_authentication` and `send_subscription` build JSON texts by putting strings between quotes as
they are, and `load_config` has taken the escapes out of these strings. `body` is the object that a
request means; its text is the pasted text of that (`text_eq_paste`). So the text decodes to what
was meant iff no string needs an escape (`decodes_iff`), and not for every string (`decodes_fails`).
-/

namespace MarketDataEngine

open Json

namespace Request

/-- The object of a request. -/
def object (id method : String) (params : List (List Char × Json)) : Json :=
  .obj [("jsonrpc".toList, .str "2.0".toList), ("id".toList, .num id.toList),
    ("method".toList, .str method.toList), ("params".toList, .obj params)]

/-- The object that the request means. -/
def body : Request → Json
  | .authentication apiKey apiSecret =>
    object "1" "public/auth" [("grant_type".toList, .str "client_credentials".toList),
      ("client_id".toList, .str apiKey), ("client_secret".toList, .str apiSecret)]
  | .subscription channels =>
    object "42" "private/subscribe" [("channels".toList, .arr (channels.map .str))]
  | .heartbeat => object "9929" "public/set_heartbeat" [("interval".toList, .num "10".toList)]

/-- The channels are pasted as the elements of an array. -/
theorem channelsText_eq (channel : List Char) (channels : List (List Char)) :
    channelsText (channel :: channels) =
      paste (.str channel) ++ pasteElems (channels.map .str) := by
  induction channels generalizing channel with
  | nil => simp [channelsText, paste, pasteElems]
  | cons channel' channels ih =>
    rw [channelsText, ih]
    · simp [paste, pasteElems]
    · simp

/-- **The text of a request** is what it means, with strings put between quotes as they are. -/
theorem text_eq_paste (r : Request) : r.text = paste r.body := by
  delta text
  cases r with
  | authentication apiKey apiSecret =>
    simp only [body, object, paste, pasteMembers, List.append_assoc, List.cons_append]
    rfl
  | subscription channels =>
    cases channels with
    | nil => rfl
    | cons channel channels =>
      simp only [body, object, paste, pasteMembers, channelsText_eq, List.map_cons,
        List.append_assoc, List.cons_append]
      rfl
  | heartbeat => rfl

/-- The numbers of a request are spelled as JSON numbers. -/
theorem numbersSpelled_body (r : Request) : NumbersSpelled r.body := by
  cases r with
  | authentication apiKey apiSecret =>
    exact ⟨trivial, rfl, trivial, ⟨trivial, trivial, trivial, trivial⟩, trivial⟩
  | subscription channels =>
    exact ⟨trivial, rfl, trivial, ⟨ConfigLoader.elemsSpelled_str channels, trivial⟩, trivial⟩
  | heartbeat => exact ⟨trivial, rfl, trivial, ⟨rfl, trivial⟩, trivial⟩

/-- Strings are verbatim one by one. -/
theorem elemsVerbatim_str (xs : List (List Char)) :
    ElemsVerbatim (xs.map .str) ↔ ∀ x ∈ xs, Verbatim x := by
  induction xs with
  | nil => simp [ElemsVerbatim]
  | cons x xs ih => simp [ElemsVerbatim, AllVerbatim, ih]

/-- A text decodes to what the request means iff nothing in that needs an escape. -/
theorem document_text_iff (r : Request) : Document r.text r.body ↔ AllVerbatim r.body := by
  rw [text_eq_paste]
  exact document_paste_iff (numbersSpelled_body r)

/-- A request is verbatim iff its parameters are. -/
theorem allVerbatim_object {id method : String} {params : List (List Char × Json)}
    (h : Verbatim method.toList) :
    AllVerbatim (object id method params) ↔ MembersVerbatim params := by
  have hkeys : Verbatim "jsonrpc".toList ∧ Verbatim "2.0".toList ∧ Verbatim "id".toList ∧
      Verbatim "method".toList ∧ Verbatim "params".toList := by decide
  obtain ⟨h1, h2, h3, h4, h5⟩ := hkeys
  simp only [object, AllVerbatim, MembersVerbatim, h, h1, h2, h3, h4, h5, true_and, and_true]

/-! ## Authentications -/

/-- The text decodes to an object whose `params` have the credentials. -/
def DecodesTo (apiKey apiSecret : List Char) : Prop :=
  ∃ j, Document (authentication apiKey apiSecret).text j ∧
    j.path? ["params", "client_id"] = some (.str apiKey) ∧
      j.path? ["params", "client_secret"] = some (.str apiSecret)

/-- The tokens that every authentication starts with. -/
def authenticationStart : List Token :=
  [.punct .lbrace, .str "jsonrpc".toList, .punct .colon, .str "2.0".toList, .punct .comma,
    .str "id".toList, .punct .colon, .word "1".toList, .punct .comma,
    .str "method".toList, .punct .colon, .str "public/auth".toList, .punct .comma,
    .str "params".toList, .punct .colon, .punct .lbrace,
    .str "grant_type".toList, .punct .colon, .str "client_credentials".toList, .punct .comma]

/-- The tokens before the keys are the start of a text. -/
theorem start_authentication : Start authenticationStart where
  wellFormed := by
    simp only [authenticationStart, List.forall_mem_cons, Token.WellFormed, true_and]
    have hid : (Token.word "1".toList).WellFormed := wellFormed_of_isNumber rfl
    refine ⟨?_, ?_, ?_, hid, ?_, ?_, ?_, ?_, ?_, by simp⟩
    all_goals exact Verbatim.raw (by decide)
  apart := by simp [authenticationStart, Apart, NoWordAhead]
  last := by simp [authenticationStart]
  space := by decide

/-- The text of an authentication begins with the tokens before its keys. -/
theorem authentication_text (apiKey apiSecret : List Char) : ∃ cs,
    (authentication apiKey apiSecret).text = Json.text authenticationStart ++ cs := by
  delta text
  simp only [List.append_assoc]
  exact ⟨_, rfl⟩

/-- What the parser has read before the keys. -/
theorem authentication_run : authenticationStart.foldlM step (.value, []) =
    some (.key [("grant_type".toList, .str "client_credentials".toList)],
      [.member [("jsonrpc".toList, .str "2.0".toList), ("id".toList, .num "1".toList),
        ("method".toList, .str "public/auth".toList)] "params".toList]) := rfl

/-- A text that decodes to the credentials has the length of the object that was meant, or more. -/
theorem length_le_of_decodes {apiKey apiSecret : List Char} {j : Json}
    (hdoc : Document (authentication apiKey apiSecret).text j)
    (hkey : j.path? ["params", "client_id"] = some (.str apiKey))
    (hsecret : j.path? ["params", "client_secret"] = some (.str apiSecret)) :
    (paste (authentication apiKey apiSecret).body).length ≤ (paste j).length := by
  obtain ⟨cs, hcs⟩ := authentication_text apiKey apiSecret
  rw [hcs] at hdoc
  obtain ⟨_, _, ⟨ps, rfl⟩, ⟨ms, rfl⟩, rfl⟩ :=
    Document.members start_authentication authentication_run hdoc
  have hnil : path? [] = some := rfl
  have hkey' : ps.lookup "client_id".toList = some (.str apiKey) := by
    simpa [List.lookup_cons, hnil] using hkey
  have hsecret' : ps.lookup "client_secret".toList = some (.str apiSecret) := by
    simpa [List.lookup_cons, hnil] using hsecret
  have hmembers := length_pasteMembers_lookup_two (by decide) hkey' hsecret'
  simp only [body, object, List.cons_append, List.nil_append,
    length_paste_obj (List.cons_ne_nil _ _), length_pasteMembers_cons,
    length_pasteMembers_nil] at hmembers ⊢
  omega

/-- Credentials that a text decodes to need no escape. -/
theorem DecodesTo.verbatim {apiKey apiSecret : List Char} (h : DecodesTo apiKey apiSecret) :
    Verbatim apiKey ∧ Verbatim apiSecret := by
  obtain ⟨j, hdoc, hkey, hsecret⟩ := h
  have hle := length_le_of_decodes hdoc hkey hsecret
  rw [← text_eq_paste] at hle
  have hall := hdoc.length_paste_le.2 hle
  exact ⟨hall.path? hkey, hall.path? hsecret⟩

/-- Verbatim keys are read back. -/
theorem decodesTo_of_verbatim {apiKey apiSecret : List Char} (hkey : Verbatim apiKey)
    (hsecret : Verbatim apiSecret) : DecodesTo apiKey apiSecret := by
  have hall : AllVerbatim (authentication apiKey apiSecret).body := by
    rw [body, allVerbatim_object (by decide)]
    have hgrant : Verbatim "client_credentials".toList := by decide
    exact ⟨by decide, hgrant, by decide, hkey, by decide, hsecret, trivial⟩
  exact ⟨_, (document_text_iff _).2 hall, rfl, rfl⟩

/-! ## When the texts decode -/

/-- **When the texts decode to what was meant**: iff the credentials, and the channels, have no
quote, no backslash and no control character. -/
theorem decodes_iff (apiKey apiSecret : List Char) (channels : List (List Char)) :
    (DecodesTo apiKey apiSecret ↔ Verbatim apiKey ∧ Verbatim apiSecret) ∧
      (Document (subscription channels).text (subscription channels).body ↔
        ∀ channel ∈ channels, Verbatim channel) := by
  refine ⟨?_, ?_⟩
  · exact ⟨DecodesTo.verbatim, fun h => decodesTo_of_verbatim h.1 h.2⟩
  · have hchannels : Verbatim "channels".toList := by decide
    rw [document_text_iff, body, allVerbatim_object (by decide)]
    simp only [MembersVerbatim, AllVerbatim, hchannels, elemsVerbatim_str, true_and, and_true]

/-- A quote in the key ends the string, and the text is not JSON. -/
theorem decodes_fails :
    ¬ ∀ (apiKey apiSecret : List Char) (channels : List (List Char)),
      DecodesTo apiKey apiSecret ∧
        Document (subscription channels).text (subscription channels).body := by
  intro h
  obtain ⟨j, ⟨toks, hlex, -⟩, -⟩ := (h "a\"b".toList "s".toList []).1
  have hnone : lex (authentication "a\"b".toList "s".toList).text = none := by decide +kernel
  rw [hnone] at hlex
  cases hlex

end Request

end MarketDataEngine
