import MarketDataEngine.Lib.Json.Write
import Mathlib.Data.List.Flatten

/-!
# Pasting JSON

A program may put strings between quotes as they are, without escapes. `paste` is the text it gets
for a value. A document is never shorter than the pasted text of its value, and as long only if it
spells every string as it is (`Document.length_paste_le`). So the pasted text is a document of the
value iff every string may be spelled so (`document_paste_iff`).
-/

namespace Json

/-- The string may be spelled as it is. -/
def Verbatim (s : List Char) : Prop := ∀ c ∈ s, c ≠ '"' ∧ c ≠ '\\' ∧ 32 ≤ c.toNat

instance (s : List Char) : Decidable (Verbatim s) :=
  List.decidableBAll (fun c => c ≠ '"' ∧ c ≠ '\\' ∧ 32 ≤ c.toNat) s

mutual

/-- The text of a value with its strings as they are. -/
def paste : Json → List Char
  | .null => "null".toList
  | .bool b => (if b then "true" else "false").toList
  | .num lit => lit
  | .str s => '"' :: (s ++ ['"'])
  | .arr [] => ['[', ']']
  | .arr (v :: vs) => '[' :: (paste v ++ (pasteElems vs ++ [']']))
  | .obj [] => ['\x7b', '\x7d']
  | .obj ((k, v) :: ms) =>
    '\x7b' :: '"' :: (k ++ '"' :: ':' :: (paste v ++ (pasteMembers ms ++ ['\x7d'])))

/-- The text of elements that follow another. -/
def pasteElems : List Json → List Char
  | [] => []
  | v :: vs => ',' :: (paste v ++ pasteElems vs)

/-- The text of members that follow another. -/
def pasteMembers : List (List Char × Json) → List Char
  | [] => []
  | (k, v) :: ms => ',' :: '"' :: (k ++ '"' :: ':' :: (paste v ++ pasteMembers ms))

end

mutual

/-- Every string of the value, keys included, may be spelled as it is. -/
def AllVerbatim : Json → Prop
  | .str s => Verbatim s
  | .arr vs => ElemsVerbatim vs
  | .obj ms => MembersVerbatim ms
  | .null | .bool _ | .num _ => True

/-- All strings in the elements are verbatim. -/
def ElemsVerbatim : List Json → Prop
  | [] => True
  | v :: vs => AllVerbatim v ∧ ElemsVerbatim vs

/-- All keys and strings in the members are verbatim. -/
def MembersVerbatim : List (List Char × Json) → Prop
  | [] => True
  | (k, v) :: ms => Verbatim k ∧ AllVerbatim v ∧ MembersVerbatim ms

end

/-! ## Strings that are spelled as they are -/

/-- A verbatim string does not end before its last character. -/
theorem Verbatim.raw {s : List Char} (h : Verbatim s) : Raw s := by
  induction s with
  | nil => exact .nil
  | cons c s ih =>
    obtain ⟨⟨hquote, hback, hcontrol⟩, hs⟩ := List.forall_mem_cons.1 h
    exact .plain hquote hback hcontrol (ih hs)

/-- A verbatim string is spelled as it is. -/
theorem Verbatim.escape_eq {s : List Char} (h : Verbatim s) : escape s = s := by
  induction s with
  | nil => rfl
  | cons c s ih =>
    obtain ⟨⟨hquote, hback, hcontrol⟩, hs⟩ := List.forall_mem_cons.1 h
    have hc : escapeChar c = [c] := by
      rw [escapeChar, if_neg (by simp [hquote, hback]), if_neg (by omega)]
    rw [escape_cons, ih hs, hc]
    rfl

mutual

/-- Verbatim strings are pasted as they would be written. -/
theorem paste_eq_write : ∀ j : Json, AllVerbatim j → paste j = text (tokens j)
  | .null, _ | .bool true, _ | .bool false, _ => rfl
  | .num _, _ => by simp [paste, tokens, Token.text]
  | .str s, h => by
    have hs : Verbatim s := h
    simp [paste, tokens, Token.text, hs.escape_eq]
  | .arr [], _ | .obj [], _ => rfl
  | .arr (v :: vs), h => by
    simp [paste, tokens, text, Token.text, Punct.char, paste_eq_write v h.1,
      pasteElems_eq vs h.2]
  | .obj ((k, v) :: ms), h => by
    simp [paste, tokens, text, Token.text, Punct.char, h.1.escape_eq, paste_eq_write v h.2.1,
      pasteMembers_eq ms h.2.2]

/-- `paste_eq_write` over further elements. -/
theorem pasteElems_eq : ∀ vs : List Json, ElemsVerbatim vs → pasteElems vs = text (elemTokens vs)
  | [], _ => rfl
  | v :: vs, h => by
    simp [pasteElems, elemTokens, text, Token.text, Punct.char, paste_eq_write v h.1,
      pasteElems_eq vs h.2]

/-- `paste_eq_write` over further members. -/
theorem pasteMembers_eq : ∀ ms : List (List Char × Json), MembersVerbatim ms →
    pasteMembers ms = text (memberTokens ms)
  | [], _ => rfl
  | (k, v) :: ms, h => by
    simp [pasteMembers, memberTokens, text, Token.text, Punct.char, h.1.escape_eq,
      paste_eq_write v h.2.1, pasteMembers_eq ms h.2.2]

end

/-- Elements are verbatim on both sides of a cut. -/
theorem elemsVerbatim_append {vs ws : List Json} :
    ElemsVerbatim (vs ++ ws) ↔ ElemsVerbatim vs ∧ ElemsVerbatim ws := by
  induction vs with
  | nil => simp [ElemsVerbatim]
  | cons v vs ih => simp [ElemsVerbatim, ih, and_assoc]

/-- Members are verbatim on both sides of a cut. -/
theorem membersVerbatim_append {ms ns : List (List Char × Json)} :
    MembersVerbatim (ms ++ ns) ↔ MembersVerbatim ms ∧ MembersVerbatim ns := by
  induction ms with
  | nil => simp [MembersVerbatim]
  | cons m ms ih => simp [MembersVerbatim, ih, and_assoc]

/-- Elements are pasted one after the other. -/
theorem pasteElems_append (vs ws : List Json) :
    pasteElems (vs ++ ws) = pasteElems vs ++ pasteElems ws := by
  induction vs with
  | nil => rfl
  | cons v vs ih => simp [pasteElems, ih]

/-- Members are pasted one after the other. -/
theorem pasteMembers_append (ms ns : List (List Char × Json)) :
    pasteMembers (ms ++ ns) = pasteMembers ms ++ pasteMembers ns := by
  induction ms with
  | nil => rfl
  | cons m ms ih => simp [pasteMembers, ih]

/-- A member of a verbatim object is verbatim. -/
theorem MembersVerbatim.lookup {ms : List (List Char × Json)} (h : MembersVerbatim ms)
    {k : List Char} {v : Json} (hv : ms.lookup k = some v) : AllVerbatim v := by
  obtain ⟨l, r, rfl, -⟩ := List.lookup_eq_some_iff.1 hv
  exact (membersVerbatim_append.1 h).2.2.1

/-- What is found along a path in a verbatim value is verbatim. -/
theorem AllVerbatim.path? {j v : Json} (h : AllVerbatim j) {keys : List String}
    (hv : j.path? keys = some v) : AllVerbatim v := by
  induction keys generalizing j with
  | nil => exact Option.some.inj hv ▸ h
  | cons key keys ih =>
    obtain ⟨w, hw, hrest⟩ := Option.bind_eq_some_iff.1 hv
    cases j with
    | obj ms => exact ih (MembersVerbatim.lookup h hw) hrest
    | null | bool | num | str | arr => cases hw

/-! ## Lengths -/

/-- A raw string has at most a unit for each character, and as many only without a backslash. -/
theorem length_units_le {raw : List Char} {ns : List ℕ} (h : units raw = some ns) :
    ns.length ≤ raw.length ∧ (raw.length ≤ ns.length → ns = raw.map Char.toNat ∧ '\\' ∉ raw) := by
  fun_induction units raw generalizing ns with
  | case1 =>
    obtain rfl := Option.some.inj h
    simp
  | case2 a b c d r ih =>
    simp only [Option.bind_eq_bind, Option.bind_eq_some_iff, Option.some.injEq] at h
    obtain ⟨n, -, ns, hns, rfl⟩ := h
    have hlen := (ih hns).1
    simp only [List.length_cons]
    exact ⟨by omega, fun hle => absurd hle (by omega)⟩
  | case3 c r _ ih =>
    simp only [Option.bind_eq_bind, Option.bind_eq_some_iff, Option.some.injEq] at h
    obtain ⟨n, -, ns, hns, rfl⟩ := h
    have hlen := (ih hns).1
    simp only [List.length_cons]
    exact ⟨by omega, fun hle => absurd hle (by omega)⟩
  | case4 => cases h
  | case5 c r _ _ hc ih =>
    obtain ⟨ns, hns, rfl⟩ := Option.map_eq_some_iff.1 h
    obtain ⟨hlen, heq⟩ := ih hns
    simp only [List.length_cons, Nat.add_le_add_iff_right]
    refine ⟨hlen, ?_⟩
    intro hle
    obtain ⟨rfl, hback⟩ := heq hle
    exact ⟨rfl, by simp [Ne.symm hc, hback]⟩

/-- Units spell at most as many characters. -/
theorem length_chars_le {ns : List ℕ} {s : List Char} (h : chars ns = some s) :
    s.length ≤ ns.length := by
  fun_induction chars ns generalizing s with
  | case1 | case3 =>
    obtain rfl := Option.some.inj h
    simp
  | case2 | case5 | case6 => cases h
  | case4 n m ns _ _ ih =>
    obtain ⟨s, hs, rfl⟩ := Option.map_eq_some_iff.1 h
    have hlen := ih hs
    simp only [List.length_cons]
    omega
  | case7 n m ns _ _ ih =>
    obtain ⟨s, hs, rfl⟩ := Option.map_eq_some_iff.1 h
    have hlen := ih hs
    simp only [List.length_cons] at hlen ⊢
    omega

/-- A raw string without a backslash has no character that needs an escape. -/
theorem Raw.verbatim {raw : List Char} (h : Raw raw) (hback : '\\' ∉ raw) : Verbatim raw := by
  induction h with
  | nil => exact fun _ hc => nomatch hc
  | plain hq hb hc _ ih =>
    rw [List.mem_cons, not_or] at hback
    exact List.forall_mem_cons.2 ⟨⟨hq, hb, hc⟩, ih hback.2⟩
  | escape => simp at hback

/-- A string is at most as long as its spelling, and as long only if it is spelled as it is. -/
theorem Raw.length_unescape_le {raw s : List Char} (hraw : Raw raw) (h : unescape raw = some s) :
    s.length ≤ raw.length ∧ (raw.length ≤ s.length → Verbatim s) := by
  obtain ⟨ns, hns, hs⟩ := Option.bind_eq_some_iff.1 h
  obtain ⟨hlen, heq⟩ := length_units_le hns
  have hchars := length_chars_le hs
  refine ⟨hchars.trans hlen, ?_⟩
  intro hle
  obtain ⟨rfl, hback⟩ := heq (hle.trans hchars)
  rw [chars_map_toNat] at hs
  obtain rfl := Option.some.inj hs
  exact hraw.verbatim hback

/-- A literal is spelled in one way. -/
theorem paste_ofWord {w : List Char} {v : Json} (h : ofWord w = some v) :
    paste v = w ∧ AllVerbatim v := by
  unfold ofWord at h
  split_ifs at h with hnull htrue hfalse <;> obtain rfl := Option.some.inj h
  · exact ⟨hnull.symm, trivial⟩
  · exact ⟨htrue.symm, trivial⟩
  · exact ⟨hfalse.symm, trivial⟩
  · exact ⟨rfl, trivial⟩

/-- An array is pasted in its elements and two brackets, without the first comma. -/
theorem length_paste_arr {vs : List Json} (h : vs ≠ []) :
    (paste (.arr vs)).length = (pasteElems vs).length + 1 := by
  cases vs with
  | nil => exact absurd rfl h
  | cons v vs => simp [paste, pasteElems]; omega

/-- An object is pasted in its members and two braces, without the first comma. -/
theorem length_paste_obj {ms : List (List Char × Json)} (h : ms ≠ []) :
    (paste (.obj ms)).length = (pasteMembers ms).length + 1 := by
  cases ms with
  | nil => exact absurd rfl h
  | cons m ms => simp [paste, pasteMembers]; omega

/-- An array that spells elements has one. -/
theorem Elems.ne_nil {ts : List Token} {vs : List Json} (h : Elems ts vs) : vs ≠ [] := by
  cases h <;> simp

/-- An object that spells members has one. -/
theorem Members.ne_nil {ts : List Token} {ms : List (List Char × Json)} (h : Members ts ms) :
    ms ≠ [] := by
  cases h <;> simp

section
variable (ts ts' : List Token)

/-- Two brackets add two characters. -/
theorem length_text_brackets (p p' : Punct) :
    (text (.punct p :: ts ++ [.punct p'])).length = (text ts).length + 2 := by
  simp [text, Token.text]

/-- A comma adds one character. -/
theorem length_text_comma :
    (text (ts ++ .punct .comma :: ts')).length = (text ts).length + (text ts').length + 1 := by
  simp [text, Token.text]
  omega

/-- A key adds its characters, two quotes and a colon. -/
theorem length_text_member (raw : List Char) :
    (text (.str raw :: .punct .colon :: ts)).length = raw.length + (text ts).length + 3 := by
  simp [text, Token.text]
  omega

/-- An element is pasted after a comma. -/
theorem length_pasteElems_one (v : Json) : (pasteElems [v]).length = (paste v).length + 1 := by
  simp [pasteElems]

@[simp] theorem length_pasteMembers_nil : (pasteMembers []).length = 0 := rfl

@[simp] theorem length_pasteMembers_cons (k : List Char) (v : Json)
    (ms : List (List Char × Json)) : (pasteMembers ((k, v) :: ms)).length =
      k.length + (paste v).length + (pasteMembers ms).length + 4 := by
  simp [pasteMembers]
  omega

end

mutual

/-- The spelling of a value is at least as long as its pasted text, and as long only if every string
is spelled as it is. -/
theorem Value.length_paste_le : ∀ {ts : List Token} {v : Json}, Value ts v →
    (∀ tok ∈ ts, tok.WellFormed) → (paste v).length ≤ (text ts).length ∧
      ((text ts).length ≤ (paste v).length → AllVerbatim v)
  | _, _, .word hw, _ => by
    obtain ⟨hpaste, hverb⟩ := paste_ofWord hw
    simp [hpaste, hverb, text, Token.text]
  | _, _, .str hs, hwf => by
    have hraw : Raw _ := hwf _ (List.mem_singleton_self _)
    obtain ⟨hle, hverb⟩ := hraw.length_unescape_le hs
    simp only [paste, text, Token.text, List.flatMap_cons, List.flatMap_nil, List.length_cons,
      List.length_append, List.length_nil, AllVerbatim]
    exact ⟨by omega, fun h => hverb (by omega)⟩
  | _, _, .emptyArr, _ | _, _, .emptyObj, _ => ⟨Nat.le_refl _, fun _ => trivial⟩
  | _, _, .arr he, hwf => by
    obtain ⟨hle, hverb⟩ := he.length_paste_le fun tok htok => hwf tok (by simp [htok])
    rw [length_paste_arr he.ne_nil, length_text_brackets]
    exact ⟨by omega, fun h => hverb (by omega)⟩
  | _, _, .obj hm, hwf => by
    obtain ⟨hle, hverb⟩ := hm.length_paste_le fun tok htok => hwf tok (by simp [htok])
    rw [length_paste_obj hm.ne_nil, length_text_brackets]
    exact ⟨by omega, fun h => hverb (by omega)⟩

/-- `Value.length_paste_le` over the elements of an array, the first comma counted. -/
theorem Elems.length_paste_le : ∀ {ts : List Token} {vs : List Json}, Elems ts vs →
    (∀ tok ∈ ts, tok.WellFormed) → (pasteElems vs).length ≤ (text ts).length + 1 ∧
      ((text ts).length + 1 ≤ (pasteElems vs).length → ElemsVerbatim vs)
  | _, _, .one hv, hwf => by
    obtain ⟨hle, hverb⟩ := hv.length_paste_le hwf
    rw [length_pasteElems_one]
    exact ⟨by omega, fun h => ⟨hverb (by omega), trivial⟩⟩
  | _, _, .more he hv, hwf => by
    obtain ⟨hle, hverb⟩ := he.length_paste_le fun tok htok => hwf tok (by simp [htok])
    obtain ⟨hle', hverb'⟩ := hv.length_paste_le fun tok htok => hwf tok (by simp [htok])
    rw [pasteElems_append, List.length_append, length_pasteElems_one, length_text_comma,
      elemsVerbatim_append]
    exact ⟨by omega, fun h => ⟨hverb (by omega), hverb' (by omega), trivial⟩⟩

/-- `Value.length_paste_le` over the members of an object, the first comma counted. -/
theorem Members.length_paste_le : ∀ {ts : List Token} {ms : List (List Char × Json)},
    Members ts ms → (∀ tok ∈ ts, tok.WellFormed) →
      (pasteMembers ms).length ≤ (text ts).length + 1 ∧
        ((text ts).length + 1 ≤ (pasteMembers ms).length → MembersVerbatim ms)
  | _, _, .one hk hv, hwf => by
    have hraw : Raw _ := hwf _ (List.mem_cons_self ..)
    obtain ⟨hkle, hkverb⟩ := hraw.length_unescape_le hk
    obtain ⟨hle, hverb⟩ := hv.length_paste_le fun tok htok => hwf tok (by simp [htok])
    rw [length_pasteMembers_cons, length_pasteMembers_nil, length_text_member]
    exact ⟨by omega, fun h => ⟨hkverb (by omega), hverb (by omega), trivial⟩⟩
  | _, _, .more hm hk hv, hwf => by
    have hraw : Raw _ := hwf _ (List.mem_append_right _ (.tail _ (.head _)))
    obtain ⟨hkle, hkverb⟩ := hraw.length_unescape_le hk
    obtain ⟨hle, hverb⟩ := hm.length_paste_le fun tok htok => hwf tok (by simp [htok])
    obtain ⟨hle', hverb'⟩ := hv.length_paste_le fun tok htok => hwf tok (by simp [htok])
    rw [pasteMembers_append, List.length_append, length_pasteMembers_cons, length_pasteMembers_nil,
      length_text_comma, length_text_member, membersVerbatim_append]
    exact ⟨by omega, fun h => ⟨hverb (by omega), hkverb (by omega), hverb' (by omega), trivial⟩⟩

end

/-- **A document is at least as long as the pasted text of its value**, and as long only if it
spells every string as it is. -/
theorem Document.length_paste_le {cs : List Char} {v : Json} (h : Document cs v) :
    (paste v).length ≤ cs.length ∧ (cs.length ≤ (paste v).length → AllVerbatim v) := by
  obtain ⟨toks, hlex, hv⟩ := h
  obtain ⟨rfl, hwf⟩ := lex_eq_some hlex
  obtain ⟨hle, hverb⟩ := hv.length_paste_le fun tok htok => hwf tok (List.mem_of_mem_filter htok)
  have hfilter : (text (toks.filter (!·.isSpace))).length ≤ (text toks).length :=
    (List.filter_sublist.flatMap _).length_le
  exact ⟨by omega, fun h => hverb (by omega)⟩

/-- A member takes its share of the text. -/
theorem length_pasteMembers_lookup {ms : List (List Char × Json)} {k : List Char} {v : Json}
    (h : ms.lookup k = some v) : (pasteMembers [(k, v)]).length ≤ (pasteMembers ms).length := by
  obtain ⟨l, r, rfl, -⟩ := List.lookup_eq_some_iff.1 h
  simp only [pasteMembers_append, List.length_append, length_pasteMembers_cons,
    length_pasteMembers_nil]
  omega

/-- Two members take their shares of the text. -/
theorem length_pasteMembers_lookup_two {ms : List (List Char × Json)} {k k' : List Char}
    {v v' : Json} (hne : k' ≠ k) (h : ms.lookup k = some v) (h' : ms.lookup k' = some v') :
    (pasteMembers [(k, v), (k', v')]).length ≤ (pasteMembers ms).length := by
  obtain ⟨l, r, rfl, -⟩ := List.lookup_eq_some_iff.1 h
  have hrest : ((k, v) :: r).lookup k' = r.lookup k' := by
    rw [List.lookup_cons, beq_eq_false_iff_ne.2 hne]
  rw [List.lookup_append, hrest, Option.or_eq_some_iff] at h'
  have hle :
      (pasteMembers [(k', v')]).length ≤ (pasteMembers l).length + (pasteMembers r).length := by
    rcases h' with hl | ⟨-, hr⟩
    · exact (length_pasteMembers_lookup hl).trans (Nat.le_add_right _ _)
    · exact (length_pasteMembers_lookup hr).trans (Nat.le_add_left _ _)
  simp only [pasteMembers_append, List.length_append, length_pasteMembers_cons,
    length_pasteMembers_nil] at hle ⊢
  omega

/-- **When the pasted text is a document** of its value: iff every string may be spelled as it
is. -/
theorem document_paste_iff {j : Json} (h : NumbersSpelled j) :
    Document (paste j) j ↔ AllVerbatim j := by
  refine ⟨?_, ?_⟩
  · intro hdoc
    exact hdoc.length_paste_le.2 (Nat.le_refl _)
  · intro hverb
    rw [paste_eq_write j hverb]
    exact document_write h

end Json
