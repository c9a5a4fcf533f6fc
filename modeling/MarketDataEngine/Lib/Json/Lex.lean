import MarketDataEngine.Lib.Json
import Mathlib.Data.List.Infix

/-!
# The tokens of a JSON text

`lex` cuts a text into tokens. Strings keep their raw spelling and whitespace is a token too, so
the text is the spelling of its tokens (`lex_eq_some`), and tokens that are well formed and keep
their words apart are read back (`lex_text`).
-/

namespace Json

/-- The structural characters. -/
inductive Punct
  | lbrace
  | rbrace
  | lbracket
  | rbracket
  | colon
  | comma
  deriving DecidableEq, Repr

/-- The character of a punctuation mark. -/
def Punct.char : Punct → Char
  | .lbrace => '\x7b'
  | .rbrace => '\x7d'
  | .lbracket => '['
  | .rbracket => ']'
  | .colon => ':'
  | .comma => ','

/-- The punctuation mark that a character is, if it is one. -/
def punct? (c : Char) : Option Punct :=
  [.lbrace, .rbrace, .lbracket, .rbracket, .colon, .comma].find? (·.char = c)

/-- The tokens of a JSON text. Whitespace is kept, one token for each character. -/
inductive Token
  | punct (p : Punct)
  | space (c : Char)
  /-- A literal: `null`, `true`, `false` or a number. -/
  | word (w : List Char)
  /-- A string, as it is spelled between its quotes. -/
  | str (raw : List Char)
  deriving DecidableEq, Repr

/-- The whitespace of JSON. -/
def isSpace (c : Char) : Bool := c = ' ' || c = '\t' || c = '\n' || c = '\r'

/-- The characters of literals. -/
def isWord (c : Char) : Bool := c.isDigit || "+-.eEtrufalsn".toList.contains c

/-- The characters of a token. -/
def Token.text : Token → List Char
  | .punct p => [p.char]
  | .space c => [c]
  | .word w => w
  | .str raw => '"' :: raw ++ ['"']

/-- The spelling of a list of tokens. -/
def text (toks : List Token) : List Char := toks.flatMap Token.text

/-- The spellings of strings: a quote or backslash stands after a backslash only. -/
inductive Raw : List Char → Prop
  | nil : Raw []
  | plain {c : Char} {r : List Char} (quote : c ≠ '"') (backslash : c ≠ '\\')
    (control : 32 ≤ c.toNat) (rest : Raw r) : Raw (c :: r)
  | escape {c : Char} {r : List Char} (rest : Raw r) : Raw ('\\' :: c :: r)

/-- Reads a character of a literal before the tokens that follow it. -/
def consWord (c : Char) : List Token → List Token
  | .word w :: toks => .word (c :: w) :: toks
  | toks => .word [c] :: toks

/-- Where the lexer stands: outside of strings, in one after `raw`, or after its backslash. -/
inductive Mode
  | outside
  | string (raw : List Char)
  | escape (raw : List Char)

/-- The tokens of a text that is read in a mode. -/
def lexFrom : Mode → List Char → Option (List Token)
  | .outside, [] => some []
  | .outside, c :: cs =>
    if c = '"' then lexFrom (.string []) cs
    else
      match punct? c with
      | some p => (lexFrom .outside cs).map (.punct p :: ·)
      | none =>
        if isSpace c then (lexFrom .outside cs).map (.space c :: ·)
        else if isWord c then (lexFrom .outside cs).map (consWord c)
        else none
  | .string _, [] => none
  | .string raw, c :: cs =>
    if c = '"' then (lexFrom .outside cs).map (.str raw :: ·)
    else if c = '\\' then lexFrom (.escape raw) cs
    else if c.toNat < 32 then none
    else lexFrom (.string (raw ++ [c])) cs
  | .escape _, [] => none
  | .escape raw, c :: cs => lexFrom (.string (raw ++ ['\\', c])) cs

/-- The tokens of a text. -/
def lex (cs : List Char) : Option (List Token) := lexFrom .outside cs

/-- A token as the lexer reads it. -/
def Token.WellFormed : Token → Prop
  | .punct _ => True
  | .space c => isSpace c
  | .word w => w ≠ [] ∧ ∀ c ∈ w, isWord c
  | .str raw => Raw raw

@[simp] theorem text_nil : text [] = [] := rfl

@[simp] theorem text_cons (tok : Token) (toks : List Token) :
    text (tok :: toks) = tok.text ++ text toks := by
  simp [text]

/-- A punctuation mark is known by its character. -/
theorem punct?_eq_some {c : Char} {p : Punct} (h : punct? c = some p) : c = p.char := by
  simpa [eq_comm] using List.find?_some h

/-- Raw strings may be joined. -/
theorem Raw.append {r r' : List Char} (h : Raw r) (h' : Raw r') : Raw (r ++ r') := by
  induction h with
  | nil => exact h'
  | plain hq hb hc _ ih => exact .plain hq hb hc ih
  | escape _ ih => exact .escape ih

/-! ## What is read -/

/-- A character before a text. -/
theorem text_consWord (c : Char) (toks : List Token) : text (consWord c toks) = c :: text toks := by
  unfold consWord
  split <;> simp [Token.text]

/-- A character of a word may stand before any tokens. -/
theorem consWord_wellFormed {c : Char} (hc : isWord c) {toks : List Token}
    (h : ∀ tok ∈ toks, tok.WellFormed) : ∀ tok ∈ consWord c toks, tok.WellFormed := by
  unfold consWord
  split
  · rw [List.forall_mem_cons] at h ⊢
    exact ⟨⟨List.cons_ne_nil _ _, List.forall_mem_cons.2 ⟨hc, h.1.2⟩⟩, h.2⟩
  · exact List.forall_mem_cons.2
      ⟨⟨List.cons_ne_nil _ _, List.forall_mem_singleton.2 hc⟩, h⟩

/-- What the lexer has read from a place on: the rest of a string first, if it stands in one. -/
def Mode.Reads (cs : List Char) (toks : List Token) : Mode → Prop
  | .outside => text toks = cs ∧ ∀ tok ∈ toks, tok.WellFormed
  | .string raw => ∃ r toks', toks = .str (raw ++ r) :: toks' ∧ Raw r ∧
      cs = r ++ '"' :: text toks' ∧ ∀ tok ∈ toks', tok.WellFormed
  | .escape raw => ∃ c r toks', toks = .str (raw ++ '\\' :: c :: r) :: toks' ∧ Raw r ∧
      cs = c :: r ++ '"' :: text toks' ∧ ∀ tok ∈ toks', tok.WellFormed

/-- What is lexed are the characters that were read, in tokens that are well formed. -/
theorem lexFrom_reads (mode : Mode) (cs : List Char) (toks : List Token)
    (h : lexFrom mode cs = some toks) : mode.Reads cs toks := by
  fun_induction lexFrom mode cs generalizing toks with
  | case1 =>
    obtain rfl := Option.some.inj h
    exact ⟨rfl, fun _ h => nomatch h⟩
  | case2 cs ih =>
    obtain ⟨r, toks', rfl, hr, rfl, hwf⟩ := ih toks h
    exact ⟨by simp [Token.text], List.forall_mem_cons.2 ⟨hr, hwf⟩⟩
  | case3 c cs _ p hp ih =>
    obtain ⟨toks', h', rfl⟩ := Option.map_eq_some_iff.1 h
    obtain ⟨rfl, hwf⟩ := ih toks' h'
    rw [punct?_eq_some hp]
    exact ⟨rfl, List.forall_mem_cons.2 ⟨trivial, hwf⟩⟩
  | case4 c cs _ _ hspace ih =>
    obtain ⟨toks', h', rfl⟩ := Option.map_eq_some_iff.1 h
    obtain ⟨rfl, hwf⟩ := ih toks' h'
    exact ⟨rfl, List.forall_mem_cons.2 ⟨hspace, hwf⟩⟩
  | case5 c cs _ _ _ hword ih =>
    obtain ⟨toks', h', rfl⟩ := Option.map_eq_some_iff.1 h
    obtain ⟨rfl, hwf⟩ := ih toks' h'
    exact ⟨text_consWord c toks', consWord_wellFormed hword hwf⟩
  | case6 | case7 | case10 | case12 => cases h
  | case8 raw cs ih =>
    obtain ⟨toks', h', rfl⟩ := Option.map_eq_some_iff.1 h
    obtain ⟨rfl, hwf⟩ := ih toks' h'
    exact ⟨[], toks', by simp, .nil, rfl, hwf⟩
  | case9 raw cs _ ih =>
    obtain ⟨c, r, toks', rfl, hr, rfl, hwf⟩ := ih toks h
    exact ⟨'\\' :: c :: r, toks', rfl, .escape hr, rfl, hwf⟩
  | case11 raw c cs hquote hback hcontrol ih =>
    obtain ⟨r, toks', rfl, hr, rfl, hwf⟩ := ih toks h
    exact ⟨c :: r, toks', by simp, .plain hquote hback (by omega) hr, rfl, hwf⟩
  | case13 raw c cs ih =>
    obtain ⟨r, toks', rfl, hr, rfl, hwf⟩ := ih toks h
    exact ⟨c, r, toks', by simp, hr, rfl, hwf⟩

/-- **A text is the spelling of its tokens**, and they are well formed. -/
theorem lex_eq_some {cs : List Char} {toks : List Token} (h : lex cs = some toks) :
    text toks = cs ∧ ∀ tok ∈ toks, tok.WellFormed :=
  lexFrom_reads .outside cs toks h

/-! ## What is read back -/

/-- A punctuation mark is read back. -/
theorem punct?_char (p : Punct) : punct? p.char = some p := by cases p <;> rfl

/-- A punctuation mark opens no string. -/
theorem Punct.char_ne_quote (p : Punct) : p.char ≠ '"' := by cases p <;> decide

/-- The four characters of whitespace. -/
theorem isSpace_iff {c : Char} : isSpace c ↔ c = ' ' ∨ c = '\t' ∨ c = '\n' ∨ c = '\r' := by
  simp [isSpace, or_assoc]

/-- Whitespace is no quote and no structural character. -/
theorem punct?_of_isSpace {c : Char} (h : isSpace c) : c ≠ '"' ∧ punct? c = none := by
  rcases isSpace_iff.1 h with rfl | rfl | rfl | rfl <;> decide

/-- A character of a literal is no quote, no structural character and no whitespace. -/
theorem punct?_of_isWord {c : Char} (h : isWord c) :
    c ≠ '"' ∧ punct? c = none ∧ isSpace c = false := by
  refine ⟨?_, ?_, ?_⟩
  · rintro rfl
    revert h
    decide
  · refine Option.eq_none_iff_forall_ne_some.2 ?_
    intro p hp
    rw [punct?_eq_some hp] at h
    revert h
    cases p <;> decide
  · refine Bool.eq_false_iff.2 ?_
    intro hs
    rcases isSpace_iff.1 hs with rfl | rfl | rfl | rfl <;> revert h <;> decide

/-- A raw string is read up to its closing quote. -/
theorem lexFrom_raw {r : List Char} (h : Raw r) (raw cs : List Char) :
    lexFrom (.string raw) (r ++ '"' :: cs) = (lex cs).map (.str (raw ++ r) :: ·) := by
  induction h generalizing raw with
  | nil => simp [lexFrom, lex]
  | plain hq hb hc _ ih => simp [lexFrom, hq, hb, Nat.not_lt.2 hc, ih]
  | escape _ ih => simp [lexFrom, ih]

/-- The list does not start with a literal. -/
def NoWordAhead (toks : List Token) : Prop := ∀ w toks', toks ≠ .word w :: toks'

/-- A character of a word is read into the word that follows it. -/
theorem lex_cons_word {c : Char} (hc : isWord c) (cs : List Char) :
    lex (c :: cs) = (lex cs).map (consWord c) := by
  obtain ⟨hquote, hpunct, hspace⟩ := punct?_of_isWord hc
  simp [lex, lexFrom, hquote, hpunct, hspace, hc]

/-- A word is read into the word that follows it. -/
theorem lex_append_word {w : List Char} (hw : ∀ c ∈ w, isWord c) (cs : List Char) :
    lex (w ++ cs) = (lex cs).map fun toks => w.foldr consWord toks := by
  induction w with
  | nil => simp
  | cons c w ih =>
    obtain ⟨hc, hw⟩ := List.forall_mem_cons.1 hw
    rw [List.cons_append, lex_cons_word hc, ih hw, Option.map_map]
    rfl

/-- The characters of a literal make one token before what is no literal. -/
theorem foldr_consWord {w : List Char} (hne : w ≠ []) {toks : List Token}
    (hahead : NoWordAhead toks) : w.foldr consWord toks = .word w :: toks := by
  induction w with
  | nil => exact absurd rfl hne
  | cons c w ih =>
    cases w with
    | nil =>
      rw [List.foldr_cons, List.foldr_nil, consWord.eq_def]
      split
      · exact absurd rfl (hahead _ _)
      · rfl
    | cons c' w =>
      rw [List.foldr_cons, ih (List.cons_ne_nil _ _)]
      rfl

/-- The text of a token that is no literal is read by itself. -/
theorem lex_append_token {tok : Token} (hwf : tok.WellFormed) (hword : ∀ w, tok ≠ .word w)
    (cs : List Char) : lex (tok.text ++ cs) = (lex cs).map (tok :: ·) := by
  cases tok with
  | punct p => simp [Token.text, lex, lexFrom, p.char_ne_quote, punct?_char]
  | space c =>
    obtain ⟨hquote, hpunct⟩ := punct?_of_isSpace hwf
    have hspace : isSpace c = true := hwf
    simp [Token.text, lex, lexFrom, hquote, hpunct, hspace]
  | word w => exact absurd rfl (hword w)
  | str raw =>
    have hraw := lexFrom_raw hwf [] cs
    simpa [Token.text, lex, lexFrom] using hraw

/-- No literal directly follows another. -/
def Apart : List Token → Prop
  | [] => True
  | .word _ :: toks => NoWordAhead toks ∧ Apart toks
  | _ :: toks => Apart toks

/-- **Well-formed tokens are read back** from their spelling, if it keeps the literals apart. -/
theorem lex_text {toks : List Token} (hwf : ∀ tok ∈ toks, tok.WellFormed) (h : Apart toks) :
    lex (text toks) = some toks := by
  induction toks with
  | nil => rfl
  | cons tok toks ih =>
    obtain ⟨htok, htoks⟩ := List.forall_mem_cons.1 hwf
    rw [text_cons]
    cases tok with
    | word w =>
      rw [Token.text, lex_append_word htok.2, ih htoks h.2, Option.map_some,
        foldr_consWord htok.1 h.1]
    | punct | space | str =>
      rw [lex_append_token htok (by simp), ih htoks h]
      rfl

end Json
