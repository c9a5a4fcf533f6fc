import MarketDataEngine.Lib.Json.Parse
import Mathlib.Data.List.TakeWhile

/-!
# Writing JSON

`write` spells a value without whitespace. Strings are escaped (`unescape_escape`) and integers are
spelled in decimal (`int64?_ofInt64`), so that the text of a value is a document of that value
(`document_write`), as long as its numbers are spelled as the grammar wants them.
-/

namespace Json

/-! ## Strings -/

/-- The hexadecimal digit of a number below 16. -/
def hexDigit (n : ℕ) : Char := .ofNat (if n < 10 then '0'.toNat + n else 'a'.toNat + (n - 10))

/-- How a character is spelled inside of a string: a control character by its code, a quote and a
backslash after a backslash, and any other as it is. -/
def escapeChar (c : Char) : List Char :=
  if c = '"' ∨ c = '\\' then ['\\', c]
  else if c.toNat < 32 then
    ['\\', 'u', '0', '0', hexDigit (c.toNat / 16), hexDigit (c.toNat % 16)]
  else [c]

/-- The raw string that spells a string. -/
def escape (s : List Char) : List Char := s.flatMap escapeChar

@[simp] theorem escape_cons (c : Char) (s : List Char) :
    escape (c :: s) = escapeChar c ++ escape s := by
  simp [escape]

/-- A hexadecimal digit needs no escape. -/
theorem hexDigit_plain : ∀ n < 16,
    hexDigit n ≠ '"' ∧ hexDigit n ≠ '\\' ∧ 32 ≤ (hexDigit n).toNat := by
  decide

/-- The code of a control character is read back. -/
theorem hex4?_hexDigit : ∀ n < 32,
    hex4? '0' '0' (hexDigit (n / 16)) (hexDigit (n % 16)) = some n := by
  decide

/-- A spelled character does not end the string. -/
theorem raw_escapeChar (c : Char) : Raw (escapeChar c) := by
  unfold escapeChar
  split
  · exact .escape .nil
  split <;> rename_i hspecial hcontrol
  · obtain ⟨hq, hb, hc⟩ := hexDigit_plain (c.toNat / 16) (by omega)
    obtain ⟨hq', hb', hc'⟩ := hexDigit_plain (c.toNat % 16) (by omega)
    exact .escape (.plain (by decide) (by decide) (by decide) (.plain (by decide) (by decide)
      (by decide) (.plain hq hb hc (.plain hq' hb' hc' .nil))))
  · rw [not_or] at hspecial
    exact .plain hspecial.1 hspecial.2 (by omega) .nil

/-- An escaped string does not end before its last character. -/
theorem raw_escape (s : List Char) : Raw (escape s) := by
  induction s with
  | nil => exact .nil
  | cons c s ih => rw [escape_cons]; exact (raw_escapeChar c).append ih

/-- A character other than the backslash spells itself. -/
theorem units_cons {c : Char} (h : c ≠ '\\') (r : List Char) :
    units (c :: r) = (units r).map (c.toNat :: ·) := by
  rw [units.eq_def]
  split <;> simp_all

/-- A spelled character is read back as one code unit. -/
theorem units_escapeChar (c : Char) (r : List Char) :
    units (escapeChar c ++ r) = (units r).map (c.toNat :: ·) := by
  unfold escapeChar
  split <;> rename_i hspecial
  · rcases hspecial with rfl | rfl <;> cases hr : units r <;> simp [units, escape?, hr]
  split <;> rename_i hcontrol
  · have hhex := hex4?_hexDigit c.toNat hcontrol
    cases hr : units r <;> simp [units, hhex, hr]
  · rw [not_or] at hspecial
    exact units_cons hspecial.2 r

/-- An escaped string is read back, as code units. -/
theorem units_escape (s : List Char) : units (escape s) = some (s.map Char.toNat) := by
  induction s with
  | nil => rfl
  | cons c s ih => rw [escape_cons, units_escapeChar, ih]; rfl

/-- A character is no surrogate. -/
theorem not_surrogate (c : Char) : isHigh c.toNat = false ∧ isLow c.toNat = false := by
  have hvalid := c.valid
  unfold isHigh isLow
  change Nat.isValidChar c.toNat at hvalid
  simp only [Nat.isValidChar] at hvalid
  simp only [Bool.and_eq_false_iff, decide_eq_false_iff_not]
  omega

/-- The code units of a string are read back, as no character is a surrogate. -/
theorem chars_map_toNat (s : List Char) : chars (s.map Char.toNat) = some s := by
  induction s with
  | nil => rfl
  | cons c s ih =>
    obtain ⟨hhigh, hlow⟩ := not_surrogate c
    cases s with
    | nil => simp [chars, hhigh, hlow]
    | cons d s =>
      rw [List.map_cons] at ih
      simp [chars, hhigh, hlow, ih]

/-- **An escaped string** spells the string. -/
theorem unescape_escape (s : List Char) : unescape (escape s) = some s := by
  rw [unescape, units_escape, Option.bind_some, chars_map_toNat]

/-! ## Integers -/

/-- The literal of an integer. -/
def intLit (n : Int) : List Char :=
  if n < 0 then '-' :: Nat.toDigits 10 n.natAbs else Nat.toDigits 10 n.natAbs

/-- An integer, as a JSON value. -/
def ofInt64 (x : Int64) : Json := .num (intLit x.toInt)

/-- The decimal digits of a number are digits. -/
theorem digits_isDigit (n : ℕ) : ∀ c ∈ Nat.toDigits 10 n, c.isDigit := fun _ hc =>
  Nat.isDigit_of_mem_toDigits (by decide) (by decide) hc

/-- A natural number is written without a sign. -/
theorem digits_ne_minus (n : ℕ) (ds : List Char) : Nat.toDigits 10 n ≠ '-' :: ds := by
  intro h
  have hdigit := digits_isDigit n '-' (h ▸ List.mem_cons_self ..)
  revert hdigit
  decide

/-- The digits of a number are read back. -/
theorem nat?_digits (n : ℕ) : nat? (Nat.toDigits 10 n) = some n := by
  simpa [nat?, Nat.toDigits_ne_nil] using digits_isDigit n

/-- The literal of an integer is read back. -/
theorem int?_intLit (n : Int) : int? (intLit n) = some n := by
  unfold intLit
  split
  · rw [int?, nat?_digits]
    have hneg : -(n.natAbs : Int) = n := by omega
    exact congrArg some hneg
  · rw [int?.eq_def]
    split
    · exact absurd ‹_› (digits_ne_minus _ _)
    · rw [nat?_digits]
      have hpos : (n.natAbs : Int) = n := by omega
      exact congrArg some hpos

/-- **An integer is read back.** -/
theorem int64?_ofInt64 (x : Int64) : int64? (ofInt64 x) = some x := by
  have hbounds : -2 ^ 63 ≤ x.toInt ∧ x.toInt < 2 ^ 63 := ⟨x.le_toInt, x.toInt_lt⟩
  rw [int64?, ofInt64, num?, Option.bind_some, int?_intLit, Option.bind_some, if_pos hbounds,
    Int64.ofInt_toInt]

/-- The decimal digits of a positive number do not start with a zero. -/
theorem head?_digits {n : ℕ} (h : 0 < n) : (Nat.toDigits 10 n).head? ≠ some '0' := by
  induction n using Nat.strongRecOn with
  | ind n ih =>
    rcases lt_or_ge n 10 with hlt | hge
    · have hdigit : ∀ n < 10, 0 < n → n.digitChar ≠ '0' := by decide
      simpa [Nat.toDigits_of_lt_base hlt] using hdigit n hlt h
    · have hrec := ih (n / 10) (by omega) (by omega)
      rw [Nat.toDigits_of_base_le (by decide) hge,
        List.head?_append_of_ne_nil _ Nat.toDigits_ne_nil]
      exact hrec

/-- Digits without a leading zero are a number. -/
theorem isUnsigned_of_isDigit {ds : List Char} (hds : ∀ c ∈ ds, c.isDigit) (hne : ds ≠ [])
    (hhead : ds = ['0'] ∨ ds.head? ≠ some '0') : isUnsigned ds = true := by
  rw [isUnsigned.eq_def]
  split
  · rcases hhead with h | h
    · obtain ⟨-, rfl⟩ := List.cons.inj h
      rfl
    · simp at h
  · rename_i c r _
    obtain ⟨hc, hr⟩ := List.forall_mem_cons.1 hds
    have hrest : r.dropWhile Char.isDigit = [] := List.dropWhile_eq_nil_iff.2 hr
    rw [hc, hrest]
    rfl
  · exact absurd rfl hne

/-- The literal of an integer is a JSON number. -/
theorem isNumber_intLit (n : Int) : isNumber (intLit n) := by
  have hds : isUnsigned (Nat.toDigits 10 n.natAbs) = true := by
    refine isUnsigned_of_isDigit (digits_isDigit _) Nat.toDigits_ne_nil ?_
    rcases n.natAbs.eq_zero_or_pos with h | h
    · rw [h]
      exact .inl rfl
    · exact .inr (head?_digits h)
  unfold intLit
  split
  · exact hds
  · rw [isNumber.eq_def]
    split
    · exact absurd ‹_› (digits_ne_minus _ _)
    · exact hds

/-! ## Literals -/

/-- A digit is part of a word. -/
theorem isWord_of_isDigit {c : Char} (h : c.isDigit) : isWord c := by
  simp [isWord, h]

/-- If what follows the leading digits is a word, all of it is. -/
theorem isWord_of_dropWhile {r : List Char} (h : ∀ c ∈ r.dropWhile Char.isDigit, isWord c) :
    ∀ c ∈ r, isWord c := by
  induction r with
  | nil => exact h
  | cons c r ih =>
    rw [List.dropWhile_cons] at h
    split at h
    · exact List.forall_mem_cons.2 ⟨isWord_of_isDigit ‹_›, ih h⟩
    · exact h

/-- An exponent is part of a word. -/
theorem isWord_of_isExponent {r : List Char} (h : isExponent r) : ∀ c ∈ r, isWord c := by
  cases r with
  | nil => simp
  | cons e r =>
    simp only [isExponent, Bool.and_eq_true, Bool.or_eq_true, decide_eq_true_eq] at h
    obtain ⟨he, hr⟩ := h
    refine List.forall_mem_cons.2 ⟨?_, ?_⟩
    · rcases he with rfl | rfl <;> decide
    · split at hr <;> simp only [Bool.and_eq_true, List.all_eq_true] at hr
      · exact List.forall_mem_cons.2 ⟨by decide, fun c hc => isWord_of_isDigit (hr.2 c hc)⟩
      · exact List.forall_mem_cons.2 ⟨by decide, fun c hc => isWord_of_isDigit (hr.2 c hc)⟩
      · exact fun c hc => isWord_of_isDigit (hr.2 c hc)

/-- A fraction is part of a word. -/
theorem isWord_of_isFraction {r : List Char} (h : isFraction r) : ∀ c ∈ r, isWord c := by
  unfold isFraction at h
  split at h
  · rw [Bool.and_eq_true] at h
    exact List.forall_mem_cons.2 ⟨by decide, isWord_of_dropWhile (isWord_of_isExponent h.2)⟩
  · exact isWord_of_isExponent h

/-- A number without a sign is a word. -/
theorem isWord_of_isUnsigned {r : List Char} (h : isUnsigned r) : r ≠ [] ∧ ∀ c ∈ r, isWord c := by
  unfold isUnsigned at h
  split at h
  · exact ⟨List.cons_ne_nil _ _, List.forall_mem_cons.2 ⟨by decide, isWord_of_isFraction h⟩⟩
  · rw [Bool.and_eq_true] at h
    exact ⟨List.cons_ne_nil _ _, List.forall_mem_cons.2
      ⟨isWord_of_isDigit h.1, isWord_of_dropWhile (isWord_of_isFraction h.2)⟩⟩
  · cases h

/-- A number is spelled with characters of literals. -/
theorem wellFormed_of_isNumber {w : List Char} (h : isNumber w) : (Token.word w).WellFormed := by
  unfold isNumber at h
  split at h
  · exact ⟨List.cons_ne_nil _ _, List.forall_mem_cons.2 ⟨by decide, (isWord_of_isUnsigned h).2⟩⟩
  · exact isWord_of_isUnsigned h

/-- The word of a number is read as that number. -/
theorem ofWord_of_isNumber {w : List Char} (h : isNumber w) : ofWord w = some (.num w) := by
  unfold ofWord
  split_ifs with hnull htrue hfalse
  · subst hnull; exact absurd h (by decide)
  · subst htrue; exact absurd h (by decide)
  · subst hfalse; exact absurd h (by decide)
  · rfl

/-! ## Values -/

mutual

/-- The numbers of a value are spelled as the grammar wants them. -/
def NumbersSpelled : Json → Prop
  | .num lit => isNumber lit
  | .arr vs => ElemsSpelled vs
  | .obj ms => MembersSpelled ms
  | .null | .bool _ | .str _ => True

/-- The numbers in the elements are spelled as JSON numbers. -/
def ElemsSpelled : List Json → Prop
  | [] => True
  | v :: vs => NumbersSpelled v ∧ ElemsSpelled vs

/-- The numbers in the members are spelled as JSON numbers. -/
def MembersSpelled : List (List Char × Json) → Prop
  | [] => True
  | (_, v) :: ms => NumbersSpelled v ∧ MembersSpelled ms

end

mutual

/-- The tokens of a value. -/
def tokens : Json → List Token
  | .null => [.word "null".toList]
  | .bool b => [.word (if b then "true" else "false").toList]
  | .num lit => [.word lit]
  | .str s => [.str (escape s)]
  | .arr [] => [.punct .lbracket, .punct .rbracket]
  | .arr (v :: vs) => .punct .lbracket :: (tokens v ++ elemTokens vs) ++ [.punct .rbracket]
  | .obj [] => [.punct .lbrace, .punct .rbrace]
  | .obj ((k, v) :: ms) =>
    .punct .lbrace :: (.str (escape k) :: .punct .colon :: tokens v ++ memberTokens ms) ++
      [.punct .rbrace]

/-- The tokens of elements that follow another. -/
def elemTokens : List Json → List Token
  | [] => []
  | v :: vs => .punct .comma :: tokens v ++ elemTokens vs

/-- The tokens of members that follow another. -/
def memberTokens : List (List Char × Json) → List Token
  | [] => []
  | (k, v) :: ms =>
    .punct .comma :: .str (escape k) :: .punct .colon :: tokens v ++ memberTokens ms

end

mutual

/-- The tokens of a value spell it. -/
theorem tokens_value : ∀ j : Json, NumbersSpelled j → Value (tokens j) j
  | .null, _ => .word rfl
  | .bool true, _ | .bool false, _ => .word rfl
  | .num _, h => .word (ofWord_of_isNumber h)
  | .str s, _ => .str (unescape_escape s)
  | .arr [], _ => .emptyArr
  | .arr (v :: vs), h => .arr (elems_append vs h.2 (.one (tokens_value v h.1)))
  | .obj [], _ => .emptyObj
  | .obj ((k, v) :: ms), h =>
    .obj (members_append ms h.2 (.one (unescape_escape k) (tokens_value v h.1)))

/-- Further elements continue an array. -/
theorem elems_append : ∀ vs : List Json, ElemsSpelled vs → ∀ {ts : List Token} {done : List Json},
    Elems ts done → Elems (ts ++ elemTokens vs) (done ++ vs)
  | [], _, _, _, hdone => by simpa [elemTokens] using hdone
  | v :: vs, h, _, _, hdone => by
    simpa [elemTokens] using elems_append vs h.2 (.more hdone (tokens_value v h.1))

/-- Further members continue an object. -/
theorem members_append : ∀ ms : List (List Char × Json), MembersSpelled ms →
    ∀ {ts : List Token} {done : List (List Char × Json)},
      Members ts done → Members (ts ++ memberTokens ms) (done ++ ms)
  | [], _, _, _, hdone => by simpa [memberTokens] using hdone
  | (k, v) :: ms, h, _, _, hdone => by
    simpa [memberTokens] using
      members_append ms h.2 (.more hdone (unescape_escape k) (tokens_value v h.1))

end

/-- A token that the lexer reads and the grammar keeps. -/
def Token.Written (tok : Token) : Prop := tok.WellFormed ∧ tok.isSpace = false

@[simp] theorem written_punct (p : Punct) : (Token.punct p).Written := ⟨trivial, rfl⟩

@[simp] theorem written_escape (s : List Char) : (Token.str (escape s)).Written :=
  ⟨raw_escape s, rfl⟩

mutual

/-- Every token of a value is read and kept. -/
theorem tokens_written : ∀ j : Json, NumbersSpelled j → ∀ tok ∈ tokens j, tok.Written
  | .null, _ => List.forall_mem_singleton.2 ⟨⟨by decide, List.all_eq_true.1 rfl⟩, rfl⟩
  | .bool true, _ => List.forall_mem_singleton.2 ⟨⟨by decide, List.all_eq_true.1 rfl⟩, rfl⟩
  | .bool false, _ => List.forall_mem_singleton.2 ⟨⟨by decide, List.all_eq_true.1 rfl⟩, rfl⟩
  | .num _, h => List.forall_mem_singleton.2 ⟨wellFormed_of_isNumber h, rfl⟩
  | .str s, _ => List.forall_mem_singleton.2 (written_escape s)
  | .arr [], _ | .obj [], _ => by simp [tokens]
  | .arr (v :: vs), h => by
    have hv := tokens_written v h.1
    have hvs := elemTokens_written vs h.2
    simp_all [tokens, or_imp]
  | .obj ((k, v) :: ms), h => by
    have hv := tokens_written v h.1
    have hms := memberTokens_written ms h.2
    simp_all [tokens, or_imp]

/-- `tokens_written` over further elements. -/
theorem elemTokens_written : ∀ vs : List Json, ElemsSpelled vs →
    ∀ tok ∈ elemTokens vs, tok.Written
  | [], _ => by simp [elemTokens]
  | v :: vs, h => by
    have hv := tokens_written v h.1
    have hvs := elemTokens_written vs h.2
    simp_all [elemTokens, or_imp]

/-- `tokens_written` over further members. -/
theorem memberTokens_written : ∀ ms : List (List Char × Json), MembersSpelled ms →
    ∀ tok ∈ memberTokens ms, tok.Written
  | [], _ => by simp [memberTokens]
  | (k, v) :: ms, h => by
    have hv := tokens_written v h.1
    have hms := memberTokens_written ms h.2
    simp_all [memberTokens, or_imp]

end

mutual

/-- The grammar keeps literals apart. -/
theorem Value.apart : ∀ {ts : List Token} {v : Json}, Value ts v → ∀ rest : List Token,
    NoWordAhead rest → Apart rest → Apart (ts ++ rest)
  | _, _, .word _, _, hahead, hrest => ⟨hahead, hrest⟩
  | _, _, .str _, _, _, hrest | _, _, .emptyArr, _, _, hrest | _, _, .emptyObj, _, _, hrest => hrest
  | _, _, .arr he, rest, _, hrest | _, _, .obj he, rest, _, hrest => by
    rw [List.append_assoc]
    exact he.apart _ (fun _ _ h => nomatch h) hrest

/-- `Value.apart` over the elements of an array. -/
theorem Elems.apart : ∀ {ts : List Token} {vs : List Json}, Elems ts vs → ∀ rest : List Token,
    NoWordAhead rest → Apart rest → Apart (ts ++ rest)
  | _, _, .one hv, rest, hahead, hrest => hv.apart rest hahead hrest
  | _, _, .more he hv, rest, hahead, hrest => by
    rw [List.append_assoc]
    exact he.apart _ (fun _ _ h => nomatch h) (hv.apart rest hahead hrest)

/-- `Value.apart` over the members of an object. -/
theorem Members.apart : ∀ {ts : List Token} {ms : List (List Char × Json)}, Members ts ms →
    ∀ rest : List Token, NoWordAhead rest → Apart rest → Apart (ts ++ rest)
  | _, _, .one _ hv, rest, hahead, hrest => hv.apart rest hahead hrest
  | _, _, .more hm _ hv, rest, hahead, hrest => by
    rw [List.append_assoc]
    exact hm.apart _ (fun _ _ h => nomatch h) (hv.apart rest hahead hrest)

end

/-- The text of a value. -/
def write (j : Json) : List Char := text (tokens j)

/-- A text is a document of a value if its tokens are those of the value, up to whitespace. -/
theorem document_of_lex {cs : List Char} {j : Json} (h : NumbersSpelled j)
    (hlex : (lex cs).map (List.filter (!·.isSpace)) = some (tokens j)) : Document cs j := by
  obtain ⟨toks, htoks, heq⟩ := Option.map_eq_some_iff.1 hlex
  exact ⟨toks, htoks, heq ▸ tokens_value j h⟩

/-- **A written value is read back.** -/
theorem document_write {j : Json} (h : NumbersSpelled j) : Document (write j) j := by
  have hwritten := tokens_written j h
  have hapart := (tokens_value j h).apart [] (fun _ _ h => nomatch h) trivial
  rw [List.append_nil] at hapart
  have hlex : lex (write j) = some (tokens j) :=
    lex_text (fun tok htok => (hwritten tok htok).1) hapart
  refine document_of_lex h ?_
  rw [hlex, Option.map_some,
    List.filter_eq_self.2 fun tok htok => by rw [(hwritten tok htok).2, Bool.not_false]]

/-- A written value is what the parser reads. -/
theorem parse_write {j : Json} (h : NumbersSpelled j) : parse (write j) = some j :=
  parse_of_document (document_write h)

end Json
