import MarketDataEngine.Lib.Json.Lex

/-!
# Parsing JSON

`Document cs v` is the grammar: the text `cs` spells the value `v`, with whitespace anywhere between
its tokens. `parse` decides it by one pass over the tokens with a stack of the arrays and objects
that are open, and finds the value of every document (`parse_of_document`), so that a text spells at
most one value.
-/

namespace Json

/-! ## Strings -/

/-- The value of a hexadecimal digit. -/
def hexVal? (c : Char) : Option ℕ :=
  if c.isDigit then some (c.toNat - '0'.toNat)
  else if 'a' ≤ c ∧ c ≤ 'f' then some (c.toNat - 'a'.toNat + 10)
  else if 'A' ≤ c ∧ c ≤ 'F' then some (c.toNat - 'A'.toNat + 10)
  else none

/-- The value of four hexadecimal digits. -/
def hex4? (a b c d : Char) : Option ℕ := do
  let a ← hexVal? a
  let b ← hexVal? b
  let c ← hexVal? c
  let d ← hexVal? d
  some (((a * 16 + b) * 16 + c) * 16 + d)

/-- The character that a backslash and a character stand for. -/
def escape? (c : Char) : Option ℕ :=
  if c = '"' ∨ c = '\\' ∨ c = '/' then some c.toNat
  else if c = 'b' then some 8
  else if c = 'f' then some 12
  else if c = 'n' then some 10
  else if c = 'r' then some 13
  else if c = 't' then some 9
  else none

/-- The code units that a raw string spells. -/
def units : List Char → Option (List ℕ)
  | [] => some []
  | '\\' :: 'u' :: a :: b :: c :: d :: r => do
    let n ← hex4? a b c d
    let ns ← units r
    some (n :: ns)
  | '\\' :: c :: r => do
    let n ← escape? c
    let ns ← units r
    some (n :: ns)
  | c :: r => if c = '\\' then none else (units r).map (c.toNat :: ·)

/-- The code unit is the first of a surrogate pair. -/
def isHigh (n : ℕ) : Bool := 0xD800 ≤ n && n < 0xDC00

/-- The code unit is the second of a surrogate pair. -/
def isLow (n : ℕ) : Bool := 0xDC00 ≤ n && n < 0xE000

/-- The characters of a list of code units. A surrogate has to stand in a pair. -/
def chars : List ℕ → Option (List Char)
  | [] => some []
  | [n] => if isHigh n || isLow n then none else some [.ofNat n]
  | n :: m :: ns =>
    if isHigh n then
      if isLow m then
        (chars ns).map (.ofNat (0x10000 + (n - 0xD800) * 0x400 + (m - 0xDC00)) :: ·)
      else none
    else if isLow n then none
    else (chars (m :: ns)).map (.ofNat n :: ·)

/-- The string that a raw string spells. -/
def unescape (raw : List Char) : Option (List Char) := (units raw).bind chars

/-! ## Literals -/

/-- The end of a literal is an exponent, or nothing. -/
def isExponent : List Char → Bool
  | [] => true
  | e :: r =>
    (e = 'e' || e = 'E') &&
      match r with
      | '+' :: ds | '-' :: ds | ds => ds ≠ [] && ds.all Char.isDigit

/-- The end of a literal is a fraction, an exponent, or nothing. -/
def isFraction : List Char → Bool
  | '.' :: r => r.head?.any Char.isDigit && isExponent (r.dropWhile Char.isDigit)
  | r => isExponent r

/-- The literal is a number without its sign. -/
def isUnsigned : List Char → Bool
  | '0' :: r => isFraction r
  | c :: r => c.isDigit && isFraction (r.dropWhile Char.isDigit)
  | [] => false

/-- The literal is a number. -/
def isNumber : List Char → Bool
  | '-' :: r => isUnsigned r
  | r => isUnsigned r

/-- The value of a literal. -/
def ofWord (w : List Char) : Option Json :=
  if w = "null".toList then some .null
  else if w = "true".toList then some (.bool true)
  else if w = "false".toList then some (.bool false)
  else if isNumber w then some (.num w)
  else none

/-! ## The grammar -/

mutual

/-- The tokens spell a value. -/
inductive Value : List Token → Json → Prop
  | word {w : List Char} {v : Json} (h : ofWord w = some v) : Value [.word w] v
  | str {raw s : List Char} (h : unescape raw = some s) : Value [.str raw] (.str s)
  | emptyArr : Value [.punct .lbracket, .punct .rbracket] (.arr [])
  | arr {ts : List Token} {vs : List Json} (h : Elems ts vs) :
    Value (.punct .lbracket :: ts ++ [.punct .rbracket]) (.arr vs)
  | emptyObj : Value [.punct .lbrace, .punct .rbrace] (.obj [])
  | obj {ts : List Token} {ms : List (List Char × Json)} (h : Members ts ms) :
    Value (.punct .lbrace :: ts ++ [.punct .rbrace]) (.obj ms)

/-- The tokens spell the elements of an array, at least one. -/
inductive Elems : List Token → List Json → Prop
  | one {ts : List Token} {v : Json} (h : Value ts v) : Elems ts [v]
  | more {ts ts' : List Token} {vs : List Json} {v : Json} (h : Elems ts vs) (h' : Value ts' v) :
    Elems (ts ++ .punct .comma :: ts') (vs ++ [v])

/-- The tokens spell the members of an object, at least one. -/
inductive Members : List Token → List (List Char × Json) → Prop
  | one {raw k : List Char} {ts : List Token} {v : Json} (hk : unescape raw = some k)
    (h : Value ts v) : Members (.str raw :: .punct .colon :: ts) [(k, v)]
  | more {ts ts' : List Token} {ms : List (List Char × Json)} {raw k : List Char} {v : Json}
    (h : Members ts ms) (hk : unescape raw = some k) (h' : Value ts' v) :
    Members (ts ++ .punct .comma :: .str raw :: .punct .colon :: ts') (ms ++ [(k, v)])

end

/-- The token is whitespace. -/
def Token.isSpace : Token → Bool
  | .space _ => true
  | _ => false

/-- The text spells the value. -/
def Document (cs : List Char) (v : Json) : Prop :=
  ∃ toks, lex cs = some toks ∧ Value (toks.filter (!·.isSpace)) v

/-! ## The parser -/

/-- An array or object that is open, with what it has so far. -/
inductive Frame
  | elem (done : List Json)
  | member (done : List (List Char × Json)) (key : List Char)

/-- What the parser is at: what it wants next, or the value it has just read. -/
inductive Goal
  | value
  | firstElem
  | firstKey
  | key (done : List (List Char × Json))
  | colon (done : List (List Char × Json)) (key : List Char)
  | after (v : Json)

/-- A token where a value may start. -/
def stepValue (stack : List Frame) : Token → Option (Goal × List Frame)
  | .word w => (ofWord w).map fun v => (.after v, stack)
  | .str raw => (unescape raw).map fun s => (.after (.str s), stack)
  | .punct .lbracket => some (.firstElem, stack)
  | .punct .lbrace => some (.firstKey, stack)
  | _ => none

/-- A token where a key may start. -/
def stepKey (done : List (List Char × Json)) (stack : List Frame) :
    Token → Option (Goal × List Frame)
  | .str raw => (unescape raw).map fun k => (.colon done k, stack)
  | _ => none

/-- What a token makes of what is open. -/
def step : Goal × List Frame → Token → Option (Goal × List Frame)
  | (.value, stack), tok => stepValue stack tok
  | (.firstElem, stack), tok =>
    if tok = .punct .rbracket then some (.after (.arr []), stack)
    else stepValue (.elem [] :: stack) tok
  | (.firstKey, stack), tok =>
    if tok = .punct .rbrace then some (.after (.obj []), stack) else stepKey [] stack tok
  | (.key done, stack), tok => stepKey done stack tok
  | (.colon done k, stack), tok =>
    if tok = .punct .colon then some (.value, .member done k :: stack) else none
  | (.after v, .elem done :: stack), tok =>
    if tok = .punct .comma then some (.value, .elem (done ++ [v]) :: stack)
    else if tok = .punct .rbracket then some (.after (.arr (done ++ [v])), stack)
    else none
  | (.after v, .member done k :: stack), tok =>
    if tok = .punct .comma then some (.key (done ++ [(k, v)]), stack)
    else if tok = .punct .rbrace then some (.after (.obj (done ++ [(k, v)])), stack)
    else none
  | (.after _, []), _ => none

/-- The value of a text that leaves nothing open. -/
def finish : Goal × List Frame → Option Json
  | (.after v, []) => some v
  | _ => none

/-- The value that a text spells. -/
def parse (cs : List Char) : Option Json := do
  let toks ← lex cs
  let state ← (toks.filter (!·.isSpace)).foldlM step (.value, [])
  finish state

/-! ## Every document is parsed -/

/-- Tokens that spell a value are read as the first element where one is wanted. -/
theorem Value.firstElem {ts : List Token} {v : Json} (h : Value ts v) (stack : List Frame) :
    ts.foldlM step (.firstElem, stack) = ts.foldlM step (.value, .elem [] :: stack) := by
  cases h <;> rfl

mutual

/-- The parser reads a value where one is wanted. -/
theorem Value.foldlM_step : ∀ {ts : List Token} {v : Json}, Value ts v → ∀ stack : List Frame,
    ts.foldlM step (.value, stack) = some (.after v, stack)
  | _, _, .word hw, stack => by simp [step, stepValue, hw]
  | _, _, .str hs, stack => by simp [step, stepValue, hs]
  | _, _, .emptyArr, _ | _, _, .emptyObj, _ => rfl
  | _, _, .arr he, stack => by
    obtain ⟨done, v, hvs, hfold⟩ := he.foldlM_step stack
    simp [step, stepValue, hfold, hvs]
  | _, _, .obj hm, stack => by
    obtain ⟨done, k, v, hms, hfold⟩ := hm.foldlM_step stack
    simp [step, stepValue, hfold, hms]

/-- The parser reads elements up to the last. -/
theorem Elems.foldlM_step : ∀ {ts : List Token} {vs : List Json}, Elems ts vs →
    ∀ stack : List Frame, ∃ done v, vs = done ++ [v] ∧
      ts.foldlM step (.firstElem, stack) = some (.after v, .elem done :: stack)
  | _, _, .one hv, stack => ⟨[], _, rfl, by rw [hv.firstElem, hv.foldlM_step]⟩
  | _, _, .more he hv, stack => by
    obtain ⟨done, v, hvs, hfold⟩ := he.foldlM_step stack
    refine ⟨_, _, rfl, ?_⟩
    simp [hfold, hvs, step, hv.foldlM_step]

/-- The parser reads members up to the last. -/
theorem Members.foldlM_step : ∀ {ts : List Token} {ms : List (List Char × Json)}, Members ts ms →
    ∀ stack : List Frame, ∃ done k v, ms = done ++ [(k, v)] ∧
      ts.foldlM step (.firstKey, stack) = some (.after v, .member done k :: stack)
  | _, _, .one hk hv, stack => by
    refine ⟨[], _, _, rfl, ?_⟩
    simp [step, stepKey, hk, hv.foldlM_step]
  | _, _, .more hm hk hv, stack => by
    obtain ⟨done, k, v, hms, hfold⟩ := hm.foldlM_step stack
    refine ⟨_, _, _, rfl, ?_⟩
    simp [hfold, hms, step, stepKey, hk, hv.foldlM_step]

end

/-- **Every document is parsed** to the value it spells. -/
theorem parse_of_document {cs : List Char} {v : Json} (h : Document cs v) : parse cs = some v := by
  obtain ⟨toks, hlex, hv⟩ := h
  simp [parse, hlex, hv.foldlM_step, finish]

end Json
