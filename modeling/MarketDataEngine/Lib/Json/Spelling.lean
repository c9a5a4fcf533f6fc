import MarketDataEngine.Lib.Json.Lex

/-!
# Where the text of a member occurs

A program may look for a member by its text, `"key":"value"` with no whitespace, and not by its
tokens. `infix_text_iff` says what such a search finds in a JSON text: two string tokens with only a
colon between them, the second spelled `value` and the first spelled `key`, or ending in an escaped
quote and `key`. The member may be anywhere in the document, and another spelling of it is not
found.
-/

namespace Json

variable {key value : List Char}

/-- The text of a member without whitespace. -/
def memberText (key value : List Char) : List Char :=
  '"' :: key ++ '"' :: ':' :: '"' :: value ++ ['"']

/-- The raw string ends in a string that is spelled like the key, after a quote at least. -/
def EndsIn (key raw : List Char) : Prop := raw = key ∨ '"' :: key <:+ raw

/-- Two string tokens around a colon spell a member, with nothing between them. -/
def Spelled (key value : List Char) (toks : List Token) : Prop :=
  ∃ pre raw post, toks = pre ++ .str raw :: .punct .colon :: .str value :: post ∧ EndsIn key raw

/-- Neither a quote nor a backslash is among the characters. -/
def Plain (s : List Char) : Prop := ∀ c ∈ s, c ≠ '"' ∧ c ≠ '\\'

instance (s : List Char) : Decidable (Plain s) :=
  decidable_of_iff (s.all fun c => decide (c ≠ '"' ∧ c ≠ '\\')) (by simp [Plain])

/-- A raw string up to its closing quote agrees with a plain one only if they are the same. -/
theorem plain_prefix_iff {s r q cs : List Char} (hs : Plain s) (hr : Raw r) :
    s ++ '"' :: q <+: r ++ '"' :: cs ↔ r = s ∧ q <+: cs := by
  induction hr generalizing s with
  | nil =>
    cases s with
    | nil => simp
    | cons c s => simpa using fun h => absurd h (hs c (List.mem_cons_self ..)).1
  | @plain c r hquote _ _ _ ih =>
    cases s with
    | nil => simp [Ne.symm hquote]
    | cons c' s =>
      rw [List.cons_append, List.cons_append, List.cons_prefix_cons,
        ih (fun d hd => hs d (List.mem_cons_of_mem _ hd)), List.cons.injEq, and_assoc]
      exact and_congr_left' eq_comm
  | escape =>
    cases s with
    | nil => simp
    | cons c s =>
      have hc := (hs c (List.mem_cons_self ..)).2
      simp [hc, Ne.symm hc]

/-- The text of a member from its colon on. -/
def memberTail (value : List Char) : List Char := ':' :: '"' :: value ++ ['"']

/-- The text of a member, cut at its colon. -/
theorem memberText_eq (key value : List Char) :
    memberText key value = '"' :: (key ++ '"' :: memberTail value) := by
  simp [memberText, memberTail]

/-- A character that no token starts with. -/
def Inside (c : Char) : Prop := c ≠ '"' ∧ punct? c = none ∧ isSpace c = false ∧ isWord c = false

instance (c : Char) : Decidable (Inside c) := inferInstanceAs (Decidable (_ ∧ _))

/-- A well-formed token starts like a token of its kind. -/
theorem Token.WellFormed.exists_cons {tok : Token} (h : tok.WellFormed) :
    ∃ c cs, tok.text = c :: cs ∧ ¬ Inside c := by
  cases tok with
  | punct p => exact ⟨p.char, [], rfl, fun hi => by simpa [punct?_char] using hi.2.1⟩
  | space c => exact ⟨c, [], rfl, fun hi => Bool.false_ne_true (hi.2.2.1.symm.trans h)⟩
  | word w =>
    obtain ⟨c, w, rfl⟩ := List.exists_cons_of_ne_nil h.1
    have hc := h.2 c (List.mem_cons_self ..)
    exact ⟨c, w, rfl, fun hi => by simp [hi.2.2.2] at hc⟩
  | str raw => exact ⟨'"', _, rfl, fun hi => hi.1 rfl⟩

section
variable {c : Char} {k cs : List Char} {toks : List Token}

/-- What starts with a character that no token starts with is not at the start of a text. -/
theorem not_prefix_text (hc : Inside c) (hwf : ∀ tok ∈ toks, tok.WellFormed) :
    ¬ c :: cs <+: text toks := by
  cases toks with
  | nil => simp
  | cons tok toks =>
    obtain ⟨d, ds, htext, hd⟩ := (List.forall_mem_cons.1 hwf).1.exists_cons
    rw [text_cons, htext, List.cons_append, List.cons_prefix_cons]
    rintro ⟨rfl, -⟩
    exact hd hc

/-- A quote at the start of a text opens its first token. -/
theorem quote_prefix_iff (hv : Plain value) (hwf : ∀ tok ∈ toks, tok.WellFormed) :
    '"' :: value ++ ['"'] <+: text toks ↔ ∃ post, toks = .str value :: post := by
  cases toks with
  | nil => simp
  | cons tok toks =>
    have htok := (List.forall_mem_cons.1 hwf).1
    rw [text_cons]
    cases tok with
    | punct p => simp [Token.text, Ne.symm p.char_ne_quote]
    | space d => simp [Token.text, Ne.symm (punct?_of_isSpace htok).1]
    | word w =>
      obtain ⟨d, w, rfl⟩ := List.exists_cons_of_ne_nil htok.1
      simp [Token.text, Ne.symm (punct?_of_isWord (htok.2 d (List.mem_cons_self ..))).1]
    | str raw =>
      have hraw : value ++ ['"'] <+: raw ++ '"' :: text toks ↔ raw = value ∧ [] <+: text toks :=
        plain_prefix_iff hv htok
      simpa [Token.text] using hraw

/-- A colon and a value at the start of a text are its first two tokens. -/
theorem memberTail_prefix_iff (hv : Plain value) (hwf : ∀ tok ∈ toks, tok.WellFormed) :
    memberTail value <+: text toks ↔ ∃ post, toks = .punct .colon :: .str value :: post := by
  cases toks with
  | nil => simp [memberTail]
  | cons tok toks =>
    obtain ⟨htok, htoks⟩ := List.forall_mem_cons.1 hwf
    have hrest := quote_prefix_iff hv htoks
    rw [text_cons, memberTail]
    cases tok with
    | punct p => cases p <;> simp [Token.text, Punct.char, ← hrest]
    | space d =>
      have hd : ':' ≠ d := by
        rintro rfl
        exact absurd (isSpace_iff.1 htok) (by decide)
      simp [Token.text, hd]
    | word w =>
      obtain ⟨d, w, rfl⟩ := List.exists_cons_of_ne_nil htok.1
      have hd : ':' ≠ d := by
        rintro rfl
        exact absurd (htok.2 ':' (List.mem_cons_self ..)) (by decide)
      simp [Token.text, hd]
    | str raw => simp [Token.text]

/-- The text of a member starts at a quote. -/
theorem infix_append_of_no_quote {w : List Char} (hw : ∀ d ∈ w, d ≠ '"') :
    memberText key value <:+: w ++ cs ↔ memberText key value <:+: cs := by
  induction w with
  | nil => rfl
  | cons d w ih =>
    obtain ⟨hd, hw⟩ := List.forall_mem_cons.1 hw
    rw [List.cons_append, List.infix_cons_iff, ih hw, memberText_eq, List.cons_prefix_cons]
    simp [Ne.symm hd]

/-- The text of a member that starts within a string starts at an escaped quote. -/
theorem infix_raw_iff {r : List Char} (hr : Raw r) (hk : Plain key)
    (hcs : ¬ key ++ '"' :: memberTail value <+: cs) :
    memberText key value <:+: r ++ '"' :: cs ↔
      ('"' :: key <:+ r ∧ memberTail value <+: cs) ∨ memberText key value <:+: cs := by
  induction hr with
  | nil =>
    rw [List.nil_append, List.infix_cons_iff, memberText_eq, List.cons_prefix_cons]
    simp [hcs]
  | @plain d r hquote _ _ _ ih =>
    rw [List.cons_append, List.infix_cons_iff, ih, List.suffix_cons_iff, memberText_eq,
      List.cons_prefix_cons]
    simp [Ne.symm hquote]
  | @escape d r hr ih =>
    rw [List.cons_append, List.cons_append, List.infix_cons_iff, List.infix_cons_iff, ih,
      List.suffix_cons_iff, List.suffix_cons_iff, memberText_eq, List.cons_prefix_cons,
      List.cons_prefix_cons, plain_prefix_iff hk hr]
    simp only [Char.reduceEq, false_and, false_or, List.cons.injEq, or_and_right, or_assoc]
    rw [and_assoc, eq_comm (a := key)]

end

/-- Where a member is spelled, from the first token on. -/
theorem spelled_cons {tok : Token} {toks : List Token} : Spelled key value (tok :: toks) ↔
    (∃ raw post, tok = .str raw ∧ toks = .punct .colon :: .str value :: post ∧ EndsIn key raw) ∨
      Spelled key value toks := by
  refine ⟨?_, ?_⟩
  · rintro ⟨pre, raw, post, h, hraw⟩
    cases pre with
    | nil =>
      obtain ⟨rfl, rfl⟩ := List.cons.inj h
      exact .inl ⟨raw, post, rfl, rfl, hraw⟩
    | cons tok' pre =>
      obtain ⟨rfl, rfl⟩ := List.cons.inj h
      exact .inr ⟨pre, raw, post, rfl, hraw⟩
  · rintro (⟨raw, post, rfl, rfl, hraw⟩ | ⟨pre, raw, post, rfl, hraw⟩)
    · exact ⟨[], raw, post, rfl, hraw⟩
    · exact ⟨tok :: pre, raw, post, rfl, hraw⟩

/-- **Where the text of a member occurs**: exactly where tokens spell it. -/
theorem infix_text_iff {c : Char} {k : List Char} (hkey : key = c :: k) (hc : Inside c)
    (hk : Plain key) (hv : Plain value) {toks : List Token}
    (hwf : ∀ tok ∈ toks, tok.WellFormed) :
    memberText key value <:+: text toks ↔ Spelled key value toks := by
  induction toks with
  | nil => simp [memberText, Spelled]
  | cons tok toks ih =>
    obtain ⟨htok, htoks⟩ := List.forall_mem_cons.1 hwf
    rw [text_cons, spelled_cons, ← ih htoks]
    cases tok with
    | punct p =>
      rw [infix_append_of_no_quote (by simp [Token.text, p.char_ne_quote])]
      simp
    | space d =>
      rw [infix_append_of_no_quote (by simp [Token.text, (punct?_of_isSpace htok).1])]
      simp
    | word w =>
      have hw : ∀ d ∈ (Token.word w).text, d ≠ '"' := fun d hd =>
        (punct?_of_isWord (htok.2 d hd)).1
      rw [infix_append_of_no_quote hw]
      simp
    | str raw =>
      have hhead : ¬ key ++ '"' :: memberTail value <+: text toks := by
        rw [hkey]
        exact not_prefix_text hc htoks
      have htext : (Token.str raw).text ++ text toks = '"' :: (raw ++ '"' :: text toks) := by
        simp [Token.text]
      rw [htext, List.infix_cons_iff, infix_raw_iff htok hk hhead, memberText_eq,
        List.cons_prefix_cons, plain_prefix_iff hk htok, memberTail_prefix_iff hv htoks, ← or_assoc]
      refine or_congr_left ?_
      simp only [true_and, ← or_and_right, Token.str.injEq]
      refine ⟨?_, ?_⟩
      · rintro ⟨hraw, post, hpost⟩
        exact ⟨raw, post, rfl, hpost, hraw⟩
      · rintro ⟨raw', post, rfl, hpost, hraw⟩
        exact ⟨hraw, post, hpost⟩

end Json
