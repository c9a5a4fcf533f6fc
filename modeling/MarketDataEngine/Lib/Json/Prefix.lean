import MarketDataEngine.Lib.Json.Parse

/-!
# Texts with a common start

Texts that start with the same tokens are lexed alike up to there (`lex_text_append`), and what the
parser has read of an object by then stays: however a document goes on, its object starts with the
members that were read (`Within.run`).
-/

namespace Json

/-! ## Tokens -/

/-- **A text that starts with the text of some tokens** is read as these and what follows, if they
do not end in a literal. -/
theorem lex_text_append {toks : List Token} (hwf : ∀ tok ∈ toks, tok.WellFormed)
    (hapart : Apart toks) (hlast : ∀ w, toks.getLast? ≠ some (.word w)) (cs : List Char) :
    lex (text toks ++ cs) = (lex cs).map (toks ++ ·) := by
  induction toks with
  | nil => simp
  | cons tok toks ih =>
    obtain ⟨htok, htoks⟩ := List.forall_mem_cons.1 hwf
    have hlast' : ∀ w, toks.getLast? ≠ some (.word w) := by
      intro w hw
      cases toks with
      | nil => cases hw
      | cons t ts => exact hlast w (by rw [List.getLast?_cons_cons]; exact hw)
    rw [text_cons, List.append_assoc]
    cases tok with
    | word w =>
      have hcons : ∃ t ts, toks = t :: ts := by
        cases toks with
        | nil => exact absurd rfl (hlast w)
        | cons t ts => exact ⟨t, ts, rfl⟩
      obtain ⟨t, ts, rfl⟩ := hcons
      have hahead : ∀ rest, NoWordAhead ((t :: ts) ++ rest) := by
        intro rest w' rest' heq
        exact hapart.1 w' ts (by rw [(List.cons.inj heq).1])
      rw [Token.text, lex_append_word htok.2, ih htoks hapart.2 hlast', Option.map_map]
      refine congrArg (Option.map · _) (funext fun rest => ?_)
      exact foldr_consWord htok.1 (hahead rest)
    | punct | space | str =>
      rw [lex_append_token htok (by simp), ih htoks hapart hlast', Option.map_map]
      rfl

/-! ## Objects -/

/-- The parser stands in an object over `base`, whose members start with `done`. -/
inductive Within (done : List (List Char × Json)) (base : List Frame) : Goal × List Frame → Prop
  | key {ms : List (List Char × Json)} (h : done <+: ms) : Within done base (.key ms, base)
  | colon {ms : List (List Char × Json)} {k : List Char} (h : done <+: ms) :
    Within done base (.colon ms k, base)
  | value {ms : List (List Char × Json)} {k : List Char} {goal : Goal} {stack : List Frame}
    (h : done <+: ms) : Within done base (goal, stack ++ .member ms k :: base)
  | after {ms : List (List Char × Json)} {k : List Char} {v : Json} (h : done <+: ms ++ [(k, v)]) :
    Within done base (.after v, .member ms k :: base)

/-- A token where a value may start leaves the stack as it is. -/
theorem stepValue_stack {stack stack' : List Frame} {tok : Token} {goal : Goal}
    (h : stepValue stack tok = some (goal, stack')) : stack' = stack := by
  unfold stepValue at h
  split at h
  · obtain ⟨v, -, hv⟩ := Option.map_eq_some_iff.1 h
    exact (Prod.mk.inj hv).2.symm
  · obtain ⟨v, -, hv⟩ := Option.map_eq_some_iff.1 h
    exact (Prod.mk.inj hv).2.symm
  · exact (Prod.mk.inj (Option.some.inj h)).2.symm
  · exact (Prod.mk.inj (Option.some.inj h)).2.symm
  · cases h

/-- Where a key may start, only a key does. -/
theorem stepKey_eq_some {ms : List (List Char × Json)} {stack : List Frame} {tok : Token}
    {state : Goal × List Frame} (h : stepKey ms stack tok = some state) :
    ∃ k, state = (.colon ms k, stack) := by
  unfold stepKey at h
  split at h
  · obtain ⟨k, -, rfl⟩ := Option.map_eq_some_iff.1 h
    exact ⟨k, rfl⟩
  · cases h

/-- After a value the top frame goes, or is replaced. -/
theorem step_after {v : Json} {frame : Frame} {rest stack' : List Frame} {goal' : Goal}
    {tok : Token} (h : step (.after v, frame :: rest) tok = some (goal', stack')) :
    ∃ new, stack' = new ++ rest := by
  cases frame with
  | elem vs =>
    simp only [step] at h
    split_ifs at h <;> obtain ⟨-, rfl⟩ := Prod.mk.inj (Option.some.inj h)
    · exact ⟨[.elem (vs ++ [v])], rfl⟩
    · exact ⟨[], rfl⟩
  | member ms k =>
    simp only [step] at h
    split_ifs at h <;> obtain ⟨-, rfl⟩ := Prod.mk.inj (Option.some.inj h)
    · exact ⟨[], rfl⟩
    · exact ⟨[], rfl⟩

/-- A step takes at most the top frame off the stack, and that only after a value. -/
theorem step_stack {goal goal' : Goal} {stack stack' : List Frame} {tok : Token}
    (h : step (goal, stack) tok = some (goal', stack')) :
    (∃ new, stack' = new ++ stack) ∨
      ∃ v frame rest new, goal = .after v ∧ stack = frame :: rest ∧ stack' = new ++ rest := by
  cases goal with
  | value => exact .inl ⟨[], stepValue_stack h⟩
  | firstElem =>
    simp only [step] at h
    split at h
    · obtain ⟨-, rfl⟩ := Prod.mk.inj (Option.some.inj h)
      exact .inl ⟨[], rfl⟩
    · exact .inl ⟨[.elem []], stepValue_stack h⟩
  | firstKey =>
    simp only [step] at h
    split at h
    · obtain ⟨-, rfl⟩ := Prod.mk.inj (Option.some.inj h)
      exact .inl ⟨[], rfl⟩
    · obtain ⟨k, hk⟩ := stepKey_eq_some h
      exact .inl ⟨[], (Prod.mk.inj hk).2⟩
  | key ms =>
    obtain ⟨k, hk⟩ := stepKey_eq_some h
    exact .inl ⟨[], (Prod.mk.inj hk).2⟩
  | colon ms k =>
    simp only [step] at h
    split at h
    · obtain ⟨-, rfl⟩ := Prod.mk.inj (Option.some.inj h)
      exact .inl ⟨[.member ms k], rfl⟩
    · cases h
  | after v =>
    cases stack with
    | nil => cases h
    | cons frame rest =>
      obtain ⟨new, hnew⟩ := step_after h
      exact .inr ⟨v, frame, rest, new, rfl, rfl, hnew⟩

section
variable {done : List (List Char × Json)} {base : List Frame} {state state' : Goal × List Frame}

/-- After a member's value the object goes on with another key, or is closed. -/
theorem step_member {ms : List (List Char × Json)} {k : List Char} {v : Json} {tok : Token}
    (hdone : done <+: ms ++ [(k, v)])
    (hstep : step (.after v, .member ms k :: base) tok = some state') :
    Within done base state' ∨ ∃ ms', done <+: ms' ∧ state' = (.after (.obj ms'), base) := by
  simp only [step] at hstep
  split_ifs at hstep <;> obtain rfl := Option.some.inj hstep
  · exact .inl (.key hdone)
  · exact .inr ⟨_, hdone, rfl⟩

/-- A step stays in the object, or closes it. -/
theorem Within.step {tok : Token} (h : Within done base state)
    (hstep : Json.step state tok = some state') :
    Within done base state' ∨ ∃ ms, done <+: ms ∧ state' = (.after (.obj ms), base) := by
  cases h with
  | key hdone =>
    obtain ⟨k, rfl⟩ := stepKey_eq_some hstep
    exact .inl (.colon hdone)
  | @colon ms k hdone =>
    simp only [Json.step] at hstep
    split at hstep
    · obtain rfl := Option.some.inj hstep
      exact .inl (@Within.value _ _ ms k .value [] hdone)
    · cases hstep
  | @value ms k goal stack hdone =>
    obtain ⟨goal', stack'⟩ := state'
    rcases step_stack hstep with ⟨new, rfl⟩ | ⟨v, frame, rest, new, rfl, hstack, rfl⟩
    · rw [← List.append_assoc]
      exact .inl (.value hdone)
    · cases stack with
      | nil =>
        obtain ⟨rfl, rfl⟩ := List.cons.inj hstack
        exact step_member (hdone.trans (List.prefix_append _ _)) hstep
      | cons frame' stack =>
        have hrest : stack ++ .member ms k :: base = rest := (List.cons.inj hstack).2
        rw [← hrest, ← List.append_assoc]
        exact .inl (.value hdone)
  | after hdone => exact step_member hdone hstep

/-- **What has been read of an object stays.** If the text goes on to a value, the object is closed
first, and starts with the members that were read. -/
theorem Within.run {toks : List Token} {last : Goal × List Frame} {v : Json}
    (h : Within done base state) (hrun : toks.foldlM Json.step state = some last)
    (hlast : finish last = some v) : ∃ (ms : _) (toks' : List Token), done <+: ms ∧
      toks'.foldlM Json.step (.after (.obj ms), base) = some last := by
  induction toks generalizing state with
  | nil =>
    obtain rfl := Option.some.inj hrun
    cases h with
    | key | colon | after => cases hlast
    | @value ms k goal stack =>
      unfold finish at hlast
      split at hlast
      · rename_i heq
        exact absurd (Prod.mk.inj heq).2 (by simp)
      · cases hlast
  | cons tok toks ih =>
    rw [List.foldlM_cons] at hrun
    obtain ⟨state', hstep, hrun⟩ := Option.bind_eq_some_iff.1 hrun
    rcases h.step hstep with hwithin | ⟨ms, hdone, rfl⟩
    · exact ih hwithin hrun
    · exact ⟨ms, toks, hdone, hrun⟩

/-- After the outermost value there is nothing. -/
theorem eq_of_run_after {toks : List Token} {last : Goal × List Frame} {v w : Json}
    (hrun : toks.foldlM Json.step (.after w, []) = some last) (hlast : finish last = some v) :
    v = w := by
  cases toks with
  | nil =>
    obtain rfl := Option.some.inj hrun
    exact (Option.some.inj hlast).symm
  | cons tok toks => cases hrun

end

/-- Tokens that a text may start with: they do not end in a literal, and there is no space. -/
structure Start (toks : List Token) : Prop where
  wellFormed : ∀ tok ∈ toks, tok.WellFormed
  apart : Apart toks
  last : ∀ w, toks.getLast? ≠ some (.word w)
  space : ∀ tok ∈ toks, tok.isSpace = false

/-- **A document that starts within an object of an object** has the members that both start
with. -/
theorem Document.members {toks : List Token} (hstart : Start toks)
    {ms ps : List (List Char × Json)} {k cs : List Char} {v : Json}
    (hrun : toks.foldlM step (.value, []) = some (.key ps, [.member ms k]))
    (h : Document (text toks ++ cs) v) :
    ∃ ps' ms', ps <+: ps' ∧ ms ++ [(k, .obj ps')] <+: ms' ∧ v = .obj ms' := by
  have hparse := parse_of_document h
  rw [parse, lex_text_append hstart.wellFormed hstart.apart hstart.last] at hparse
  simp only [Option.bind_eq_bind, Option.bind_eq_some_iff, Option.map_eq_some_iff] at hparse
  obtain ⟨_, ⟨rest, -, rfl⟩, last, hrest, hlast⟩ := hparse
  have hkeep : toks.filter (!·.isSpace) = toks :=
    List.filter_eq_self.2 fun tok htok => by rw [hstart.space tok htok, Bool.not_false]
  rw [List.filter_append, hkeep, List.foldlM_append, hrun] at hrest
  obtain ⟨ps', rest', hps, hrest⟩ := (Within.key (List.prefix_refl ps)).run hrest hlast
  obtain ⟨ms', rest'', hms, hrest⟩ := (Within.after (List.prefix_refl _)).run hrest hlast
  exact ⟨ps', ms', hps, hms, eq_of_run_after hrest hlast⟩

end Json
