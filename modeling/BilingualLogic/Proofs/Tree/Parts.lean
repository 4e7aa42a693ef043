import BilingualLogic.Proofs.Grammar.Lexical
import BilingualLogic.Proofs.Tree.Building

/-!
What the expressions of the grammar leave in a tree, combinator by combinator, and the texts of the rules that stand for
words.
-/

namespace BilingualLogic.Language

open Text Grammar

variable {R : (r : Rule) → Node Rule → Result r → Prop} {spaced : Bool} {α β : Type} {c d : Cursor}
  {ns : List (Node Rule)}

theorem traces_map {f : α → β} {e : Expr α} {y : β} : grammar.Traces R spaced (f <$> e) c d ns y ↔
    ∃ x, grammar.Traces R spaced e c d ns x ∧ f x = y := Iff.rfl

theorem traces_ap {f : Expr (α → β)} {e : Expr α} {y : β} : grammar.Traces R spaced (f <*> e) c d ns y ↔
    ∃ (c' : Cursor) (ms ms' : List (Node Rule)) (g : α → β) (x : α), grammar.Traces R spaced f c c' ms g ∧
      grammar.Traces R spaced e (grammar.skipIf spaced c') d ms' x ∧ ns = ms ++ ms' ∧ g x = y := by
  constructor
  · rintro ⟨⟨g, x⟩, ⟨c', ms, ms', hg, hx, rfl⟩, rfl⟩
    exact ⟨c', ms, ms', g, x, hg, hx, rfl, rfl⟩
  · rintro ⟨c', ms, ms', g, x, hg, hx, rfl, rfl⟩
    exact ⟨⟨g, x⟩, ⟨c', ms, ms', hg, hx, rfl⟩, rfl⟩

theorem traces_left {e₁ : Expr α} {e₂ : Expr β} {x : α} : grammar.Traces R spaced (e₁ <* e₂) c d ns x ↔
    ∃ (c' : Cursor) (ms ms' : List (Node Rule)) (y : β), grammar.Traces R spaced e₁ c c' ms x ∧
      grammar.Traces R spaced e₂ (grammar.skipIf spaced c') d ms' y ∧ ns = ms ++ ms' := by
  constructor
  · rintro ⟨⟨x, y⟩, ⟨c', ms, ms', hx, hy, rfl⟩, rfl⟩
    exact ⟨c', ms, ms', y, hx, hy, rfl⟩
  · rintro ⟨c', ms, ms', y, hx, hy, rfl⟩
    exact ⟨⟨x, y⟩, ⟨c', ms, ms', hx, hy, rfl⟩, rfl⟩

theorem traces_right {e₁ : Expr α} {e₂ : Expr β} {y : β} : grammar.Traces R spaced (e₁ *> e₂) c d ns y ↔
    ∃ (c' : Cursor) (ms ms' : List (Node Rule)) (x : α), grammar.Traces R spaced e₁ c c' ms x ∧
      grammar.Traces R spaced e₂ (grammar.skipIf spaced c') d ms' y ∧ ns = ms ++ ms' := by
  constructor
  · rintro ⟨⟨x, y⟩, ⟨c', ms, ms', hx, hy, rfl⟩, rfl⟩
    exact ⟨c', ms, ms', x, hx, hy, rfl⟩
  · rintro ⟨c', ms, ms', x, hx, hy, rfl⟩
    exact ⟨⟨x, y⟩, ⟨c', ms, ms', hx, hy, rfl⟩, rfl⟩

theorem traces_or {e₁ e₂ : Expr α} {x : α} : grammar.Traces R spaced (e₁ <|> e₂) c d ns x ↔
    grammar.Traces R spaced e₁ c d ns x ∨ grammar.Rejects spaced e₁ c ∧ grammar.Traces R spaced e₂ c d ns x := Iff.rfl

theorem traces_option {e : Expr α} {o : Option α} : grammar.Traces R spaced (.option e) c d ns o ↔
    (∃ x, o = some x ∧ grammar.Traces R spaced e c d ns x) ∨ o = none ∧ ns = [] ∧ d = c := Iff.rfl

theorem traces_call {r : Rule} {x : Result r} : grammar.Traces R spaced (call r) c d ns x ↔
    ∃ n : Node Rule, ns = [n] ∧ n.span = ⟨c.position, d.position.offset⟩ ∧ R r n x := Iff.rfl

theorem traces_map_call {r : Rule} {f : Result r → β} {y : β} : grammar.Traces R spaced (f <$> call r) c d ns y ↔
    ∃ (n : Node Rule) (x : Result r), ns = [n] ∧ n.span = ⟨c.position, d.position.offset⟩ ∧ R r n x ∧ f x = y := by
  constructor
  · rintro ⟨x, ⟨n, rfl, hspan, hn⟩, rfl⟩
    exact ⟨n, x, rfl, hspan, hn, rfl⟩
  · rintro ⟨n, x, rfl, hspan, hn, rfl⟩
    exact ⟨x, ⟨n, rfl, hspan, hn⟩, rfl⟩

theorem traces_keyword {k : Keyword} {t : String} : grammar.Traces R spaced (keyword k) c d ns t ↔
    ∃ n : Node Rule, ns = [n] ∧ n.span = ⟨c.position, d.position.offset⟩ ∧ R (.keyword k) n t := Iff.rfl

theorem traces_oneOf {texts : List String} {t : String} : grammar.Traces R spaced (.oneOf texts) c d ns t ↔
    c.rest = t.toList ++ d.rest ∧ t ∈ texts ∧ ns = [] := Iff.rfl

theorem traces_token {text t : String} : grammar.Traces R spaced (.token text) c d ns t ↔
    c.rest = t.toList ++ d.rest ∧ t = text ∧ ns = [] := by
  refine traces_oneOf.trans ?_
  rw [List.mem_singleton]

theorem traces_char {accepts : Char → Bool} {x : Char} : grammar.Traces R spaced (.char accepts) c d ns x ↔
    c.rest = x :: d.rest ∧ accepts x = true ∧ ns = [] := Iff.rfl

theorem traces_unless {e : Expr α} {x : Unit} : grammar.Traces R spaced (.unless e) c d ns x ↔ d = c ∧ ns = [] :=
  Iff.rfl

theorem traces_pure {x y : α} : grammar.Traces R spaced (.pure y) c d ns x ↔ d = c ∧ ns = [] ∧ x = y := Iff.rfl

theorem traces_placed {e : Expr (Span → α)} {x : α} : grammar.Traces R spaced (placed e) c d ns x ↔
    ∃ f, grammar.Traces R spaced e c d ns f ∧ f ⟨c.position, d.position.offset⟩ = x := Iff.rfl

theorem traces_separator {t : String} : grammar.Traces R spaced separator c d ns t → ns = [] := fun h => h.2.2

/-- The parts of a repetition: the nodes are those of the items, one after another. -/
theorem parts_of_chain {Q : List (Node Rule) → α → Prop} {P : Cursor → Cursor → List (Node Rule) → α → Prop}
    {skip : Cursor → Cursor} {begun : Bool} {xs : List α} (h : Chain P skip begun c d ns xs)
    (hQ : ∀ c d ns x, P c d ns x → Q ns x) : ∃ nss, ns = nss.flatten ∧ List.Forall₂ Q nss xs := by
  induction h with
  | nil => exact ⟨[], rfl, .nil⟩
  | cons hx _ ih =>
    obtain ⟨nss, rfl, hnss⟩ := ih
    exact ⟨_ :: nss, rfl, .cons (hQ _ _ _ _ hx) hnss⟩

theorem parts_of_many {Q : List (Node Rule) → α → Prop} {e : Expr α} {xs : List α}
    (h : grammar.Traces R spaced (.many e) c d ns xs) (hQ : ∀ c d ns x, grammar.Traces R spaced e c d ns x → Q ns x) :
    ∃ nss, ns = nss.flatten ∧ List.Forall₂ Q nss xs :=
  parts_of_chain h hQ

section Words

/-- Unspaced, the expression yields the characters that it takes. -/
def Spells (R : (r : Rule) → Node Rule → Result r → Prop) (e : Expr (List Char)) : Prop :=
  ∀ c d ns x, grammar.Traces R false e c d ns x → c.rest = x ++ d.rest

theorem Spells.append {first second : Expr (List Char)} (h₁ : Spells R first) (h₂ : Spells R second) :
    Spells R (append first second) := by
  intro c d ns x h
  obtain ⟨c', ms, ms', g, ys, ⟨xs, hx, rfl⟩, hy, -, rfl⟩ := traces_ap.mp h
  rw [h₁ _ _ _ _ hx, List.append_assoc]
  exact congrArg (xs ++ ·) (h₂ _ _ _ _ hy)

theorem Spells.optional {e : Expr (List Char)} (h : Spells R e) : Spells R (optional e) := by
  rintro c d ns x ⟨o, ho, rfl⟩
  rcases traces_option.mp ho with ⟨x, rfl, hx⟩ | ⟨rfl, -, rfl⟩
  · exact h _ _ _ _ hx
  · rfl

theorem spells_chars (texts : List String) : Spells R (chars texts) := by
  rintro c d ns x ⟨t, ht, rfl⟩
  exact ht.1

theorem rest_of_chain {P : Cursor → Cursor → List (Node Rule) → Char → Prop}
    (hP : ∀ c d ns x, P c d ns x → c.rest = x :: d.rest) {begun : Bool} {xs : List Char}
    (h : Chain P (grammar.skipIf false) begun c d ns xs) : c.rest = xs ++ d.rest := by
  induction h with
  | nil => rfl
  | @cons begun _ _ _ _ _ x _ hx _ ih =>
    have hx := hP _ _ _ _ hx
    cases begun <;> exact hx.trans (congrArg (x :: ·) ih)

theorem spells_many_char (accepts : Char → Bool) : Spells R (.many (.char accepts)) :=
  fun _ _ _ _ h => rest_of_chain (fun _ _ _ _ hx => hx.1) h

theorem spells_many1_char (accepts : Char → Bool) : Spells R (Peg.many1 (.char accepts)) := by
  intro c d ns x h
  obtain ⟨c', ms, ms', g, xs, ⟨x, hx, rfl⟩, hxs, -, rfl⟩ := traces_ap.mp h
  rw [(traces_char.mp hx).1, List.cons_append]
  exact congrArg (x :: ·) (spells_many_char accepts _ _ _ _ hxs)

theorem spells_numeral {t : String} (h : grammar.Traces R false numeral c d ns t) : c.rest = t.toList ++ d.rest := by
  obtain ⟨x, hx, rfl⟩ := traces_map.mp h
  rw [String.toList_ofList]
  have hdigits : Spells R digits := spells_many1_char isDigit
  exact (spells_chars _).optional.append (hdigits.append (((spells_chars _).append hdigits).optional.append
    ((spells_chars _).append ((spells_chars _).optional.append hdigits)).optional)) _ _ _ _ hx

theorem spells_identifier {t : String} (h : grammar.Traces R false identifier c d ns t) :
    c.rest = t.toList ++ d.rest := by
  obtain ⟨c', ms, ms', g, xs, ⟨x, hx, rfl⟩, hxs, -, rfl⟩ := traces_ap.mp h
  rw [String.toList_ofList, (traces_char.mp hx).1, List.cons_append]
  exact congrArg (x :: ·) (spells_many_char _ _ _ _ _ hxs)

/-- A character of a quoted text, or one that a backslash takes along. -/
abbrev escape : Expr Char := unescaped <$> (.token "\\" *> .char fun _ => true)

/-- A backslash is no character of its own but at the end of the text. -/
theorem eq_nil_of_rejects {cs : List Char} (h : grammar.Rejects false escape c) (hc : c.rest = '\\' :: cs) :
    cs = [] := by
  obtain ⟨reps, rules, ⟨_, noted⟩, a, rfl, h⟩ := h
  obtain ⟨rest, p⟩ := c
  obtain rfl : rest = '\\' :: cs := hc
  cases cs with
  | nil => rfl
  | cons y ys => cases h

theorem unescape_of_chain {quote : Char} {begun : Bool} {xs : List Char}
    (h : Chain (grammar.Traces R false (escape <|> .char (· != quote))) (grammar.skipIf false) begun c d ns xs) :
    ∃ raw, c.rest = raw ++ d.rest ∧ Tree.unescape raw = xs := by
  induction h with
  | nil => exact ⟨[], rfl, rfl⟩
  | @cons begun c c' d ns _ x xs hx _ ih =>
    have hx : grammar.Traces R false (escape <|> .char (· != quote)) c c' ns x := by
      cases begun <;> exact hx
    obtain ⟨raw, hraw, rfl⟩ := ih
    rcases traces_or.mp hx with hx | ⟨hreject, hx⟩
    · obtain ⟨y, hy, rfl⟩ := traces_map.mp hx
      obtain ⟨c'', ms, ms', t, ht, hy, -⟩ := traces_right.mp hy
      obtain ⟨hc, rfl, -⟩ := traces_token.mp ht
      have hc'' : c''.rest = y :: c'.rest := hy.1
      refine ⟨'\\' :: y :: raw, ?_, rfl⟩
      rw [hc, hc'', hraw]
      rfl
    · have hc := (traces_char.mp hx).1
      refine ⟨x :: raw, by rw [hc, hraw, List.cons_append], ?_⟩
      by_cases hbackslash : x = '\\'
      · subst hbackslash
        have hnil := eq_nil_of_rejects hreject hc
        rw [hraw] at hnil
        obtain rfl := (List.append_eq_nil_iff.mp hnil).1
        rfl
      · rw [Tree.unescape]
        exact fun c cs hc _ => hbackslash hc

theorem traces_between {opening closing : String} {e : Expr α} {x : α}
    (h : grammar.Traces R spaced (.token opening *> e <* .token closing) c d ns x) :
    ∃ c' d', c.rest = opening.toList ++ c'.rest ∧ grammar.Traces R spaced e (grammar.skipIf spaced c') d' ns x ∧
      (grammar.skipIf spaced d').rest = closing.toList ++ d.rest := by
  obtain ⟨d', ms, ms', _, hleft, hclosing, rfl⟩ := traces_left.mp h
  obtain ⟨c', us, us', _, hopening, hx, rfl⟩ := traces_right.mp hleft
  obtain ⟨hc, rfl, rfl⟩ := traces_token.mp hopening
  obtain ⟨hd, rfl, rfl⟩ := traces_token.mp hclosing
  rw [List.nil_append, List.append_nil]
  exact ⟨c', d', hc, hx, hd⟩

theorem unquote_of_quoted {quote : Char} (hquote : quote ≠ '«') {t : String} {taken : List Char}
    (h : grammar.Traces R false (quoted quote) c d ns t) (htaken : c.rest = taken ++ d.rest) :
    Tree.unquote (String.ofList taken) = t := by
  obtain ⟨c', d', hopening, hx, hclosing⟩ := traces_between h
  obtain ⟨xs, hxs, rfl⟩ := traces_map.mp hx
  obtain ⟨raw, hraw, rfl⟩ := unescape_of_chain hxs
  have hraw : c'.rest = raw ++ d'.rest := hraw
  have hclosing : d'.rest = quote.toString.toList ++ d.rest := hclosing
  rw [hopening, hraw, hclosing, ← List.append_assoc, ← List.append_assoc] at htaken
  obtain rfl := List.append_cancel_right htaken
  simp [Tree.unquote, hquote]

theorem unquote_of_guillemets {t : String} {taken : List Char} (h : grammar.Traces R false guillemets c d ns t)
    (htaken : c.rest = taken ++ d.rest) : Tree.unquote (String.ofList taken) = t := by
  obtain ⟨c', d', hopening, hx, hclosing⟩ := traces_between h
  obtain ⟨xs, hxs, rfl⟩ := traces_map.mp hx
  have hxs : c'.rest = xs ++ d'.rest := spells_many_char _ _ _ _ _ hxs
  have hclosing : d'.rest = ("»" : String).toList ++ d.rest := hclosing
  rw [hopening, hxs, hclosing, ← List.append_assoc, ← List.append_assoc] at htaken
  obtain rfl := List.append_cancel_right htaken
  simp [Tree.unquote]

end Words

end BilingualLogic.Language
