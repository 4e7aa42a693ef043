import BilingualLogic.Proofs.Grammar.Ranking

/-!
What expressions of the grammar read from given texts: `Reads` says what is left and what holds of the value, `Fails`
that nothing is read. Neither depends on the place of the text in the source.
-/

namespace BilingualLogic.Language

open Text Grammar

abbrev eval (spaced : Bool) {α : Type} (e : Expr α) (c : Cursor) : Option (α × Cursor) :=
  evalExpr grammar ranking.read spaced e c

abbrev inside (r : Rule) (spaced : Bool) : Bool := spacedInside (G := grammar) r spaced

theorem eval_call (spaced : Bool) (r : Rule) (c : Cursor) :
    eval spaced (call r) c = eval (inside r spaced) (body r) c :=
  ranking.read_eq r spaced c

/-- The text at which the next part is read. -/
def gap (spaced : Bool) (i : List Char) : List Char := if spaced then Blank.skipText i else i

@[simp] theorem gap_false (i : List Char) : gap false i = i := rfl

@[simp] theorem gap_true (i : List Char) : gap true i = Blank.skipText i := rfl

theorem gap_length (spaced : Bool) (i : List Char) : (gap spaced i).length ≤ i.length := by
  cases spaced
  · exact Nat.le_refl _
  · exact Blank.skipText_length i

theorem gap_gap (spaced : Bool) (i : List Char) : gap spaced (gap spaced i) = gap spaced i := by
  cases spaced
  · rfl
  · exact Blank.skipText_skipText i

theorem skipIf_gap (spaced : Bool) (i : List Char) (p : Position) :
    grammar.skipIf spaced ⟨gap spaced i, p⟩ = ⟨gap spaced i, p⟩ := by
  cases spaced
  · rfl
  · exact Blank.skip_skipText p i

theorem skipIf_rest (spaced : Bool) (c : Cursor) : (grammar.skipIf spaced c).rest = gap spaced c.rest := by
  cases spaced
  · rfl
  · exact Blank.skip_rest c.position c.rest

theorem skipIf_eq (spaced : Bool) (c : Cursor) :
    grammar.skipIf spaced c = ⟨gap spaced c.rest, (grammar.skipIf spaced c).position⟩ := by
  rw [← skipIf_rest]

/-- From the text `i` a value with the property is read, and `o` is left, up to what the next part passes over. -/
def Reads (spaced : Bool) {α : Type} (e : Expr α) (i o : List Char) (Q : α → Prop) : Prop :=
  ∀ p, ∃ x d, eval spaced e ⟨i, p⟩ = some (x, d) ∧ gap spaced d.rest = gap spaced o ∧ Q x

def Fails (spaced : Bool) {α : Type} (e : Expr α) (i : List Char) : Prop := ∀ p, eval spaced e ⟨i, p⟩ = none

/-- As `Reads`, for repetitions of the expression behind a first one. -/
def ReadsMore (spaced : Bool) {α : Type} (e : Expr α) (i o : List Char) (Q : List α → Prop) : Prop :=
  ∀ n c, gap spaced c.rest = gap spaced i → c.rest.length ≤ n →
    ∃ xs d, evalMore (eval spaced e) (grammar.skipIf spaced) n c = (xs, d) ∧ gap spaced d.rest = gap spaced o ∧ Q xs

section Combinators

variable {spaced : Bool} {α β : Type} {i m o : List Char}

theorem Reads.imp {e : Expr α} {Q Q' : α → Prop} (h : Reads spaced e i o Q) (hQ : ∀ x, Q x → Q' x) :
    Reads spaced e i o Q' := by
  intro p
  obtain ⟨x, d, hx, hd, hQx⟩ := h p
  exact ⟨x, d, hx, hd, hQ x hQx⟩

theorem Reads.of_gap {m : List Char} {e : Expr α} {Q : α → Prop} (h : Reads spaced e i m Q)
    (hgap : gap spaced m = gap spaced o) : Reads spaced e i o Q := by
  intro p
  obtain ⟨x, d, hx, hd, hQ⟩ := h p
  exact ⟨x, d, hx, hd.trans hgap, hQ⟩

theorem reads_pure {x : α} {Q : α → Prop} (h : Q x) : Reads spaced (.pure x) i i Q :=
  fun p => ⟨x, ⟨i, p⟩, rfl, rfl, h⟩

theorem reads_char {accepts : Char → Bool} {c : Char} {Q : Char → Prop} (hc : accepts c = true) (h : Q c) :
    Reads spaced (.char accepts) (c :: o) o Q := by
  intro p
  refine ⟨c, ⟨o, p.after c⟩, ?_, rfl, h⟩
  simp [eval, evalExpr, hc]

theorem fails_char {accepts : Char → Bool} (h : ∀ c cs, i = c :: cs → accepts c = false) :
    Fails spaced (.char accepts) i := by
  intro p
  cases i with
  | nil => rfl
  | cons c cs => simp [eval, evalExpr, h c cs rfl]

theorem readText_append (cs o : List Char) (p : Position) : ∃ q, readText cs ⟨cs ++ o, p⟩ = some ⟨o, q⟩ := by
  induction cs generalizing p with
  | nil => exact ⟨p, rfl⟩
  | cons c cs ih =>
    obtain ⟨q, hq⟩ := ih (p.after c)
    exact ⟨q, by simpa [readText] using hq⟩

theorem readText_some {cs : List Char} {c d : Cursor} (h : readText cs c = some d) : c.rest = cs ++ d.rest := by
  induction cs generalizing c with
  | nil =>
    cases h
    rfl
  | cons x xs ih =>
    obtain ⟨rest, p⟩ := c
    cases rest with
    | nil => cases h
    | cons y rest =>
      rw [readText] at h
      split at h
      · next hxy =>
        have := ih h
        simp_all
      · cases h

theorem readText_none {cs i : List Char} (h : ¬ cs <+: i) (p : Position) : readText cs ⟨i, p⟩ = none := by
  cases hr : readText cs ⟨i, p⟩ with
  | none => rfl
  | some d => exact absurd ⟨d.rest, (readText_some hr).symm⟩ h

theorem reads_oneOf {texts : List String} {t : String} {Q : String → Prop}
    (ht : texts.find? (fun t => t.toList.isPrefixOf i) = some t) (hi : i = t.toList ++ o) (h : Q t) :
    Reads spaced (.oneOf texts) i o Q := by
  intro p
  induction texts with
  | nil => cases ht
  | cons u us ih =>
    simp only [eval, evalExpr, readOneOf]
    cases hu : u.toList.isPrefixOf i with
    | true =>
      obtain rfl : u = t := by simpa [List.find?_cons, hu] using ht
      obtain ⟨q, hq⟩ := readText_append u.toList o p
      rw [hi, hq]
      exact ⟨u, ⟨o, q⟩, rfl, rfl, h⟩
    | false =>
      rw [readText_none (by simpa [← List.isPrefixOf_iff_prefix] using hu)]
      exact ih (by simpa [List.find?_cons, hu] using ht)

theorem fails_oneOf {texts : List String} (h : ∀ t ∈ texts, ¬ t.toList <+: i) : Fails spaced (.oneOf texts) i := by
  intro p
  induction texts with
  | nil => rfl
  | cons u us ih =>
    simp only [eval, evalExpr, readOneOf]
    rw [readText_none (h u (by simp))]
    exact ih fun t ht => h t (by simp [ht])

theorem reads_token {t : String} {Q : String → Prop} (h : Q t) : Reads spaced (Peg.token t) (t.toList ++ o) o Q :=
  reads_oneOf (by simp) rfl h

theorem fails_token {t : String} (h : ¬ t.toList <+: i) : Fails spaced (Peg.token t) i :=
  fails_oneOf (by simpa using h)

theorem reads_finish {Q : Unit → Prop} (h : Q ()) : Reads spaced .finish [] [] Q :=
  fun p => ⟨(), ⟨[], p⟩, rfl, rfl, h⟩

theorem gap_of_inside {r : Rule} (h : gap (inside r spaced) i = gap (inside r spaced) o) :
    gap spaced i = gap spaced o := by
  unfold inside spacedInside at h
  split at h
  · exact h
  · exact congrArg (gap spaced) h

theorem Reads.call {r : Rule} {Q : Result r → Prop} (h : Reads (inside r spaced) (body r) i o Q) :
    Reads spaced (Language.call r) i o Q := by
  intro p
  obtain ⟨x, d, hx, hd, hQ⟩ := h p
  exact ⟨x, d, (eval_call spaced r ⟨i, p⟩).trans hx, gap_of_inside hd, hQ⟩

theorem Reads.plain {r : Rule} {Q : Result r → Prop} (hr : kind r = .plain) (h : Reads spaced (body r) i o Q) :
    Reads spaced (Language.call r) i o Q := by
  have hin : inside r spaced = spaced := by
    unfold inside spacedInside
    rw [show grammar.kind r = .plain from hr]
  exact Reads.call (hin.symm ▸ h)

theorem Fails.call {r : Rule} (h : Fails (inside r spaced) (body r) i) : Fails spaced (Language.call r) i := by
  intro p
  rw [eval_call]
  exact h p

theorem Reads.map {f : α → β} {e : Expr α} {Q : β → Prop} (h : Reads spaced e i o fun x => Q (f x)) :
    Reads spaced (f <$> e) i o Q := by
  intro p
  obtain ⟨x, d, hx, hd, hQ⟩ := h p
  refine ⟨f x, d, ?_, hd, hQ⟩
  change (eval spaced e ⟨i, p⟩).map _ = _
  rw [hx]
  rfl

theorem Fails.map {f : α → β} {e : Expr α} (h : Fails spaced e i) : Fails spaced (f <$> e) i := by
  intro p
  change (eval spaced e ⟨i, p⟩).map _ = _
  rw [h p]
  rfl

theorem Reads.seq {e₁ : Expr α} {e₂ : Expr β} {Q : α × β → Prop}
    (h : Reads spaced e₁ i m fun x => Reads spaced e₂ (gap spaced m) o fun y => Q (x, y)) :
    Reads spaced (.seq e₁ e₂) i o Q := by
  intro p
  obtain ⟨x, d, hx, hd, h₂⟩ := h p
  obtain ⟨y, d', hy, hd', hQ⟩ := h₂ (grammar.skipIf spaced d).position
  rw [← hd, ← skipIf_eq] at hy
  refine ⟨(x, y), d', ?_, hd', hQ⟩
  simp only [eval, evalExpr] at hx hy ⊢
  rw [hx]
  dsimp only
  rw [hy]
  rfl

theorem Fails.seq_left {e₁ : Expr α} {e₂ : Expr β} (h : Fails spaced e₁ i) : Fails spaced (.seq e₁ e₂) i := by
  intro p
  have := h p
  simp only [eval, evalExpr] at this ⊢
  rw [this]

theorem Reads.fails_seq {e₁ : Expr α} {e₂ : Expr β}
    (h : Reads spaced e₁ i m fun _ => Fails spaced e₂ (gap spaced m)) : Fails spaced (.seq e₁ e₂) i := by
  intro p
  obtain ⟨x, d, hx, hd, h₂⟩ := h p
  have hy := h₂ (grammar.skipIf spaced d).position
  rw [← hd, ← skipIf_eq] at hy
  simp only [eval, evalExpr] at hx hy ⊢
  rw [hx]
  dsimp only
  rw [hy]
  rfl

theorem Reads.ap {f : Expr (α → β)} {e : Expr α} {Q : β → Prop}
    (h : Reads spaced f i m fun g => Reads spaced e (gap spaced m) o fun x => Q (g x)) :
    Reads spaced (f <*> e) i o Q :=
  Reads.map (f := fun r : (α → β) × α => r.1 r.2) (Reads.seq h)

theorem Fails.ap_left {f : Expr (α → β)} {e : Expr α} (h : Fails spaced f i) : Fails spaced (f <*> e) i :=
  Fails.map (Fails.seq_left h)

theorem Reads.fails_ap {f : Expr (α → β)} {e : Expr α}
    (h : Reads spaced f i m fun _ => Fails spaced e (gap spaced m)) : Fails spaced (f <*> e) i :=
  Fails.map h.fails_seq

theorem Reads.left {e₁ : Expr α} {e₂ : Expr β} {Q : α → Prop}
    (h : Reads spaced e₁ i m fun x => Reads spaced e₂ (gap spaced m) o fun _ => Q x) :
    Reads spaced (e₁ <* e₂) i o Q :=
  Reads.map (f := Prod.fst) (Reads.seq h)

theorem Fails.left_left {e₁ : Expr α} {e₂ : Expr β} (h : Fails spaced e₁ i) : Fails spaced (e₁ <* e₂) i :=
  Fails.map (Fails.seq_left h)

theorem Reads.fails_left {e₁ : Expr α} {e₂ : Expr β}
    (h : Reads spaced e₁ i m fun _ => Fails spaced e₂ (gap spaced m)) : Fails spaced (e₁ <* e₂) i :=
  Fails.map h.fails_seq

theorem Reads.right {e₁ : Expr α} {e₂ : Expr β} {Q : β → Prop}
    (h : Reads spaced e₁ i m fun _ => Reads spaced e₂ (gap spaced m) o Q) : Reads spaced (e₁ *> e₂) i o Q :=
  Reads.map (f := Prod.snd) (Reads.seq h)

theorem Fails.right_left {e₁ : Expr α} {e₂ : Expr β} (h : Fails spaced e₁ i) : Fails spaced (e₁ *> e₂) i :=
  Fails.map (Fails.seq_left h)

theorem Reads.fails_right {e₁ : Expr α} {e₂ : Expr β}
    (h : Reads spaced e₁ i m fun _ => Fails spaced e₂ (gap spaced m)) : Fails spaced (e₁ *> e₂) i :=
  Fails.map h.fails_seq

theorem evalExpr_or {ρ : Grammar.Readers grammar} (e₁ e₂ : Expr α) (c : Cursor) :
    evalExpr grammar ρ spaced (e₁ <|> e₂) c = (evalExpr grammar ρ spaced e₁ c).or (evalExpr grammar ρ spaced e₂ c) := by
  change evalExpr grammar ρ spaced (.choice e₁ e₂) c = _
  simp only [evalExpr]
  cases evalExpr grammar ρ spaced e₁ c <;> rfl

theorem Reads.orLeft {e₁ e₂ : Expr α} {Q : α → Prop} (h : Reads spaced e₁ i o Q) : Reads spaced (e₁ <|> e₂) i o Q := by
  intro p
  obtain ⟨x, d, hx, hd, hQ⟩ := h p
  refine ⟨x, d, ?_, hd, hQ⟩
  rw [eval] at hx ⊢
  rw [evalExpr_or, hx, Option.some_or]

theorem Fails.orRight {e₁ e₂ : Expr α} {Q : α → Prop} (h₁ : Fails spaced e₁ i) (h₂ : Reads spaced e₂ i o Q) :
    Reads spaced (e₁ <|> e₂) i o Q := by
  intro p
  obtain ⟨x, d, hx, hd, hQ⟩ := h₂ p
  refine ⟨x, d, ?_, hd, hQ⟩
  have h₁ := h₁ p
  rw [eval] at h₁ hx ⊢
  rw [evalExpr_or, h₁, Option.none_or, hx]

theorem Fails.or {e₁ e₂ : Expr α} (h₁ : Fails spaced e₁ i) (h₂ : Fails spaced e₂ i) : Fails spaced (e₁ <|> e₂) i := by
  intro p
  have h₁ := h₁ p
  have h₂ := h₂ p
  rw [eval] at h₁ h₂ ⊢
  rw [evalExpr_or, h₁, Option.none_or, h₂]

theorem Reads.option {e : Expr α} {Q : Option α → Prop} (h : Reads spaced e i o fun x => Q (some x)) :
    Reads spaced (.option e) i o Q := by
  intro p
  obtain ⟨x, d, hx, hd, hQ⟩ := h p
  refine ⟨some x, d, ?_, hd, hQ⟩
  simp only [eval, evalExpr] at hx ⊢
  rw [hx]

theorem Fails.option {e : Expr α} {Q : Option α → Prop} (h : Fails spaced e i) (hQ : Q none) :
    Reads spaced (.option e) i i Q := by
  intro p
  refine ⟨none, ⟨i, p⟩, ?_, rfl, hQ⟩
  have := h p
  simp only [eval, evalExpr] at this ⊢
  rw [this]

theorem Fails.unless {e : Expr α} {Q : Unit → Prop} (h : Fails spaced e i) (hQ : Q ()) :
    Reads spaced (.unless e) i i Q := by
  intro p
  refine ⟨(), ⟨i, p⟩, ?_, rfl, hQ⟩
  have := h p
  simp only [eval, evalExpr] at this ⊢
  rw [this]

theorem Reads.fails_unless {e : Expr α} {Q : α → Prop} (h : Reads spaced e i o Q) : Fails spaced (.unless e) i := by
  intro p
  obtain ⟨x, d, hx, -⟩ := h p
  simp only [eval, evalExpr] at hx ⊢
  rw [hx]

theorem Reads.placed {e : Expr (Span → α)} {Q : α → Prop} (h : Reads spaced e i o fun f => ∀ s, Q (f s)) :
    Reads spaced (Language.placed e) i o Q := by
  intro p
  obtain ⟨f, d, hf, hd, hQ⟩ := h p
  refine ⟨f ⟨p, d.position.offset⟩, d, ?_, hd, hQ _⟩
  change (eval spaced e ⟨i, p⟩).map _ = _
  rw [hf]
  rfl

theorem Fails.placed {e : Expr (Span → α)} (h : Fails spaced e i) : Fails spaced (Language.placed e) i := by
  intro p
  change (eval spaced e ⟨i, p⟩).map _ = _
  rw [h p]
  rfl

/-- The rules as they are read without fuel, with nothing noted. -/
def unfuelled : FuelledReaders grammar := fun r mode c a => (ranking.read r mode.spaced c, a)

theorem unfuelled_shortens (r : Rule) (mode : Mode) (c : Cursor) (a : Attempts Rule) :
    Shortens (nullable r) c (unfuelled r mode c a).1 := readRule_shortens ranking _ _ r _ c _

theorem readExpr_unfuelled {e : Expr α} (he : e.productive nullable = true) (mode : Mode) {reps : Nat} {c : Cursor}
    (hreps : c.rest.length < reps) (a : Attempts Rule) :
    (readExpr grammar reps unfuelled mode e c a).1 = eval mode.spaced e c := by
  have hon : AgreesOn unfuelled ranking.read c.rest.length (e.heads nullable) :=
    ⟨fun _ _ _ _ _ => rfl, fun _ _ _ _ _ _ => rfl⟩
  exact readExpr_eval ranking unfuelled_shortens mode e he hreps hon c a (Nat.le_refl _)

theorem eval_shortens {e : Expr α} (he : e.productive nullable = true) (c : Cursor) :
    Shortens (e.nullable nullable) c (eval spaced e c) := by
  rw [← readExpr_unfuelled he ⟨spaced, false⟩ (Nat.lt_succ_self _) .start]
  exact readExpr_shortens ranking _ unfuelled_shortens ⟨spaced, false⟩ e c .start

theorem Fails.many {e : Expr α} {Q : List α → Prop} (h : Fails spaced e i) (hQ : Q []) :
    Reads spaced (.many e) i i Q := by
  intro p
  refine ⟨[], ⟨i, p⟩, ?_, rfl, hQ⟩
  have := h p
  simp only [eval, evalExpr, evalMany] at this ⊢
  rw [this]

theorem Reads.many {e : Expr α} {Q : List α → Prop}
    (h : Reads spaced e i m fun x => ReadsMore spaced e m o fun xs => Q (x :: xs)) :
    Reads spaced (.many e) i o Q := by
  intro p
  obtain ⟨x, d, hx, hd, hmore⟩ := h p
  obtain ⟨xs, d', hxs, hd', hQ⟩ := hmore _ d hd (Nat.le_refl _)
  refine ⟨x :: xs, d', ?_, hd', hQ⟩
  simp only [eval, evalExpr, evalMany] at hx hxs ⊢
  rw [hx]
  dsimp only
  rw [hxs]

theorem Fails.more {e : Expr α} {Q : List α → Prop} (h : Fails spaced e (gap spaced i)) (hQ : Q []) :
    ReadsMore spaced e i i Q := by
  intro n c hc _
  refine ⟨[], c, ?_, hc, hQ⟩
  cases n with
  | zero => rfl
  | succ n =>
    have := h (grammar.skipIf spaced c).position
    rw [← hc, ← skipIf_eq] at this
    rw [evalMore, this]

theorem Reads.more {e : Expr α} {Q : List α → Prop} (he : e.productive nullable = true)
    (hn : e.nullable nullable = false)
    (h : Reads spaced e (gap spaced i) m fun x => ReadsMore spaced e m o fun xs => Q (x :: xs)) :
    ReadsMore spaced e i o Q := by
  intro n c hc hlen
  obtain ⟨x, d, hx, hd, hmore⟩ := h (grammar.skipIf spaced c).position
  rw [← hc, ← skipIf_eq] at hx
  -- the expression takes a character, so what is left suffices for the rest
  have hlt := (eval_shortens he _ x d hx).2 hn
  have hle := gap_length spaced c.rest
  rw [skipIf_rest] at hlt
  obtain ⟨n, rfl⟩ := Nat.exists_eq_succ_of_ne_zero (by omega : n ≠ 0)
  obtain ⟨xs, d', hxs, hd', hQ⟩ := hmore n d hd (by omega)
  refine ⟨x :: xs, d', ?_, hd', hQ⟩
  rw [evalMore, hx]
  dsimp only
  rw [hxs]

theorem ReadsMore.imp {e : Expr α} {Q Q' : List α → Prop} (h : ReadsMore spaced e i o Q) (hQ : ∀ xs, Q xs → Q' xs) :
    ReadsMore spaced e i o Q' := by
  intro n c hc hlen
  obtain ⟨xs, d, hxs, hd, hQx⟩ := h n c hc hlen
  exact ⟨xs, d, hxs, hd, hQ xs hQx⟩

theorem evalMore_of_le {e : Expr α} (he : e.productive nullable = true) (hn : e.nullable nullable = false) {n : Nat}
    {c : Cursor} (hlen : c.rest.length ≤ n) : evalMore (eval spaced e) (grammar.skipIf spaced) n c =
      evalMore (eval spaced e) (grammar.skipIf spaced) c.rest.length c := by
  refine Grammar.evalMore_of_le (m := c.rest.length) (fun c => ?_) (fun c _ => ?_) (Nat.le_refl _) hlen
  · rw [skipIf_rest]
    exact gap_length spaced c.rest
  · exact hn ▸ eval_shortens he c

/-- Where nothing is passed over, a repetition begins as it goes on. -/
theorem ReadsMore.many {e : Expr α} {Q : List α → Prop} (he : e.productive nullable = true)
    (hn : e.nullable nullable = false) (h : ReadsMore spaced e i o Q) : Reads spaced (.many e) (gap spaced i) o Q := by
  intro p
  obtain ⟨xs, d, hxs, hd, hQ⟩ := h ((gap spaced i).length + 1) ⟨gap spaced i, p⟩ (gap_gap spaced i) (Nat.le_succ _)
  refine ⟨xs, d, ?_, hd, hQ⟩
  rw [evalMore, skipIf_gap] at hxs
  simp only [eval, evalExpr, evalMany] at hxs ⊢
  -- the two differ only in how much is left for the rest, and both have enough
  cases hr : evalExpr grammar ranking.read spaced e ⟨gap spaced i, p⟩ with
  | none =>
    rw [hr] at hxs
    exact congrArg some hxs
  | some r =>
    obtain ⟨y, d'⟩ := r
    have hle := (eval_shortens he _ y d' hr).1
    rw [hr] at hxs
    dsimp only at hxs ⊢
    rw [← hxs, evalMore_of_le he hn hle]

end Combinators

end BilingualLogic.Language
