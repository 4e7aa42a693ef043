import BilingualLogic.Proofs.Decimal.Text
import BilingualLogic.Proofs.Grammar.Inversion
import BilingualLogic.Proofs.Grammar.Lexical

/-!
Numerals: the text of a number is read as one, and what is read as one stands in the text.
-/

namespace BilingualLogic.Language

open Text Grammar

variable {spaced : Bool} {i o : List Char}

theorem isNameChar_of_isDigit {c : Char} (h : isDigit c = true) : isNameChar c = true ∧ Unicode.isLetter c = false := by
  have hall : ∀ n ∈ List.range 10, (isNameChar (Char.ofNat (48 + n)) = true ∧ Unicode.isLetter (Char.ofNat (48 + n)) = false)
      ∧ isNameChar (Char.ofNat (0x660 + n)) = true ∧ Unicode.isLetter (Char.ofNat (0x660 + n)) = false := by
    decide +kernel
  simp only [isDigit, Bool.or_eq_true, Bool.and_eq_true, decide_eq_true_eq, Char.le_def, UInt32.le_iff_toNat_le] at h
  rcases h with h | h
  · have hle : 48 ≤ c.toNat := h.1
    have hge : c.toNat ≤ 57 := h.2
    have hc : Char.ofNat (48 + (c.toNat - 48)) = c := by
      rw [Nat.add_sub_cancel' hle]
      exact Char.ofNat_toNat c
    have hlt : c.toNat - 48 < 10 := by omega
    exact hc ▸ (hall (c.toNat - 48) (List.mem_range.mpr hlt)).1
  · have hle : 0x660 ≤ c.toNat := h.1
    have hge : c.toNat ≤ 0x669 := h.2
    have hc : Char.ofNat (0x660 + (c.toNat - 0x660)) = c := by
      rw [Nat.add_sub_cancel' hle]
      exact Char.ofNat_toNat c
    have hlt : c.toNat - 0x660 < 10 := by omega
    exact hc ▸ (hall (c.toNat - 0x660) (List.mem_range.mpr hlt)).2

theorem isDigit_of_stops {c : Char} (h : isNameChar c = false) : isDigit c = false := by
  by_contra hd
  rw [(isNameChar_of_isDigit (Bool.of_not_eq_false hd)).1] at h
  cases h

theorem isDigit_of_isDigit {c : Char} (h : c.isDigit = true) : isDigit c = true := by
  simp only [Char.isDigit, ge_iff_le, Bool.and_eq_true, decide_eq_true_eq] at h
  simp only [isDigit, Bool.or_eq_true, Bool.and_eq_true, decide_eq_true_eq]
  exact Or.inl h

theorem reads_digits {ds : List Char} (hne : ds ≠ []) (hds : ∀ c ∈ ds, c.isDigit = true)
    (ho : ∀ c cs, o = c :: cs → isDigit c = false) : Reads false digits (ds ++ o) o (· = ds) := by
  obtain ⟨d, ds, rfl⟩ := List.exists_cons_of_ne_nil hne
  have hds' : ∀ c ∈ ds, isDigit c = true := fun c hc => isDigit_of_isDigit (hds c (by simp [hc]))
  have hmany := reads_many_char isDigit (ds ++ o)
  have htake : (ds ++ o).takeWhile isDigit = ds := by
    rw [List.takeWhile_append_of_pos hds']
    cases o with
    | nil => simp
    | cons c cs => simp [ho c cs rfl]
  have hdrop : (ds ++ o).dropWhile isDigit = o := by
    rw [List.dropWhile_append_of_pos hds']
    cases o with
    | nil => rfl
    | cons c cs => simp [ho c cs rfl]
  rw [htake, hdrop] at hmany
  refine Reads.ap (Reads.map (reads_char (isDigit_of_isDigit (hds d (by simp))) ?_))
  exact hmany.imp fun xs hxs => by rw [hxs]

theorem fails_digits (h : ∀ c cs, i = c :: cs → isDigit c = false) : Fails false digits i :=
  Fails.ap_left (Fails.map (fails_char h))

theorem fails_chars {texts : List String} (h : ∀ t ∈ texts, ¬ t.toList <+: i) : Fails spaced (chars texts) i :=
  Fails.map (fails_oneOf h)

theorem reads_chars {t : String} {Q : List Char → Prop} (h : Q t.toList) :
    Reads spaced (chars [t]) (t.toList ++ o) o Q :=
  Reads.map (reads_token (t := t) h)

theorem Reads.appended {first second : Expr (List Char)} {m : List Char} {Q : List Char → Prop}
    (h : Reads false first i m fun x => Reads false second m o fun y => Q (x ++ y)) :
    Reads false (append first second) i o Q :=
  Reads.ap (Reads.map h)

theorem Fails.optional {e : Expr (List Char)} {Q : List Char → Prop} (h : Fails false e i) (hQ : Q []) :
    Reads false (optional e) i i Q :=
  Reads.map (h.option hQ)

theorem Reads.optional {e : Expr (List Char)} {Q : List Char → Prop} (h : Reads false e i o Q) :
    Reads false (optional e) i o Q :=
  Reads.map h.option

/-- A numeral ends here. -/
def EndsNumeral (o : List Char) : Prop := ∀ c cs, o = c :: cs → isNameChar c = false ∧ c ≠ '.'

/-- The exponent of a numeral, if it has one. -/
def exponent : Expr (List Char) :=
  optional (append (chars ["e", "E"]) (append (optional (chars ["+", "-"])) digits))

theorem reads_numeralForm {negative : Bool} {ds fs es : List Char} (hne : ds ≠ []) (hds : ∀ c ∈ ds, c.isDigit = true)
    (hfs : ∀ c ∈ fs, c.isDigit = true) (hstart : ∀ c cs, es ++ o = c :: cs → isDigit c = false ∧ c ≠ '.')
    (hexponent : ∀ {Q : List Char → Prop}, Q es → Reads false exponent (es ++ o) o Q) :
    Reads spaced (call .number) (Decimal.plainForm negative ds fs ++ (es ++ o)) o
      (· = String.ofList (Decimal.plainForm negative ds fs ++ es)) := by
  have hfraction {Q : List Char → Prop} (hQ : Q (if fs.isEmpty then [] else '.' :: fs)) :
      Reads false (optional (append (chars ["."]) digits)) ((if fs.isEmpty then [] else '.' :: fs) ++ (es ++ o))
        (es ++ o) Q := by
    cases fs with
    | nil =>
      refine Fails.optional (Fails.ap_left (Fails.map (fails_chars ?_))) hQ
      simp only [List.mem_cons, List.not_mem_nil, or_false, forall_eq]
      rintro ⟨cs, hcs⟩
      exact (hstart '.' cs hcs.symm).2 rfl
    | cons f fs =>
      refine Reads.optional (Reads.appended (m := f :: fs ++ (es ++ o)) (reads_chars (t := ".") ?_))
      exact (reads_digits (by simp) hfs fun c cs h => (hstart c cs h).1).imp fun xs hxs => by rw [hxs]; exact hQ
  have hdigits {Q : List Char → Prop} (hQ : Q (ds ++ ((if fs.isEmpty then [] else '.' :: fs) ++ es))) :
      Reads false (append digits (append (optional (append (chars ["."]) digits)) exponent))
        (ds ++ ((if fs.isEmpty then [] else '.' :: fs) ++ (es ++ o))) o Q := by
    refine Reads.appended ((reads_digits hne hds ?_).imp fun xs hxs => ?_)
    · intro c cs h
      cases fs with
      | nil => exact (hstart c cs h).1
      | cons f fs =>
        obtain ⟨rfl, -⟩ := List.cons.inj h
        decide
    · exact Reads.appended (hfraction (hexponent (by rw [hxs]; exact hQ)))
  refine Reads.call (Reads.map ?_)
  cases negative with
  | true =>
    rw [Decimal.plainForm, if_pos rfl, List.append_assoc, List.append_assoc]
    refine Reads.appended (Reads.optional (Reads.map (reads_oneOf (t := "-") (by simp) rfl ?_)))
    exact hdigits (by simp)
  | false =>
    rw [Decimal.plainForm, if_neg (by simp), List.nil_append, List.append_assoc]
    refine Reads.appended (Fails.optional (fails_chars ?_) (hdigits (by simp)))
    obtain ⟨d, ds, rfl⟩ := List.exists_cons_of_ne_nil hne
    simp only [List.mem_cons, List.not_mem_nil, or_false, forall_eq]
    rintro ⟨cs, hcs⟩
    have hd := hds d (by simp)
    rw [← (List.cons.inj hcs).1] at hd
    exact absurd hd (by decide)

theorem EndsNumeral.start (ho : EndsNumeral o) : ∀ c cs, o = c :: cs → isDigit c = false ∧ c ≠ '.' :=
  fun c cs h => ⟨isDigit_of_stops (ho c cs h).1, (ho c cs h).2⟩

theorem reads_plainForm {negative : Bool} {ds fs : List Char} (hne : ds ≠ []) (hds : ∀ c ∈ ds, c.isDigit = true)
    (hfs : ∀ c ∈ fs, c.isDigit = true) (ho : EndsNumeral o) :
    Reads spaced (call .number) (Decimal.plainForm negative ds fs ++ o) o
      (· = String.ofList (Decimal.plainForm negative ds fs)) := by
  have hexponent {Q : List Char → Prop} (hQ : Q []) : Reads false exponent o o Q := by
    refine Fails.optional (Fails.ap_left (Fails.map (fails_chars ?_))) hQ
    simp only [List.mem_cons, List.not_mem_nil, or_false, forall_eq_or_imp, forall_eq]
    constructor
    · rintro ⟨cs, rfl⟩
      exact absurd (ho 'e' cs rfl).1 (by decide)
    · rintro ⟨cs, rfl⟩
      exact absurd (ho 'E' cs rfl).1 (by decide)
  have hread : Reads spaced (call .number) (Decimal.plainForm negative ds fs ++ ([] ++ o)) o
      (· = String.ofList (Decimal.plainForm negative ds fs ++ [])) := reads_numeralForm hne hds hfs ho.start hexponent
  rw [List.nil_append, List.append_nil] at hread
  exact hread

theorem reads_scientific {negative : Bool} {ds fs xs : List Char} {sign : Char} (hne : ds ≠ [])
    (hds : ∀ c ∈ ds, c.isDigit = true) (hfs : ∀ c ∈ fs, c.isDigit = true) (hsign : sign = '+' ∨ sign = '-')
    (hxs : xs ≠ []) (hdigits : ∀ c ∈ xs, c.isDigit = true) (ho : EndsNumeral o) :
    Reads spaced (call .number) (Decimal.plainForm negative ds fs ++ 'e' :: sign :: xs ++ o) o
      (· = String.ofList (Decimal.plainForm negative ds fs ++ 'e' :: sign :: xs)) := by
  rw [List.append_assoc]
  refine reads_numeralForm hne hds hfs ?_ fun hQ => ?_
  · rintro _ _ ⟨⟩
    decide
  · refine Reads.optional (Reads.appended (m := sign :: (xs ++ o)) (Reads.map (reads_oneOf (t := "e") (by simp) rfl ?_)))
    have hread {Q : List Char → Prop} (hQ : Q xs) : Reads false digits (xs ++ o) o Q :=
      (reads_digits hxs hdigits fun c cs h => (ho.start c cs h).1).imp fun ys hys => by rw [hys]; exact hQ
    rcases hsign with rfl | rfl
    · exact Reads.appended (Reads.optional (Reads.map (reads_oneOf (t := "+") (by simp) rfl (hread hQ))))
    · exact Reads.appended (Reads.optional (Reads.map (reads_oneOf (t := "-") (by simp) rfl (hread hQ))))

theorem reads_number (a : Decimal) (ho : EndsNumeral o) :
    Reads spaced (call .number) (a.text.toList ++ o) o (· = a.text) := by
  rw [Decimal.text_toList]
  refine (reads_plainForm a.shownWhole_ne_nil a.isDigit_shownWhole a.isDigit_shownDecimals ho).imp fun x hx => ?_
  rw [hx, ← Decimal.text_toList, String.ofList_toList]

theorem fails_number (h : ∀ c cs, i = c :: cs → isDigit c = false ∧
    (c = '-' → ∀ d ds, cs = d :: ds → isDigit d = false)) : Fails spaced (call .number) i := by
  refine Fails.call (Fails.map ?_)
  by_cases hm : ∃ cs, i = '-' :: cs
  · obtain ⟨cs, rfl⟩ := hm
    refine Reads.fails_ap (m := cs) (Reads.map (Reads.optional (Reads.map (reads_oneOf (t := "-") (by simp) rfl ?_))))
    exact Fails.ap_left (Fails.map (fails_digits ((h '-' cs rfl).2 rfl)))
  · refine Reads.fails_ap (m := i) (Reads.map (Fails.optional (fails_chars ?_) ?_))
    · simp only [List.mem_cons, List.not_mem_nil, or_false, forall_eq]
      rintro ⟨cs, rfl⟩
      exact hm ⟨cs, rfl⟩
    · exact Fails.ap_left (Fails.map (fails_digits fun c cs hi => (h c cs hi).1))

/-- What the expression yields is what it takes from the text. -/
def Takes (e : Expr (List Char)) : Prop :=
  ∀ c x d, eval false e c = some (x, d) → c.rest = x ++ d.rest

theorem takes_append {first second : Expr (List Char)} (h₁ : Takes first) (h₂ : Takes second) :
    Takes (append first second) := by
  intro c x d h
  obtain ⟨g, c', y, hg, hy, rfl⟩ := ap_eq_some.mp h
  obtain ⟨z, hz, rfl⟩ := map_eq_some.mp hg
  have hrest : c'.rest = y ++ d.rest := h₂ c' y d hy
  rw [h₁ c z c' hz, hrest, List.append_assoc]

theorem takes_optional {e : Expr (List Char)} (he : Takes e) : Takes (optional e) := by
  intro c x d h
  obtain ⟨o, ho, rfl⟩ := map_eq_some.mp h
  rcases option_eq_some.mp ho with ⟨y, hy, rfl⟩ | ⟨-, rfl, rfl⟩
  · exact he c y d hy
  · rfl

theorem takes_chars (texts : List String) : Takes (chars texts) := by
  intro c x d h
  obtain ⟨t, ht, rfl⟩ := map_eq_some.mp h
  exact (oneOf_eq_some ht).1

theorem takes_digits : Takes digits := by
  intro c x d h
  obtain ⟨g, c', ds, hg, hds, rfl⟩ := ap_eq_some.mp h
  obtain ⟨e, he, rfl⟩ := map_eq_some.mp hg
  obtain ⟨hrest, rfl⟩ := (reads_many_char isDigit c'.rest).eq_some hds
  simp only [gap_false] at hrest
  rw [(char_eq_some he).1, hrest, List.cons_append, List.takeWhile_append_dropWhile]

theorem number_eq_some {c d : Cursor} {x : String} (h : eval spaced (call .number) c = some (x, d)) :
    c.rest = x.toList ++ d.rest := by
  rw [eval_call] at h
  obtain ⟨cs, hcs, rfl⟩ := map_eq_some.mp h
  have hexponent := takes_append (takes_chars ["e", "E"]) (takes_append (takes_optional (takes_chars ["+", "-"])) takes_digits)
  have hfraction := takes_append (takes_chars ["."]) takes_digits
  have hdigits := takes_append takes_digits (takes_append (takes_optional hfraction) (takes_optional hexponent))
  rw [String.toList_ofList]
  exact takes_append (takes_optional (takes_chars ["-"])) hdigits c cs d hcs

end BilingualLogic.Language
