import BilingualLogic.Proofs.Grammar.Number
import Mathlib.Data.Bool.AllAny
import Mathlib.Data.List.Forall2

/-!
Texts by what stands at their front: where nothing is passed over, where a word begins, what can stand behind a term;
and items with separators between them.
-/

namespace BilingualLogic.Language

open Text

variable {i o : List Char}

/-- The characters that can stand behind a term, if any do. -/
def terminators : List Char := [' ', ',', '،', '(', ')', ']', ';']

def EndsTerm (o : List Char) : Prop := ∀ c cs, o = c :: cs → c ∈ terminators

theorem endsTerm_nil : EndsTerm [] := by rintro _ _ ⟨⟩

theorem endsTerm_cons {c : Char} (h : c ∈ terminators) (cs : List Char) : EndsTerm (c :: cs) := by
  rintro _ _ ⟨⟩
  exact h

theorem EndsTerm.endsNumeral (h : EndsTerm o) : EndsNumeral o := by
  have hall : ∀ c ∈ terminators, isNameChar c = false ∧ c ≠ '.' := List.all_iff_forall_prop.mp (by decide +kernel)
  exact fun c cs hcs => hall c (h c cs hcs)

theorem EndsTerm.stops (h : EndsTerm o) : Stops o := fun c cs hc => (h.endsNumeral c cs hc).1

/-- A text at which nothing is passed over. -/
def Solid (i : List Char) : Prop := ∃ c cs, i = c :: cs ∧ Blank.isBlank c = false ∧ c ≠ '/'

theorem Solid.skipText (h : Solid i) : Blank.skipText i = i := by
  obtain ⟨c, cs, rfl, hb, hs⟩ := h
  exact Blank.skipText_stop hb hs cs

theorem solid_cons {c : Char} (h : Blank.isBlank c = false) (hs : c ≠ '/') (cs : List Char) : Solid (c :: cs) :=
  ⟨c, cs, rfl, h, hs⟩

/-- Characters that stand for themselves and are not part of names. -/
theorem isNameChar_marks : ∀ c ∈ [' ', '\t', '\r', '\n', '\u00A0', '\u200E', '\u200F', '\uFEFF', '/', '-', '?', '"', '\'',
    '«', '[', ']', '(', ')', '!', '\\'], isNameChar c = false :=
  List.all_iff_forall_prop.mp (by decide +kernel)

theorem ne_of_isNameChar {c : Char} (h : isNameChar c = true) : c ∉ [' ', '\t', '\r', '\n', '\u00A0', '\u200E', '\u200F',
    '\uFEFF', '/', '-', '?', '"', '\'', '«', '[', ']', '(', ')', '!', '\\'] := by
  intro hmem
  rw [isNameChar_marks c hmem] at h
  cases h

theorem solid_of_isNameChar {c : Char} (h : isNameChar c = true) (cs : List Char) : Solid (c :: cs) := by
  have hne := ne_of_isNameChar h
  refine solid_cons ?_ (fun hs => hne (by simp [hs])) cs
  by_contra hb
  have hblank := Bool.of_not_eq_false hb
  simp only [Blank.isBlank, Bool.or_eq_true, beq_iff_eq] at hblank
  simp only [List.mem_cons, List.not_mem_nil, or_false] at hne
  grind

/-- A letter or `_` stands at the front. -/
def StartsWord (i : List Char) : Prop := ∃ c cs, i = c :: cs ∧ (Unicode.isLetter c || c == '_') = true

theorem isNameChar_of_start {c : Char} (h : (Unicode.isLetter c || c == '_') = true) : isNameChar c = true := by
  simp only [isNameChar, Bool.or_eq_true] at h ⊢
  rcases h with hl | hl
  · exact Or.inl (Or.inl (Or.inl hl))
  · exact Or.inr hl

theorem isDigit_of_start {c : Char} (h : (Unicode.isLetter c || c == '_') = true) : isDigit c = false := by
  by_contra hd
  have hdigit := Bool.of_not_eq_false hd
  rw [(isNameChar_of_isDigit hdigit).2] at h
  obtain rfl : c = '_' := by simpa using h
  exact absurd hdigit (by decide)

theorem startsWord_of_isName {w : List Char} (h : isName w = true) (o : List Char) : StartsWord (w ++ o) := by
  simp only [isName, Bool.and_eq_true] at h
  obtain ⟨c, hc, hletter⟩ := (Option.any_eq_true _ _).mp h.1.2
  obtain ⟨cs, rfl⟩ := List.head?_eq_some_iff.mp hc
  exact ⟨c, cs ++ o, rfl, hletter⟩

theorem isNameChar_of_isName {w : List Char} (h : isName w = true) : ∀ c ∈ w, isNameChar c = true := by
  simp only [isName, Bool.and_eq_true, List.all_eq_true] at h
  exact h.1.1

theorem StartsWord.solid (h : StartsWord i) : Solid i := by
  obtain ⟨c, cs, rfl, hc⟩ := h
  exact solid_of_isNameChar (isNameChar_of_start hc) cs

variable {spaced : Bool}

theorem fails_number_cons {c : Char} (hd : isDigit c = false) (hm : c ≠ '-') (cs : List Char) :
    Fails spaced (call .number) (c :: cs) := by
  apply fails_number
  rintro _ _ ⟨⟩
  exact ⟨hd, fun h => absurd h hm⟩

theorem fails_var_cons {c : Char} (hc : c ≠ '?') (cs : List Char) : Fails spaced (call .var) (c :: cs) := by
  apply fails_var_of_ne
  rintro _ ⟨⟩
  exact hc rfl

theorem fails_string_cons {c : Char} (hc : c ∉ ['"', '\'', '«']) (cs : List Char) :
    Fails spaced (call .string) (c :: cs) := by
  apply fails_string
  rintro _ _ ⟨⟩
  simpa [not_or] using hc

theorem fails_token_cons {t : String} {c d : Char} {ds : List Char} (ht : t.toList = d :: ds) (hc : c ≠ d)
    (cs : List Char) : Fails spaced (Peg.token t) (c :: cs) := by
  apply Language.fails_token
  rintro ⟨o, ho⟩
  rw [ht] at ho
  exact hc (List.cons.inj ho).1.symm

theorem StartsWord.ne_cons (h : StartsWord i) {c : Char} (hc : c ∈ ['-', '?', '"', '\'', '«', '[', ']', '(', ')', '!', '\\'])
    (cs : List Char) : i ≠ c :: cs := by
  obtain ⟨d, ds, rfl, hd⟩ := h
  rintro ⟨⟩
  refine ne_of_isNameChar (isNameChar_of_start hd) ?_
  simp only [List.mem_cons] at hc ⊢
  grind

theorem StartsWord.fails_token (h : StartsWord i) {c : Char} (hc : c ∈ ['-', '?', '"', '\'', '«', '[', ']', '(', ')', '!', '\\'])
    {t : String} {cs : List Char} (ht : t.toList = c :: cs) : Fails spaced (Peg.token t) i := by
  apply Language.fails_token
  rintro ⟨o, rfl⟩
  exact h.ne_cons hc (cs ++ o) (by rw [ht, List.cons_append])

theorem StartsWord.fails_var (h : StartsWord i) : Fails spaced (call .var) i :=
  fails_var_of_ne fun cs => h.ne_cons (by simp) cs

theorem StartsWord.fails_number (h : StartsWord i) : Fails spaced (call .number) i := by
  apply Language.fails_number
  obtain ⟨d, ds, rfl, hd⟩ := h
  rintro _ _ ⟨⟩
  refine ⟨isDigit_of_start hd, ?_⟩
  rintro rfl
  exact absurd hd (by decide +kernel)

theorem StartsWord.fails_string (h : StartsWord i) : Fails spaced (call .string) i := by
  apply Language.fails_string
  rintro c cs rfl
  refine ⟨?_, ?_, ?_⟩
  · rintro rfl
    exact h.ne_cons (by simp) cs rfl
  · rintro rfl
    exact h.ne_cons (by simp) cs rfl
  · rintro rfl
    exact h.ne_cons (by simp) cs rfl

theorem StartsWord.fails_anonymous (h : StartsWord i) (hne : leading i ≠ ['_']) :
    Fails spaced (call .anonymous) i := by
  refine Language.fails_anonymous (fun cs => h.ne_cons (by simp) _) ?_
  rintro cs rfl hcs
  have hl := leading_append (w := ['_']) (by simp; decide) hcs
  exact hne hl

theorem reads_word_append {e : Expr String} {x : String} (hr : ∀ i, isName (leading i) = true →
      Reads spaced e i (trailing i) (· = String.ofList (leading i)))
    (h : isName x.toList = true) (ho : Stops o) : Reads spaced e (x.toList ++ o) o (· = x) := by
  have hl := leading_append (isNameChar_of_isName h) ho
  have hword := hr (x.toList ++ o) (by rw [hl]; exact h)
  rw [hl, trailing_append (isNameChar_of_isName h) ho, String.ofList_toList] at hword
  exact hword

theorem reads_atom_append {x : String} (h : isName x.toList = true) (ho : Stops o) :
    Reads spaced (call .atom) (x.toList ++ o) o (· = x) := reads_word_append (fun _ => reads_atom) h ho

theorem reads_name_append {x : String} (h : isName x.toList = true) (ho : Stops o) :
    Reads spaced (call .name) (x.toList ++ o) o (· = x) := reads_word_append (fun _ => reads_name) h ho

theorem spells_of_isName {w : List Char} (h : isName w = true) {k : Keyword} (hk : k ∈ reservedKeywords) :
    k.spells w = false := by
  simp only [isName, Bool.and_eq_true, List.all_eq_true, Bool.not_eq_true'] at h
  exact h.2 k hk

theorem StartsWord.fails_list (h : StartsWord i) : Fails spaced (call .list) i :=
  Fails.call (Fails.left_left (Fails.right_left (h.fails_token (c := '[') (by simp) rfl)))

theorem startsWord_spelling (k : Keyword) {t : String} (ht : t ∈ k.allSpellings) (o : List Char) :
    StartsWord (t.toList ++ o) := by
  have hall : ∀ k ∈ Keyword.all, ∀ t ∈ k.allSpellings,
      (t.toList.head?.any fun c => Unicode.isLetter c || c == '_') = true := by decide +kernel
  obtain ⟨c, hc, hletter⟩ := (Option.any_eq_true _ _).mp (hall k (Keyword.mem_all k) t ht)
  obtain ⟨cs, hcs⟩ := List.head?_eq_some_iff.mp hc
  rw [hcs]
  exact ⟨c, cs ++ o, rfl, hletter⟩

theorem mem_of_spells {k : Keyword} {t : String} (h : k.spells t.toList = true) : t ∈ k.allSpellings := by
  obtain ⟨u, hu, heq⟩ := spells_mem h
  exact String.toList_injective heq ▸ hu

theorem leading_spelling {k : Keyword} {t : String} (ht : t ∈ k.allSpellings) (ho : Stops o) :
    leading (t.toList ++ o) = t.toList ∧ trailing (t.toList ++ o) = o :=
  ⟨leading_append (isNameChar_spelling k t ht) ho, trailing_append (isNameChar_spelling k t ht) ho⟩

theorem spells_of_front {c : Char} (h : (Unicode.isLetter c || c == '_') = false) (k : Keyword) (cs : List Char) :
    k.spells (leading (c :: cs)) = false := by
  by_contra hspells
  obtain ⟨t, ht, hword⟩ := spells_mem (Bool.of_not_eq_false hspells)
  obtain ⟨d, ds, hd, hletter⟩ := startsWord_spelling k ht (trailing (c :: cs))
  rw [hword, leading_append_trailing] at hd
  obtain ⟨rfl, -⟩ := List.cons.inj hd
  rw [h] at hletter
  cases hletter

section Spelled

variable {k : Keyword} {t : String}

theorem reads_spelling (ht : k.spells t.toList = true) (ho : Stops o) :
    Reads spaced (keyword k) (t.toList ++ o) o (· = t) := by
  obtain ⟨hl, htrail⟩ := leading_spelling (mem_of_spells ht) ho
  have hread : Reads spaced (keyword k) (t.toList ++ o) (trailing (t.toList ++ o))
      (· = String.ofList (leading (t.toList ++ o))) := reads_keyword (by rw [hl]; exact ht)
  rw [hl, htrail, String.ofList_toList] at hread
  exact hread

theorem spells_other (ht : k.spells t.toList = true) (ho : Stops o) {k' : Keyword} (hne : k' ≠ k) :
    k'.spells (leading (t.toList ++ o)) = false := by
  rw [(leading_spelling (mem_of_spells ht) ho).1]
  exact spells_unique ht hne

end Spelled

section Separated

variable {α β γ : Type} {e : Expr α} {separator : Expr β} {mark : Char} {text : γ → List Char} {Q : γ → α → Prop}
  {Ends : List Char → Prop}

/-- Items with a mark and a blank before every one but the first. -/
def spread (mark : Char) (text : γ → List Char) : List γ → List Char
  | [] => []
  | a :: as => text a ++ as.flatMap fun b => mark :: ' ' :: text b

theorem intercalate_eq_spread (mark : Char) (text : γ → List Char) (as : List γ) :
    List.intercalate [mark, ' '] (as.map text) = spread mark text as := by
  have htail (as : List γ) (a : γ) : List.intercalate [mark, ' '] ((a :: as).map text) = spread mark text (a :: as) := by
    induction as generalizing a with
    | nil => simp [spread, List.intercalate]
    | cons b bs ih =>
      have := ih b
      simp only [List.map_cons, spread, List.flatMap_cons] at this ⊢
      rw [List.intercalate_cons_cons, this]
      simp
  cases as with
  | nil => rfl
  | cons a as => exact htail as a

theorem reads_separated (hp : (separator *> e).productive nullable = true) (hn : (separator *> e).nullable nullable = false)
    (hmark : Blank.isBlank mark = false ∧ mark ≠ '/') (hends : ∀ m, Ends (mark :: m))
    (hsep : ∀ m, Reads true separator (mark :: m) m fun _ => True) {a : γ} {as : List γ}
    (hsolid : ∀ b ∈ a :: as, ∀ o, Solid (text b ++ o))
    (hread : ∀ b ∈ a :: as, ∀ o, Ends o → Reads true e (text b ++ o) o (Q b)) (ho : Ends o)
    (hstop : Fails true separator (Blank.skipText o)) :
    Reads true (Peg.separated e separator) (spread mark text (a :: as) ++ o) o (List.Forall₂ Q (a :: as)) := by
  have hskip (m : List Char) : Blank.skipText (mark :: m) = mark :: m := Blank.skipText_stop hmark.1 hmark.2 m
  have hitem (b : γ) (hb : b ∈ a :: as) (o : List Char) (ho : Ends o) :
      Reads true (separator *> e) (mark :: ' ' :: (text b ++ o)) o (Q b) := by
    refine Reads.right ((hsep _).imp fun _ _ => ?_)
    rw [gap_true, Blank.skipText_blank rfl, (hsolid b hb o).skipText]
    exact hread b hb o ho
  have hends' (bs : List γ) : Ends ((bs.flatMap fun b => mark :: ' ' :: text b) ++ o) := by
    cases bs with
    | nil => exact ho
    | cons b bs => exact hends _
  -- the items behind the first, each with the mark before it
  have hmore (bs : List γ) (hbs : ∀ b ∈ bs, b ∈ a :: as) :
      ReadsMore true (separator *> e) ((bs.flatMap fun b => mark :: ' ' :: text b) ++ o) o (List.Forall₂ Q bs) := by
    induction bs with
    | nil => exact Fails.more (Fails.right_left hstop) .nil
    | cons b bs ih =>
      rw [List.flatMap_cons, List.append_assoc]
      refine Reads.more (m := (bs.flatMap fun b => mark :: ' ' :: text b) ++ o) hp hn ?_
      rw [gap_true, List.cons_append, hskip]
      refine (hitem b (hbs b (by simp)) _ (hends' bs)).imp fun x hx => ?_
      exact (ih fun b hb => hbs b (by simp [hb])).imp fun xs hxs => .cons hx hxs
  rw [spread, List.append_assoc]
  refine Reads.ap (Reads.map ((hread a (by simp) _ (hends' as)).imp fun x hx => ?_))
  cases as with
  | nil =>
    refine (Fails.many (Fails.right_left hstop) ?_).of_gap ?_
    · exact .cons hx .nil
    · simp
  | cons b bs =>
    rw [gap_true, List.flatMap_cons, List.append_assoc, List.cons_append, hskip]
    refine Reads.many ((hitem b (by simp) _ (hends' bs)).imp fun y hy => ?_)
    exact (hmore bs fun b hb => by simp [hb]).imp fun ys hys => .cons hx (.cons hy hys)

end Separated

end BilingualLogic.Language
