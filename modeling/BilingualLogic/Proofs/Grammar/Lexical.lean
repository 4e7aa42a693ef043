import BilingualLogic.Proofs.Grammar.Reads
import Mathlib.Tactic.ByContra

/-!
Words, names, variables and texts. Whether a keyword, a name or an atom is read is settled by the characters of names
at the front of the text; what stands behind them is not looked at.
-/

namespace BilingualLogic

/-- Whether the spelling of the keyword that is tried first on these characters is the whole of them. -/
def Keyword.spells (k : Keyword) (w : List Char) : Bool :=
  (k.allSpellings.find? (·.toList.isPrefixOf w)).any (·.toList == w)

/-- No spelling stands in the table twice. -/
theorem Keyword.ofSpelling?_of_mem {k : Keyword} {t : String} (h : t ∈ k.allSpellings) : ofSpelling? t = some k := by
  have hall : ∀ k ∈ all, ∀ t ∈ k.allSpellings, ofSpelling? t = some k := by decide +kernel
  exact hall k (mem_all k) t h

theorem Keyword.mem_of_ofSpelling? {k : Keyword} {t : String} (h : ofSpelling? t = some k) : t ∈ k.allSpellings := by
  have := List.find?_some h
  simpa using this

namespace Language

open Unicode

/-- The characters at the front that can stand in names. -/
def leading (i : List Char) : List Char := i.takeWhile isNameChar

/-- What stands behind these. -/
def trailing (i : List Char) : List Char := i.dropWhile isNameChar

def Stops (o : List Char) : Prop := ∀ c cs, o = c :: cs → isNameChar c = false

variable {spaced : Bool} {i o w : List Char}

theorem stops_nil : Stops [] := by
  intro c cs h
  cases h

theorem stops_cons {c : Char} (h : isNameChar c = false) (cs : List Char) : Stops (c :: cs) := by
  rintro _ _ ⟨⟩
  exact h

theorem leading_append_trailing (i : List Char) : leading i ++ trailing i = i := List.takeWhile_append_dropWhile

theorem mem_leading {c : Char} (h : c ∈ leading i) : isNameChar c = true := by
  have := List.all_takeWhile (p := isNameChar) (l := i)
  rw [List.all_eq_true] at this
  exact this c h

theorem stops_trailing (i : List Char) : Stops (trailing i) := by
  intro c cs h
  have := List.head?_dropWhile_not isNameChar i
  rw [show i.dropWhile isNameChar = c :: cs from h] at this
  simpa using this

theorem leading_append (hw : ∀ c ∈ w, isNameChar c = true) (ho : Stops o) : leading (w ++ o) = w := by
  rw [leading, List.takeWhile_append_of_pos hw]
  cases o with
  | nil => simp
  | cons c cs => simp [ho c cs rfl]

theorem trailing_append (hw : ∀ c ∈ w, isNameChar c = true) (ho : Stops o) : trailing (w ++ o) = o := by
  rw [trailing, List.dropWhile_append_of_pos hw]
  cases o with
  | nil => rfl
  | cons c cs => simp [ho c cs rfl]

theorem leading_of_stops (h : Stops i) : leading i = [] := leading_append (w := []) (by simp) h

theorem prefix_leading_iff (hw : ∀ c ∈ w, isNameChar c = true) : w <+: leading i ↔ w <+: i := by
  constructor
  · intro h
    exact h.trans ⟨trailing i, leading_append_trailing i⟩
  · rintro ⟨o, rfl⟩
    rw [leading, List.takeWhile_append_of_pos hw]
    exact List.prefix_append _ _

theorem readsMore_char (accepts : Char → Bool) (i : List Char) :
    ReadsMore false (.char accepts) i (i.dropWhile accepts) (· = i.takeWhile accepts) := by
  induction i with
  | nil => exact Fails.more (fails_char (by simp)) rfl
  | cons c cs ih =>
    cases hc : accepts c with
    | true =>
      rw [List.dropWhile_cons_of_pos hc, List.takeWhile_cons_of_pos hc]
      exact Reads.more rfl rfl (reads_char hc (ih.imp fun xs hxs => by rw [hxs]))
    | false =>
      rw [List.dropWhile_cons_of_neg (by simp [hc]), List.takeWhile_cons_of_neg (by simp [hc])]
      exact Fails.more (fails_char (by rintro _ _ ⟨⟩; exact hc)) rfl

theorem reads_many_char (accepts : Char → Bool) (i : List Char) :
    Reads false (.many (.char accepts)) i (i.dropWhile accepts) (· = i.takeWhile accepts) := by
  cases i with
  | nil => exact Fails.many (fails_char (by simp)) rfl
  | cons c cs =>
    cases hc : accepts c with
    | true =>
      rw [List.dropWhile_cons_of_pos hc, List.takeWhile_cons_of_pos hc]
      exact Reads.many (reads_char hc ((readsMore_char accepts cs).imp fun xs hxs => by rw [hxs]))
    | false =>
      rw [List.dropWhile_cons_of_neg (by simp [hc]), List.takeWhile_cons_of_neg (by simp [hc])]
      exact Fails.many (fails_char (by rintro _ _ ⟨⟩; exact hc)) rfl

section Keywords

theorem isNameChar_spelling (k : Keyword) : ∀ t ∈ k.allSpellings, ∀ c ∈ t.toList, isNameChar c = true := by
  have h : ∀ k ∈ Keyword.all, ∀ t ∈ k.allSpellings, t.toList.all isNameChar = true := by decide +kernel
  exact fun t ht => List.all_eq_true.mp (h k (Keyword.mem_all k) t ht)

theorem find_spelling (k : Keyword) (i : List Char) : k.allSpellings.find? (·.toList.isPrefixOf i) =
    k.allSpellings.find? (·.toList.isPrefixOf (leading i)) := by
  have h := isNameChar_spelling k
  generalize k.allSpellings = ts at h
  induction ts with
  | nil => rfl
  | cons t ts ih =>
    have ht : t.toList.isPrefixOf (leading i) = t.toList.isPrefixOf i := by
      rw [Bool.eq_iff_iff, List.isPrefixOf_iff_prefix, List.isPrefixOf_iff_prefix]
      exact prefix_leading_iff (h t List.mem_cons_self)
    rw [List.find?_cons, List.find?_cons, ht, ih fun u hu => h u (List.mem_cons_of_mem t hu)]

variable {k : Keyword}

theorem reads_keyword (h : k.spells (leading i) = true) :
    Reads spaced (keyword k) i (trailing i) (· = String.ofList (leading i)) := by
  obtain ⟨t, ht, heq⟩ := (Option.any_eq_true _ _).mp h
  have htl : t.toList = leading i := by simpa using heq
  apply Reads.call
  refine Reads.left (m := trailing i) (reads_oneOf ((find_spelling k i).trans ht) ?_ ?_)
  · rw [htl, leading_append_trailing]
  · refine Fails.unless (fails_char (stops_trailing i)) ?_
    rw [← htl, String.ofList_toList]

theorem fails_keyword (h : k.spells (leading i) = false) : Fails spaced (keyword k) i := by
  apply Fails.call
  cases ht : k.allSpellings.find? (·.toList.isPrefixOf (leading i)) with
  | none =>
    refine Fails.left_left (fails_oneOf fun t hmem hpre => ?_)
    rw [← find_spelling] at ht
    have := List.find?_eq_none.mp ht t hmem
    exact this (List.isPrefixOf_iff_prefix.mpr hpre)
  | some t =>
    -- the spelling is only the front of the word
    have hpre : t.toList.isPrefixOf (leading i) = true :=
      List.find?_some (p := fun t : String => t.toList.isPrefixOf (leading i)) ht
    obtain ⟨u, hu⟩ := List.isPrefixOf_iff_prefix.mp hpre
    have hne : u ≠ [] := by
      rintro rfl
      simp only [List.append_nil] at hu
      simp [Keyword.spells, ht, hu] at h
    obtain ⟨c, cs, rfl⟩ := List.exists_cons_of_ne_nil hne
    have hc : isNameChar c = true := mem_leading (i := i) (by simp [← hu])
    have hi : i = t.toList ++ (c :: cs ++ trailing i) := by
      rw [← List.append_assoc, hu, leading_append_trailing]
    refine Reads.fails_left (reads_oneOf ((find_spelling k i).trans ht) hi ?_)
    exact Reads.fails_unless (o := cs ++ trailing i) (Q := fun _ => True) (reads_char hc trivial)

theorem spells_nil (k : Keyword) : k.spells [] = false := by
  have h : ∀ k ∈ Keyword.all, k.spells [] = false := by decide +kernel
  exact h k (Keyword.mem_all k)

theorem fails_keyword_of_stops (h : Stops i) : Fails spaced (keyword k) i :=
  fails_keyword (by rw [leading_of_stops h, spells_nil])

theorem spells_mem (h : k.spells w = true) : ∃ t ∈ k.allSpellings, t.toList = w := by
  obtain ⟨t, ht, heq⟩ := (Option.any_eq_true _ _).mp h
  exact ⟨t, List.mem_of_find?_eq_some ht, by simpa using heq⟩

theorem spells_unique {k' : Keyword} (h : k.spells w = true) (hne : k' ≠ k) : k'.spells w = false := by
  obtain ⟨t, ht, rfl⟩ := spells_mem h
  have hall : ∀ k ∈ Keyword.all, ∀ t ∈ k.allSpellings, ∀ k' ∈ Keyword.all, k' ≠ k → k'.spells t.toList = false := by
    decide +kernel
  exact hall k (Keyword.mem_all k) t ht k' (Keyword.mem_all k') hne

example : Keyword.cut.spells "اقطع".toList = true ∧ Keyword.assert.spells "اقطع".toList = false := by decide +kernel

theorem spells_spelling (k : Keyword) (v : Vocabulary) : k.spells (k.spelling v).toList = true := by
  have h : ∀ k ∈ Keyword.all, ∀ v ∈ [Vocabulary.latin, .arabic], k.spells (k.spelling v).toList = true := by
    decide +kernel
  exact h k (Keyword.mem_all k) v (by cases v <;> simp)

theorem spelling_mem (k : Keyword) (v : Vocabulary) : k.spelling v ∈ k.allSpellings := by
  cases k <;> cases v <;> decide

end Keywords

section Names

/-- Whether a word is one that can name a predicate or an atom. -/
def isName (w : List Char) : Bool :=
  w.all isNameChar && (w.head?.any fun c => isLetter c || c == '_') && reservedKeywords.all (! ·.spells w)

theorem reads_identifier {c : Char} {cs : List Char} (hc : (isLetter c || c == '_') = true) :
    Reads false identifier (c :: cs) (trailing cs) (· = String.ofList (c :: leading cs)) := by
  refine Reads.ap (Reads.map (reads_char hc ?_))
  refine (reads_many_char isNameChar cs).imp fun xs hxs => ?_
  rw [hxs]
  rfl

theorem fails_choices {e : Expr String} {ks : List Keyword} (he : Fails spaced e i)
    (h : ∀ k ∈ ks, k.spells (leading i) = false) : Fails spaced (ks.foldl (fun e k => e <|> keyword k) e) i := by
  induction ks generalizing e with
  | nil => exact he
  | cons k ks ih => exact ih (he.or (fails_keyword (h k (by simp)))) fun k hk => h k (by simp [hk])

theorem reads_choices_of_first {e : Expr String} {ks : List Keyword} (he : Reads spaced e i o fun _ => True) :
    Reads spaced (ks.foldl (fun e k => e <|> keyword k) e) i o fun _ => True := by
  induction ks generalizing e with
  | nil => exact he
  | cons k ks ih => exact ih he.orLeft

theorem reads_choices {e : Expr String} {ks : List Keyword} (he : Fails spaced e i)
    (h : ∃ k ∈ ks, k.spells (leading i) = true) :
    Reads spaced (ks.foldl (fun e k => e <|> keyword k) e) i (trailing i) fun _ => True := by
  induction ks generalizing e with
  | nil => simp at h
  | cons k ks ih =>
    cases hk : k.spells (leading i) with
    | true =>
      rw [List.foldl_cons]
      exact reads_choices_of_first (he.orRight ((reads_keyword hk).imp fun _ _ => trivial))
    | false => exact ih (he.or (fails_keyword hk)) (by simpa [hk] using h)

theorem fails_reserved (h : ∀ k ∈ reservedKeywords, k.spells (leading i) = false) :
    Fails spaced (call .reserved) i := by
  refine Fails.call (Fails.map (fails_choices (fails_keyword (h _ ?_)) fun k hk => h k (List.mem_of_mem_tail hk)))
  decide

theorem reads_reserved (h : ∃ k ∈ reservedKeywords, k.spells (leading i) = true) :
    Reads spaced (call .reserved) i (trailing i) fun _ => True := by
  refine Reads.call (Reads.map ?_)
  cases hf : Keyword.fact.spells (leading i) with
  | true => exact reads_choices_of_first ((reads_keyword hf).imp fun _ _ => trivial)
  | false =>
    refine reads_choices (fails_keyword hf) ?_
    obtain ⟨k, hk, hs⟩ := h
    have hsplit : reservedKeywords = .fact :: reservedKeywords.tail := by decide
    rw [hsplit] at hk
    rcases List.mem_cons.mp hk with rfl | hk
    · simp [hf] at hs
    · exact ⟨k, hk, hs⟩

/-- The body of the rules for names and atoms. -/
def word : Expr String := .unless (call .reserved) *> identifier

theorem reads_word (h : isName (leading i) = true) :
    Reads false word i (trailing i) (· = String.ofList (leading i)) := by
  simp only [isName, Bool.and_eq_true, List.all_eq_true, Bool.not_eq_true'] at h
  obtain ⟨⟨hw, hfirst⟩, hres⟩ := h
  obtain ⟨c, hc, hletter⟩ := (Option.any_eq_true _ _).mp hfirst
  cases i with
  | nil => simp [leading] at hc
  | cons d cs =>
    cases hd : isNameChar d with
    | false => simp [leading, hd] at hc
    | true =>
      obtain rfl : d = c := by simpa [leading, hd] using hc
      have hl : leading (d :: cs) = d :: leading cs := by simp [leading, hd]
      have ht : trailing (d :: cs) = trailing cs := by simp [trailing, hd]
      rw [hl, ht]
      exact Reads.right (Fails.unless (fails_reserved hres) (reads_identifier hletter))

theorem fails_word (h : isName (leading i) = false) : Fails false word i := by
  by_cases hres : ∃ k ∈ reservedKeywords, k.spells (leading i) = true
  · exact Fails.right_left (Reads.fails_unless (reads_reserved hres))
  · have hnone : ∀ k ∈ reservedKeywords, k.spells (leading i) = false := by
      intro k hk
      by_contra hne
      exact hres ⟨k, hk, Bool.of_not_eq_false hne⟩
    refine Reads.fails_right (Fails.unless (fails_reserved hnone) ?_)
    refine Fails.ap_left (Fails.map (fails_char ?_))
    rintro c cs rfl
    by_contra hc
    have hletter : (isLetter c || c == '_') = true := Bool.of_not_eq_false hc
    have hname : isNameChar c = true := by
      simp only [isNameChar, Bool.or_eq_true] at hletter ⊢
      rcases hletter with hl | hl
      · exact Or.inl (Or.inl (Or.inl hl))
      · exact Or.inr hl
    have hw : ∀ d ∈ leading (c :: cs), isNameChar d = true := fun d hd => mem_leading hd
    have hhead : (leading (c :: cs)).head? = some c := by simp [leading, hname]
    have hall : ∀ k ∈ reservedKeywords, (! k.spells (leading (c :: cs))) = true := by simpa using hnone
    simp [isName, hhead, hletter, List.all_eq_true.mpr hall, List.all_eq_true.mpr hw] at h

theorem reads_name (h : isName (leading i) = true) :
    Reads spaced (call .name) i (trailing i) (· = String.ofList (leading i)) := Reads.call (reads_word h)

theorem fails_name (h : isName (leading i) = false) : Fails spaced (call .name) i := Fails.call (fails_word h)

theorem reads_atom (h : isName (leading i) = true) :
    Reads spaced (call .atom) i (trailing i) (· = String.ofList (leading i)) := Reads.call (reads_word h)

theorem fails_atom (h : isName (leading i) = false) : Fails spaced (call .atom) i := Fails.call (fails_word h)

end Names

section Variables

theorem reads_var (h : leading i ≠ []) :
    Reads spaced (call .var) ('?' :: i) (trailing i) (· = String.ofList (leading i)) := by
  refine Reads.call (Reads.right (reads_token (o := i) (Reads.call (Reads.map ?_))))
  cases i with
  | nil => exact absurd rfl h
  | cons c cs =>
    cases hc : isNameChar c with
    | false => exact absurd (leading_of_stops (stops_cons hc cs)) h
    | true =>
      refine Reads.ap (Reads.map (reads_char hc ?_))
      have htail := reads_many_char isNameChar cs
      rw [show trailing (c :: cs) = cs.dropWhile isNameChar from List.dropWhile_cons_of_pos hc]
      refine htail.imp fun xs hxs => ?_
      rw [hxs, leading, List.takeWhile_cons_of_pos hc]

theorem fails_var_of_ne (h : ∀ cs, i ≠ '?' :: cs) : Fails spaced (call .var) i :=
  Fails.call (Fails.right_left (fails_token (by
    rintro ⟨cs, hcs⟩
    exact h cs hcs.symm)))

theorem reads_anonymous (h : Stops i) : Reads spaced (call .anonymous) ('_' :: i) i fun _ => True := by
  refine Reads.call (Reads.map (Reads.left (m := i) (reads_oneOf (t := "_") ?_ rfl ?_)))
  · simp
  · exact Fails.unless (fails_char h) trivial

theorem fails_anonymous (hv : ∀ cs, i ≠ '?' :: '_' :: cs) (hu : ∀ cs, i = '_' :: cs → ¬ Stops cs) :
    Fails spaced (call .anonymous) i := by
  refine Fails.call (Fails.map ?_)
  have hq : ¬ "?_".toList <+: i := by
    rintro ⟨cs, rfl⟩
    exact hv cs rfl
  by_cases hi : ∃ cs, i = '_' :: cs
  · obtain ⟨cs, rfl⟩ := hi
    have hcs : ∃ c ds, cs = c :: ds ∧ isNameChar c = true := by
      by_contra hno
      refine hu cs rfl fun c ds hds => ?_
      by_contra hc
      exact hno ⟨c, ds, hds, Bool.of_not_eq_false hc⟩
    obtain ⟨c, ds, rfl, hc⟩ := hcs
    refine Reads.fails_left (m := c :: ds) (reads_oneOf (t := "_") (by simp) rfl ?_)
    exact Reads.fails_unless (o := ds) (Q := fun _ => True) (reads_char hc trivial)
  · refine Fails.left_left (fails_oneOf ?_)
    simp only [List.mem_cons, List.not_mem_nil, or_false, forall_eq_or_imp, forall_eq]
    refine ⟨hq, ?_⟩
    rintro ⟨cs, rfl⟩
    exact hi ⟨cs, rfl⟩

end Variables

section Constants

theorem reads_boolean {b : Bool} (h : (bif b then Keyword.true else Keyword.false).spells (leading i) = true) :
    Reads spaced (call .boolean) i (trailing i) (· = b) := by
  refine Reads.call ?_
  cases b with
  | true => exact Reads.orLeft (Reads.map ((reads_keyword h).imp fun _ _ => rfl))
  | false =>
    have ht : Keyword.true.spells (leading i) = false := spells_unique h (by decide)
    exact Fails.orRight (Fails.map (fails_keyword ht)) (Reads.map ((reads_keyword h).imp fun _ _ => rfl))

theorem fails_boolean (ht : Keyword.true.spells (leading i) = false) (hf : Keyword.false.spells (leading i) = false) :
    Fails spaced (call .boolean) i :=
  Fails.call (Fails.or (Fails.map (fails_keyword ht)) (Fails.map (fails_keyword hf)))

/-- A character of a text in quotes. -/
def quotedChar : Expr Char := (unescaped <$> (.token "\\" *> .char fun _ => true)) <|> .char (· != '"')

/-- A way to write the characters of a text in quotes: each as it is or by one behind a backslash, and quotes and
backslashes never as they are. -/
def Escapes (escape : Char → List Char) : Prop :=
  ∀ c, (escape c = [c] ∧ c ≠ '"' ∧ c ≠ '\\') ∨ ∃ d, escape c = ['\\', d] ∧ unescaped d = c

theorem escapes_value : Escapes Value.escaped := by
  intro c
  unfold Value.escaped
  split
  · exact .inr ⟨'"', rfl, rfl⟩
  · exact .inr ⟨'\\', rfl, rfl⟩
  · exact .inr ⟨'n', rfl, rfl⟩
  · exact .inr ⟨'t', rfl, rfl⟩
  · next hquote hbackslash _ _ => exact .inl ⟨rfl, hquote, hbackslash⟩

variable {escape : Char → List Char}

theorem Escapes.reads_quotedChar (h : Escapes escape) (c : Char) (o : List Char) :
    Reads false quotedChar (escape c ++ o) o (· = c) := by
  rcases h c with ⟨heq, hquote, hbackslash⟩ | ⟨d, heq, hd⟩
  · rw [heq]
    refine Fails.orRight (Fails.map (Fails.right_left (fails_token ?_))) (reads_char (by simpa using hquote) rfl)
    rintro ⟨cs, hcs⟩
    exact hbackslash (List.cons.inj hcs).1.symm
  · rw [heq]
    exact Reads.orLeft (Reads.map (Reads.right (reads_token (t := "\\") (o := d :: o) (reads_char rfl hd))))

theorem fails_quotedChar (o : List Char) : Fails false quotedChar ('"' :: o) := by
  refine Fails.or (Fails.map (Fails.right_left (fails_token ?_))) (fails_char ?_)
  · rintro ⟨cs, hcs⟩
    exact absurd (List.cons.inj hcs).1 (by decide)
  · rintro _ _ ⟨⟩
    rfl

/-- The characters in front of the closing quote, with what is written for each of them. -/
theorem reads_quotedChars (h : Escapes escape) (cs o : List Char) :
    Reads false (.many quotedChar) (cs.flatMap escape ++ '"' :: o) ('"' :: o) (· = cs) := by
  have hmore (cs : List Char) : ReadsMore false quotedChar (cs.flatMap escape ++ '"' :: o) ('"' :: o) (· = cs) := by
    induction cs with
    | nil => exact Fails.more (fails_quotedChar o) rfl
    | cons c cs ih =>
      rw [List.flatMap_cons, List.append_assoc]
      refine Reads.more rfl rfl ((h.reads_quotedChar c _).imp fun x hx => ih.imp fun xs hxs => ?_)
      rw [hx, hxs]
  exact (hmore cs).many rfl rfl

theorem reads_string_body (h : Escapes escape) (cs o : List Char) :
    Reads false (body .string) ('"' :: (cs.flatMap escape ++ '"' :: o)) o (· = String.ofList cs) := by
  refine Reads.orLeft (Reads.left (m := '"' :: o) ?_)
  refine Reads.right (reads_token (t := "\"") (o := cs.flatMap escape ++ '"' :: o) ?_)
  refine Reads.map ((reads_quotedChars h cs o).imp fun xs hxs => reads_token (t := "\"") (o := o) ?_)
  rw [hxs]

theorem reads_quoted (h : Escapes escape) (cs o : List Char) :
    Reads spaced (call .string) ('"' :: (cs.flatMap escape ++ '"' :: o)) o (· = String.ofList cs) :=
  Reads.call (reads_string_body h cs o)

theorem reads_string (content : String) (o : List Char) :
    Reads spaced (call .string) ((Value.quoted content).toList ++ o) o (· = content) := by
  have htext : (Value.quoted content).toList ++ o = '"' :: (content.toList.flatMap Value.escaped ++ '"' :: o) := by
    simp [Value.quoted]
  rw [htext]
  refine (reads_quoted escapes_value content.toList o).imp fun x hx => ?_
  rw [hx, String.ofList_toList]

theorem fails_string (h : ∀ c cs, i = c :: cs → c ≠ '"' ∧ c ≠ '\'' ∧ c ≠ '«') : Fails spaced (call .string) i := by
  have hfirst (q : Char) (hq : ∀ c cs, i = c :: cs → c ≠ q) : ¬ (q.toString).toList <+: i := by
    rintro ⟨cs, rfl⟩
    exact hq q cs (by simp) rfl
  refine Fails.call (Fails.or (Fails.left_left (Fails.right_left (fails_token ?_)))
    (Fails.or (Fails.left_left (Fails.right_left (fails_token ?_)))
      (Fails.left_left (Fails.right_left (fails_token ?_)))))
  · exact hfirst '"' fun c cs hi => (h c cs hi).1
  · exact hfirst '\'' fun c cs hi => (h c cs hi).2.1
  · exact hfirst '«' fun c cs hi => (h c cs hi).2.2

end Constants

end Language
end BilingualLogic
