import BilingualLogic.Proofs.Grammar.Layout
import BilingualLogic.Proofs.Rendering.Means

/-!
A written term is read as the term, whatever ends it, and so is a predicate.
-/

namespace BilingualLogic

open BilingualLogic.Language Text

namespace Language

variable {i o : List Char}

theorem number_front (a : Decimal) (o : List Char) :
    ∃ c cs, a.text.toList ++ o = c :: cs ∧ (isDigit c = true ∨ c = '-') := by
  rw [Decimal.text_toList, Decimal.plainForm]
  split
  · exact ⟨'-', _, rfl, Or.inr rfl⟩
  · obtain ⟨d, ds, hds⟩ := List.exists_cons_of_ne_nil a.shownWhole_ne_nil
    rw [hds]
    exact ⟨d, _, rfl, Or.inl (isDigit_of_isDigit (a.isDigit_shownWhole d (by simp [hds])))⟩

theorem render_boolean (v : Vocabulary) (b : Bool) :
    (Term.const (.boolean b)).render v = (bif b then Keyword.true else Keyword.false).spelling v := by
  rw [Term.render]
  cases b <;> rfl

end Language

variable {o : List Char}

theorem Term.Readable.front {t : Term} (ht : t.Readable) (v : Vocabulary) (o : List Char) :
    ∃ c cs, (t.render v).toList ++ o = c :: cs ∧ (isNameChar c = true ∨ c ∈ ['-', '?', '"', '[']) := by
  have hword {i : List Char} (h : StartsWord i) :
      ∃ c cs, i = c :: cs ∧ (isNameChar c = true ∨ c ∈ ['-', '?', '"', '[']) := by
    obtain ⟨c, cs, rfl, hc⟩ := h
    exact ⟨c, cs, rfl, Or.inl (isNameChar_of_start hc)⟩
  cases ht with
  | @anonymous x hx =>
    rw [Term.render, if_pos hx]
    exact ⟨'_', o, rfl, Or.inl (by decide)⟩
  | @var x hx =>
    rw [Term.render, if_neg (by simp [hx.isHidden]), String.toList_append]
    exact ⟨'?', _, rfl, Or.inr (by simp)⟩
  | number a =>
    rw [Term.render]
    obtain ⟨c, cs, hi, hc⟩ := number_front a o
    refine ⟨c, cs, hi, ?_⟩
    rcases hc with hc | rfl
    · exact Or.inl (isNameChar_of_isDigit hc).1
    · exact Or.inr (by simp)
  | text content =>
    rw [Term.render, Value.render, Value.quoted, String.toList_append, String.toList_append]
    exact ⟨'"', _, rfl, Or.inr (by simp)⟩
  | boolean b =>
    rw [render_boolean]
    exact hword (startsWord_spelling _ (spelling_mem _ v) o)
  | @atom name hname _ =>
    rw [Term.render]
    exact hword (startsWord_of_isName hname o)
  | list _ =>
    rw [Term.render, String.toList_append, String.toList_append]
    exact ⟨'[', _, rfl, Or.inr (by simp)⟩
  | pattern _ _ _ _ =>
    simp only [Term.render, String.toList_append]
    exact ⟨'[', _, rfl, Or.inr (by simp)⟩

theorem Term.Readable.solid {t : Term} (ht : t.Readable) (v : Vocabulary) (o : List Char) :
    Solid ((t.render v).toList ++ o) := by
  obtain ⟨c, cs, hi, hc⟩ := ht.front v o
  rw [hi]
  rcases hc with hc | hc
  · exact solid_of_isNameChar hc cs
  · have hmarks : ∀ c ∈ ['-', '?', '"', '['], Blank.isBlank c = false ∧ c ≠ '/' := List.all_iff_forall_prop.mp rfl
    exact solid_cons (hmarks c hc).1 (hmarks c hc).2 cs

theorem hidden_front {x : String} (h : Term.isHidden x = false) {cs : List Char} : x.toList ≠ '_' :: cs := by
  intro hx
  simp [Term.isHidden, hx] at h

theorem reads_separator (m : List Char) : Reads true separator (',' :: m) m fun _ => True :=
  reads_oneOf (t := ",") (by simp) rfl trivial

theorem fails_separator {c : Char} (hc : c ≠ ',') (ha : c ≠ '،') (cs : List Char) :
    Fails true separator (c :: cs) := by
  apply fails_oneOf
  simp only [List.mem_cons, List.not_mem_nil, or_false, forall_eq_or_imp, forall_eq]
  constructor
  · rintro ⟨ds, hds⟩
    exact hc (List.cons.inj hds).1.symm
  · rintro ⟨ds, hds⟩
    exact ha (List.cons.inj hds).1.symm

theorem renderAll_toList (v : Vocabulary) (as : List Term) :
    (Term.renderAll v as).toList = spread ',' (fun t => (t.render v).toList) as := by
  rw [Term.renderAll, String.toList_intercalate, List.map_map]
  exact intercalate_eq_spread ',' (fun t => (Term.render v t).toList) as

theorem fails_term_of_stops {c : Char} {cs : List Char} (hstop : isNameChar c = false)
    (hc : c ∉ ['?', '"', '\'', '«', '[']) (hminus : c = '-' → ∀ d ds, cs = d :: ds → isDigit d = false) :
    Fails true (call .term) (c :: cs) := by
  have hleading : leading (c :: cs) = [] := leading_of_stops (stops_cons hstop cs)
  have hname : isName (leading (c :: cs)) = false := by
    rw [hleading]
    rfl
  have hkeyword (k : Keyword) : k.spells (leading (c :: cs)) = false := by rw [hleading, spells_nil]
  simp only [List.mem_cons, List.not_mem_nil, or_false, not_or] at hc
  have hanonymous : Fails true (call .anonymous) (c :: cs) := by
    refine fails_anonymous ?_ ?_
    · rintro _ ⟨⟩
      exact hc.1 rfl
    · rintro _ ⟨⟩
      exact absurd hstop (by decide)
  have hnumber : Fails true (call .number) (c :: cs) := by
    refine fails_number ?_
    rintro _ _ ⟨⟩
    exact ⟨isDigit_of_stops hstop, hminus⟩
  have hlist : Fails true (call .list) (c :: cs) :=
    Fails.call (Fails.left_left (Fails.right_left (fails_token_cons (d := '[') rfl hc.2.2.2.2 cs)))
  exact Fails.call (Fails.placed (Fails.or (Fails.map hanonymous) (Fails.or (Fails.map (fails_var_cons hc.1 cs))
    (Fails.or (Fails.map hnumber) (Fails.or (Fails.map (fails_string_cons (by simp [hc]) cs))
      (Fails.or (Fails.map (fails_boolean (hkeyword _) (hkeyword _))) (Fails.or (Fails.map hlist)
        (Fails.map (fails_atom hname)))))))))

theorem reads_listTerm {m o : List Char} {Q : Source.Term → Prop}
    (h : Reads true (call .list) ('[' :: m) o fun r => ∀ s, Q (.list s r.1 r.2)) :
    Reads true (call .term) ('[' :: m) o Q := by
  have hstops : Stops ('[' :: m) := stops_cons (by decide) m
  have hkeyword (k : Keyword) : k.spells (leading ('[' :: m)) = false := by rw [leading_of_stops hstops, spells_nil]
  have hanonymous : Fails true (call .anonymous) ('[' :: m) := fails_anonymous (by rintro _ ⟨⟩) (by rintro _ ⟨⟩)
  refine Reads.call (Reads.placed (Fails.orRight (Fails.map hanonymous)
    (Fails.orRight (Fails.map (fails_var_cons (by decide) m))
      (Fails.orRight (Fails.map (fails_number_cons (by decide) (by decide) m))
        (Fails.orRight (Fails.map (fails_string_cons (by decide) m))
          (Fails.orRight (Fails.map (fails_boolean (hkeyword _) (hkeyword _))) (Reads.orLeft (Reads.map ?_))))))))
  exact h.imp fun r hr => hr

theorem reads_brackets {m o : List Char} {Q : List Source.Term × Option Source.Term → Prop}
    (h : Reads true (.option (Prod.mk <$> Peg.separated (call .term) separator <*> .option (call .listTail)))
      (Blank.skipText m) (']' :: o) fun r => Q (r.getD ([], none))) :
    Reads true (call .list) ('[' :: m) o Q := by
  refine Reads.plain rfl (Reads.left (m := ']' :: o) (Reads.right (reads_token (t := "[") (Reads.map ?_))))
  refine h.imp fun r hr => ?_
  rw [gap_true, Blank.skipText_stop rfl (by decide)]
  exact reads_token (t := "]") hr

theorem reads_visible {spaced : Bool} {x : String} (hx : VisibleName x) (ho : Stops o) :
    Reads spaced (call .var) ('?' :: (x.toList ++ o)) o (· = x) := by
  have hl := leading_append hx.isNameChar ho
  have hvar : Reads spaced (call .var) ('?' :: (x.toList ++ o)) (trailing (x.toList ++ o))
      (· = String.ofList (leading (x.toList ++ o))) := reads_var (by rw [hl]; exact hx.ne_nil)
  rw [hl, trailing_append hx.isNameChar ho, String.ofList_toList] at hvar
  exact hvar

section Items

variable {γ : Type} {text : γ → List Char} {Q : γ → Source.Term → Prop} {as : List γ}

/-- All these items are read as terms where they are written. -/
def ReadItems (text : γ → List Char) (Q : γ → Source.Term → Prop) (as : List γ) : Prop :=
  ∀ a ∈ as, (∀ o, Solid (text a ++ o)) ∧ ∀ o, EndsTerm o → Reads true (call .term) (text a ++ o) o (Q a)

theorem reads_items (h : ReadItems text Q as) (has : as ≠ []) (ho : EndsTerm o)
    (hstop : Fails true separator (Blank.skipText o)) :
    Reads true (Peg.separated (call .term) separator) (spread ',' text as ++ o) o (List.Forall₂ Q as) := by
  obtain ⟨a, as, rfl⟩ := List.exists_cons_of_ne_nil has
  exact reads_separated rfl rfl ⟨rfl, by decide⟩ (fun m => endsTerm_cons (by decide) m) reads_separator
    (fun b hb => (h b hb).1) (fun b hb => (h b hb).2) ho hstop

theorem ReadItems.skip (h : ReadItems text Q as) (has : as ≠ []) (o : List Char) :
    Blank.skipText (spread ',' text as ++ o) = spread ',' text as ++ o := by
  obtain ⟨a, as, rfl⟩ := List.exists_cons_of_ne_nil has
  rw [spread, List.append_assoc]
  exact ((h a (by simp)).1 _).skipText

theorem reads_listed {R : Source.Term → Prop} (h : ReadItems text Q as)
    (hR : ∀ xs, List.Forall₂ Q as xs → ∀ s, R (.list s xs none)) (o : List Char) :
    Reads true (call .term) ('[' :: (spread ',' text as ++ ']' :: o)) o R := by
  have hclose : Blank.skipText (']' :: o) = ']' :: o := Blank.skipText_stop rfl (by decide) o
  refine reads_listTerm (reads_brackets ?_)
  cases as with
  | nil =>
    have hterm : Fails true (call .term) (']' :: o) := fails_term_of_stops (by decide) (by decide) (by rintro ⟨⟩)
    change Reads true _ (Blank.skipText (']' :: o)) _ _
    rw [hclose]
    exact Fails.option (Fails.ap_left (Fails.map (Fails.ap_left (Fails.map hterm)))) (hR [] .nil)
  | cons a as =>
    have hsep : Fails true separator (Blank.skipText (']' :: o)) := by
      rw [hclose]
      exact fails_separator (by decide) (by decide) o
    have hbar : Fails true (call .listTail) (']' :: o) :=
      Fails.call (Fails.right_left (fails_token (by rintro ⟨cs, ⟨⟩⟩)))
    rw [h.skip (by simp)]
    refine Reads.option (Reads.ap (Reads.map ((reads_items h (by simp) (endsTerm_cons (by simp [terminators]) o)
      hsep).imp fun xs hxs => ?_)))
    rw [gap_true, hclose]
    exact Fails.option hbar (hR xs hxs)

theorem reads_applied {name : String} {R : Source.Predicate → Prop} (hname : isName name.toList = true)
    (h : ReadItems text Q as) (has : as ≠ []) (hR : ∀ xs, List.Forall₂ Q as xs → R ⟨name, xs⟩) (o : List Char) :
    Reads true (call .predicate) (name.toList ++ '(' :: (spread ',' text as ++ ')' :: o)) o R := by
  have hclose : Blank.skipText (')' :: o) = ')' :: o := Blank.skipText_stop rfl (by decide) o
  have hsep : Fails true separator (Blank.skipText (')' :: o)) := by
    rw [hclose]
    exact fails_separator (by decide) (by decide) o
  refine Reads.plain rfl (Reads.ap (Reads.map ((reads_name_append hname (stops_cons (by decide) _)).imp ?_)))
  rintro _ rfl
  rw [gap_true, Blank.skipText_stop rfl (by decide)]
  refine Reads.option (Reads.left (m := ')' :: o) (Reads.right (reads_token (t := "(")
    (o := spread ',' text as ++ ')' :: o) ?_)))
  rw [gap_true, h.skip has]
  refine Reads.option ((reads_items h has (endsTerm_cons (by simp [terminators]) o) hsep).imp fun xs hxs => ?_)
  rw [gap_true, hclose]
  exact reads_token (t := ")") (hR xs hxs)

end Items

/-- What can stand behind a predicate that has no arguments. -/
structure EndsPredicate (o : List Char) : Prop where
  stops : Stops o
  skipText_ne : ∀ cs, Blank.skipText o ≠ '(' :: cs

theorem reads_unapplied {name : String} {R : Source.Predicate → Prop} (hname : isName name.toList = true)
    (hR : R ⟨name, []⟩) (ho : EndsPredicate o) : Reads true (call .predicate) (name.toList ++ o) o R := by
  have hparen : Fails true (Peg.token "(") (Blank.skipText o) := by
    refine fails_token ?_
    rintro ⟨cs, hcs⟩
    exact ho.skipText_ne cs hcs.symm
  refine Reads.plain rfl (Reads.ap (Reads.map ((reads_name_append hname ho.stops).imp ?_)))
  rintro _ rfl
  exact (Fails.option (Fails.left_left (Fails.right_left hparen)) hR).of_gap (gap_gap true o)

theorem reads_numberTerm {i o : List Char} {Q : Source.Term → Prop}
    (hfront : ∃ c cs, i = c :: cs ∧ (isDigit c = true ∨ c = '-'))
    (h : Reads true (call .number) i o fun x => ∀ s, Q (.number s x)) : Reads true (call .term) i o Q := by
  obtain ⟨c, cs, rfl, hc⟩ := hfront
  have hanonymous : Fails true (call .anonymous) (c :: cs) := by
    refine fails_anonymous ?_ ?_
    · rintro _ ⟨⟩
      exact absurd hc (by decide)
    · rintro _ ⟨⟩
      exact absurd hc (by decide)
  have hvar : Fails true (call .var) (c :: cs) := by
    refine fails_var_of_ne ?_
    rintro _ ⟨⟩
    exact absurd hc (by decide)
  exact Reads.call (Reads.placed (Fails.orRight (Fails.map hanonymous) (Fails.orRight (Fails.map hvar)
    (Reads.orLeft (Reads.map h)))))

theorem reads_textTerm {m o : List Char} {Q : Source.Term → Prop}
    (h : Reads true (call .string) ('"' :: m) o fun x => ∀ s, Q (.text s x)) : Reads true (call .term) ('"' :: m) o Q := by
  have hanonymous : Fails true (call .anonymous) ('"' :: m) := fails_anonymous (by rintro ds ⟨⟩) (by rintro ds ⟨⟩)
  exact Reads.call (Reads.placed (Fails.orRight (Fails.map hanonymous)
    (Fails.orRight (Fails.map (fails_var_cons (by decide) m))
      (Fails.orRight (Fails.map (fails_number_cons (by decide) (by decide) m)) (Reads.orLeft (Reads.map h))))))

theorem reads_booleanTerm {b : Bool} {t : String} {o : List Char} {Q : Source.Term → Prop}
    (ht : (bif b then Keyword.true else Keyword.false).spells t.toList = true) (ho : Stops o)
    (hQ : ∀ s, Q (.boolean s b)) : Reads true (call .term) (t.toList ++ o) o Q := by
  have hmem := mem_of_spells ht
  have hword := startsWord_spelling _ hmem o
  obtain ⟨hl, htrail⟩ := leading_spelling hmem ho
  have hanonymous : Fails true (call .anonymous) (t.toList ++ o) := by
    refine hword.fails_anonymous ?_
    rw [hl]
    rintro h
    rw [h] at ht
    cases b <;> exact absurd ht (by decide)
  refine Reads.call (Reads.placed (Fails.orRight (Fails.map hanonymous) (Fails.orRight (Fails.map hword.fails_var)
    (Fails.orRight (Fails.map hword.fails_number) (Fails.orRight (Fails.map hword.fails_string)
      (Reads.orLeft (Reads.map ?_)))))))
  exact ((reads_boolean (by rw [hl]; exact ht)).of_gap (congrArg _ htrail)).imp fun y hy s => hy ▸ hQ s

section Forms

variable (v : Vocabulary)

/-- All these terms are read where they are written. -/
def ReadTerms (as : List Term) : Prop := ReadItems (fun t : Term => (t.render v).toList) Term.Means as

theorem reads_hidden {x : String} (hx : Term.isHidden x = true) (ho : Stops o) :
    Reads true (call .term) (((Term.var x).render v).toList ++ o) o (Term.var x).Means := by
  rw [Term.render, if_pos hx]
  exact Reads.call (Reads.placed (Reads.orLeft (Reads.map
    ((reads_anonymous ho).imp fun _ _ s => Term.means_anonymous hx s))))

theorem reads_named {x : String} (hx : VisibleName x) (ho : EndsTerm o) :
    Reads true (call .term) (((Term.var x).render v).toList ++ o) o (Term.var x).Means := by
  rw [Term.render, if_neg (by simp [hx.isHidden]), String.toList_append, List.append_assoc]
  have hanonymous : Fails true (call .anonymous) ('?' :: (x.toList ++ o)) := by
    refine fails_anonymous ?_ (by rintro cs ⟨⟩)
    rintro cs h
    obtain ⟨c, ds, hc⟩ := List.exists_cons_of_ne_nil hx.ne_nil
    rw [hc, List.cons_append] at h
    obtain ⟨rfl, -⟩ := List.cons.inj (List.cons.inj h).2
    exact hidden_front hx.isHidden hc
  refine Reads.call (Reads.placed (Fails.orRight (Fails.map hanonymous) (Reads.orLeft (Reads.map ?_))))
  exact (reads_visible hx ho.stops).imp fun y hy s => hy ▸ Term.means_var hx.isHidden s

theorem reads_numeral (a : Decimal) (ho : EndsTerm o) :
    Reads true (call .term) (((Term.const (.number a)).render v).toList ++ o) o (Term.const (.number a)).Means := by
  rw [Term.render]
  refine reads_numberTerm (number_front a o) ?_
  exact (reads_number a ho.endsNumeral).imp fun y hy s => hy ▸ Term.means_number a s

theorem reads_text (content : String) (o : List Char) :
    Reads true (call .term) (((Term.const (.text content)).render v).toList ++ o) o (Term.const (.text content)).Means := by
  have hi : (Value.quoted content).toList ++ o = '"' :: (content.toList.flatMap Value.escaped ++ '"' :: o) := by
    simp [Value.quoted]
  have hstring : Reads true (call .string) ((Value.quoted content).toList ++ o) o (· = content) := reads_string content o
  rw [Term.render]
  change Reads true (call .term) ((Value.quoted content).toList ++ o) o _
  rw [hi] at hstring ⊢
  exact reads_textTerm (hstring.imp fun y hy s => hy ▸ Term.means_text content s)

theorem reads_truthValue (b : Bool) (ho : EndsTerm o) :
    Reads true (call .term) (((Term.const (.boolean b)).render v).toList ++ o) o (Term.const (.boolean b)).Means := by
  rw [render_boolean]
  exact reads_booleanTerm (spells_spelling _ v) ho.stops (Term.means_boolean b)

theorem reads_atomTerm {name : String} (hname : isName name.toList = true) (hne : name ≠ "_") (ho : Stops o) :
    Reads true (call .term) (((Term.const (.atom name)).render v).toList ++ o) o (Term.const (.atom name)).Means := by
  rw [Term.render]
  have hword := startsWord_of_isName hname o
  have hl := leading_append (isNameChar_of_isName hname) ho
  have hanonymous : Fails true (call .anonymous) (name.toList ++ o) := by
    refine hword.fails_anonymous ?_
    rw [hl]
    rintro h
    exact hne (String.toList_injective h)
  have hboolean : Fails true (call .boolean) (name.toList ++ o) := by
    refine fails_boolean ?_ ?_
    · rw [hl]
      exact spells_of_isName hname (by decide)
    · rw [hl]
      exact spells_of_isName hname (by decide)
  refine Reads.call (Reads.placed (Fails.orRight (Fails.map hanonymous) (Fails.orRight (Fails.map hword.fails_var)
    (Fails.orRight (Fails.map hword.fails_number) (Fails.orRight (Fails.map hword.fails_string)
      (Fails.orRight (Fails.map hboolean) (Fails.orRight (Fails.map hword.fails_list) (Reads.map ?_))))))))
  exact (reads_atom_append hname ho).imp fun y hy s => hy ▸ Term.means_atom name s

theorem reads_list {as : List Term} (ih : ReadTerms v as) (o : List Char) :
    Reads true (call .term) (((Term.list as).render v).toList ++ o) o (Term.list as).Means := by
  have htext : ((Term.list as).render v).toList ++ o
      = '[' :: (spread ',' (fun t => (t.render v).toList) as ++ ']' :: o) := by
    rw [Term.render, ← renderAll_toList, Term.renderAll]
    simp
  rw [htext]
  exact reads_listed ih (fun xs hxs s => Term.means_list hxs s) o

theorem reads_pattern {as : List Term} {r : Term} (hne : as ≠ []) (htail : r.isTail = true) (hr : r.Readable)
    (ih : ReadTerms v as)
    (ihr : ∀ o, EndsTerm o → Reads true (call .term) ((r.render v).toList ++ o) o r.Means) (o : List Char) :
    Reads true (call .term) (((Term.pattern as r).render v).toList ++ o) o (Term.pattern as r).Means := by
  have htext : ((Term.pattern as r).render v).toList ++ o
      = '[' :: (spread ',' (fun t => (t.render v).toList) as ++ ' ' :: '|' :: ' ' :: ((r.render v).toList ++ ']' :: o)) := by
    rw [Term.render, ← renderAll_toList, Term.renderAll]
    simp
  have hbar (m : List Char) : Blank.skipText (' ' :: '|' :: m) = '|' :: m := by
    rw [Blank.skipText_blank rfl, Blank.skipText_stop rfl (by decide)]
  have hsep (m : List Char) : Fails true separator (Blank.skipText (' ' :: '|' :: m)) := by
    rw [hbar]
    exact fails_separator (by decide) (by decide) _
  rw [htext]
  refine reads_listTerm (reads_brackets ?_)
  rw [ih.skip hne]
  refine Reads.option (Reads.ap (Reads.map ((reads_items ih hne (endsTerm_cons (by simp [terminators]) _)
    (hsep _)).imp fun xs hxs => ?_)))
  rw [gap_true, hbar]
  refine Reads.option (Reads.plain rfl (Reads.right (reads_token (t := "|") ?_)))
  rw [gap_true, Blank.skipText_blank rfl, (hr.solid v _).skipText]
  exact (ihr _ (endsTerm_cons (by simp [terminators]) o)).imp fun y hy s => Term.means_pattern hne htail hxs hy s

end Forms

theorem reads_term (v : Vocabulary) {t : Term} (ht : t.Readable) :
    ∀ o, EndsTerm o → Reads true (call .term) ((t.render v).toList ++ o) o t.Means := by
  induction ht with
  | anonymous hx => exact fun o ho => reads_hidden v hx ho.stops
  | var hx => exact fun o ho => reads_named v hx ho
  | number a => exact fun o ho => reads_numeral v a ho
  | text content => exact fun o _ => reads_text v content o
  | boolean b => exact fun o ho => reads_truthValue v b ho
  | atom hname hne => exact fun o ho => reads_atomTerm v hname hne ho.stops
  | list has ih => exact fun o _ => reads_list v (fun a ha => ⟨(has a ha).solid v, ih a ha⟩) o
  | pattern hne has htail hr ih ihr =>
    exact fun o _ => reads_pattern v hne htail hr (fun a ha => ⟨(has a ha).solid v, ih a ha⟩) ihr o

theorem Predicate.Readable.startsWord {p : Predicate} (hp : p.Readable) (v : Vocabulary) (o : List Char) :
    StartsWord ((p.render v).toList ++ o) := by
  rw [Predicate.render]
  split
  · exact startsWord_of_isName hp.name o
  · simp only [String.toList_append, List.append_assoc]
    exact startsWord_of_isName hp.name _

theorem reads_predicate (v : Vocabulary) {p : Predicate} (hp : p.Readable) (ho : EndsPredicate o) :
    Reads true (call .predicate) ((p.render v).toList ++ o) o p.Means := by
  obtain ⟨name, arguments⟩ := p
  cases arguments with
  | nil => exact reads_unapplied hp.name (Predicate.means .nil) ho
  | cons a as =>
    have htext : ((Predicate.mk name (a :: as)).render v).toList ++ o
        = name.toList ++ '(' :: (spread ',' (fun t => (t.render v).toList) (a :: as) ++ ')' :: o) := by
      rw [← renderAll_toList]
      simp [Predicate.render]
    have hread : ReadTerms v (a :: as) := fun t ht => ⟨(hp.arguments t ht).solid v, reads_term v (hp.arguments t ht)⟩
    rw [htext]
    exact reads_applied hp.name hread (by simp) (fun xs hxs => Predicate.means hxs) o

end BilingualLogic
