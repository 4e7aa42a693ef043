import BilingualLogic.Proofs.FactTable.Programs
import BilingualLogic.Proofs.Loading.Builtins

/-!
Identifiers and the table of keywords. An identifier names predicates and atoms if it is in the table as a predicate on
lists or not at all, however much of it is the spelling of a keyword; the truth values are terms of their own; and every
other spelling of a keyword is neither.
-/

namespace BilingualLogic

open BilingualLogic.Language Text

namespace Language

/-- The expression takes the whole text. -/
def Matches {α : Type} (e : Expr α) (x : String) : Prop := ∃ y d, eval false e (.ofString x) = some (y, d) ∧ d.rest = []

/-- The table has the text as a predicate on lists or not at all. -/
def IsFree (x : String) : Prop := ∀ k ∈ Keyword.ofSpelling? x, k ∈ [Keyword.member, .append, .length]

instance (x : String) : Decidable (IsFree x) := inferInstanceAs (Decidable (∀ k ∈ Keyword.ofSpelling? x, _))

/-- The text is taken for the name of a predicate wherever one can stand, so also in a source of one fact. -/
structure NamesPredicate (x : String) : Prop where
  name : ∀ spaced o, Stops o → Reads spaced (call .name) (x.toList ++ o) o (· = x)
  fact : ∀ (limits : Limits) source, ("fact " ++ x ++ ";").utf8ByteSize ≤ limits.maxFileSize →
    ∃ p, Program.parse limits source ("fact " ++ x ++ ";") = .ok p ∧ p.statements.map Statement.form = [.fact ⟨x, []⟩]

/-- The text is never taken for the name of a predicate, so that a source of one such fact is an error. -/
structure NamesNone (x : String) : Prop where
  name : ∀ spaced o, Stops o → Fails spaced (call .name) (x.toList ++ o)
  fact : ∀ limits source, ∃ e, Program.parse limits source ("fact " ++ x ++ ";") = .error e

theorem isIdentifier_of_matches {x : String} (h : Matches identifier x) : isIdentifier x.toList = true := by
  obtain ⟨y, d, hy, hd⟩ := h
  obtain ⟨g, c', ys, hg, hys, rfl⟩ := ap_eq_some.mp hy
  obtain ⟨c, hc, rfl⟩ := map_eq_some.mp hg
  obtain ⟨hx, hletter⟩ := char_eq_some hc
  have hrest := ((reads_many_char isNameChar c'.rest).eq_some (c := c') hys).1
  rw [gap_false, gap_false, hd] at hrest
  have hall : ∀ a ∈ c'.rest, isNameChar a = true := by
    simpa using List.dropWhile_eq_nil_iff.mp hrest.symm
  have hx : x.toList = c :: c'.rest := hx
  rw [isIdentifier, hx, List.all_cons, isNameChar_of_start hletter, List.all_eq_true.mpr hall, List.head?_cons,
    Option.any_some, hletter]
  rfl

theorem matches_of_isIdentifier {x : String} (h : isIdentifier x.toList = true) : Matches identifier x := by
  rw [isIdentifier, Bool.and_eq_true, List.all_eq_true] at h
  obtain ⟨c, hc, hletter⟩ := (Option.any_eq_true _ _).mp h.2
  obtain ⟨cs, hcs⟩ := List.head?_eq_some_iff.mp hc
  have hrest : trailing cs = [] := by
    rw [trailing, List.dropWhile_eq_nil_iff]
    intro a ha
    exact h.1 a (by rw [hcs]; exact List.mem_cons_of_mem c ha)
  have hread : Reads false identifier (c :: cs) (trailing cs) (· = String.ofList (c :: leading cs)) :=
    reads_identifier hletter
  rw [hrest, ← hcs] at hread
  obtain ⟨y, d, hy, hd, -⟩ := hread .start
  exact ⟨y, d, hy, hd⟩

section Words

variable {x : String} {k : Keyword}

/-- The rules for reserved words try no spelling before a longer one, so they find every spelling. -/
theorem spells_of_mem (hk : k ∈ reservedKeywords) (hx : x ∈ k.allSpellings) : k.spells x.toList = true := by
  have hall : ∀ k ∈ reservedKeywords, ∀ t ∈ k.allSpellings, k.spells t.toList = true := by decide +kernel
  exact hall k hk x hx

theorem mem_reservedKeywords : k ∈ reservedKeywords ↔ k ∉ [Keyword.member, .append, .length] := by
  cases k <;> decide

theorem isName_of_isFree (hx : isIdentifier x.toList = true) (h : IsFree x) : isName x.toList = true := by
  rw [isName_eq, hx, Bool.true_and, List.all_eq_true]
  intro k hk
  rw [Bool.not_eq_true']
  by_contra hspells
  have hmem := Keyword.ofSpelling?_of_mem (mem_of_spells (Bool.of_not_eq_false hspells))
  exact mem_reservedKeywords.mp hk (h k hmem)

theorem exists_spells_of_not_isFree (h : ¬ IsFree x) :
    ∃ k ∈ reservedKeywords, Keyword.ofSpelling? x = some k ∧ k.spells x.toList = true := by
  rw [IsFree] at h
  push Not at h
  obtain ⟨k, hk, hmem⟩ := h
  have hreserved := mem_reservedKeywords.mpr hmem
  exact ⟨k, hreserved, hk, spells_of_mem hreserved (Keyword.mem_of_ofSpelling? hk)⟩

theorem isName_of_spells (hk : k ∈ reservedKeywords) (h : k.spells x.toList = true) : isName x.toList = false := by
  by_contra hname
  rw [spells_of_isName (Bool.of_not_eq_false hname) hk] at h
  cases h

end Words

section Sources

variable {r : Rule} {text source x : String}

theorem fails_finish {spaced : Bool} (c : Char) (cs : List Char) : Fails spaced .finish (c :: cs) := fun _ => rfl

theorem parseRule_of_reads (source : String) {o : List Char} {Q : Result r → Prop}
    (h : Reads true (call r) text.toList o Q) :
    ∃ y, Source.parseRule r source text = .ok y ∧ Q y := by
  obtain ⟨y, d, hy, -, hQ⟩ := h .start
  have hparse : grammar.parse Source.ruleDepth r text = .ok y := ranking.parse_ok.mpr ⟨d, hy⟩
  exact ⟨y, by rw [Source.parseRule, hparse], hQ⟩

theorem parseRule_of_fails (source : String) (h : Fails true (call r) text.toList) :
    ∃ e, Source.parseRule r source text = .error e := by
  rw [Source.parseRule]
  cases hparse : grammar.parse Source.ruleDepth r text with
  | error a => exact ⟨_, rfl⟩
  | ok y =>
    obtain ⟨d, hy⟩ := ranking.parse_ok.mp hparse
    exact (Fails.ne_some (c := .ofString text) h hy).elim

theorem parse_of_means {t : Term} (hx : Solid x.toList) (h : Reads true (call .term) x.toList [] t.Means)
    (hdepth : t.depth ≤ 100) : Term.parse x = .ok (t.reread 0).1 := by
  have hinput : Reads true (call .termInput) x.toList [] t.Means := by
    refine Reads.plain rfl (Reads.left (m := []) (Reads.right (reads_pure ?_)))
    rw [gap_true, hx.skipText]
    refine h.imp fun y hy => ?_
    rw [gap_true, Blank.skipText_nil]
    exact Reads.call (reads_finish hy)
  obtain ⟨y, hy, hmeans⟩ := parseRule_of_reads "<term>" hinput
  have hread := hmeans 0 ⟨"<term>", 100⟩ 0 (by simpa using hdepth)
  change (Source.parseRule .termInput "<term>" x >>= fun y => y.read 0 ⟨"<term>", 100⟩ 0 >>= fun r => Except.ok r.1) = _
  rw [hy]
  change (y.read 0 ⟨"<term>", 100⟩ 0 >>= fun r => Except.ok r.1) = _
  rw [hread]
  rfl

theorem parse_of_fails (hx : Solid x.toList) (h : Fails true (call .term) x.toList) : ∃ e, Term.parse x = .error e := by
  have hinput : Fails true (call .termInput) x.toList := by
    refine Fails.call (Fails.left_left (Reads.fails_right (m := x.toList) (reads_pure ?_)))
    change Fails true (call .term) (Blank.skipText x.toList)
    rw [hx.skipText]
    exact h
  obtain ⟨e, he⟩ := parseRule_of_fails "<term>" hinput
  refine ⟨e, ?_⟩
  change (Source.parseRule .termInput "<term>" x >>= fun y => y.read 0 ⟨"<term>", 100⟩ 0 >>= fun r => Except.ok r.1) = _
  rw [he]
  rfl

theorem parse_fact (hx : isName x.toList = true) {limits : Limits}
    (hsize : ("fact " ++ x ++ ";").utf8ByteSize ≤ limits.maxFileSize) :
    ∃ p, Program.parse limits source ("fact " ++ x ++ ";") = .ok p ∧
      p.statements.map Statement.form = [.fact ⟨x, []⟩] := by
  have htext : String.join ([(⟨.fact ⟨x, []⟩, default⟩ : Statement)].map (Statement.render .latin)) =
      "fact " ++ x ++ ";" := by
    rw [← String.toList_inj, String.toList_join]
    simp [Statement.render, Clause.render, Clause.isFact, Predicate.render, Keyword.spelling, Keyword.spellings,
      Keyword.name]
  have hreadable : ∀ s ∈ [(⟨.fact ⟨x, []⟩, default⟩ : Statement)], s.form.Readable :=
    List.forall_mem_singleton.mpr (.fact ⟨hx, List.forall_mem_nil _⟩)
  rw [← htext] at hsize ⊢
  exact parse_statements .latin hreadable hsize (by simp [StatementForm.depth, Predicate.depth, Term.depthAll]) source

theorem fails_program {i : List Char} (hi : Solid i) (h : Fails true statement i) : Fails true (call .program) i := by
  have hskip := hi.skipText
  obtain ⟨c, cs, rfl, -⟩ := hi
  refine Fails.call (Reads.fails_left (m := c :: cs) (Reads.right (reads_pure ?_)))
  change Reads true (.many statement) (Blank.skipText (c :: cs)) _ _
  rw [hskip]
  refine Fails.many h ?_
  change Fails true (call .endOfText) (Blank.skipText (c :: cs))
  rw [hskip]
  exact Fails.call (fails_finish c cs)

/-- A statement that begins as a fact is one of no other kind. -/
theorem fails_fact (v : Vocabulary) {m : List Char} (hm : Solid m) (hname : Fails true (call .name) m) :
    Fails true statement ((Keyword.fact.spelling v).toList ++ ' ' :: m) := by
  have hstops : Stops (' ' :: m) := stops_cons (by decide) m
  obtain ⟨-, hother⟩ := commanded (k := .fact) v hstops
  obtain ⟨-, hrule, hquery⟩ := fails_declarations (k := .fact) (v := v) hstops
  refine Fails.left_left (Fails.or ?_ (Fails.or (hrule (by decide)) (Fails.or (hquery (by decide)) ?_)))
  · refine Fails.call (Fails.placed (Fails.map (Reads.fails_right
      ((reads_spelling (spells_spelling .fact v) hstops).imp fun _ _ => ?_))))
    change Fails true (call .predicate) (Blank.skipText (' ' :: m))
    rw [Blank.skipText_blank rfl, hm.skipText]
    exact Fails.call (Fails.ap_left (Fails.map hname))
  · exact Fails.call (Fails.placed (Fails.map (Fails.or (Fails.call (fails_clauseTarget (hother _ (by decide))))
      (Fails.call (fails_clauseTarget (hother _ (by decide)))))))

theorem parse_fact_of_fails (hx : StartsWord x.toList) (hname : Fails true (call .name) (x.toList ++ [';']))
    (limits : Limits) : ∃ e, Program.parse limits source ("fact " ++ x ++ ";") = .error e := by
  have htext : ("fact " ++ x ++ ";").toList = (Keyword.fact.spelling .latin).toList ++ ' ' :: (x.toList ++ [';']) := by
    simp [Keyword.spelling, Keyword.spellings, Keyword.name]
  have hsolid : Solid (x.toList ++ [';']) := by
    obtain ⟨c, cs, hc, hletter⟩ := hx
    rw [hc]
    exact solid_of_isNameChar (isNameChar_of_start hletter) _
  have hprogram : Fails true (call .program) ("fact " ++ x ++ ";").toList := by
    rw [htext]
    exact fails_program (startsWord_keyword .fact .latin _).solid (fails_fact .latin hsolid hname)
  obtain ⟨e, he⟩ := parseRule_of_fails source hprogram
  rw [Program.parse]
  split
  · exact ⟨_, rfl⟩
  · rw [he]
    exact ⟨e, rfl⟩

end Sources

section Identifiers

variable {x : String}

theorem startsWord_of_isIdentifier (hx : isIdentifier x.toList = true) : StartsWord x.toList := by
  rw [isIdentifier, Bool.and_eq_true] at hx
  obtain ⟨c, hc, hletter⟩ := (Option.any_eq_true _ _).mp hx.2
  obtain ⟨cs, hcs⟩ := List.head?_eq_some_iff.mp hc
  exact ⟨c, cs, hcs, hletter⟩

theorem leading_of_isIdentifier (hx : isIdentifier x.toList = true) : leading x.toList = x.toList := by
  rw [isIdentifier, Bool.and_eq_true, List.all_eq_true] at hx
  simpa using leading_append hx.1 stops_nil

theorem namesPredicate_of_isFree (hx : isIdentifier x.toList = true) (h : IsFree x) : NamesPredicate x := by
  have hname := isName_of_isFree hx h
  exact ⟨fun _ _ ho => reads_name_append hname ho, fun limits source hsize => parse_fact hname hsize⟩

theorem namesNone_of_not_isFree (hx : isIdentifier x.toList = true) (h : ¬ IsFree x) : NamesNone x := by
  obtain ⟨k, hk, -, hspells⟩ := exists_spells_of_not_isFree h
  have hfails (spaced : Bool) (o : List Char) (ho : Stops o) : Fails spaced (call .name) (x.toList ++ o) := by
    apply fails_name
    rw [(leading_spelling (mem_of_spells hspells) ho).1]
    exact isName_of_spells hk hspells
  exact ⟨hfails, fun limits source =>
    parse_fact_of_fails (startsWord_of_isIdentifier hx) (hfails true [';'] (stops_cons (by decide) [])) limits⟩

theorem parse_atom (hx : isIdentifier x.toList = true) (hne : x ≠ "_") (h : IsFree x) :
    Term.parse x = .ok (.atom x) := by
  have hread := reads_atomTerm .latin (isName_of_isFree hx h) hne stops_nil
  rw [Term.render, List.append_nil] at hread
  exact parse_of_means (startsWord_of_isIdentifier hx).solid hread (by simp [Term.depth])

theorem parse_anonymous : Term.parse "_" = .ok (.var "_G0") := by
  have hread := reads_hidden .latin (x := "_") (by decide) stops_nil
  rw [Term.render, if_pos (by decide), List.append_nil] at hread
  exact parse_of_means (startsWord_of_isIdentifier (by decide)).solid hread (by decide)

theorem parse_boolean {b : Bool} (hx : isIdentifier x.toList = true)
    (h : Keyword.ofSpelling? x = some (bif b then .true else .false)) : Term.parse x = .ok (.const (.boolean b)) := by
  have hspells := spells_of_mem (by cases b <;> decide) (Keyword.mem_of_ofSpelling? h)
  have hread := reads_booleanTerm hspells stops_nil (Term.means_boolean b)
  rw [List.append_nil] at hread
  exact parse_of_means (startsWord_of_isIdentifier hx).solid hread (by simp [Term.depth])

/-- A reserved word that is no truth value is no term of any kind. -/
theorem fails_term_of_spells {k : Keyword} (hx : isIdentifier x.toList = true) (hk : k ∈ reservedKeywords)
    (htrue : k ≠ .true) (hfalse : k ≠ .false) (h : k.spells x.toList = true) : Fails true (call .term) x.toList := by
  have hword := startsWord_of_isIdentifier hx
  have hl := leading_of_isIdentifier hx
  have hanonymous : leading x.toList ≠ ['_'] := by
    intro hunderscore
    rw [← hl, hunderscore] at h
    have hall : ∀ k ∈ Keyword.all, k.spells ['_'] = false := by decide +kernel
    rw [hall k k.mem_all] at h
    cases h
  have hboolean : Fails true (call .boolean) x.toList := by
    apply fails_boolean
    · rw [hl]
      exact spells_unique h htrue.symm
    · rw [hl]
      exact spells_unique h hfalse.symm
  have hatom : Fails true (call .atom) x.toList := fails_atom (by rw [hl]; exact isName_of_spells hk h)
  exact Fails.call (Fails.placed (Fails.or (Fails.map (hword.fails_anonymous hanonymous))
    (Fails.or (Fails.map hword.fails_var) (Fails.or (Fails.map hword.fails_number) (Fails.or (Fails.map hword.fails_string)
      (Fails.or (Fails.map hboolean) (Fails.or (Fails.map hword.fails_list) (Fails.map hatom))))))))

theorem parse_reserved {k : Keyword} (hx : isIdentifier x.toList = true) (hk : k ∈ reservedKeywords)
    (htrue : k ≠ .true) (hfalse : k ≠ .false) (h : Keyword.ofSpelling? x = some k) : ∃ e, Term.parse x = .error e :=
  parse_of_fails (startsWord_of_isIdentifier hx).solid
    (fails_term_of_spells hx hk htrue hfalse (spells_of_mem hk (Keyword.mem_of_ofSpelling? h)))

theorem parse_free (hx : isIdentifier x.toList = true) (h : IsFree x) :
    Term.parse x = .ok (if x = "_" then .var "_G0" else .atom x) := by
  split
  · next hunderscore => exact hunderscore ▸ parse_anonymous
  · next hne => exact parse_atom hx hne h

theorem cases_of_not_isFree (hx : isIdentifier x.toList = true) (h : ¬ IsFree x) :
    (∃ b, Keyword.ofSpelling? x = some (bif b then .true else .false) ∧ Term.parse x = .ok (.const (.boolean b))) ∨
      (∀ b, Keyword.ofSpelling? x ≠ some (bif b then .true else .false)) ∧ ∃ e, Term.parse x = .error e := by
  obtain ⟨k, hk, hlookup, -⟩ := exists_spells_of_not_isFree h
  by_cases htrue : k = .true
  · subst htrue
    exact .inl ⟨true, hlookup, parse_boolean (b := true) hx hlookup⟩
  · by_cases hfalse : k = .false
    · subst hfalse
      exact .inl ⟨false, hlookup, parse_boolean (b := false) hx hlookup⟩
    · refine .inr ⟨fun b => ?_, parse_reserved hx hk htrue hfalse hlookup⟩
      rw [hlookup]
      cases b with
      | true => simpa using htrue
      | false => simpa using hfalse

theorem parse_atom_iff (hx : isIdentifier x.toList = true) (hne : x ≠ "_") :
    Term.parse x = .ok (.atom x) ↔ IsFree x := by
  refine ⟨fun hparse => ?_, parse_atom hx hne⟩
  by_contra h
  rcases cases_of_not_isFree hx h with ⟨b, -, hb⟩ | ⟨-, e, he⟩
  · cases hparse.symm.trans hb
  · cases hparse.symm.trans he

theorem parse_boolean_iff (hx : isIdentifier x.toList = true) (b : Bool) :
    Term.parse x = .ok (.const (.boolean b)) ↔ Keyword.ofSpelling? x = some (bif b then .true else .false) := by
  refine ⟨fun hparse => ?_, parse_boolean hx⟩
  by_cases h : IsFree x
  · have hfree := hparse.symm.trans (parse_free hx h)
    split at hfree <;> cases hfree
  · rcases cases_of_not_isFree hx h with ⟨b', hlookup, hb⟩ | ⟨-, e, he⟩
    · cases hparse.symm.trans hb
      exact hlookup
    · cases hparse.symm.trans he

end Identifiers

/-- What an identifier is, by the table of keywords: a name of predicates and, other than `_`, an atom if it is free; a
truth value if it spells one; and for all other keywords neither a name of predicates nor a term. -/
theorem identifier_meanings {x : String} (h : Matches identifier x) :
    (NamesPredicate x ↔ IsFree x) ∧
    (x ≠ "_" → (Term.parse x = .ok (.atom x) ↔ IsFree x)) ∧
    (∀ b, Term.parse x = .ok (.const (.boolean b)) ↔ Keyword.ofSpelling? x = some (bif b then .true else .false)) ∧
    ∀ k ∈ Keyword.ofSpelling? x, k ∉ [Keyword.member, .append, .length] →
      NamesNone x ∧ (k ≠ .true → k ≠ .false → ∃ e, Term.parse x = .error e) := by
  have hx := isIdentifier_of_matches h
  refine ⟨⟨fun hnames => ?_, namesPredicate_of_isFree hx⟩, parse_atom_iff hx, parse_boolean_iff hx, ?_⟩
  · -- a name is read where none is
    by_contra hnot
    obtain ⟨y, d, hy, -⟩ := hnames.name true [] stops_nil .start
    exact Fails.ne_some (c := ⟨x.toList ++ [], .start⟩) ((namesNone_of_not_isFree hx hnot).name true [] stops_nil) hy
  · intro k hk hmem
    have hnot : ¬ IsFree x := fun hfree => hmem (hfree k hk)
    exact ⟨namesNone_of_not_isFree hx hnot, fun htrue hfalse =>
      parse_reserved hx (mem_reservedKeywords.mpr hmem) htrue hfalse hk⟩

theorem identifier_meanings_extended : Matches identifier "اجمع_كلها" ∧ NamesPredicate "اجمع_كلها" ∧
    Term.parse "اجمع_كلها" = .ok (.atom "اجمع_كلها") ∧ Matches identifier "اجمع_كل" ∧ NamesNone "اجمع_كل" := by
  have hlong : Matches identifier "اجمع_كلها" := matches_of_isIdentifier (by decide +kernel)
  have hshort : Matches identifier "اجمع_كل" := matches_of_isIdentifier (by decide +kernel)
  have hfree : IsFree "اجمع_كلها" := by decide +kernel
  have hkeyword : Keyword.ofSpelling? "اجمع_كل" = some .findAll := by decide +kernel
  obtain ⟨hnames, hatom, -, -⟩ := identifier_meanings hlong
  obtain ⟨-, -, -, hreserved⟩ := identifier_meanings hshort
  exact ⟨hlong, hnames.mpr hfree, (hatom (by decide)).mpr hfree, hshort, (hreserved .findAll hkeyword (by decide)).1⟩

end Language

end BilingualLogic
