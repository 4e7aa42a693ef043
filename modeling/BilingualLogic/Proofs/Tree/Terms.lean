import BilingualLogic.Proofs.Tree.Parts
import Mathlib.Data.List.Forall2

/-!
What is built from the node of a rule is what is read from the value of the rule. Every part that is needed is there,
in a place where it can be used, and every keyword is the one of its rule.
-/

namespace BilingualLogic.Tree

open Text Grammar BilingualLogic.Language

section Reading

variable {α β : Type}

@[simp] theorem ofReading_pure (x : α) : ofReading (pure x) = pure x := rfl

@[simp] theorem ofReading_bind (m : Source.Reading α) (f : α → Source.Reading β) :
    ofReading (m >>= f) = ofReading m >>= fun x => ofReading (f x) := by
  funext c n
  change ((m >>= f) c n).mapError Fault.input = ((m c n).mapError Fault.input).bind fun r => ofReading (f r.1) c r.2
  rw [Source.Reading.bind_apply]
  cases m c n
  · rfl
  · rfl

@[simp] theorem required_some (message : String) (x : α) : required message (some x) = pure x := rfl

theorem expectKeyword_of_mem {k : Keyword} {n : Node} (h : n.text ∈ k.allSpellings) : expectKeyword n k = pure () := by
  simp [expectKeyword, Keyword.ofSpelling?_of_mem h]

theorem keywordOf_of_mem {k : Keyword} {n : Node} (h : n.text ∈ k.allSpellings) : keywordOf n = pure k := by
  simp [keywordOf, Keyword.ofSpelling?_of_mem h]

end Reading

/-- The goals of a conjunction as they are read in a place that is `depth` levels deep. -/
def readBody (depth : Nat) (b : Source.Body) : Source.Reading (List Goal) := do
  Source.Reading.checkDepth (depth + 1) b.span
  Source.Goal.readAll depth b.goals

/-- What comes of the parts of a rule: the same from its node as from its value. -/
def BuildsParts : (r : Rule) → Node → Result r → Prop
  | .keyword k, n, t => n.text = t ∧ t ∈ k.allSpellings
  | .number, n, t | .varName, n, t | .atom, n, t | .name, n, t => n.text = t
  | .string, n, content => unquote n.text = content
  | .boolean, n, value => boolean n = pure value
  | .var, n, name => variableName n = pure name
  | .listTail, n, t => ∀ depth, listTail depth n = ofReading (t.read depth)
  | .list, n, (items, rest) => ∀ depth span,
    (do checkDepth (depth + 1) span; list depth n) = ofReading ((Source.Term.list span items rest).read depth)
  | .term, n, t => ∀ depth, term depth n = ofReading (t.read depth)
  | .predicate, n, p => ∀ depth, predicate depth n = ofReading (p.read depth)
  | .additiveOperator, n, op => additive n.text = op
  | .multiplicativeOperator, n, op => multiplicative n.text = op
  | .arithmetic, n, e => ∀ depth, arithmetic depth n = ofReading (e.read depth)
  -- inside a formula as a whole, which counts for the depth of those in parentheses
  | .product, n, e => ∀ depth, product depth n = ofReading (e.read (depth + 1))
  | .unary, n, e => ∀ depth, unary depth n = ofReading (e.read (depth + 1))
  | .primary, n, e => ∀ depth, primary depth n = ofReading (e.read (depth + 1))
  | .comparisonOperator, n, op => comparisonOf n.text = op
  | .body, n, b => b.goals ≠ [] ∧ ∀ depth, body depth n = ofReading (readBody depth b)
  | .nested, n, b => ∀ depth, scopeGoals depth n = ofReading (readBody (depth + 1) b)
  | .clauseForm, n, (head, b) => (∀ b' ∈ b, b'.goals ≠ []) ∧ ∀ depth, clauseForm depth (none, []) n = ofReading (do
    let head ← head.read depth
    pure (some head, ← (b.map (readBody (depth + 1))).getD (pure [])))
  | .cut, n, _ => ∀ depth, goalForm depth n = pure .cut
  | .negation, n, g | .collect, n, g | .assertGoal, n, g | .retractGoal, n, g | .unifyCall, n, g | .isGoal, n, g
  | .comparison, n, g | .unifyGoal, n, g | .trueGoal, n, g | .falseGoal, n, g | .call, n, g =>
    ∀ depth, goalForm depth n = ofReading (g.read depth)
  | .goal, n, g => ∀ depth, goal depth n = ofReading (g.read depth)
  | .factDeclaration, n, s | .ruleDeclaration, n, s | .queryDeclaration, n, s | .directive, n, s =>
    statement n = ofReading s.read
  | .program, n, ss => ∀ c, (programPart [] n c 0).map Prod.fst =
    (Source.readStatements c 0 [] ss).mapError .input
  | .queryInput, n, b => queryGoals n.children = ofReading b.read
  | .termInput, n, t => (do term 0 (← find .term "term_input missing term" n)) = ofReading (t.read 0)
  | .formula, n, e => (do arithmetic 0 (← find .arithmetic "formula missing arithmetic" n)) = ofReading (e.read 0)
  | .endOfText, _, _ | .reserved, _, _ | .anonymous, _, _ | .negate, _, _ => True

/-- Building from the node of a rule comes to reading the value of the rule. -/
def Builds (r : Rule) (n : Node) (x : Result r) : Prop := n.rule = r ∧ BuildsParts r n x

section Lexical

variable {c d : Cursor} {ns : List Node} {taken : List Char} {spaced : Bool}
  {R : (r : Rule) → Node → Result r → Prop}

theorem text_of_rest {t : String} (h : c.rest = t.toList ++ d.rest) (htaken : c.rest = taken ++ d.rest) :
    String.ofList taken = t := by
  rw [htaken] at h
  rw [List.append_cancel_right h, String.ofList_toList]

theorem text_of_keyword {k : Keyword} {t : String}
    (h : grammar.Traces R false (Language.body (.keyword k)) c d ns t) (htaken : c.rest = taken ++ d.rest) :
    String.ofList taken = t ∧ t ∈ k.allSpellings := by
  obtain ⟨c', ms, ms', _, ht, hend, rfl⟩ := traces_left.mp h
  obtain ⟨hc, hmem, -⟩ := traces_oneOf.mp ht
  obtain ⟨rfl, -⟩ := traces_unless.mp hend
  exact ⟨text_of_rest hc htaken, hmem⟩

theorem unquote_of_string {t : String} (h : grammar.Traces R false (Language.body .string) c d ns t)
    (htaken : c.rest = taken ++ d.rest) : unquote (String.ofList taken) = t := by
  rcases traces_or.mp h with h | ⟨-, h⟩
  · exact unquote_of_quoted (by decide) h htaken
  rcases traces_or.mp h with h | ⟨-, h⟩
  · exact unquote_of_quoted (by decide) h htaken
  · exact unquote_of_guillemets h htaken

theorem text_of_varName {t : String} (h : grammar.Traces R false (Language.body .varName) c d ns t)
    (htaken : c.rest = taken ++ d.rest) : String.ofList taken = t := by
  obtain ⟨xs, hxs, rfl⟩ := traces_map.mp h
  refine text_of_rest ?_ htaken
  rw [String.toList_ofList]
  exact spells_many1_char _ _ _ _ _ hxs

/-- Atoms and names: what is no reserved word is read as an identifier. -/
theorem text_of_word {t : String}
    (h : grammar.Traces R false (.unless (call .reserved) *> identifier) c d ns t)
    (htaken : c.rest = taken ++ d.rest) : String.ofList taken = t := by
  obtain ⟨c', ms, ms', _, hno, ht, rfl⟩ := traces_right.mp h
  obtain ⟨rfl, -⟩ := traces_unless.mp hno
  exact text_of_rest (spells_identifier ht) htaken

theorem symbol_of_table {α : Type} {table : List (String × α)} {other x : α}
    (h : grammar.Traces R spaced (oneOfSymbols table other) c d ns x) (htaken : c.rest = taken ++ d.rest) :
    ∃ t ∈ table.map Prod.fst, String.ofList taken = t ∧ (table.lookup t).getD other = x := by
  obtain ⟨t, ht, rfl⟩ := traces_map.mp h
  obtain ⟨hc, hmem, -⟩ := traces_oneOf.mp ht
  exact ⟨t, hmem, text_of_rest hc htaken, rfl⟩

theorem additive_eq : ∀ t ∈ (operation.take 2).map Prod.fst, additive t = ((operation.take 2).lookup t).getD .sub := by
  decide

theorem multiplicative_eq : ∀ t ∈ (operation.drop 2).map Prod.fst,
    multiplicative t = ((operation.drop 2).lookup t).getD .rem := by
  decide

theorem comparisonOf_eq : ∀ t ∈ Language.comparison.map Prod.fst,
    comparisonOf t = (Language.comparison.lookup t).getD .ne := by
  decide

end Lexical

section Terms

variable {c d : Cursor} {ns : List Node} {spaced : Bool} {text : String}

theorem builds_var {name : String} (h : grammar.Traces Builds spaced (Language.body .var) c d ns name) (s : Span) :
    BuildsParts .var (.mk .var s text ns) name := by
  obtain ⟨c', ms, ms', _, hmark, hname, rfl⟩ := traces_right.mp h
  obtain ⟨-, -, rfl⟩ := traces_token.mp hmark
  obtain ⟨n, rfl, -, hrule, hn⟩ := traces_call.mp hname
  have hn : n.text = name := hn
  simp [BuildsParts, variableName, hrule, hn]

theorem builds_boolean {value : Bool} (h : grammar.Traces Builds spaced (Language.body .boolean) c d ns value)
    (s : Span) : BuildsParts .boolean (.mk .boolean s text ns) value := by
  rcases traces_or.mp h with h | ⟨-, h⟩
  · obtain ⟨n, t, rfl, -, ⟨hrule, rfl, hmem⟩, rfl⟩ := (traces_map_call (r := .keyword .true)).mp h
    simp [BuildsParts, boolean, hrule, expectKeyword_of_mem hmem]
  · obtain ⟨n, t, rfl, -, ⟨hrule, rfl, hmem⟩, rfl⟩ := (traces_map_call (r := .keyword .false)).mp h
    simp [BuildsParts, boolean, hrule, expectKeyword_of_mem hmem]

/-- Items with separators between them leave one node each. -/
theorem nodes_of_separated {R : (r : Rule) → Node → Result r → Prop} {r : Rule} {xs : List (Result r)}
    (h : grammar.Traces R spaced (Peg.separated (call r) separator) c d ns xs) : List.Forall₂ (R r) ns xs := by
  obtain ⟨c', ms, ms', _, xs, hx, hmore, rfl, rfl⟩ := traces_ap.mp h
  obtain ⟨n, x, rfl, -, hn, rfl⟩ := traces_map_call.mp hx
  obtain ⟨nss, rfl, hnss⟩ := parts_of_many (Q := fun ns x => ∃ n : Node, ns = [n] ∧ R r n x) hmore (by
    intro c d ns x hx
    obtain ⟨c', us, us', _, hseparator, hcall, rfl⟩ := traces_right.mp hx
    obtain ⟨n, rfl, -, hn⟩ := traces_call.mp hcall
    rw [traces_separator hseparator]
    exact ⟨n, rfl, hn⟩)
  refine .cons hn ?_
  clear hmore h
  induction hnss with
  | nil => exact .nil
  | cons hpart _ ih =>
    obtain ⟨n, rfl, hn⟩ := hpart
    exact .cons hn ih

theorem listItems_append {ns : List Node} {xs : List Source.Term} (h : List.Forall₂ (Builds .term) ns xs) (depth : Nat)
    (items : List Term) (rest : Option Term) (ms : List Node) : listItems depth items rest (ns ++ ms) = (do
      let ts ← ofReading (Source.Term.readAll depth xs)
      listItems depth (items ++ ts) rest ms) := by
  induction h generalizing items with
  | nil => simp [Source.Term.readAll]
  | cons hn _ ih =>
    obtain ⟨hrule, hn⟩ := hn
    rw [List.cons_append, listItems, hrule]
    simp only [hn depth, ih, Source.Term.readAll, ofReading_bind, ofReading_pure, bind_assoc, pure_bind,
      List.append_assoc, List.singleton_append]

theorem listItems_eq {ns : List Node} {xs : List Source.Term} (h : List.Forall₂ (Builds .term) ns xs) (depth : Nat)
    (rest : Option Term) : listItems depth [] rest ns = (do pure (← ofReading (Source.Term.readAll depth xs), rest)) := by
  have happend := listItems_append h depth [] rest []
  rwa [List.append_nil] at happend

theorem builds_list {x : List Source.Term × Option Source.Term}
    (h : grammar.Traces Builds spaced (Language.body .list) c d ns x) (s : Span) :
    BuildsParts .list (.mk .list s text ns) x := by
  obtain ⟨c', d', -, ⟨o, ho, rfl⟩, -⟩ := traces_between h
  intro depth span
  rcases traces_option.mp ho with ⟨⟨items, rest⟩, rfl, hx⟩ | ⟨rfl, rfl, -⟩
  · obtain ⟨e, ms, ms', _, o, hxs, hrest, rfl, hpair⟩ := traces_ap.mp hx
    obtain ⟨xs, hseparated, rfl⟩ := traces_map.mp hxs
    obtain ⟨rfl, rfl⟩ := Prod.mk.inj hpair
    have hitems := nodes_of_separated (r := .term) hseparated
    rcases traces_option.mp hrest with ⟨t, rfl, ht⟩ | ⟨rfl, rfl, -⟩
    · obtain ⟨n, rfl, -, hrule, hn⟩ := traces_call.mp ht
      have hn : listTail (depth + 1) n = ofReading (t.read (depth + 1)) := hn (depth + 1)
      simp [list, listItems_append hitems, listItems, hrule, hn, Source.Term.read, checkDepth]
    · simp [list, listItems_eq hitems, Source.Term.read, checkDepth]
  · simp [list, listItems, Source.Term.read, Source.Term.readAll, checkDepth]

theorem builds_listTail {x : Source.Term} (h : grammar.Traces Builds spaced (Language.body .listTail) c d ns x)
    (s : Span) : BuildsParts .listTail (.mk .listTail s text ns) x := by
  obtain ⟨c', ms, ms', _, hbar, hx, rfl⟩ := traces_right.mp h
  obtain ⟨-, -, rfl⟩ := traces_token.mp hbar
  obtain ⟨n, rfl, -, -, hn⟩ := traces_call.mp hx
  intro depth
  rw [List.nil_append, listTail]
  exact hn depth

theorem builds_term {x : Source.Term} (h : grammar.Traces Builds spaced (Language.body .term) c d ns x) :
    BuildsParts .term (.mk .term ⟨c.position, d.position.offset⟩ text ns) x := by
  obtain ⟨f, hf, rfl⟩ := traces_placed.mp h
  intro depth
  rcases traces_or.mp hf with hf | ⟨-, hf⟩
  · obtain ⟨n, y, rfl, -, ⟨hrule, -⟩, rfl⟩ := (traces_map_call (r := .anonymous)).mp hf
    simp [term, hrule, Source.Term.read, checkDepth]
  rcases traces_or.mp hf with hf | ⟨-, hf⟩
  · obtain ⟨n, y, rfl, -, ⟨hrule, hn⟩, rfl⟩ := (traces_map_call (r := .var)).mp hf
    have hn : variableName n = pure y := hn
    simp [term, hrule, hn, Source.Term.read, checkDepth]
  rcases traces_or.mp hf with hf | ⟨-, hf⟩
  · obtain ⟨n, y, rfl, hspan, ⟨hrule, hn⟩, rfl⟩ := (traces_map_call (r := .number)).mp hf
    have hn : n.text = y := hn
    simp [term, hrule, hn, hspan, number, Source.Term.read, checkDepth]
  rcases traces_or.mp hf with hf | ⟨-, hf⟩
  · obtain ⟨n, y, rfl, -, ⟨hrule, hn⟩, rfl⟩ := (traces_map_call (r := .string)).mp hf
    have hn : unquote n.text = y := hn
    simp [term, hrule, hn, Source.Term.read, checkDepth]
  rcases traces_or.mp hf with hf | ⟨-, hf⟩
  · obtain ⟨n, y, rfl, -, ⟨hrule, hn⟩, rfl⟩ := (traces_map_call (r := .boolean)).mp hf
    have hn : boolean n = pure y := hn
    simp [term, hrule, hn, Source.Term.read, checkDepth]
  rcases traces_or.mp hf with hf | ⟨-, hf⟩
  · obtain ⟨n, ⟨items, rest⟩, rfl, -, ⟨hrule, hn⟩, rfl⟩ := (traces_map_call (r := .list)).mp hf
    simp only [term, hrule]
    exact hn depth _
  · obtain ⟨n, y, rfl, -, ⟨hrule, hn⟩, rfl⟩ := (traces_map_call (r := .atom)).mp hf
    have hn : n.text = y := hn
    simp [term, hrule, hn, Source.Term.read, checkDepth]

theorem arguments_eq {ns : List Node} {xs : List Source.Term} (h : List.Forall₂ (Builds .term) ns xs) (depth : Nat)
    (name : Option String) (arguments : List Term) : ns.foldlM (predicatePart depth) (name, arguments) = (do
      let ts ← ofReading (Source.Term.readAll depth xs)
      pure (name, arguments ++ ts)) := by
  induction h generalizing arguments with
  | nil => simp [Source.Term.readAll]
  | cons hn _ ih =>
    obtain ⟨hrule, hn⟩ := hn
    rw [List.foldlM_cons, predicatePart, hrule]
    simp only [hn depth, ih, Source.Term.readAll, ofReading_bind, ofReading_pure, bind_assoc, pure_bind,
      List.append_assoc, List.singleton_append]

theorem builds_predicate {p : Source.Predicate} (h : grammar.Traces Builds spaced (Language.body .predicate) c d ns p)
    (s : Span) : BuildsParts .predicate (.mk .predicate s text ns) p := by
  obtain ⟨c', ms, ms', _, arguments, hname, harguments, rfl, rfl⟩ := traces_ap.mp h
  obtain ⟨n, name, rfl, -, ⟨hrule, hn⟩, rfl⟩ := (traces_map_call (r := .name)).mp hname
  have hn : n.text = name := hn
  intro depth
  rcases traces_option.mp harguments with ⟨o, rfl, hbetween⟩ | ⟨rfl, rfl, -⟩
  · obtain ⟨c'', d', -, ho, -⟩ := traces_between hbetween
    rcases traces_option.mp ho with ⟨xs, rfl, hseparated⟩ | ⟨rfl, rfl, -⟩
    · have hxs := arguments_eq (nodes_of_separated (r := .term) hseparated)
      simp [predicate, predicatePart, hrule, hn, hxs, Source.Predicate.read]
    · simp [predicate, predicatePart, hrule, hn, Source.Predicate.read, Source.Term.readAll]
  · simp [predicate, predicatePart, hrule, hn, Source.Predicate.read, Source.Term.readAll]

end Terms

section Formulas

variable {c d : Cursor} {ns : List Node} {spaced : Bool} {text : String}

theorem pairs_of_many {R : (r : Rule) → Node → Result r → Prop} (r r' : Rule) {xs : List (Result r × Result r')}
    (h : grammar.Traces R spaced (.many (Prod.mk <$> call r <*> call r')) c d ns xs) : ∃ nss, ns = nss.flatten ∧
      List.Forall₂ (fun ms x => ∃ o n : Node, ms = [o, n] ∧ R r o x.1 ∧ R r' n x.2) nss xs := by
  refine parts_of_many h ?_
  intro c d ns x hx
  obtain ⟨c', us, us', _, y, hfirst, hsecond, rfl, rfl⟩ := traces_ap.mp hx
  obtain ⟨o, x, rfl, -, ho, rfl⟩ := (traces_map_call (r := r)).mp hfirst
  obtain ⟨n, rfl, -, hn⟩ := (traces_call (r := r')).mp hsecond
  exact ⟨o, n, rfl, ho, hn⟩

/-- A loop that takes an operator and an operand at a time puts a chain together as it is read. -/
theorem chain_eq (loop : Option Formula → List Node → Building (Option Formula)) (depth : Nat)
    (hnil : ∀ result, loop result [] = pure result) {nss : List (List Node)} {more : List (Operation × Source.Formula)}
    (h : List.Forall₂ (fun ms x => ∀ e ns, loop (some e) (ms ++ ns) = (do
      let operand ← ofReading (x.2.read depth)
      loop (some (.binary x.1 e operand)) ns)) nss more) (first : Source.Formula) :
    (do loop (some (← ofReading (first.read depth))) nss.flatten) =
      (do pure (some (← ofReading ((Source.Formula.chain first more).read depth)))) := by
  induction h generalizing first with
  | nil => simp [hnil, Source.Formula.chain]
  | @cons ms x _ more hx _ ih =>
    have hchain := ih (.binary x.1 first x.2)
    simp only [Source.Formula.read, ofReading_bind, ofReading_pure, bind_assoc, pure_bind] at hchain
    simp only [List.flatten_cons, hx]
    exact hchain

theorem products_pair {o n : Node} {op : Operation} {x : Source.Formula} (ho : Builds .additiveOperator o op)
    (hn : Builds .product n x) (depth : Nat) (e : Formula) (ns : List Node) :
    products depth (some e) none (o :: n :: ns) = (do
      let operand ← ofReading (x.read (depth + 1))
      products depth (some (.binary op e operand)) none ns) := by
  obtain ⟨hrule, hop⟩ := ho
  obtain ⟨hrule', hn⟩ := hn
  have hop : additive o.text = op := hop
  simp [products, hrule, hrule', hop, hn depth, combine]

theorem factors_pair {o n : Node} {op : Operation} {x : Source.Formula} (ho : Builds .multiplicativeOperator o op)
    (hn : Builds .unary n x) (depth : Nat) (e : Formula) (ns : List Node) :
    factors depth (some e) none (o :: n :: ns) = (do
      let operand ← ofReading (x.read (depth + 1))
      factors depth (some (.binary op e operand)) none ns) := by
  obtain ⟨hrule, hop⟩ := ho
  obtain ⟨hrule', hn⟩ := hn
  have hop : multiplicative o.text = op := hop
  simp [factors, hrule, hrule', hop, hn depth, combine]

theorem builds_arithmetic {e : Source.Formula} (h : grammar.Traces Builds spaced (Language.body .arithmetic) c d ns e) :
    BuildsParts .arithmetic (.mk .arithmetic ⟨c.position, d.position.offset⟩ text ns) e := by
  obtain ⟨f, hf, rfl⟩ := traces_placed.mp h
  obtain ⟨c', ms, ms', _, more, hfirst, hmore, rfl, rfl⟩ := traces_ap.mp hf
  obtain ⟨n, first, rfl, -, ⟨hrule, hn⟩, rfl⟩ := (traces_map_call (r := .product)).mp hfirst
  obtain ⟨nss, rfl, hnss⟩ := pairs_of_many .additiveOperator .product hmore
  intro depth
  have hchain := chain_eq (fun result => products depth result none) (depth + 1)
    (fun _ => by simp [products]) (hnss.imp (by
      rintro _ x ⟨o, n, rfl, ho, hn⟩ e ns
      exact products_pair ho hn depth e ns)) first
  have hn : product depth n = ofReading (first.read (depth + 1)) := hn depth
  simp only [List.singleton_append, arithmetic, products, hrule, hn, combine, pure_bind, hchain]
  simp [Source.Formula.read, checkDepth]

theorem builds_product {e : Source.Formula} (h : grammar.Traces Builds spaced (Language.body .product) c d ns e)
    (s : Span) : BuildsParts .product (.mk .product s text ns) e := by
  obtain ⟨c', ms, ms', _, more, hfirst, hmore, rfl, rfl⟩ := traces_ap.mp h
  obtain ⟨n, first, rfl, -, ⟨hrule, hn⟩, rfl⟩ := (traces_map_call (r := .unary)).mp hfirst
  obtain ⟨nss, rfl, hnss⟩ := pairs_of_many .multiplicativeOperator .unary hmore
  intro depth
  have hchain := chain_eq (fun result => factors depth result none) (depth + 1)
    (fun _ => by simp [factors]) (hnss.imp (by
      rintro _ x ⟨o, n, rfl, ho, hn⟩ e ns
      exact factors_pair ho hn depth e ns)) first
  have hn : unary depth n = ofReading (first.read (depth + 1)) := hn depth
  simp only [List.singleton_append, product, factors, hrule, hn, combine, pure_bind, hchain]
  simp

theorem signs_append {nss : List (List Node)} {us : List Unit}
    (h : List.Forall₂ (fun ms _ => ∃ n : Node, ms = [n] ∧ n.rule = .negate) nss us) (depth k : Nat)
    (operand : Option Formula) (ns : List Node) :
    signs depth k operand (nss.flatten ++ ns) = signs depth (k + us.length) operand ns := by
  induction h generalizing k with
  | nil => rfl
  | cons hx _ ih =>
    obtain ⟨n, rfl, hrule⟩ := hx
    rw [List.flatten_cons, List.append_assoc, List.singleton_append, signs, hrule]
    rw [ih, List.length_cons, Nat.add_assoc, Nat.add_comm 1]

theorem read_negations (us : List Unit) (e : Source.Formula) (depth : Nat) :
    ofReading ((us.foldl (fun e _ => Source.Formula.negate e) e).read depth) =
      (do pure (negateTimes us.length (← ofReading (e.read depth)))) := by
  induction us generalizing e with
  | nil => simp [negateTimes]
  | cons u us ih => simp [ih, negateTimes, Source.Formula.read]

theorem builds_unary {e : Source.Formula} (h : grammar.Traces Builds spaced (Language.body .unary) c d ns e)
    (s : Span) : BuildsParts .unary (.mk .unary s text ns) e := by
  obtain ⟨c', ms, ms', _, x, hsigns, hprimary, rfl, rfl⟩ := traces_ap.mp h
  obtain ⟨us, hus, rfl⟩ := traces_map.mp hsigns
  obtain ⟨nss, rfl, hnss⟩ := parts_of_many (Q := fun ms _ => ∃ n : Node, ms = [n] ∧ n.rule = .negate) hus (by
    intro c d ns x hx
    obtain ⟨n, rfl, -, hrule, -⟩ := traces_call.mp hx
    exact ⟨n, rfl, hrule⟩)
  obtain ⟨n, rfl, -, hrule, hn⟩ := (traces_call (r := .primary)).mp hprimary
  intro depth
  have hn : primary depth n = ofReading (x.read (depth + 1)) := hn depth
  rw [read_negations]
  simp [unary, signs_append hnss, signs, hrule, hn]

theorem builds_primary {e : Source.Formula} (h : grammar.Traces Builds spaced (Language.body .primary) c d ns e)
    (s : Span) : BuildsParts .primary (.mk .primary s text ns) e := by
  intro depth
  rcases traces_or.mp h with h | ⟨-, h⟩
  · obtain ⟨f, hf, rfl⟩ := traces_placed.mp h
    obtain ⟨n, y, rfl, hspan, ⟨hrule, hn⟩, rfl⟩ := (traces_map_call (r := .number)).mp hf
    have hn : n.text = y := hn
    simp [primary, hrule, number, hn, hspan, Source.Formula.read]
  rcases traces_or.mp h with h | ⟨-, h⟩
  · obtain ⟨n, y, rfl, -, ⟨hrule, hn⟩, rfl⟩ := (traces_map_call (r := .var)).mp h
    have hn : variableName n = pure y := hn
    simp [primary, hrule, hn, Source.Formula.read]
  rcases traces_or.mp h with h | ⟨-, h⟩
  · obtain ⟨n, y, rfl, -, ⟨hrule, hn⟩, rfl⟩ := (traces_map_call (r := .string)).mp h
    have hn : unquote n.text = y := hn
    simp [primary, hrule, hn, Source.Formula.read]
  · obtain ⟨c', d', -, hx, -⟩ := traces_between h
    obtain ⟨n, rfl, -, hrule, hn⟩ := (traces_call (r := .arithmetic)).mp hx
    simp only [primary, hrule]
    exact hn (depth + 1)

end Formulas

end BilingualLogic.Tree
