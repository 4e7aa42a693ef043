import BilingualLogic.Proofs.Tree.Statements

/-!
Programs, queries, terms and formulas from the trees of their texts. No tree is at odds with the rules that take it
apart: building gives what reading gives, and all that can be wrong is wrong with the text.
-/

namespace BilingualLogic

open Text

/-- An error that a text gives rise to: it cannot be read, or it is too large or too deep. -/
def Error.OfText : Error → Prop
  | .reading _ _ | .limit _ => True
  | _ => False

theorem error_of_bind {ε α β : Type} {x : Except ε α} {f : α → Except ε β} {e : ε} (h : x >>= f = .error e) :
    x = .error e ∨ ∃ a, x = .ok a ∧ f a = .error e := by
  cases x with
  | error e' =>
    cases h
    exact Or.inl rfl
  | ok a => exact Or.inr ⟨a, rfl, h⟩

namespace Source

section Errors

variable {α β : Type}

/-- Only the text can be at fault. -/
def Reading.Blames (m : Reading α) : Prop := ∀ c n e, m c n = .error e → e.OfText

theorem Reading.Blames.bind {m : Reading α} {f : α → Reading β} (hm : m.Blames) (hf : ∀ x, (f x).Blames) :
    (m >>= f).Blames := by
  intro c n e h
  rw [bind_apply] at h
  cases hx : m c n with
  | ok x =>
    rw [hx] at h
    exact hf _ _ _ _ h
  | error e' =>
    rw [hx] at h
    cases h
    exact hm _ _ _ hx

theorem Reading.blames_pure (x : α) : (pure x : Reading α).Blames := by
  intro c n e h
  cases h

theorem Reading.blames_fresh : Reading.fresh.Blames := by
  intro c n e h
  cases h

theorem Reading.blames_checkDepth (depth : Nat) (s : Span) : (Reading.checkDepth depth s).Blames := by
  intro c n e h
  unfold Reading.checkDepth at h
  split at h
  · cases h
    trivial
  · cases h

theorem blames_readNumber (s : Span) (numeral : String) : (readNumber s numeral).Blames := by
  intro c n e h
  unfold readNumber at h
  cases hx : Decimal.ofNumeral? (numeral.map asciiDigit) with
  | some x =>
    rw [hx] at h
    cases h
  | none =>
    rw [hx] at h
    cases h
    trivial

open Reading in
mutual

theorem Term.blames_read (depth : Nat) : (t : Term) → (t.read depth).Blames
  | .anonymous s => (blames_checkDepth _ s).bind fun _ => blames_fresh.bind fun _ => blames_pure _
  | .var s _ | .text s _ | .boolean s _ | .atom s _ => (blames_checkDepth _ s).bind fun _ => blames_pure _
  | .number s numeral =>
    (blames_checkDepth _ s).bind fun _ => (blames_readNumber s numeral).bind fun _ => blames_pure _
  | .list s items none => (blames_checkDepth _ s).bind fun _ => (Term.blames_readAll _ items).bind fun _ => blames_pure _
  | .list s items (some rest) => (blames_checkDepth _ s).bind fun _ => (Term.blames_readAll _ items).bind fun _ =>
    (rest.blames_read _).bind fun _ => blames_pure _

theorem Term.blames_readAll (depth : Nat) : (ts : List Term) → (Term.readAll depth ts).Blames
  | [] => blames_pure _
  | t :: ts => (t.blames_read depth).bind fun _ => (Term.blames_readAll depth ts).bind fun _ => blames_pure _

end

theorem Predicate.blames_read (depth : Nat) (p : Predicate) : (p.read depth).Blames :=
  (Term.blames_readAll depth p.arguments).bind fun _ => Reading.blames_pure _

theorem Formula.blames_read (depth : Nat) (e : Formula) : (e.read depth).Blames := by
  induction e generalizing depth with
  | number s numeral => exact (blames_readNumber s numeral).bind fun _ => Reading.blames_pure _
  | var name => exact Reading.blames_pure _
  | text content => exact Reading.blames_pure _
  | negate e ih => exact (ih depth).bind fun _ => Reading.blames_pure _
  | binary op a b iha ihb => exact (iha depth).bind fun _ => (ihb depth).bind fun _ => Reading.blames_pure _
  | group s e ih => exact (Reading.blames_checkDepth _ s).bind fun _ => ih _

open Reading in
mutual

theorem Goal.blames_read (depth : Nat) : (g : Goal) → (g.read depth).Blames
  | .call p => (p.blames_read depth).bind fun _ => blames_pure _
  | .cut => blames_pure _
  | .not s goals => (blames_checkDepth _ s.span).bind fun _ => (Goal.blames_readAll _ goals).bind fun _ => blames_pure _
  | .unify a b => (a.blames_read depth).bind fun _ => (b.blames_read depth).bind fun _ => blames_pure _
  | .is a e => (a.blames_read depth).bind fun _ => (e.blames_read depth).bind fun _ => blames_pure _
  | .compare _ a b => (a.blames_read depth).bind fun _ => (b.blames_read depth).bind fun _ => blames_pure _
  | .collect _ t s goals r => (t.blames_read depth).bind fun _ => (blames_checkDepth _ s.span).bind fun _ =>
    (Goal.blames_readAll _ goals).bind fun _ => (r.blames_read depth).bind fun _ => blames_pure _
  | .assert head s body | .retract head s body => (head.blames_read depth).bind fun _ =>
    (Goal.blames_readBody depth s body).bind fun _ => blames_pure _

theorem Goal.blames_readBody (depth : Nat) (s : Span) : (gs : List Goal) → (Goal.readBody depth s gs).Blames
  | [] => blames_pure _
  | g :: gs => (blames_checkDepth _ s).bind fun _ => (g.blames_read _).bind fun _ =>
    (Goal.blames_readAll _ gs).bind fun _ => blames_pure _

theorem Goal.blames_readAll (depth : Nat) : (gs : List Goal) → (Goal.readAll depth gs).Blames
  | [] => blames_pure _
  | g :: gs => (g.blames_read depth).bind fun _ => (Goal.blames_readAll depth gs).bind fun _ => blames_pure _

end

theorem Body.blames_read (b : Body) : b.read.Blames :=
  (Reading.blames_checkDepth _ b.span).bind fun _ => Goal.blames_readAll 0 b.goals

theorem Statement.blames_read (s : Statement) : s.read.Blames := by
  obtain ⟨span, form⟩ := s
  cases form with
  | fact head => exact (head.blames_read 0).bind fun _ => Reading.blames_pure _
  | rule head b => exact (head.blames_read 0).bind fun _ => b.blames_read.bind fun _ => Reading.blames_pure _
  | query b => exact b.blames_read.bind fun _ => Reading.blames_pure _
  | directive g => exact (g.blames_read 0).bind fun _ => Reading.blames_pure _

theorem ofText_of_readStatements {c : Context} {n : Nat} {done : List BilingualLogic.Statement} {ss : List Statement}
    {e : Error} (h : readStatements c n done ss = .error e) : e.OfText := by
  induction ss generalizing n done with
  | nil => cases h
  | cons s ss ih =>
    rw [readStatements] at h
    split at h
    · exact ih h
    · next hs =>
      cases h
      exact s.blames_read _ _ _ hs

theorem ofText_of_parseRule {r : Rule} {source text : String} {e : Error} (h : parseRule r source text = .error e) :
    e.OfText := by
  unfold parseRule at h
  split at h
  · cases h
  · cases h
    trivial

theorem ofText_of_parseAlone {r : Rule} {source text : String} {read : Language.Result r → Reading α}
    (hread : ∀ x, (read x).Blames) {e : Error} (h : parseAlone r source text read = .error e) : e.OfText := by
  unfold parseAlone at h
  rcases error_of_bind h with h | ⟨x, -, h⟩
  · exact ofText_of_parseRule h
  rcases error_of_bind h with h | ⟨y, -, h⟩
  · exact hread x _ _ _ h
  · cases h

end Errors

end Source

theorem Program.ofText_of_parse {limits : Limits} {source text : String} {e : Error}
    (h : Program.parse limits source text = .error e) : e.OfText := by
  unfold Program.parse at h
  split at h
  · cases h
    trivial
  rcases error_of_bind h with h | ⟨ss, -, h⟩
  · exact Source.ofText_of_parseRule h
  rcases error_of_bind h with h | ⟨p, -, h⟩
  · exact Source.ofText_of_readStatements h
  · cases h

namespace Tree

open Grammar BilingualLogic.Language

theorem reaches_grammar_skip (c : Cursor) : c.Reaches (grammar.skip c) := Blank.reaches_skip c.rest c.position

theorem read_eq (r : Rule) (source text : String) :
    (∃ e, Source.parseRule r source text = .error e ∧ read r source text = .error (.input e)) ∨
      ∃ x n, Source.parseRule r source text = .ok x ∧ read r source text = .ok [n] ∧ Builds r n x := by
  unfold Source.parseRule read
  rcases parse_traced reaches_grammar_skip closed_builds Source.ruleDepth r text with ⟨a, hx, hn⟩ | ⟨x, n, hx, hn, h⟩
  · rw [hx, hn]
    exact Or.inl ⟨_, rfl, rfl⟩
  · rw [hx, hn]
    exact Or.inr ⟨x, n, rfl, rfl, h⟩

theorem parseAlone_eq {α : Type} {r : Rule} {source text : String} {build : Node → Building α}
    {reading : Language.Result r → Source.Reading α} (h : ∀ n x, Builds r n x → build n = ofReading (reading x)) :
    parseAlone r source text build = (Source.parseAlone r source text reading).mapError .input := by
  unfold parseAlone Source.parseAlone
  rcases read_eq r source text with ⟨e, hx, hn⟩ | ⟨x, n, hx, hn, hbuilds⟩
  · rw [hx, hn]
    rfl
  · rw [hx, hn]
    change (build n ⟨source, ({} : Limits).maxTermDepth⟩ 0 >>= fun y => .ok y.1) =
      (reading x ⟨source, ({} : Limits).maxTermDepth⟩ 0 >>= fun y => .ok y.1).mapError .input
    rw [h n x hbuilds, ofReading]
    rcases reading x _ 0 with e | y <;> rfl

theorem parseProgram_eq (limits : Limits) (source text : String) :
    parseProgram limits source text = (Program.parse limits source text).mapError .input := by
  unfold parseProgram Program.parse
  split
  · rfl
  · rcases read_eq .program source text with ⟨e, hx, hn⟩ | ⟨ss, n, hx, hn, -, hbuilds⟩
    · rw [hx, hn]
      rfl
    · rw [hx, hn]
      have hbuilds := hbuilds ⟨source, limits.maxTermDepth⟩
      have hone : [n].foldlM programPart [] = programPart [] n := by simp
      change ([n].foldlM programPart [] ⟨source, limits.maxTermDepth⟩ 0 >>= fun y => .ok (Program.mk source y.1)) =
        (Source.readStatements ⟨source, limits.maxTermDepth⟩ 0 [] ss >>= fun ss =>
          .ok (Program.mk source ss)).mapError .input
      rw [hone]
      revert hbuilds
      generalize programPart [] n ⟨source, limits.maxTermDepth⟩ 0 = built
      generalize Source.readStatements ⟨source, limits.maxTermDepth⟩ 0 [] ss = read
      rcases built with f | y <;> rcases read with e | ss <;> rintro ⟨⟩ <;> rfl

/-- Every keyword of a tree is resolved by the table to the keyword of its rule. -/
def Resolved (n : Node) : Prop := ∀ k, n.rule = .keyword k → Keyword.ofSpelling? n.text = some k

theorem closed_resolved : grammar.Closed fun _ n _ => n.All Resolved := by
  intro r spaced c d taken ns x htaken h
  refine Node.all_iff.mpr ⟨fun k hk => ?_, fun m hm => ?_⟩
  · obtain rfl : r = .keyword k := hk
    obtain ⟨htext, hmem⟩ := text_of_keyword h htaken
    change Keyword.ofSpelling? (String.ofList taken) = some k
    rw [htext]
    exact Keyword.ofSpelling?_of_mem hmem
  · have hm : m ∈ if grammar.kind r = .atomic then [] else ns := hm
    have hns : m ∈ ns := by
      split at hm
      · cases hm
      · exact hm
    exact forall_of_traces (P := fun n => Node.All Resolved n) (fun hn => hn) h _ hns

theorem resolved_of_read {r : Rule} {source text : String} {ns : List Node} (h : read r source text = .ok ns) :
    ∀ n ∈ ns, n.All Resolved := by
  unfold read at h
  rcases parse_traced reaches_grammar_skip closed_resolved Source.ruleDepth r text with ⟨a, -, hn⟩ | ⟨x, n, -, hn, hall⟩
  · rw [hn] at h
    cases h
  · rw [hn] at h
    cases h
    exact List.forall_mem_singleton.mpr hall

/-- What is built is what is read, and only the text is blamed. -/
structure Agrees {α : Type} (built : Except Fault α) (read : Except Error α) : Prop where
  same : built = read.mapError .input
  blame : ∀ f, built = .error f → ∃ e, f = .input e ∧ e.OfText

theorem Agrees.of_same {α : Type} {built : Except Fault α} {read : Except Error α} (h : built = read.mapError .input)
    (hread : ∀ e, read = .error e → e.OfText) : Agrees built read := by
  refine ⟨h, fun f hf => ?_⟩
  cases read with
  | ok x =>
    rw [h] at hf
    cases hf
  | error e =>
    rw [h] at hf
    cases hf
    exact ⟨e, rfl, hread e rfl⟩

/-- Whatever the text, the source and the limits, programs, queries, terms and formulas are built from the trees of
their texts as they are read, and where this fails the text is at fault and never a tree. All keywords in a tree are
resolved by the table to the keywords of their rules. -/
theorem agrees_with_reading :
    (∀ limits source text, Agrees (parseProgram limits source text) (Program.parse limits source text)) ∧
    (∀ text, Agrees (parseQuery text) (Goal.parseQuery text)) ∧
    (∀ text, Agrees (parseTerm text) (Term.parse text)) ∧
    (∀ text, Agrees (parseFormula text) (Formula.parse text)) ∧
    ∀ r source text ns, read r source text = .ok ns → ∀ n ∈ ns, n.All Resolved := by
  refine ⟨fun limits source text => ?program, fun text => ?query, fun text => ?term, fun text => ?formula,
    fun r source text ns h => resolved_of_read h⟩
  case program => exact .of_same (parseProgram_eq limits source text) fun e h => Program.ofText_of_parse h
  case query =>
    exact .of_same (parseAlone_eq fun n b h => h.2)
      fun e h => Source.ofText_of_parseAlone Source.Body.blames_read h
  case term =>
    exact .of_same (parseAlone_eq fun n t h => h.2)
      fun e h => Source.ofText_of_parseAlone (Source.Term.blames_read 0) h
  case formula =>
    exact .of_same (parseAlone_eq fun n x h => h.2)
      fun e h => Source.ofText_of_parseAlone (Source.Formula.blames_read 0) h

end Tree

end BilingualLogic
