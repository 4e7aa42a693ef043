import BilingualLogic.Proofs.FactTable.Terms
import BilingualLogic.Proofs.Tree.FrontEnd

/-!
Literals of texts. What is written for a text, be it in a term or from a table, is taken by the rule for texts as a whole
wherever it stands and whatever stands behind it, and its quotes hold the text. The rule calls no other one, so it does
not matter how its place was come to.
-/

namespace BilingualLogic

open Text

namespace Peg

variable {Rule : Type} {Result : Rule → Type}

/-- Whether no rule is called in the expression. -/
def isFlat : {α : Type} → Peg Rule Result α → Bool
  | _, .rule _ => false
  | _, .map _ e => e.isFlat
  | _, .seq a b => a.isFlat && b.isFlat
  | _, .choice a b => a.isFlat && b.isFlat
  | _, .many e => e.isFlat
  | _, .option e => e.isFlat
  | _, .unless e => e.isFlat
  | _, .placed e => e.isFlat
  | _, _ => true

end Peg

namespace Grammar

variable {G : Grammar}

/-- At this place the rule takes these characters and yields the value, with nothing noted, however deep in other rules
and after whichever failures it is tried. As in every parse, more repetitions are allowed than there are characters
left. -/
def Consumes (G : Grammar) (r : G.Rule) (c : Cursor) (taken : List Char) (x : G.Result r) : Prop :=
  ∀ reps fuel mode a, c.rest.length < reps →
    ∃ d, readRule G reps (fuel + 1) r mode c a = (some (x, d), a) ∧ c.Takes taken d

section Flat

variable {α : Type}

/-- The first reader reads what the second one does, whatever is noted there, and leaves the notes as they are. -/
def ReadsLike (read read' : Cursor → Attempts G.Rule → Reply G.Rule α) : Prop :=
  ∀ c a a', read c a = ((read' c a').1, a)

theorem repeatRead_like {read read' : Cursor → Attempts G.Rule → Reply G.Rule α} (h : ReadsLike read read')
    (skip : Cursor → Cursor) (fuel : Nat) (done : List α) :
    ReadsLike (repeatRead read skip fuel done) (repeatRead read' skip fuel done) := by
  induction fuel generalizing done with
  | zero => exact fun c a a' => rfl
  | succ fuel ih =>
    intro c a a'
    rw [repeatRead, repeatRead, h _ a a']
    rcases read' (if done.isEmpty then c else skip c) a' with ⟨_ | ⟨x, d⟩, a''⟩
    · rfl
    · exact ih (x :: done) d a a''

/-- Where no rule is called it does not matter how rules are read. -/
theorem readExpr_flat (reps : Nat) (rules rules' : FuelledReaders G) (mode : Mode) {e : Peg G.Rule G.Result α}
    (he : e.isFlat = true) : ReadsLike (readExpr G reps rules mode e) (readExpr G reps rules' mode e) := by
  induction e with
  | pure y => exact fun c a a' => rfl
  | char accepts =>
    rintro ⟨rest, p⟩ a a'
    cases rest <;> rfl
  | oneOf texts => exact fun c a a' => rfl
  | finish => exact fun c a a' => rfl
  | rule r => cases he
  | map f e ih =>
    intro c a a'
    simp only [readExpr, ih he c a a']
    rcases readExpr G reps rules' mode e c a' with ⟨_ | ⟨x, d⟩, a''⟩ <;> rfl
  | seq e₁ e₂ ih₁ ih₂ =>
    obtain ⟨he₁, he₂⟩ := Bool.and_eq_true_iff.mp he
    intro c a a'
    simp only [readExpr, ih₁ he₁ c a a']
    rcases readExpr G reps rules' mode e₁ c a' with ⟨_ | ⟨x, d⟩, a''⟩
    · rfl
    · simp only [ih₂ he₂ _ a a'']
      rcases readExpr G reps rules' mode e₂ _ a'' with ⟨_ | ⟨y, d'⟩, b⟩ <;> rfl
  | choice e₁ e₂ ih₁ ih₂ =>
    obtain ⟨he₁, he₂⟩ := Bool.and_eq_true_iff.mp he
    intro c a a'
    simp only [readExpr, ih₁ he₁ c a a']
    rcases readExpr G reps rules' mode e₁ c a' with ⟨_ | ⟨x, d⟩, a''⟩
    · exact ih₂ he₂ c a a''
    · rfl
  | many e ih => exact repeatRead_like (ih he) _ reps []
  | option e ih =>
    intro c a a'
    simp only [readExpr, ih he c a a']
    rcases readExpr G reps rules' mode e c a' with ⟨_ | ⟨x, d⟩, a''⟩ <;> rfl
  | «unless» e ih =>
    intro c a a'
    simp only [readExpr, ih he c a a']
    rcases readExpr G reps rules' mode e c a' with ⟨_ | ⟨x, d⟩, a''⟩ <;> rfl
  | placed e ih =>
    intro c a a'
    simp only [readExpr, ih he c a a']
    rcases readExpr G reps rules' mode e c a' with ⟨_ | ⟨x, d⟩, a''⟩ <;> rfl

end Flat

end Grammar

namespace Language

open Grammar

/-- The literal stands for the text. Where it stands in an input, whatever is behind it, the rule for texts takes the
literal and no more and yields the text; the node of the rule is the literal; and its quotes hold the text. -/
structure IsLiteral (literal content : String) : Prop where
  taken : ∀ {input : String} {c : Cursor} {behind : List Char}, (Cursor.ofString input).Reaches c →
    c.rest = literal.toList ++ behind → grammar.Consumes .string c literal.toList content
  node : ∀ {input : String} {c : Cursor} {behind : List Char}, (Cursor.ofString input).Reaches c →
    c.rest = literal.toList ++ behind → (grammar.traced input).Consumes .string c literal.toList
      (.mk .string ⟨c.position, c.position.offset + literal.utf8ByteSize⟩ literal [])
  unquoted : Tree.unquote literal = content

/-- A rule that calls no other is read alike however its place was come to. -/
theorem readRule_flat {r : Rule} (hflat : (body r).isFlat = true) {mode : Mode} {c d : Cursor} {x : Result r}
    (h : eval (inside r mode.spaced) (body r) c = some (x, d)) {reps : Nat} (hreps : c.rest.length < reps) (fuel : Nat)
    (a : Attempts Rule) : readRule grammar reps (fuel + 1) r mode c a = (some (x, d), a) := by
  have hbody : (readExpr grammar reps unfuelled (insideOf (kind r) mode) (body r) c a).1 = some (x, d) := by
    rw [readExpr_unfuelled (productive_body r) _ hreps a, ← h]
    exact congrArg (eval · (body r) c) (insideOf_spaced (G := grammar) r mode)
  have hlike := readExpr_flat (G := grammar) reps (readRule grammar reps fuel) unfuelled (insideOf (kind r) mode) hflat
    c a a
  rw [hbody] at hlike
  exact (readRule_succ (G := grammar) reps fuel r mode c a).trans (congrArg (ruleReply (G := grammar) r mode c a) hlike)

section Places

variable {literal content : String}

/-- What is read off a literal, and the node that is left. -/
theorem read_literal (h : ∀ behind, Reads false (body .string) (literal.toList ++ behind) behind (· = content))
    {input : String} {c : Cursor} {behind : List Char} (hc : (Cursor.ofString input).Reaches c)
    (hrest : c.rest = literal.toList ++ behind) {reps : Nat} (hreps : c.rest.length < reps) (fuel : Nat) (mode : Mode)
    (a : Attempts Rule) : ∃ d, c.Takes literal.toList d ∧
      readRule grammar reps (fuel + 1) .string mode c a = (some (content, d), a) ∧
      readRule (grammar.traced input) reps (fuel + 1) .string mode c a =
        (some (.mk .string ⟨c.position, c.position.offset + literal.utf8ByteSize⟩ literal [], d), a) ∧
      Tree.unquote literal = content := by
  obtain ⟨x, d, hx, hd, rfl⟩ := h behind c.position
  rw [← hrest] at hx
  have hread : readRule grammar reps (fuel + 1) .string mode c a = (some (x, d), a) :=
    readRule_flat (r := .string) rfl hx hreps fuel a
  obtain ⟨taken, htaken, n, hn, htree, -, hunquote⟩ :=
    readRule_traced_atomic (r := .string) Tree.reaches_grammar_skip Tree.closed_builds rfl hc hread
  obtain rfl : taken = literal.toList := by
    have hd : d.rest = behind := hd
    have happend : taken ++ behind = literal.toList ++ behind := by rw [← hrest, htaken.rest, hd]
    exact List.append_cancel_right happend
  rw [htaken.offset, String.utf8Len_toList, String.ofList_toList] at hn
  rw [hn] at htree hunquote
  exact ⟨d, htaken, hread, htree, hunquote⟩

theorem isLiteral_of_reads (h : ∀ behind, Reads false (body .string) (literal.toList ++ behind) behind (· = content)) :
    IsLiteral literal content where
  taken hc hrest reps fuel mode a hreps := by
    obtain ⟨d, htaken, hread, -, -⟩ := read_literal h hc hrest hreps fuel mode a
    exact ⟨d, hread, htaken⟩
  node hc hrest reps fuel mode a hreps := by
    obtain ⟨d, htaken, -, htree, -⟩ := read_literal h hc hrest hreps fuel mode a
    exact ⟨d, htree, htaken⟩
  unquoted := by
    -- any place will do, such as the whole of the literal
    obtain ⟨-, -, -, -, hunquote⟩ := read_literal h (.refl (Cursor.ofString literal)) (List.append_nil _).symm
      (Nat.lt_succ_self _) 0 ⟨false, false⟩ .start
    exact hunquote

end Places

theorem isLiteral_quoted {escape : Char → List Char} (h : Escapes escape) (content : String) :
    IsLiteral ("\"" ++ String.ofList (content.toList.flatMap escape) ++ "\"") content := by
  refine isLiteral_of_reads fun behind => ?_
  have hread := reads_string_body h content.toList behind
  rw [String.ofList_toList] at hread
  simpa using hread

/-- What is written for a text, in terms of either vocabulary or from a table, is a literal of the text. -/
theorem literals_return (content : String) :
    (∀ v, IsLiteral ((Value.text content).render v) content) ∧
      ∃ literal, FactTable.termText (.string content) = .ok literal ∧ IsLiteral literal content := by
  constructor
  · intro v
    exact isLiteral_quoted escapes_value content
  · refine ⟨_, ?_, isLiteral_quoted FactTable.escapes_escaped content⟩
    rw [FactTable.termText]

/-- A backslash in front of a letter is none that takes the letter along. -/
example : (Value.text "\\n").render .latin = "\"\\\\n\"" ∧ Tree.unquote "\"\\\\n\"" = "\\n" := by decide

end Language
end BilingualLogic
