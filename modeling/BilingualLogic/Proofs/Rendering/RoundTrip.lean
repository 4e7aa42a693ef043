import BilingualLogic.Proofs.Rendering.Program
import BilingualLogic.Proofs.Rendering.Returns
import Mathlib.Data.List.MinMax

/-!
Writing a program in either vocabulary and reading it again gives the program back.
-/

namespace BilingualLogic

/-- The text has no named variable whose name begins with `_`, so that every variable is shown with its name or was
anonymous. In formulas `?_` is a named variable. -/
def Source.NamesVisible (source text : String) : Prop :=
  ∀ tree, Source.parseRule .program source text = .ok tree → ∀ s ∈ tree, ∀ x ∈ s.form.names, Term.isHidden x = false

namespace Program

theorem statements_of_parse {limits : Limits} {source text : String} {p : Program}
    (hp : Program.parse limits source text = .ok p) : ∃ tree, Source.parseRule .program source text = .ok tree ∧
      Source.readStatements ⟨source, limits.maxTermDepth⟩ 0 [] tree = .ok p.statements := by
  rw [Program.parse] at hp
  split at hp
  · cases hp
  · cases htree : Source.parseRule .program source text with
    | error e =>
      rw [htree] at hp
      cases hp
    | ok tree =>
      rw [htree] at hp
      cases hss : Source.readStatements ⟨source, limits.maxTermDepth⟩ 0 [] tree with
      | error e =>
        change (Source.readStatements ⟨source, limits.maxTermDepth⟩ 0 [] tree >>= fun ss =>
          Except.ok (⟨source, ss⟩ : Program)) = _ at hp
        rw [hss] at hp
        cases hp
      | ok ss =>
        change (Source.readStatements ⟨source, limits.maxTermDepth⟩ 0 [] tree >>= fun ss =>
          Except.ok (⟨source, ss⟩ : Program)) = _ at hp
        rw [hss] at hp
        cases hp
        exact ⟨tree, rfl, hss⟩

/-- A program comes back from its text in either vocabulary, under limits that leave room for it: all statements in
order, each the same but for its place. Anonymous variables are counted in the same order and keep even their names. -/
theorem parse_written (v : Vocabulary) {limits : Limits} {source text : String} {p : Program}
    (hp : Program.parse limits source text = .ok p) (hvisible : Source.NamesVisible source text) :
    ∃ size depth, ∀ (limits' : Limits) (source' : String), size ≤ limits'.maxFileSize → depth ≤ limits'.maxTermDepth →
      ∃ p', Program.parse limits' source' (String.join (p.statements.map (Statement.render v))) = .ok p' ∧
        List.Forall₂ (fun s s' => s.form.same s'.form = true) p.statements p'.statements := by
  obtain ⟨tree, htree, hread⟩ := statements_of_parse hp
  obtain ⟨ss, hss, hreadable, hsame⟩ :=
    StatementForm.returnAll_of_readStatements (Source.valid_of_parse htree) (hvisible tree htree) hread
  obtain rfl : p.statements = ss := by simpa using hss
  refine ⟨(String.join (p.statements.map (Statement.render v))).utf8ByteSize,
    (p.statements.map fun s => s.form.depth).foldr max 0, ?_⟩
  intro limits' source' hsize hdepth
  have hdepths (s : Statement) (hs : s ∈ p.statements) : s.form.depth ≤ limits'.maxTermDepth :=
    Nat.le_trans (List.le_max_of_le (List.mem_map_of_mem hs) (Nat.le_refl _)) hdepth
  obtain ⟨p', hp', hforms⟩ := parse_statements v hreadable hsize hdepths source'
  refine ⟨p', hp', ?_⟩
  rw [← hforms] at hsame
  exact List.forall₂_map_right_iff.mp hsame

theorem parse_written_rule : ∃ p,
    Program.parse {} "source" "rule p(?x, [1.50 | _]) :- not q(?x, _), ?x is -(2 + 3) * 4; fact r;" = .ok p ∧
      ∃ size depth, ∀ (limits' : Limits) (source' : String), size ≤ limits'.maxFileSize →
        depth ≤ limits'.maxTermDepth →
        ∃ p', Program.parse limits' source' (String.join (p.statements.map (Statement.render .arabic))) = .ok p' ∧
          List.Forall₂ (fun s s' => s.form.same s'.form = true) p.statements p'.statements := by
  have hok : (Program.parse {} "source"
      "rule p(?x, [1.50 | _]) :- not q(?x, _), ?x is -(2 + 3) * 4; fact r;").isOk = true := by decide +kernel
  have hnames : (match Source.parseRule .program "source"
      "rule p(?x, [1.50 | _]) :- not q(?x, _), ?x is -(2 + 3) * 4; fact r;" with
    | .ok tree => tree.all fun s => s.form.names.all fun x => ! Term.isHidden x
    | .error _ => true) = true := by decide +kernel
  cases hp : Program.parse {} "source" "rule p(?x, [1.50 | _]) :- not q(?x, _), ?x is -(2 + 3) * 4; fact r;" with
  | error e =>
    rw [hp] at hok
    cases hok
  | ok p =>
    refine ⟨p, rfl, parse_written .arabic hp fun tree htree s hs x hx => ?_⟩
    rw [htree] at hnames
    simp only [List.all_eq_true, Bool.not_eq_true'] at hnames
    exact hnames s hs x hx

end Program

end BilingualLogic
