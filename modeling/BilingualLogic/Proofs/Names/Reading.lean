import BilingualLogic.Proofs.Grammar.Valid
import BilingualLogic.Proofs.Names.Occurrence
import BilingualLogic.Proofs.Rendering.RoundTrip

/-!
The names that reading gives: what stands in a text has only characters of names, and the names of anonymous variables
have none but these either. The sign that comes before the number of a copy is not among them.
-/

namespace BilingualLogic

/-- A name without the sign that comes before the number of a copy. -/
def Plain (x : String) : Prop := '#' ∉ x.toList

theorem plain_of_isNameChar {x : String} (h : ∀ c ∈ x.toList, Language.isNameChar c = true) : Plain x :=
  fun hmem => absurd (h '#' hmem) (by decide +kernel)

theorem plain_anonymous (n : Nat) : Plain ("_G" ++ toString n) := by
  intro hmem
  rw [String.toList_append, List.mem_append] at hmem
  rcases hmem with hmem | hmem
  · exact absurd hmem (by decide)
  · exact Clause.notMem_toDigits n (by simpa using hmem)

namespace Source

section Reading

variable {α β : Type}

/-- All that is read has the property for the limit of nesting under which it is read. -/
def Reading.Keeps (P : Nat → α → Prop) (m : Reading α) : Prop := ∀ c n x k, m c n = .ok (x, k) → P c.maxDepth x

/-- All that is read, wherever it is read, has the property. -/
def Reading.Gives (P : α → Prop) (m : Reading α) : Prop := ∀ c n x k, m c n = .ok (x, k) → P x

section Limited

variable {P : Nat → α → Prop} {Q : Nat → β → Prop}

theorem Reading.Keeps.bind {m : Reading α} {f : α → Reading β} (hm : m.Keeps P)
    (hf : ∀ x, (f x).Keeps fun limit y => P limit x → Q limit y) : (m >>= f).Keeps Q := by
  intro c n y k h
  obtain ⟨x, l, hx, hy⟩ := bind_eq_ok h
  exact hf x c l y k hy (hm c n x l hx)

theorem Reading.keeps_pure {x : α} (h : ∀ limit, P limit x) : (pure x : Reading α).Keeps P := by
  intro c n y k hy
  obtain ⟨rfl, -⟩ := pure_eq_ok hy
  exact h c.maxDepth

theorem Reading.keeps_checkDepth (depth : Nat) (s : Text.Span) :
    (Reading.checkDepth depth s).Keeps fun limit _ => depth ≤ limit := by
  intro c n u k h
  rw [Reading.checkDepth] at h
  split at h
  · cases h
  · next hdepth => exact Nat.not_lt.mp hdepth

end Limited

variable {P : α → Prop} {Q : β → Prop}

theorem Reading.Gives.bind {m : Reading α} {f : α → Reading β} (hm : m.Gives P) (hf : ∀ x, P x → (f x).Gives Q) :
    (m >>= f).Gives Q :=
  Reading.Keeps.bind (P := fun _ => P) (Q := fun _ => Q) hm fun x c n y k hy hx => hf x hx c n y k hy

theorem Reading.gives_pure {x : α} (h : P x) : (pure x : Reading α).Gives P :=
  Reading.keeps_pure (P := fun _ => P) fun _ => h

theorem Reading.gives_any (m : Reading α) : m.Gives fun _ => True := fun _ _ _ _ _ => trivial

theorem Reading.gives_fresh : Reading.fresh.Gives Plain := by
  rintro c n _ k ⟨⟩
  exact plain_anonymous n

theorem Reading.Gives.checked {m : Unit → Reading β} {depth : Nat} {s : Text.Span} (hm : (m ()).Gives Q) :
    (Reading.checkDepth depth s >>= m).Gives Q :=
  .bind (Reading.gives_any _) fun _ _ => hm

end Reading

theorem Term.keeps_readAll {P : Nat → BilingualLogic.Term → Prop} {xs : List Term} {depth : Nat}
    (h : ∀ x ∈ xs, (x.read depth).Keeps P) : (Term.readAll depth xs).Keeps fun limit ts => ∀ t ∈ ts, P limit t := by
  induction xs with
  | nil => exact Reading.keeps_pure (by simp)
  | cons x xs ih =>
    obtain ⟨hx, hxs⟩ := List.forall_mem_cons.mp h
    exact .bind hx fun t => .bind (ih hxs) fun ts => Reading.keeps_pure fun _ hts ht =>
      List.forall_mem_cons.mpr ⟨ht, hts⟩

theorem Term.gives_readAll {P : BilingualLogic.Term → Prop} {xs : List Term} {depth : Nat}
    (h : ∀ x ∈ xs, (x.read depth).Gives P) : (Term.readAll depth xs).Gives fun ts => ∀ t ∈ ts, P t :=
  Term.keeps_readAll (P := fun _ => P) h

theorem Term.Valid.gives_plain {x : Term} (h : x.Valid) (depth : Nat) : (x.read depth).Gives (Term.VarsIn Plain) := by
  induction h generalizing depth with
  | anonymous s =>
    exact .checked (.bind Reading.gives_fresh fun name hname => Reading.gives_pure (Term.varsIn_var.mpr hname))
  | var s _ hchars => exact .checked (Reading.gives_pure (Term.varsIn_var.mpr (plain_of_isNameChar hchars)))
  | number s numeral =>
    exact .checked (.bind (Reading.gives_any _) fun _ _ => Reading.gives_pure (Term.varsIn_const _))
  | text s content => exact .checked (Reading.gives_pure (Term.varsIn_const _))
  | boolean s b => exact .checked (Reading.gives_pure (Term.varsIn_const _))
  | atom s _ _ => exact .checked (Reading.gives_pure (Term.varsIn_const _))
  | list s _ ih =>
    exact .checked (.bind (Term.gives_readAll fun x hx => ih x hx _) fun ts hts =>
      Reading.gives_pure (Term.varsIn_list.mpr hts))
  | pattern s _ _ _ ih ihrest =>
    exact .checked (.bind (Term.gives_readAll fun x hx => ih x hx _) fun ts hts => .bind (ihrest _) fun r hr =>
      Reading.gives_pure (Term.hereditary_varsIn.cons hts hr))

theorem Predicate.Valid.gives_plain {x : Predicate} (h : x.Valid) (depth : Nat) :
    (x.read depth).Gives (Predicate.VarsIn Plain) :=
  .bind (Term.gives_readAll fun t ht => (h.arguments t ht).gives_plain depth) fun _ hts => Reading.gives_pure hts

theorem Formula.Valid.gives_plain {x : Formula} (h : x.Valid) (depth : Nat) :
    (x.read depth).Gives (Formula.VarsIn Plain) := by
  induction h generalizing depth with
  | number s _ => exact .bind (Reading.gives_any _) fun _ _ => Reading.gives_pure (Term.varsIn_const _)
  | var _ hchars => exact Reading.gives_pure (Term.varsIn_var.mpr (plain_of_isNameChar hchars))
  | text content => exact Reading.gives_pure (Term.varsIn_const _)
  | negate _ ih => exact .bind (ih depth) fun _ he => Reading.gives_pure he
  | binary op _ _ iha ihb =>
    exact .bind (iha depth) fun _ ha => .bind (ihb depth) fun _ hb => Reading.gives_pure ⟨ha, hb⟩
  | group s _ ih => exact .checked (ih _)

theorem Goal.keeps_readAll {P : Nat → BilingualLogic.Goal → Prop} {xs : List Goal} {depth : Nat}
    (h : ∀ x ∈ xs, (x.read depth).Keeps P) : (Goal.readAll depth xs).Keeps fun limit gs => ∀ g ∈ gs, P limit g := by
  induction xs with
  | nil => exact Reading.keeps_pure (by simp)
  | cons x xs ih =>
    obtain ⟨hx, hxs⟩ := List.forall_mem_cons.mp h
    exact .bind hx fun g => .bind (ih hxs) fun gs => Reading.keeps_pure fun _ hgs hg =>
      List.forall_mem_cons.mpr ⟨hg, hgs⟩

theorem Goal.gives_readAll {P : BilingualLogic.Goal → Prop} {xs : List Goal} {depth : Nat}
    (h : ∀ x ∈ xs, (x.read depth).Gives P) : (Goal.readAll depth xs).Gives fun gs => ∀ g ∈ gs, P g :=
  Goal.keeps_readAll (P := fun _ => P) h

theorem Goal.keeps_readBody {P : Nat → BilingualLogic.Goal → Prop} {xs : List Goal} {depth : Nat} (s : Text.Span)
    (h : ∀ x ∈ xs, (x.read (depth + 1)).Keeps P) :
    (Goal.readBody depth s xs).Keeps fun limit gs => ∀ g ∈ gs, depth + 2 ≤ limit ∧ P limit g := by
  cases xs with
  | nil => exact Reading.keeps_pure (by simp)
  | cons x xs =>
    exact .bind (Reading.keeps_checkDepth _ s) fun _ => fun c n gs k hgs hdepth g hg =>
      ⟨hdepth, Goal.keeps_readAll h c n gs k hgs g hg⟩

theorem Goal.gives_readBody {P : BilingualLogic.Goal → Prop} {xs : List Goal} {depth : Nat} (s : Text.Span)
    (h : ∀ x ∈ xs, (x.read (depth + 1)).Gives P) : (Goal.readBody depth s xs).Gives fun gs => ∀ g ∈ gs, P g :=
  fun c n gs k hgs g hg => (Goal.keeps_readBody (P := fun _ => P) s h c n gs k hgs g hg).2

theorem Goal.Valid.gives_plain {x : Goal} (h : x.Valid) (depth : Nat) : (x.read depth).Gives (Goal.VarsIn Plain) := by
  induction h generalizing depth with
  | call hp => exact .bind (hp.gives_plain depth) fun _ hp => Reading.gives_pure (.call hp)
  | @truth name _ =>
    have hp : (BilingualLogic.Predicate.mk name []).VarsIn Plain := by simp [Predicate.VarsIn]
    exact Reading.gives_pure (.call hp)
  | cut => exact Reading.gives_pure .cut
  | not s _ _ ih =>
    exact .checked (.bind (Goal.gives_readAll fun x hx => ih x hx _) fun _ hgs => Reading.gives_pure (.not hgs))
  | unify ha hb =>
    exact .bind (ha.gives_plain depth) fun _ ha => .bind (hb.gives_plain depth) fun _ hb =>
      Reading.gives_pure (.unify ha hb)
  | is ha he =>
    exact .bind (ha.gives_plain depth) fun _ ha => .bind (he.gives_plain depth) fun _ he =>
      Reading.gives_pure (.is ha he)
  | compare op ha hb =>
    exact .bind (ha.gives_plain depth) fun _ ha => .bind (hb.gives_plain depth) fun _ hb =>
      Reading.gives_pure (.compare ha hb)
  | collect kind s ht _ _ hr ih =>
    exact .bind (ht.gives_plain depth) fun _ ht => .checked (.bind (Goal.gives_readAll fun x hx => ih x hx _)
      fun _ hgs => .bind (hr.gives_plain depth) fun _ hr => Reading.gives_pure (.collect ht hgs hr))
  | assert s hh _ ih =>
    exact .bind (hh.gives_plain depth) fun _ hh => .bind (Goal.gives_readBody s fun x hx => ih x hx _) fun _ hgs =>
      Reading.gives_pure (.assert hh hgs)
  | retract s hh _ ih =>
    exact .bind (hh.gives_plain depth) fun _ hh => .bind (Goal.gives_readBody s fun x hx => ih x hx _) fun _ hgs =>
      Reading.gives_pure (.retract hh hgs)

theorem Body.Valid.gives_plain {b : Body} (h : b.Valid) : b.read.Gives fun gs => ∀ g ∈ gs, g.VarsIn Plain :=
  .checked (Goal.gives_readAll fun x hx => (h.goals x hx).gives_plain 0)

end Source

/-- The names of the variables of a statement are in the set. -/
def StatementForm.VarsIn (V : String → Prop) : StatementForm → Prop
  | .fact head => head.VarsIn V
  | .rule head body => head.VarsIn V ∧ ∀ g ∈ body, g.VarsIn V
  | .query goals => ∀ g ∈ goals, g.VarsIn V
  | .directive g => g.VarsIn V

theorem Source.StatementForm.Valid.gives_plain {x : Source.Statement} (h : x.form.Valid) :
    x.read.Gives fun s => s.form.VarsIn Plain := by
  obtain ⟨span, form⟩ := x
  have directive {g : Source.Goal} (hg : g.Valid) :
      (Source.Statement.read ⟨span, .directive g⟩).Gives fun s => s.form.VarsIn Plain :=
    .bind (hg.gives_plain 0) fun _ hg => Reading.gives_pure hg
  cases h with
  | fact hhead => exact .bind (hhead.gives_plain 0) fun _ hhead => Reading.gives_pure hhead
  | rule hhead hbody =>
    exact .bind (hhead.gives_plain 0) fun _ hhead => .bind hbody.gives_plain fun _ hbody =>
      Reading.gives_pure ⟨hhead, hbody⟩
  | query hbody => exact .bind hbody.gives_plain fun _ hgoals => Reading.gives_pure hgoals
  | assert s hhead hbody => exact directive (.assert s hhead hbody)
  | retract s hhead hbody => exact directive (.retract s hhead hbody)

theorem Source.keeps_of_readStatements {P : Nat → BilingualLogic.Statement → Prop} {c : Source.Context} {n : Nat}
    {xs : List Source.Statement} (hx : ∀ x ∈ xs, x.read.Keeps P) {done ss : List BilingualLogic.Statement}
    (hdone : ∀ s ∈ done, P c.maxDepth s) (h : Source.readStatements c n done xs = .ok ss) :
    ∀ s ∈ ss, P c.maxDepth s := by
  induction xs generalizing n done with
  | nil =>
    cases h
    simpa using hdone
  | cons x xs ih =>
    obtain ⟨hx, hxs⟩ := List.forall_mem_cons.mp hx
    rw [Source.readStatements] at h
    split at h
    · next s l hs => exact ih hxs (List.forall_mem_cons.mpr ⟨hx c n s l hs, hdone⟩) h
    · cases h

theorem Source.gives_of_readStatements {P : BilingualLogic.Statement → Prop} {c : Source.Context} {n : Nat}
    {xs : List Source.Statement} (hx : ∀ x ∈ xs, x.read.Gives P) {done ss : List BilingualLogic.Statement}
    (hdone : ∀ s ∈ done, P s) (h : Source.readStatements c n done xs = .ok ss) : ∀ s ∈ ss, P s :=
  Source.keeps_of_readStatements (P := fun _ => P) hx hdone h

theorem Program.plain_of_parse {limits : Limits} {source text : String} {p : Program}
    (h : Program.parse limits source text = .ok p) : ∀ s ∈ p.statements, s.form.VarsIn Plain := by
  obtain ⟨tree, htree, hread⟩ := Program.statements_of_parse h
  have hvalid := Source.valid_of_parse htree
  exact Source.gives_of_readStatements (fun x hx => Source.StatementForm.Valid.gives_plain (hvalid x hx)) (by simp)
    hread

theorem Goal.plain_of_parseQuery {text : String} {goals : List Goal} (h : Goal.parseQuery text = .ok goals) :
    ∀ g ∈ goals, g.VarsIn Plain := by
  obtain ⟨b, k, hb, hread⟩ := Source.parseAlone_eq_ok h
  exact (Source.valid_of_parseQuery hb).gives_plain _ _ _ _ hread

theorem Formula.plain_of_parse {text : String} {e : Formula} (h : Formula.parse text = .ok e) : e.VarsIn Plain := by
  obtain ⟨x, k, hx, hread⟩ := Source.parseAlone_eq_ok h
  exact (Source.valid_of_parseFormula hx).gives_plain _ _ _ _ _ hread

end BilingualLogic
