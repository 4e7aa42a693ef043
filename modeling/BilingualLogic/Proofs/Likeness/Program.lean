import BilingualLogic.Program.Check
import BilingualLogic.Proofs.Likeness.Store

/-!
Programs that are the same but for the names by which they call built-in predicates. They are checked alike: the heads
they define are the same, and so are the calls that nothing answers.
-/

namespace BilingualLogic

variable {L : Likeness}

/-- Only the names of built-in predicates may be different. -/
def respelling (S : String → String → Prop) : Likeness := { names := Eq, calls := S }

namespace Goal

theorem subgoals_alike_of {as bs : List Goal}
    (h : List.Forall₂ (fun a b => ∃ _ : Alike L a b, List.Forall₂ (Alike L) (subgoals a) (subgoals b)) as bs) :
    List.Forall₂ (Alike L) (allSubgoals as) (allSubgoals bs) := by
  induction h with
  | nil => exact .nil
  | cons h _ ih => exact List.rel_append h.2 ih

theorem Alike.subgoals {a b : Goal} (h : a.Alike L b) : List.Forall₂ (Alike L) (subgoals a) (subgoals b) := by
  induction h using Alike.induct with
  | not h ih => exact .cons (.not h) (subgoals_alike_of ih)
  | collect ht h hr ih => exact .cons (.collect ht h hr) (subgoals_alike_of ih)
  | assert hp h ih => exact .cons (.assert hp h) (subgoals_alike_of ih)
  | retract hp h hfixed ih => exact .cons (.retract hp h hfixed) (subgoals_alike_of ih)
  | call h => exact .cons (.call h) .nil
  | cut => exact .cons .cut .nil
  | unify h h' => exact .cons (.unify h h') .nil
  | is h h' => exact .cons (.is h h') .nil
  | compare h h' => exact .cons (.compare h h') .nil

theorem allSubgoals_alike {as bs : List Goal} (h : List.Forall₂ (Alike L) as bs) :
    List.Forall₂ (Alike L) (allSubgoals as) (allSubgoals bs) :=
  subgoals_alike_of (h.imp fun _ _ h => ⟨h, h.subgoals⟩)

section Names

variable (hL : ∀ x y, L.names x y → x = y)

include hL

theorem Alike.assertedHeads {a b : Goal} (h : a.Alike L b) : assertedHeads a = assertedHeads b := by
  have all {as bs : List Goal}
      (h : List.Forall₂ (fun a b => ∃ _ : Alike L a b, Goal.assertedHeads a = Goal.assertedHeads b) as bs) :
      allAssertedHeads as = allAssertedHeads bs := by
    induction h with
    | nil => rfl
    | cons h _ ih => rw [allAssertedHeads, allAssertedHeads, h.2, ih]
  induction h using Alike.induct with
  | not _ ih => exact all ih
  | collect _ _ _ ih => exact all ih
  | assert hp _ ih => rw [Goal.assertedHeads, Goal.assertedHeads, hp.eq hL, all ih]
  | _ => rfl

theorem allAssertedHeads_alike {as bs : List Goal} (h : List.Forall₂ (Alike L) as bs) :
    allAssertedHeads as = allAssertedHeads bs := by
  induction h with
  | nil => rfl
  | cons h _ ih => rw [allAssertedHeads, allAssertedHeads, h.assertedHeads hL, ih]

/-- What can be wrong with the form of a goal does not depend on names. -/
theorem Alike.fault?_eq {a b : Goal} (h : a.Alike L b) : a.fault? = b.fault? := by
  cases h with
  | @is t _ _ _ ht _ =>
    rw [← ht.eq hL]
    cases t with
    | const v => cases v <;> rfl
    | _ => rfl
  | @collect _ _ _ r _ _ _ _ _ hr =>
    rw [← hr.eq hL]
    cases r <;> rfl
  | _ => rfl

theorem Alike.addVars {a b : Goal} (h : a.Alike L b) (seen : List String) : addVars seen a = addVars seen b := by
  have all {as bs : List Goal}
      (h : List.Forall₂ (fun a b => ∃ _ : Alike L a b, ∀ seen, Goal.addVars seen a = Goal.addVars seen b) as bs)
      (seen : List String) : addVarsAll seen as = addVarsAll seen bs := by
    induction h generalizing seen with
    | nil => rfl
    | cons h _ ih => rw [addVarsAll, addVarsAll, h.2, ih]
  induction h using Alike.induct generalizing seen with
  | call h =>
    rw [Goal.addVars, Goal.addVars, Predicate.addVars, Predicate.addVars, Predicate.alike_arguments_eq hL h.arguments]
  | cut => rfl
  | not _ ih => exact all ih seen
  | unify h h' => rw [h.eq hL, h'.eq hL]
  | is h h' => rw [h.eq hL, h'.eq hL]
  | compare h h' => rw [h.eq hL, h'.eq hL]
  | collect ht _ hr ih => rw [Goal.addVars, Goal.addVars, ht.eq hL, hr.eq hL, all ih]
  | assert hp _ ih => rw [Goal.addVars, Goal.addVars, hp.eq hL, all ih]
  | retract hp _ _ ih => rw [Goal.addVars, Goal.addVars, hp.eq hL, all ih]

theorem reportedVars_alike {as bs : List Goal} (h : List.Forall₂ (Alike L) as bs) :
    reportedVars as = reportedVars bs := by
  have all (seen : List String) : addVarsAll seen as = addVarsAll seen bs := by
    induction h generalizing seen with
    | nil => rfl
    | cons h _ ih => rw [addVarsAll, addVarsAll, h.addVars hL, ih]
  rw [reportedVars, reportedVars, all]

end Names

end Goal

inductive StatementForm.Alike (L : Likeness) : StatementForm → StatementForm → Prop
  | fact {p q : Predicate} : p.Alike L q → Alike L (.fact p) (.fact q)
  | rule {p q : Predicate} {as bs : List Goal} : p.Alike L q → List.Forall₂ (Goal.Alike L) as bs →
    Alike L (.rule p as) (.rule q bs)
  | query {as bs : List Goal} : List.Forall₂ (Goal.Alike L) as bs → Alike L (.query as) (.query bs)
  | directive {a b : Goal} : a.Alike L b → Alike L (.directive a) (.directive b)

/-- Statements in the same line that say the same. -/
structure Statement.Alike (L : Likeness) (s s' : Statement) : Prop where
  form : s.form.Alike L s'.form
  line : s.span.start.line = s'.span.start.line

def Program.Alike (L : Likeness) (p p' : Program) : Prop :=
  List.Forall₂ (Statement.Alike L) p.statements p'.statements

/-- Both have failed, perhaps with different errors, or both have given values that are related. -/
inductive BothOrNeither {α β : Type} (R : α → β → Prop) : Except Error α → Except Error β → Prop
  | both {a : α} {b : β} : R a b → BothOrNeither R (.ok a) (.ok b)
  | neither {e e' : Error} : BothOrNeither R (.error e) (.error e')

theorem forall₂_flatMap_eq {α β γ : Type} {R : α → β → Prop} {f : α → List γ} {g : β → List γ}
    (hfg : ∀ a b, R a b → f a = g b) {as : List α} {bs : List β} (h : List.Forall₂ R as bs) :
    as.flatMap f = bs.flatMap g := by
  induction h with
  | nil => rfl
  | cons hab _ ih => rw [List.flatMap_cons, List.flatMap_cons, hfg _ _ hab, ih]

section Check

variable (hL : ∀ x y, L.names x y → x = y)

theorem Statement.Alike.goals {s s' : Statement} (h : s.Alike L s') :
    List.Forall₂ (Goal.Alike L) s.goals s'.goals := by
  obtain ⟨form, span⟩ := s
  obtain ⟨form', span'⟩ := s'
  obtain ⟨h, -⟩ := h
  cases h with
  | fact _ => exact .nil
  | rule _ hb => exact hb
  | query hb => exact hb
  | directive hg => exact .cons hg .nil

theorem Statement.Alike.calls {s s' : Statement} (h : s.Alike L s') :
    List.Forall₂ (Predicate.CalledAlike L) s.calls s'.calls := by
  obtain ⟨form, span⟩ := s
  obtain ⟨form', span'⟩ := s'
  obtain ⟨h, -⟩ := h
  cases h with
  | fact _ => exact .nil
  | directive _ => exact .nil
  | rule _ hb | query hb =>
    refine List.rel_filterMap ?_ (Goal.allSubgoals_alike hb)
    rintro a b hab
    cases hab with
    | call hp => exact .some hp
    | _ => exact .none

include hL

theorem Statement.Alike.heads {s s' : Statement} (h : s.Alike L s') : s.heads = s'.heads := by
  obtain ⟨form, span⟩ := s
  obtain ⟨form', span'⟩ := s'
  obtain ⟨h, -⟩ := h
  cases h with
  | fact hp => exact congrArg (fun p => [p]) (hp.eq hL)
  | rule hp hb => exact congrArg₂ List.cons (hp.eq hL) (Goal.allAssertedHeads_alike hL hb)
  | query hb => exact Goal.allAssertedHeads_alike hL hb
  | directive hg => exact hg.assertedHeads hL

theorem Statement.Alike.goalFaults {s s' : Statement} (h : s.Alike L s') : s.goalFaults = s'.goalFaults := by
  have hall := Goal.allSubgoals_alike h.goals
  rw [Statement.goalFaults, Statement.goalFaults]
  generalize Goal.allSubgoals s.goals = as at hall ⊢
  generalize Goal.allSubgoals s'.goals = bs at hall ⊢
  induction hall with
  | nil => rfl
  | cons hab _ ih => rw [List.filterMap_cons, List.filterMap_cons, hab.fault?_eq hL, ih]

namespace Program

theorem Alike.faults_eq_nil {p p' : Program} (h : p.Alike L p') : p.faults = [] ↔ p'.faults = [] := by
  have hfaults (q : Program) : q.faults = [] ↔
      q.statements.flatMap Statement.headFaults = [] ∧ q.statements.flatMap Statement.goalFaults = [] := by
    simp [faults]
  rw [hfaults, hfaults, forall₂_flatMap_eq (g := Statement.headFaults) (fun s s' hs => ?_) h,
    forall₂_flatMap_eq (fun s s' hs => hs.goalFaults hL) h]
  rw [Statement.headFaults, Statement.headFaults, hs.heads hL]

variable (hcalls : ∀ {a b}, L.calls a b → Keyword.ofSpelling? a = Keyword.ofSpelling? b)

include hcalls

omit hL in
theorem warnCalls_alike {calls calls' : List (Predicate × Nat)}
    (h : List.Forall₂ (fun c c' => c.1.CalledAlike L c'.1 ∧ c.2 = c'.2) calls calls') (known : List Key) :
    warnCalls known calls = warnCalls known calls' := by
  induction h generalizing known with
  | nil => rfl
  | @cons c c' _ _ hc _ ih =>
    obtain ⟨p, line⟩ := c
    obtain ⟨p', line'⟩ := c'
    obtain ⟨hp, rfl : line = line'⟩ := hc
    rw [warnCalls, warnCalls, hp.isBuiltin_eq hcalls, ih]
    cases hb : p'.isBuiltin with
    | true => rfl
    | false =>
      have hkey : p.key = p'.key := by
        rw [Predicate.key, Predicate.key, hp.own ((hp.isBuiltin_eq hcalls).trans hb), hp.arguments.length_eq]
      rw [hkey, ih]

theorem Alike.warnings {p p' : Program} (h : p.Alike L p') {s s' : Store} (hs : s.keys = s'.keys) :
    p.warnings s = p'.warnings s' := by
  have hheads : p.statements.flatMap Statement.heads = p'.statements.flatMap Statement.heads :=
    forall₂_flatMap_eq (fun s s' hs => hs.heads hL) h
  rw [Program.warnings, Program.warnings, hs, hheads]
  refine warnCalls_alike hcalls ?_ _
  refine List.rel_flatMap h fun s s' hs => ?_
  rw [List.forall₂_map_left_iff, List.forall₂_map_right_iff]
  exact hs.calls.imp fun _ _ hp => ⟨hp, hs.line⟩

/-- Either both programs are rejected, or both are accepted with the same warnings. -/
theorem Alike.check {p p' : Program} (h : p.Alike L p') {s s' : Store} (hs : s.keys = s'.keys) :
    BothOrNeither Eq (p.check s) (p'.check s') := by
  have hfaults := h.faults_eq_nil hL
  have rejected (q : Program) (t : Store) (hq : q.faults ≠ []) : ∃ e, q.check t = .error e := by
    rw [Program.check]
    split
    · next heq => exact absurd heq hq
    · exact ⟨_, rfl⟩
    · exact ⟨_, rfl⟩
  by_cases hp : p.faults = []
  · rw [Program.check, Program.check, hp, hfaults.mp hp]
    exact .both (h.warnings hL hcalls hs)
  · obtain ⟨e, he⟩ := rejected p s hp
    obtain ⟨e', he'⟩ := rejected p' s' fun hp' => hp (hfaults.mpr hp')
    rw [he, he']
    exact .neither

end Program

end Check

end BilingualLogic
