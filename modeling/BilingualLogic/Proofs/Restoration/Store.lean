import BilingualLogic.Proofs.Effort
import BilingualLogic.Proofs.Restoration.Reading
import BilingualLogic.Proofs.Store.Retraction
import BilingualLogic.Proofs.Unification.Exact

/-!
Clauses that are added and removed again. A fact is found by its head, whatever its variables are called; a rule is
found if it is the same.
-/

namespace BilingualLogic

namespace Value

@[simp] theorem beq_self (v : Value) : (v == v) = true := by
  cases v with
  | number n => exact (Decimal.beq_iff n n).mpr rfl
  | text s => exact beq_self_eq_true s
  | boolean b => exact beq_self_eq_true b
  | atom name => exact beq_self_eq_true name

end Value

namespace Term

theorem sameAll_self {as : List Term} (h : ∀ a ∈ as, a.same a = true) : sameAll as as = true := by
  induction as with
  | nil => rfl
  | cons a as ih =>
    obtain ⟨ha, has⟩ := List.forall_mem_cons.mp h
    rw [sameAll, ha, ih has, Bool.and_self]

theorem same_self (t : Term) : t.same t = true := by
  induction t with
  | var x => simp [same]
  | const v => simp [same]
  | list as ih => exact sameAll_self ih
  | pattern as r ih ihr => rw [same, sameAll_self ih, ihr, Bool.and_self]

@[simp] theorem beq_self (t : Term) : (t == t) = true := t.same_self

end Term

@[simp] theorem Predicate.beq_self (p : Predicate) : (p == p) = true :=
  Bool.and_eq_true_iff.mpr ⟨beq_self_eq_true p.name, Term.sameAll_self fun t _ => t.same_self⟩

@[simp] theorem Formula.beq_self (e : Formula) : (e == e) = true := by
  change e.same e = true
  induction e with
  | term t => simp [Formula.same]
  | negate a ih => exact ih
  | binary op a b iha ihb => simp [Formula.same, iha, ihb]

mutual

theorem Goal.same_self : ∀ g : Goal, g.same g = true
  | .call p => Predicate.beq_self p
  | .cut => rfl
  | .not goals => Goal.sameAll_self goals
  | .unify a b => by simp [Goal.same]
  | .is a e => by simp [Goal.same]
  | .compare op a b => by simp [Goal.same]
  | .collect kind t goals r => by simp [Goal.same, Goal.sameAll_self goals]
  | .assert head body => by simp [Goal.same, Goal.sameAll_self body]
  | .retract head body => by simp [Goal.same, Goal.sameAll_self body]

theorem Goal.sameAll_self : ∀ goals : List Goal, Goal.sameAll goals goals = true
  | [] => rfl
  | g :: gs => by rw [Goal.sameAll, g.same_self, Goal.sameAll_self gs, Bool.and_self]

end

theorem Clause.same_self (c : Clause) : c.same c = true := by
  simp [Clause.same, Goal.sameAll_self]

/-- Terms that are alike stand for one datum if all variables do. -/
theorem Term.Alike.eval_eq {L : Likeness} {t u : Term} (h : t.Alike L u) (d : Datum) :
    t.eval (fun _ => d) = u.eval fun _ => d := by
  have all {as bs : List Term} (h : List.Forall₂ (fun a b => ∃ _ : a.Alike L b, a.eval (fun _ => d) =
      b.eval fun _ => d) as bs) : as.map (eval fun _ => d) = bs.map (eval fun _ => d) := by
    rw [← List.forall₂_eq_eq_eq, List.forall₂_map_left_iff, List.forall₂_map_right_iff]
    exact h.imp fun _ _ h => h.choose_spec
  induction h using Term.Alike.induct with
  | var _ => rw [eval_var, eval_var]
  | const _ => rfl
  | list _ ih => rw [eval_list, eval_list, all ih]
  | pattern _ _ ih ihr => rw [eval_pattern, eval_pattern, all ih, ihr]

namespace Store

variable {n : Nat} {s s' : Store} {c d : Clause}

/-- Removes a fact by its head, a rule by all of it. -/
def retract (effort : Nat) (s : Store) (c : Clause) : Bounded (Bool × Store) :=
  if c.isFact then s.retractHead effort c.head else some (s.retractClause c)

theorem storedClauses_cons (t : Table) (ts : List Table) (m : Nat) (k : Key) :
    (⟨t :: ts, m⟩ : Store).storedClauses k = if t.key = k then t.clauses else (⟨ts, m⟩ : Store).storedClauses k := by
  by_cases h : t.key = k
  · simp [storedClauses, h]
  · simp [storedClauses, h]

theorem storedClauses_insert (c : StoredClause) (ts : List Table) (m m' : Nat) (k : Key) :
    (⟨insert c ts, m⟩ : Store).storedClauses k =
      if k = c.clause.head.key then (⟨ts, m'⟩ : Store).storedClauses k ++ [c]
      else (⟨ts, m'⟩ : Store).storedClauses k := by
  induction ts with
  | nil =>
    rw [insert, storedClauses_cons]
    simp only [eq_comm]
    rfl
  | cons t ts ih =>
    rw [insert]
    split
    · next ht =>
      rw [storedClauses_cons, storedClauses_cons]
      by_cases hk : t.key = k
      · rw [if_pos hk, if_pos hk, if_pos (hk ▸ ht)]
      · rw [if_neg hk, if_neg hk, if_neg (fun h => hk (ht.trans h.symm))]
        rfl
    · next ht =>
      rw [storedClauses_cons, storedClauses_cons, ih]
      by_cases hk : t.key = k
      · rw [if_pos hk, if_pos hk, if_neg (hk ▸ ht)]
      · rw [if_neg hk, if_neg hk]

theorem storedClauses_add (s : Store) (c : Clause) (k : Key) : (s.add c).storedClauses k =
    if k = c.head.key then s.storedClauses k ++ [⟨s.nextId, c⟩] else s.storedClauses k :=
  storedClauses_insert ⟨s.nextId, c⟩ s.tables _ s.nextId k

theorem storedClauses_replace_add (s : Store) (c : Clause) (k : Key) :
    ((s.add c).replaceClauses c.head.key (s.storedClauses c.head.key)).storedClauses k = s.storedClauses k := by
  have hne : (s.add c).storedClauses c.head.key ≠ [] := by simp [storedClauses_add]
  rw [storedClauses_replaceClauses _ _ hne, storedClauses_add]
  split
  · next hk => rw [hk]
  · rfl

theorem removeFirst_last {p : StoredClause → Bounded Bool} {cs : List StoredClause} {c : StoredClause}
    (hcs : ∀ d ∈ cs, p d = some false) (hc : p c = some true) : removeFirst p (cs ++ [c]) = some (some cs) := by
  induction cs with
  | nil => simp [removeFirst, hc]
  | cons d ds ih =>
    obtain ⟨hd, hds⟩ := List.forall_mem_cons.mp hcs
    simp [removeFirst, hd, ih hds]

theorem removeFirst_ne_none (f : StoredClause → Bool) (cs : List StoredClause) :
    removeFirst (fun c => some (f c)) cs ≠ none := by
  induction cs with
  | nil => simp [removeFirst]
  | cons c cs ih => cases hc : f c <;> simp [removeFirst, hc, ih]

/-- A head unifies with a pattern that is alike: one datum for all variables solves it. -/
theorem headUnifies_twice (h : c.Twice d) (id : Nat) : ∃ n, headUnifies n d.head ⟨id, c⟩ = some true := by
  let ρ (_ : String) : Datum := .chars ""
  have hcopy (t) (ht : t ∈ (c.rename id).head.arguments) : t.WellFormed := by
    obtain ⟨u, hu, rfl⟩ := List.mem_map.mp ht
    exact Term.hereditary_wellFormed.bindVars Term.hereditary_wellFormed (fun _ h => h)
      (fun x => Term.wellFormed_var _) (h.wellFormed u hu)
  have heval : (c.rename id).head.arguments.map (Term.eval ρ) = d.head.arguments.map (Term.eval ρ) := by
    have hcopied (t : Term) : (t.bindVars fun x => .var (Clause.renamed id x)).eval ρ = t.eval ρ := by
      rw [Term.eval_bindVars]
      simp only [Term.eval_var, ρ]
    change (c.head.arguments.map fun t => t.bindVars fun x => .var (Clause.renamed id x)).map (Term.eval ρ) = _
    rw [List.map_map, ← List.forall₂_eq_eq_eq, List.forall₂_map_left_iff, List.forall₂_map_right_iff]
    exact h.head.arguments.imp fun t _ ht => (hcopied t).trans (ht.eval_eq _)
  have hlength : (c.rename id).head.arguments.length = d.head.arguments.length := by
    simpa using congrArg List.length heval
  let n := Datum.sizeAll ((c.rename id).head.arguments.map (Term.eval ρ)) + 1
  have hproper (x : String) : (ρ x).isProper := rfl
  obtain ⟨b, hb, -⟩ := unifyAllBy_returns (u := unify n) (unify_growsBy Term.hereditary_wellFormed n)
    (unify_returnsBy hproper n) Substitution.walkable_empty (Substitution.all_empty _) hcopy h.wellFormed'
    (Substitution.solves_empty ρ) heval (Nat.lt_succ_self _)
  have hname : (c.rename id).head.name = d.head.name := h.head.name
  have hunify : (c.rename id).head.unify n d.head ∅ = some (some b) := by
    rw [Predicate.unify, if_pos hname, unifyAll, if_pos hlength, hb]
  exact ⟨n, congrArg (Option.map Option.isSome) hunify⟩

theorem retract_add (h : c.Twice d) (hnone : s.retract n d = some (false, s')) :
    ∃ m t, n ≤ m ∧ (s.add c).retract m d = some (true, t) ∧ ∀ k, t.storedClauses k = s.storedClauses k := by
  have hkey : c.head.key = d.head.key := by
    rw [Predicate.key, Predicate.key, h.head.name, h.head.arguments.length_eq]
  have hadded : (s.add c).storedClauses d.head.key = s.storedClauses d.head.key ++ [⟨s.nextId, c⟩] := by
    rw [storedClauses_add, if_pos hkey.symm]
  have hrestored (k : Key) := hkey ▸ s.storedClauses_replace_add c k
  unfold retract at hnone ⊢
  split at hnone
  · next hfact =>
    obtain ⟨r, hr, hnone⟩ := Option.map_eq_some_iff.mp hnone
    obtain rfl : r = none := by
      cases r with
      | none => rfl
      | some cs => cases hnone
    obtain ⟨k, hk⟩ := headUnifies_twice h s.nextId
    have hold (e) (he : e ∈ s.storedClauses d.head.key) : headUnifies (max n k) d.head e = some false :=
      ((Predicate.unify_le (Nat.le_max_left n k) _ _ _).map _).eq_some (removeFirst_none hr e he)
    have hnew : headUnifies (max n k) d.head ⟨s.nextId, c⟩ = some true :=
      ((Predicate.unify_le (Nat.le_max_right n k) _ _ _).map _).eq_some hk
    refine ⟨max n k, _, Nat.le_max_left n k, ?_, hrestored⟩
    rw [if_pos hfact, retractHead, hadded, removeFirst_last hold hnew]
    rfl
  · next hrule =>
    obtain rfl : c = d := h.rule (by simpa [Clause.isFact] using hrule)
    refine ⟨n, _, Nat.le_refl n, ?_, hrestored⟩
    have hold : ∀ e ∈ s.storedClauses c.head.key, some (e.clause.same c) = some false := by
      cases hr : removeFirst (fun e => some (e.clause.same c)) (s.storedClauses c.head.key) with
      | none => exact absurd hr (removeFirst_ne_none _ _)
      | some r =>
        cases r with
        | none => exact removeFirst_none hr
        | some cs => simp [retractClause, hr] at hnone
    rw [if_neg hrule, retractClause, hadded, removeFirst_last hold (congrArg some c.same_self)]

end Store

end BilingualLogic
