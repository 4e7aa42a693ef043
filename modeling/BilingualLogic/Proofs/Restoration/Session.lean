import BilingualLogic.Proofs.Restoration.Store
import BilingualLogic.Proofs.Search.Truncation
import BilingualLogic.Session

/-!
Loading a source that asserts a clause and retracts it again. Where the retraction would have removed nothing before,
the clauses are those that were there before. For rules this takes that no variable is anonymous: an anonymous variable
has another name wherever it stands.
-/

namespace BilingualLogic

/-- Without bindings the terms of a clause are resolved to terms in the same relation. -/
theorem Clause.Twice.resolve {c d : Clause} (h : c.Twice d) :
    (c.mapTerms (Substitution.resolve ∅)).Twice (d.mapTerms (Substitution.resolve ∅)) := by
  have hfree (x : String) : (Substitution.resolveVar (∅ : Substitution).size ∅ x) = .var x := rfl
  have hwellFormed {p : Predicate} (hp : ∀ t ∈ p.arguments, t.WellFormed) :
      ∀ t ∈ (p.mapTerms (Substitution.resolve ∅)).arguments, t.WellFormed := by
    intro u hu
    obtain ⟨t, ht, rfl⟩ := List.mem_map.mp hu
    exact Term.hereditary_wellFormed.bindVars Term.hereditary_wellFormed (fun _ h => h)
      (fun x => hfree x ▸ Term.wellFormed_var x) (hp t ht)
  refine ⟨⟨h.head.name, ?_⟩, hwellFormed h.wellFormed, hwellFormed h.wellFormed', fun hne => ?_⟩
  · refine List.forall₂_map_left_iff.mpr (List.forall₂_map_right_iff.mpr (h.head.arguments.imp fun t u ht => ?_))
    exact ht.bindVars (fun x y _ => by rw [hfree, hfree]; exact .var trivial) fun _ h => h
  · rw [h.rule]
    rintro hd
    exact hne (congrArg (Goal.mapTermsAll _) hd)

namespace Query

variable {limits : Limits} {n m : Nat} {w : World}

/-- Whether a goal has a solution, and the world after the first one is drawn. -/
def outcome (limits : Limits) (n : Nat) (w : World) (g : Goal) : Bounded (Bool × World) :=
  ((start [g]).next limits n w).map fun (a, w, _) => (a.isSome, w)

theorem outcome_le (h : n ≤ m) (w : World) (g : Goal) : Bounded.Le (outcome limits n w g) (outcome limits m w g) :=
  (next_le h w _).map _

theorem excess_one (h : limits.maxInferences ≠ some 0) : Search.excess limits 1 = none := by
  unfold Search.excess
  split
  · next k hk =>
    have : k ≠ 0 := fun hk₀ => h (hk₀ ▸ hk)
    rw [if_neg (by omega)]
  · rfl

/-- The search for a proof of one goal after that goal was counted. -/
def single : Search := ⟨none, .empty, 1, none⟩

/-- A search that is left with no goals has its answer, one without a branch has none. -/
theorem next_single (limits : Limits) (n : Nat) (w : World) (found : Bool) :
    (Search.next limits (n + 1) w (if found then single.succeed [] ∅ else single)).map
      (fun (a, w, _) => (a.isSome, w)) = some (found, w) := by
  cases found with
  | false => rfl
  | true => rfl

theorem outcome_of_simpleStep (h : limits.maxInferences ≠ some 0) {g : Goal} {r : Bounded (Bool × World)}
    (hturn : Search.goalTurn limits (n + 1) w single ⟨g, 0⟩ [] ∅ =
      r.map fun (found, w) => .goes w (if found then single.succeed [] ∅ else single)) :
    outcome limits (n + 2) w g = r := by
  have hfirst : Search.turn limits (n + 1) w (start [g]).search =
      Search.goalTurn limits (n + 1) w single ⟨g, 0⟩ [] ∅ := by
    simp only [start, Search.start, Search.turn, Search.frames, List.map_cons, List.map_nil, List.nil_append,
      List.cons_append, Option.isSome_none, Bool.false_eq_true, if_false, excess_one h]
    rfl
  rw [outcome, next, Search.next_succ, hfirst, hturn]
  cases r with
  | none => rfl
  | some r =>
    have hend := next_single limits n r.2 r.1
    simpa [Option.map_map, Function.comp_def] using hend

theorem outcome_assert (h : limits.maxInferences ≠ some 0) (n : Nat) (w : World) (c : Clause) :
    outcome limits (n + 2) w (.assert c.head c.body) =
      some (true, { w with store := w.store.add (c.mapTerms (Substitution.resolve ∅)) }) :=
  outcome_of_simpleStep h rfl

theorem outcome_retract (h : limits.maxInferences ≠ some 0) (n : Nat) (w : World) (c : Clause) :
    outcome limits (n + 2) w (.retract c.head c.body) =
      (w.store.retract (n + 1) (c.mapTerms (Substitution.resolve ∅))).map fun (removed, store) =>
        (removed, { w with store }) := by
  apply outcome_of_simpleStep h
  obtain ⟨head, body⟩ := c
  cases body with
  | nil =>
    change Option.map _ (Option.map _ (w.store.retractHead (n + 1) _)) = _
    rw [Option.map_map, Option.map_map]
    rfl
  | cons g gs => rfl

end Query

namespace Session

variable {s : Session} {id code : String} {p : Program} {warnings : List Warning}

theorem execute_directive (n : Nat) (code : String) (s : Session) (r : Response) (g : Goal) (place : Text.Span) :
    execute n code s r ⟨.directive g, place⟩ = (Query.outcome s.limits n s.world g).map fun (a, w) =>
      ({ s with world := w },
        { r with directives := ⟨place.excerpt code, place.start.line, a⟩ :: r.directives }) := by
  simp [execute, Query.outcome, Function.comp_def]

theorem load_directives {g g' : Goal} {at₁ at₂ : Text.Span} (hp : Program.parse s.limits id code = .ok p)
    (hcheck : p.check s.store = .ok warnings)
    (hforms : p.statements = [⟨.directive g, at₁⟩, ⟨.directive g', at₂⟩]) (n : Nat) :
    s.load n id code = (Query.outcome s.limits n s.world g).bind fun (a, w) =>
      (Query.outcome s.limits n w g').map fun (a', w') =>
        .ok ({ s with world := w', sources := recordSource id code s.sources }, {
          source := id
          results := []
          directives := [⟨at₁.excerpt code, at₁.start.line, a⟩, ⟨at₂.excerpt code, at₂.start.line, a'⟩]
          warnings }) := by
  rw [load, hp]
  dsimp only
  rw [hcheck]
  dsimp only
  rw [hforms, executeAll, execute_directive]
  dsimp only
  cases Query.outcome s.limits n s.world g with
  | none => rfl
  | some r =>
    simp only [Option.map_some, Option.bind_some, executeAll, execute_directive]
    cases Query.outcome s.limits n r.2 g' with
    | none => rfl
    | some r' => rfl

/-- A source that asserts a clause and then retracts it, where the clause is written the same. If no clause of the
predicate would have been retracted before, and no variable of a rule is anonymous, both succeed and all clauses are as
they were. -/
theorem load_assert_retract {at₁ at₂ place place' : Text.Span} {head head' : Source.Predicate}
    {body body' : List Source.Goal} {added removed : Goal}
    (htree : Source.parseRule .program id code =
      .ok [⟨at₁, .directive (.assert head place body)⟩, ⟨at₂, .directive (.retract head' place' body')⟩])
    (hhead : head.unplaced = head'.unplaced) (hbody : Source.Goal.unplacedAll body = Source.Goal.unplacedAll body')
    (hnamed : body ≠ [] → head.hasAnonymous = false ∧ Source.Goal.anyAnonymous body = false)
    (hlimit : s.limits.maxInferences ≠ some 0) (hp : Program.parse s.limits id code = .ok p)
    (hcheck : p.check s.store = .ok warnings)
    (hforms : p.statements.map (·.form) = [.directive added, .directive removed])
    (hnone : ∃ n w q, (Query.start [removed]).next s.limits n s.world = some (none, w, q)) :
    ∃ s' r, (∃ n, s.load n id code = some (.ok (s', r))) ∧
      (∀ n out, s.load n id code = some out → out = .ok (s', r)) ∧
      r.directives.map (·.succeeded) = [true, true] ∧ ∀ k, s'.store.storedClauses k = s.store.storedClauses k := by
  obtain ⟨tree, htree', hread⟩ := Program.statements_of_parse hp
  obtain rfl := Except.ok.inj (htree.symm.trans htree')
  obtain ⟨c, d, htwice, hstatements⟩ := Source.twice_of_readStatements htree hhead hbody hnamed hread
  obtain ⟨rfl, rfl⟩ : Goal.assert c.head c.body = added ∧ Goal.retract d.head d.body = removed := by
    simpa [hstatements] using hforms
  obtain ⟨n, w, q, hnone⟩ := hnone
  -- the retraction, if it came first
  have hbefore : Query.outcome s.limits (n + 2) s.world (.retract d.head d.body) = some (false, w) :=
    (Query.outcome_le (Nat.le_add_right n 2) _ _).eq_some (by rw [Query.outcome, hnone]; rfl)
  rw [Query.outcome_retract hlimit] at hbefore
  obtain ⟨⟨removed, store⟩, hbefore, hr⟩ := Option.map_eq_some_iff.mp hbefore
  obtain rfl : removed = false := congrArg Prod.fst hr
  obtain ⟨m, store', hnm, hremoved, hstore⟩ := Store.retract_add htwice.resolve hbefore
  obtain ⟨m, rfl⟩ : ∃ k, m = k + 1 := ⟨m - 1, by omega⟩
  have hload : ∃ r, s.load (m + 2) id code =
      some (.ok ({ s with world := { s.world with store := store' }, sources := recordSource id code s.sources }, r)) ∧
        r.directives.map (·.succeeded) = [true, true] := by
    rw [load_directives hp hcheck hstatements, Query.outcome_assert hlimit, Option.bind_some]
    dsimp only
    rw [Query.outcome_retract hlimit, hremoved]
    exact ⟨_, rfl, rfl⟩
  obtain ⟨r, hload, hsucceeded⟩ := hload
  refine ⟨_, r, ⟨m + 2, hload⟩, fun k out hout => ?_, hsucceeded, hstore⟩
  -- more effort comes to the same
  have hle {i j : Nat} (hij : i ≤ j) : Bounded.Le (s.load i id code) (s.load j id code) := by
    rw [load_directives hp hcheck hstatements, load_directives hp hcheck hstatements]
    exact (Query.outcome_le hij _ _).bind fun _ => (Query.outcome_le hij _ _).map _
  have hmore := (hle (Nat.le_max_left k (m + 2))).eq_some hout
  rw [(hle (Nat.le_max_right k (m + 2))).eq_some hload] at hmore
  exact (Option.some.inj hmore).symm

/-- What is read where `p(_, c)` is asserted and retracted. -/
def isFactTree : Except Error (Language.Result .program) → Bool
  | .ok [⟨_, .directive (.assert ⟨p, [.anonymous _, .atom _ c]⟩ _ [])⟩,
      ⟨_, .directive (.retract ⟨p', [.anonymous _, .atom _ c']⟩ _ [])⟩] => [p, c, p', c'] == ["p", "c", "p", "c"]
  | _ => false

/-- What it is read as: the anonymous variables have got names. -/
def isFactProgram : Except Error Program → Bool
  | .ok ⟨id, [⟨.directive (.assert ⟨p, [.var x, .const (.atom c)]⟩ []), _⟩,
      ⟨.directive (.retract ⟨p', [.var x', .const (.atom c')]⟩ []), _⟩]⟩ =>
    [id, p, x, c, p', x', c'] == ["", "p", "_G0", "c", "p", "_G1", "c"]
  | _ => false

/-- The fact `p(a, b)` stands before `p(_, c)` is asserted and retracted. -/
theorem load_assert_retract_fact : ∃ n s r,
    ((start {}).add ⟨⟨"p", [.atom "a", .atom "b"]⟩, []⟩).load n "" "assert p(_, c); retract p(_, c);" =
      some (.ok (s, r)) ∧
      r.directives.map (·.succeeded) = [true, true] ∧
      s.store.clauses ⟨"p", 2⟩ = [⟨⟨"p", [.atom "a", .atom "b"]⟩, []⟩] := by
  have htree : ∃ at₁ at₂ p₁ p₂ q₁ q₂ r₁ r₂, Source.parseRule .program "" "assert p(_, c); retract p(_, c);" = .ok
      [⟨at₁, .directive (.assert ⟨"p", [.anonymous p₁, .atom q₁ "c"]⟩ r₁ [])⟩,
        ⟨at₂, .directive (.retract ⟨"p", [.anonymous p₂, .atom q₂ "c"]⟩ r₂ [])⟩] := by
    have hreads : isFactTree (Source.parseRule .program "" "assert p(_, c); retract p(_, c);") = true := by
      decide +kernel
    unfold isFactTree at hreads
    split at hreads
    · next h =>
      simp only [beq_iff_eq, List.cons.injEq, and_true] at hreads
      obtain ⟨rfl, rfl, rfl, rfl⟩ := hreads
      exact ⟨_, _, _, _, _, _, _, _, h⟩
    · cases hreads
  have hparse : ∃ at₁ at₂, Program.parse {} "" "assert p(_, c); retract p(_, c);" = .ok ⟨"",
      [⟨.directive (.assert ⟨"p", [.var "_G0", .atom "c"]⟩ []), at₁⟩,
        ⟨.directive (.retract ⟨"p", [.var "_G1", .atom "c"]⟩ []), at₂⟩]⟩ := by
    have hreads : isFactProgram (Program.parse {} "" "assert p(_, c); retract p(_, c);") = true := by decide +kernel
    unfold isFactProgram at hreads
    split at hreads
    · next h =>
      simp only [beq_iff_eq, List.cons.injEq, and_true] at hreads
      obtain ⟨rfl, rfl, rfl, rfl, rfl, rfl, rfl⟩ := hreads
      exact ⟨_, _, h⟩
    · cases hreads
  obtain ⟨at₁, at₂, p₁, p₂, q₁, q₂, r₁, r₂, htree⟩ := htree
  obtain ⟨at₁', at₂', hparse⟩ := hparse
  let s : Session := (start {}).add ⟨⟨"p", [.atom "a", .atom "b"]⟩, []⟩
  have hnone : (((Query.start [.retract ⟨"p", [.var "_G1", .atom "c"]⟩ []]).next s.limits 9 s.world).any
      fun r => !r.1.isSome) = true := by cbv
  obtain ⟨⟨a, w, q⟩, hnext, ha⟩ := (Option.any_eq_true _ _).mp hnone
  obtain rfl : a = none := by simpa using ha
  obtain ⟨s', r, ⟨n, hload⟩, -, hsucceeded, hstored⟩ := load_assert_retract (s := s) htree rfl rfl
    (fun h => absurd rfl h) (by decide) hparse rfl rfl ⟨9, w, q, hnext⟩
  refine ⟨n, s', r, hload, hsucceeded, ?_⟩
  rw [Store.clauses, hstored]
  rfl

/-- What the rule `p(_) :- q(_)` is read as where it is asserted and retracted. -/
def isRuleProgram : Except Error Program → Bool
  | .ok ⟨id, [⟨.directive (.assert ⟨p, [.var x]⟩ [.call ⟨q, [.var y]⟩]), _⟩,
      ⟨.directive (.retract ⟨p', [.var x']⟩ [.call ⟨q', [.var y']⟩]), _⟩]⟩ =>
    [id, p, x, q, y, p', x', q', y'] == ["", "p", "_G0", "q", "_G1", "p", "_G2", "q", "_G3"]
  | _ => false

/-- An anonymous variable of a rule has two names, so that the rule is not found any more; and where no goal may be
proved nothing is asserted. -/
theorem load_assert_retract_stays :
    (start {}).store.clauses ⟨"p", 1⟩ = [] ∧
    (∃ s r, (start {}).load 9 "" "assert (p(_) :- q(_)); retract (p(_) :- q(_));" = some (.ok (s, r)) ∧
      r.directives.map (·.succeeded) = [true, false] ∧
      s.store.clauses ⟨"p", 1⟩ = [⟨⟨"p", [.var "_G0"]⟩, [.call ⟨"q", [.var "_G1"]⟩]⟩]) ∧
    ∃ s r, (start { maxInferences := some 0 }).load 9 "" "assert p; retract p;" = some (.ok (s, r)) ∧
      r.directives.map (·.succeeded) = [false, false] := by
  refine ⟨rfl, ?rule, ?limit⟩
  case limit =>
    have hload : ((start { maxInferences := some 0 }).load 9 "" "assert p; retract p;").any (fun r =>
        r.toOption.any fun r => r.2.directives.map (·.succeeded) == [false, false]) = true := by decide +kernel
    obtain ⟨⟨s, r⟩, h, hsucceeded⟩ := Bounded.exists_of_any hload
    exact ⟨s, r, h, beq_iff_eq.mp hsucceeded⟩
  have hparse : ∃ at₁ at₂, Program.parse {} "" "assert (p(_) :- q(_)); retract (p(_) :- q(_));" = .ok ⟨"",
      [⟨.directive (.assert ⟨"p", [.var "_G0"]⟩ [.call ⟨"q", [.var "_G1"]⟩]), at₁⟩,
        ⟨.directive (.retract ⟨"p", [.var "_G2"]⟩ [.call ⟨"q", [.var "_G3"]⟩]), at₂⟩]⟩ := by
    have hreads : isRuleProgram (Program.parse {} "" "assert (p(_) :- q(_)); retract (p(_) :- q(_));") = true := by
      decide +kernel
    unfold isRuleProgram at hreads
    split at hreads
    · next h =>
      simp only [beq_iff_eq, List.cons.injEq, and_true] at hreads
      obtain ⟨rfl, rfl, rfl, rfl, rfl, rfl, rfl, rfl, rfl⟩ := hreads
      exact ⟨_, _, h⟩
    · cases hreads
  obtain ⟨at₁, at₂, hparse⟩ := hparse
  let s : Session := start {}
  let w : World := { s.world with store := s.store.add ⟨⟨"p", [.var "_G0"]⟩, [.call ⟨"q", [.var "_G1"]⟩]⟩ }
  have hassert : Query.outcome s.limits 9 s.world (.assert ⟨"p", [.var "_G0"]⟩ [.call ⟨"q", [.var "_G1"]⟩]) =
      some (true, w) := by cbv
  have hretract : Query.outcome s.limits 9 w (.retract ⟨"p", [.var "_G2"]⟩ [.call ⟨"q", [.var "_G3"]⟩]) =
      some (false, w) := by cbv
  have hload := load_directives (s := s) hparse rfl rfl 9
  rw [hassert, Option.bind_some] at hload
  dsimp only at hload
  rw [hretract] at hload
  exact ⟨_, _, hload, rfl, rfl⟩

end Session
end BilingualLogic
