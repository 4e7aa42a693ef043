import BilingualLogic.Proofs.Likeness.Program
import BilingualLogic.Proofs.Likeness.Solution
import BilingualLogic.Proofs.Names.Reading
import BilingualLogic.Session

/-!
Sources that are the same but for the spellings of keywords. Most keywords leave no trace in the program that a source
is read as; the names by which it calls built-in predicates are kept, and with them the spelling. Loading such sources
has the same outcome, if the spellings in the bodies of retracted rules keep rules apart as they did.
-/

namespace BilingualLogic

variable {S : String → String → Prop}

namespace Session

/-- The same clauses but for spellings, under the same limits. The sources may be different. -/
structure Alike (S : String → String → Prop) (s s' : Session) : Prop where
  limits : s.limits = s'.limits
  world : s.world.Alike (respelling S) s'.world

theorem alike_start (limits : Limits) : Alike S (start limits) (start limits) :=
  ⟨rfl, Store.alike_empty, fun _ _ => rfl⟩

end Session

/-- The same answer to a query in the same line, whatever its text. -/
structure QueryResult.Alike (r r' : QueryResult) : Prop where
  line : r.line = r'.line
  vars : r.vars = r'.vars
  solutions : r.solutions = r'.solutions
  stopped : r.stopped = r'.stopped

structure DirectiveResult.Alike (r r' : DirectiveResult) : Prop where
  line : r.line = r'.line
  succeeded : r.succeeded = r'.succeeded

structure Response.Alike (r r' : Response) : Prop where
  results : List.Forall₂ QueryResult.Alike r.results r'.results
  directives : List.Forall₂ DirectiveResult.Alike r.directives r'.directives
  warnings : r.warnings = r'.warnings

section Spelling

variable (hS : ∀ {a b}, S a b → Keyword.ofSpelling? a = Keyword.ofSpelling? b)

include hS

theorem proper_respelling : (respelling S).Proper where
  names := oneToOne_eq
  texts _ he := Formula.alike_self (fun _ => trivial) ((Formula.plain_of_parse he).mono fun _ _ => rfl)
  calls := hS

namespace Query

variable (limits : Limits) {w w' : World} {q q' : Query}

theorem next_respelled (n : Nat) (hw : w.Alike (respelling S) w') (hq : q.Alike (respelling S) q') :
    Option.Rel (fun r r' => r.1 = r'.1 ∧ r.2.1.Alike (respelling S) r'.2.1 ∧ r.2.2.Alike (respelling S) r'.2.2)
      (q.next limits n w) (q'.next limits n w') := by
  have hnames : ∀ x y, (respelling S).names x y → x = y := fun _ _ h => h
  refine (next_alike (proper_respelling hS) n hw hq (fun _ _ => rfl) fun _ => hnames).imp_of_eq ?_
  rintro ⟨a, _⟩ ⟨a', _⟩ _ _ ⟨ha, hw, hq⟩
  refine ⟨?_, hw, hq⟩
  dsimp only at ha ⊢
  cases ha with
  | none => rfl
  | some ha => rw [ha.eq hnames]

theorem take_respelled (n : Nat) (done : List Solution) (k : Nat) (hw : w.Alike (respelling S) w')
    (hq : q.Alike (respelling S) q') :
    Option.Rel (fun r r' => r.1 = r'.1 ∧ r.2.1.Alike (respelling S) r'.2.1 ∧ r.2.2.Alike (respelling S) r'.2.2)
      (q.take limits n done k w) (q'.take limits n done k w') := by
  induction k generalizing w w' q q' done with
  | zero => exact .some ⟨rfl, hw, hq⟩
  | succ k ih =>
    rw [Query.take, Query.take]
    have hpull := next_respelled hS limits n hw hq
    generalize q.next limits n w = r at hpull ⊢
    generalize q'.next limits n w' = r' at hpull ⊢
    cases hpull with
    | none => exact .none
    | @some r r' h =>
      obtain ⟨a, w₁, q₁⟩ := r
      obtain ⟨a', w₁', q₁'⟩ := r'
      obtain ⟨rfl : a = a', hw₁, hq₁⟩ := h
      cases a with
      | none => exact .some ⟨rfl, hw₁, hq₁⟩
      | some a => exact ih (a :: done) hw₁ hq₁

theorem collect_respelled (n : Nat) (hw : w.Alike (respelling S) w') (hq : q.Alike (respelling S) q') :
    Option.Rel (fun r r' => r.1 = r'.1 ∧ r.2.Alike (respelling S) r'.2) (q.collect limits n w)
      (q'.collect limits n w') := by
  have hall : Option.Rel (fun r r' => r.1 = r'.1 ∧ r.2.1.Alike (respelling S) r'.2.1 ∧
      r.2.2.Alike (respelling S) r'.2.2) (q.all limits n w) (q'.all limits n w') := by
    rw [all, all]
    have htake := take_respelled hS limits n [] n hw hq
    generalize q.take limits n [] n w = r at htake ⊢
    generalize q'.take limits n [] n w' = r' at htake ⊢
    cases htake with
    | none => exact .none
    | @some r r' h =>
      obtain ⟨as, w₁, q₁⟩ := r
      obtain ⟨as', w₁', q₁'⟩ := r'
      obtain ⟨rfl : as = as', h⟩ := h
      dsimp only
      split
      · exact .some ⟨rfl, h⟩
      · exact .none
  refine hall.map ?_
  rintro ⟨as, w₁, q₁⟩ ⟨as', w₁', q₁'⟩ ⟨rfl : as = as', hw₁, hq₁⟩
  dsimp only
  rw [hq₁.search.error]
  cases q₁'.search.error with
  | none => exact ⟨rfl, hw₁⟩
  | some e => exact ⟨rfl, hw₁⟩

omit hS in
theorem alike_start {goals goals' : List Goal} (h : List.Forall₂ (Goal.Alike (respelling S)) goals goals') :
    (start goals).Alike (respelling S) (start goals') :=
  ⟨Goal.reportedVars_alike (fun _ _ h => h) h, Search.alike_start h Substitution.alike_empty 0⟩

end Query

namespace Session

variable {s s' : Session} {r r' : Response} (code code' : String)

theorem execute_respelled (n : Nat) (hs : s.Alike S s') (hr : r.Alike r') {st st' : Statement}
    (hst : st.Alike (respelling S) st') :
    Option.Rel (fun x x' => x.1.Alike S x'.1 ∧ x.2.Alike x'.2) (execute n code s r st) (execute n code' s' r' st') := by
  obtain ⟨form, span⟩ := st
  obtain ⟨form', span'⟩ := st'
  obtain ⟨hform, hline⟩ := hst
  dsimp only at hform hline
  cases hform with
  | fact hp => exact .some ⟨⟨hs.limits, hs.world.store.add ⟨hp, .nil⟩, hs.world.ahead⟩, hr⟩
  | rule hp hb => exact .some ⟨⟨hs.limits, hs.world.store.add ⟨hp, hb⟩, hs.world.ahead⟩, hr⟩
  | query hgoals =>
    have hstart := Query.alike_start hgoals
    simp only [execute]
    rw [hs.limits]
    refine Option.Rel.map (Query.collect_respelled hS _ n hs.world hstart) ?_
    rintro ⟨a, w⟩ ⟨a', w'⟩ ⟨rfl : a = a', hw⟩
    refine ⟨⟨rfl, hw⟩, .cons ⟨hline, hstart.vars, ?_, ?_⟩ hr.results, hr.directives, hr.warnings⟩
    all_goals cases a <;> rfl
  | directive hg =>
    simp only [execute]
    rw [hs.limits]
    refine Option.Rel.map (Query.next_respelled hS _ n hs.world (Query.alike_start (.cons hg .nil))) ?_
    rintro ⟨a, w, _⟩ ⟨a', w', _⟩ ⟨rfl : a = a', hw, _⟩
    exact ⟨⟨rfl, hw⟩, hr.results, .cons ⟨hline, rfl⟩ hr.directives, hr.warnings⟩

theorem executeAll_respelled (n : Nat) (hs : s.Alike S s') (hr : r.Alike r') {sts sts' : List Statement}
    (hsts : List.Forall₂ (Statement.Alike (respelling S)) sts sts') :
    Option.Rel (fun x x' => x.1.Alike S x'.1 ∧ x.2.Alike x'.2) (executeAll n code s r sts)
      (executeAll n code' s' r' sts') := by
  induction hsts generalizing s s' r r' with
  | nil => exact .some ⟨hs, List.rel_reverse hr.results, List.rel_reverse hr.directives, hr.warnings⟩
  | cons hst _ ih =>
    rw [executeAll, executeAll]
    have hone := execute_respelled hS code code' n hs hr hst
    generalize execute n code s r _ = x at hone ⊢
    generalize execute n code' s' r' _ = x' at hone ⊢
    cases hone with
    | none => exact .none
    | some h => exact ih h.1 h.2

variable {code code'}

/-- Loading sources that are read alike into sessions that are alike. -/
theorem load_alike (n : Nat) (hs : s.Alike S s') {id : String} {p p' : Program}
    (hp : Program.parse s.limits id code = .ok p) (hp' : Program.parse s'.limits id code' = .ok p')
    (h : p.Alike (respelling S) p') :
    Option.Rel (BothOrNeither fun x x' => x.1.Alike S x'.1 ∧ x.2.Alike x'.2) (s.load n id code)
      (s'.load n id code') := by
  have hcheck : BothOrNeither Eq (p.check s.store) (p'.check s'.store) :=
    h.check (fun _ _ h => h) hS hs.world.store.keys_eq
  rw [load, load, hp, hp']
  dsimp only
  generalize p.check s.store = c at hcheck ⊢
  generalize p'.check s'.store = c' at hcheck ⊢
  cases hcheck with
  | neither => exact .some .neither
  | @both warnings _ heq =>
    subst heq
    dsimp only
    have hsession : Alike S { s with sources := recordSource id code s.sources }
        { s' with sources := recordSource id code' s'.sources } := ⟨hs.limits, hs.world⟩
    have hresponse : Response.Alike ⟨id, [], [], warnings⟩ ⟨id, [], [], warnings⟩ := ⟨.nil, .nil, rfl⟩
    exact (executeAll_respelled hS code code' n hsession hresponse h).map fun _ _ h => .both h

/-- Loading sources that are read alike into new sessions: both are rejected, or the same comes of both, and afterwards
queries that are alike are answered the same. -/
theorem load_respelled {limits : Limits} {id : String} {p p' : Program} (hp : Program.parse limits id code = .ok p)
    (hp' : Program.parse limits id code' = .ok p') (h : p.Alike (respelling S) p') (n : Nat) :
    Option.Rel (BothOrNeither fun x x' => x.2.Alike x'.2 ∧
        ∀ goals goals', List.Forall₂ (Goal.Alike (respelling S)) goals goals' →
          (Query.start goals).vars = (Query.start goals').vars ∧
            ∀ m k, Option.Rel (fun a a' => a.1 = a'.1 ∧ a.2.2.search.error = a'.2.2.search.error)
              (pulls (Query.next x.1.limits m) k x.1.world (.start goals))
              (pulls (Query.next x'.1.limits m) k x'.1.world (.start goals')))
      ((start limits).load n id code) ((start limits).load n id code') := by
  refine (load_alike hS n (alike_start limits) hp hp' h).imp_of_eq fun _ _ _ _ hload => ?_
  cases hload with
  | neither => exact .neither
  | both hx =>
    obtain ⟨hs, hr⟩ := hx
    refine .both ⟨hr, fun goals goals' hgoals => ?_⟩
    have hstart := Query.alike_start hgoals
    refine ⟨hstart.vars, fun m k => ?_⟩
    rw [hs.limits]
    refine (pulls_rel (R := Eq) (P := fun a a' => a.1.Alike (respelling S) a'.1 ∧ a.2.Alike (respelling S) a'.2)
      (fun hx => Query.next_respelled hS _ m hx.1 hx.2) k ⟨hs.world, hstart⟩).imp_of_eq ?_
    rintro a a' _ _ ⟨has, _, hq⟩
    exact ⟨List.forall₂_eq_eq_eq ▸ has, hq.search.error⟩

end Session

end Spelling

namespace Session

/-- Two sources were read as the same two directives, but for the spelling of the call in them. -/
def areRespelled : Except Error Program → Except Error Program → Bool
  | .ok ⟨_, [⟨.directive (.assert ⟨a, []⟩ [.call ⟨b, []⟩]), s⟩, ⟨.directive (.retract ⟨c, []⟩ [.call ⟨d, []⟩]), t⟩]⟩,
    .ok ⟨_, [⟨.directive (.assert ⟨a', []⟩ [.call ⟨b', []⟩]), s'⟩,
      ⟨.directive (.retract ⟨c', []⟩ [.call ⟨d', []⟩]), t'⟩]⟩ =>
    a == a' && c == c' && s.start.line == s'.start.line && t.start.line == t'.start.line &&
      [b, d] == ["true", "true"] && [b', d'] == ["صحيح", "صحيح"]
  | _, _ => false

/-- A rule is added and removed, its body in either vocabulary. -/
theorem load_respelled_rule : ∃ p p' S,
    Program.parse {} "" "assert (p :- true); retract (p :- true);" = .ok p ∧
    Program.parse {} "" "assert (p :- صحيح); retract (p :- صحيح);" = .ok p' ∧
    p.Alike (respelling S) p' ∧
    Option.Rel (BothOrNeither fun x x' => x.2.Alike x'.2 ∧
        ∀ goals goals', List.Forall₂ (Goal.Alike (respelling S)) goals goals' →
          (Query.start goals).vars = (Query.start goals').vars ∧
            ∀ m k, Option.Rel (fun a a' => a.1 = a'.1 ∧ a.2.2.search.error = a'.2.2.search.error)
              (pulls (Query.next x.1.limits m) k x.1.world (.start goals))
              (pulls (Query.next x'.1.limits m) k x'.1.world (.start goals')))
      ((start {}).load 9 "" "assert (p :- true); retract (p :- true);")
      ((start {}).load 9 "" "assert (p :- صحيح); retract (p :- صحيح);") := by
  have hreads : areRespelled (Program.parse {} "" "assert (p :- true); retract (p :- true);")
      (Program.parse {} "" "assert (p :- صحيح); retract (p :- صحيح);") = true := by decide +kernel
  unfold areRespelled at hreads
  split at hreads
  · next a b s c d t _ a' b' s' c' d' t' hp hp' =>
    simp only [Bool.and_eq_true, beq_iff_eq, List.cons.injEq, and_true] at hreads
    obtain ⟨⟨⟨⟨⟨rfl, rfl⟩, hs⟩, ht⟩, rfl, rfl⟩, rfl, rfl⟩ := hreads
    let S (a b : String) : Prop := a = "true" ∧ b = "صحيح"
    have hS {a b : String} (h : S a b) : Keyword.ofSpelling? a = Keyword.ofSpelling? b := by
      rw [h.1, h.2]
      decide
    have hbody : List.Forall₂ (Goal.Alike (respelling S)) [.call ⟨"true", []⟩] [.call ⟨"صحيح", []⟩] :=
      .cons (.call ⟨.nil, fun h => absurd h (by decide), fun _ => ⟨rfl, rfl⟩⟩) .nil
    have hfixed (a : String) (_ : a ∈ Goal.builtinNames [.call ⟨"true", []⟩]) : (respelling S).Fixed a := by
      rintro _ _ _ ⟨rfl, rfl⟩ ⟨rfl, rfl⟩
      exact iff_of_true rfl rfl
    refine ⟨_, _, S, hp, hp', ?alike, load_respelled hS hp hp' ?alike 9⟩
    exact .cons ⟨.directive (.assert ⟨rfl, .nil⟩ hbody), hs⟩
      (.cons ⟨.directive (.retract ⟨rfl, .nil⟩ hbody hfixed), ht⟩ .nil)
  · cases hreads

/-- The second spelling has been replaced alone: the rule is not found any more. -/
theorem load_respelled_apart : ∃ s r s' r',
    (start {}).load 9 "" "assert (p :- true); retract (p :- true);" = some (.ok (s, r)) ∧
    (start {}).load 9 "" "assert (p :- true); retract (p :- صحيح);" = some (.ok (s', r')) ∧
    r.directives.map (·.succeeded) = [true, true] ∧ r'.directives.map (·.succeeded) = [true, false] ∧
    s.store.size = 0 ∧ s'.store.size = 1 := by
  have hload : ((start {}).load 9 "" "assert (p :- true); retract (p :- true);").any (fun r => r.toOption.any fun r =>
      r.2.directives.map (·.succeeded) == [true, true] && r.1.store.size == 0) = true := by decide +kernel
  have hload' : ((start {}).load 9 "" "assert (p :- true); retract (p :- صحيح);").any (fun r => r.toOption.any fun r =>
      r.2.directives.map (·.succeeded) == [true, false] && r.1.store.size == 1) = true := by decide +kernel
  obtain ⟨⟨s, r⟩, h, hs⟩ := Bounded.exists_of_any hload
  obtain ⟨⟨s', r'⟩, h', hs'⟩ := Bounded.exists_of_any hload'
  simp only [Bool.and_eq_true, beq_iff_eq] at hs hs'
  exact ⟨s, r, s', r', h, h', hs.1, hs'.1, hs.2, hs'.2⟩

end Session

end BilingualLogic
