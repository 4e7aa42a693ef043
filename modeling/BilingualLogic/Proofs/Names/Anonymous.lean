import BilingualLogic.Proofs.Names.Order
import BilingualLogic.Proofs.Names.Reading

/-!
The names that anonymous variables get. All that stand in a text are numbered in one order, so no two have the same
name; but the names come from those that a text can hold, and a variable that is written with one of them is the same.
-/

namespace BilingualLogic

namespace Source

mutual

/-- The places at which variables stand, in order, with the name at each; an anonymous one has none. -/
def Term.places : Term → List (Option String)
  | .anonymous _ => [none]
  | .var _ name => [some name]
  | .list _ items none => Term.placesAll items
  | .list _ items (some rest) => Term.placesAll items ++ rest.places
  | _ => []

def Term.placesAll : List Term → List (Option String)
  | [] => []
  | t :: ts => t.places ++ Term.placesAll ts

end

def Predicate.places (p : Predicate) : List (Option String) := Term.placesAll p.arguments

/-- In formulas all variables have names. -/
def Formula.places : Formula → List (Option String)
  | .var name => [some name]
  | .negate e => e.places
  | .binary _ a b => a.places ++ b.places
  | .group _ e => e.places
  | _ => []

mutual

def Goal.places : Goal → List (Option String)
  | .call p => p.places
  | .cut => []
  | .not _ goals => Goal.placesAll goals
  | .unify a b => a.places ++ b.places
  | .is a e => a.places ++ e.places
  | .compare _ a b => a.places ++ b.places
  | .collect _ t _ goals r => t.places ++ Goal.placesAll goals ++ r.places
  | .assert head _ body => head.places ++ Goal.placesAll body
  | .retract head _ body => head.places ++ Goal.placesAll body

def Goal.placesAll : List Goal → List (Option String)
  | [] => []
  | g :: gs => g.places ++ Goal.placesAll gs

end

def StatementForm.places : StatementForm → List (Option String)
  | .fact head => head.places
  | .rule head body => head.places ++ Goal.placesAll body.goals
  | .query body => Goal.placesAll body.goals
  | .directive g => g.places

end Source

/-- The name of the anonymous variable with the given number. -/
def anonymousName (n : Nat) : String := "_G" ++ toString n

theorem anonymousName_inj {n k : Nat} (h : anonymousName n = anonymousName k) : n = k := by
  have hnumber : toString n = toString k := by simpa [anonymousName] using h
  exact (Clause.renamed_inj (x := "") (y := "") (by rw [Clause.renamed, Clause.renamed, hnumber])).1

/-- The names at the places, where the anonymous variables are numbered from the given number on. -/
def numbered (n : Nat) : List (Option String) → List String
  | [] => []
  | none :: ps => anonymousName n :: numbered (n + 1) ps
  | some x :: ps => x :: numbered n ps

theorem numbered_append (n : Nat) (ps qs : List (Option String)) :
    numbered n (ps ++ qs) = numbered n ps ++ numbered (n + ps.count none) qs := by
  induction ps generalizing n with
  | nil => rfl
  | cons p ps ih =>
    cases p with
    | none => simp [numbered, ih, Nat.add_assoc, Nat.add_comm 1]
    | some x => simp [numbered, ih]

theorem length_numbered (n : Nat) (ps : List (Option String)) : (numbered n ps).length = ps.length := by
  induction ps generalizing n with
  | nil => rfl
  | cons p ps ih => cases p <;> simp [numbered, ih]

theorem getElem?_numbered (n : Nat) (ps : List (Option String)) (i : Nat) :
    (numbered n ps)[i]? = ps[i]?.map fun p => p.getD (anonymousName (n + (ps.take i).count none)) := by
  induction ps generalizing n i with
  | nil => rfl
  | cons p ps ih =>
    cases i with
    | zero => cases p <;> rfl
    | succ i =>
      cases p with
      | none => simp [numbered, ih, Nat.add_assoc, Nat.add_comm 1]
      | some x => simp [numbered, ih]

/-- From the places come the names, and the anonymous variables are counted. -/
structure Assigned (n : Nat) (places : List (Option String)) (names : List String) (k : Nat) : Prop where
  names_eq : names = numbered n places
  next_eq : k = n + places.count none

namespace Assigned

theorem nil (n : Nat) : Assigned n [] [] n := ⟨rfl, rfl⟩

theorem append {n k l : Nat} {ps qs : List (Option String)} {xs ys : List String} (hxs : Assigned n ps xs l)
    (hys : Assigned l qs ys k) : Assigned n (ps ++ qs) (xs ++ ys) k := by
  obtain ⟨rfl, rfl⟩ := hxs
  obtain ⟨rfl, rfl⟩ := hys
  refine ⟨(numbered_append n ps qs).symm, ?_⟩
  rw [List.count_append]
  omega

end Assigned

section Reading

variable {c : Source.Context} {n k depth : Nat}

theorem Term.assigned_readAll {xs : List Source.Term}
    (h : ∀ x ∈ xs, ∀ depth n t k, x.read depth c n = .ok (t, k) → Assigned n x.places t.names k) {ts : List Term}
    (hread : Source.Term.readAll depth xs c n = .ok (ts, k)) :
    Assigned n (Source.Term.placesAll xs) (namesAll ts) k := by
  induction xs generalizing n ts with
  | nil =>
    rw [Source.Term.readAll] at hread
    obtain ⟨rfl, rfl⟩ := pure_eq_ok hread
    exact .nil _
  | cons x xs ih =>
    rw [Source.Term.readAll] at hread
    obtain ⟨t, l, ht, hread⟩ := bind_eq_ok hread
    obtain ⟨us, l', hus, hread⟩ := bind_eq_ok hread
    obtain ⟨rfl, rfl⟩ := pure_eq_ok hread
    exact (h x (by simp) _ _ t l ht).append (ih (fun y hy => h y (by simp [hy])) hus)

theorem Term.assigned_of_read {x : Source.Term} (hx : x.Valid) {t : Term} (h : x.read depth c n = .ok (t, k)) :
    Assigned n x.places t.names k := by
  induction hx generalizing depth n t k with
  | anonymous s =>
    rw [Source.Term.read] at h
    replace h := checked_eq_ok h
    cases h
    exact ⟨rfl, rfl⟩
  | var s _ _ =>
    rw [Source.Term.read] at h
    replace h := checked_eq_ok h
    cases h
    exact ⟨rfl, rfl⟩
  | number s numeral =>
    rw [Source.Term.read] at h
    obtain ⟨a, l, ha, h⟩ := bind_eq_ok (checked_eq_ok h)
    obtain ⟨rfl, rfl⟩ := pure_eq_ok h
    obtain ⟨-, rfl⟩ := Term.readNumber_eq_ok ha
    exact .nil _
  | text s content | boolean s b | atom s _ _ =>
    rw [Source.Term.read] at h
    replace h := checked_eq_ok h
    cases h
    exact .nil _
  | list s _ ih =>
    rw [Source.Term.read] at h
    obtain ⟨ts, l, hts, h⟩ := bind_eq_ok (checked_eq_ok h)
    obtain ⟨rfl, rfl⟩ := pure_eq_ok h
    exact assigned_readAll (fun x hx depth n t k ht => ih x hx ht) hts
  | pattern s _ _ _ ih ihr =>
    rw [Source.Term.read] at h
    obtain ⟨ts, l, hts, h⟩ := bind_eq_ok (checked_eq_ok h)
    obtain ⟨r, l', hr, h⟩ := bind_eq_ok h
    obtain ⟨rfl, rfl⟩ := pure_eq_ok h
    rw [names_cons]
    exact (assigned_readAll (fun x hx depth n t k ht => ih x hx ht) hts).append (ihr hr)

theorem Predicate.assigned_of_read {x : Source.Predicate} (hx : x.Valid) {p : Predicate}
    (h : x.read depth c n = .ok (p, k)) : Assigned n x.places p.names k := by
  rw [Source.Predicate.read] at h
  obtain ⟨ts, l, hts, h⟩ := bind_eq_ok h
  obtain ⟨rfl, rfl⟩ := pure_eq_ok h
  exact Term.assigned_readAll (fun t ht depth n u k hu => Term.assigned_of_read (hx.arguments t ht) hu) hts

theorem Formula.assigned_of_read {x : Source.Formula} (hx : x.Valid) {e : Formula} (h : x.read depth c n = .ok (e, k)) :
    Assigned n x.places e.names k := by
  induction hx generalizing depth n e k with
  | number s _ =>
    rw [Source.Formula.read] at h
    obtain ⟨a, l, ha, h⟩ := bind_eq_ok h
    obtain ⟨rfl, rfl⟩ := pure_eq_ok h
    obtain ⟨-, rfl⟩ := Term.readNumber_eq_ok ha
    exact .nil _
  | var _ _ =>
    obtain ⟨rfl, rfl⟩ := pure_eq_ok h
    exact ⟨rfl, rfl⟩
  | text content =>
    obtain ⟨rfl, rfl⟩ := pure_eq_ok h
    exact .nil _
  | negate _ ih =>
    rw [Source.Formula.read] at h
    obtain ⟨a, l, ha, h⟩ := bind_eq_ok h
    obtain ⟨rfl, rfl⟩ := pure_eq_ok h
    have hassigned := ih ha
    exact hassigned
  | binary op _ _ iha ihb =>
    rw [Source.Formula.read] at h
    obtain ⟨a, l, ha, h⟩ := bind_eq_ok h
    obtain ⟨b, l', hb, h⟩ := bind_eq_ok h
    obtain ⟨rfl, rfl⟩ := pure_eq_ok h
    exact (iha ha).append (ihb hb)
  | group s _ ih =>
    rw [Source.Formula.read] at h
    exact ih (checked_eq_ok h)

theorem Goal.assigned_readAll {xs : List Source.Goal}
    (h : ∀ x ∈ xs, ∀ depth n g k, x.read depth c n = .ok (g, k) → Assigned n x.places g.names k) {gs : List Goal}
    (hread : Source.Goal.readAll depth xs c n = .ok (gs, k)) :
    Assigned n (Source.Goal.placesAll xs) (namesAll gs) k := by
  induction xs generalizing n gs with
  | nil =>
    rw [Source.Goal.readAll] at hread
    obtain ⟨rfl, rfl⟩ := pure_eq_ok hread
    exact .nil _
  | cons x xs ih =>
    rw [Source.Goal.readAll] at hread
    obtain ⟨g, l, hg, hread⟩ := bind_eq_ok hread
    obtain ⟨us, l', hus, hread⟩ := bind_eq_ok hread
    obtain ⟨rfl, rfl⟩ := pure_eq_ok hread
    exact (h x (by simp) _ _ g l hg).append (ih (fun y hy => h y (by simp [hy])) hus)

theorem Goal.assigned_readBody {xs : List Source.Goal} {s : Text.Span}
    (h : ∀ x ∈ xs, ∀ depth n g k, x.read depth c n = .ok (g, k) → Assigned n x.places g.names k) {gs : List Goal}
    (hread : Source.Goal.readBody depth s xs c n = .ok (gs, k)) :
    Assigned n (Source.Goal.placesAll xs) (namesAll gs) k := by
  cases xs with
  | nil =>
    rw [Source.Goal.readBody] at hread
    obtain ⟨rfl, rfl⟩ := pure_eq_ok hread
    exact .nil _
  | cons x xs =>
    rw [Source.Goal.readBody] at hread
    exact @assigned_readAll c n k (depth + 1) _ h _ (checked_eq_ok hread)

theorem Goal.assigned_of_read {x : Source.Goal} (hx : x.Valid) {g : Goal} (h : x.read depth c n = .ok (g, k)) :
    Assigned n x.places g.names k := by
  induction hx generalizing depth n g k with
  | call hp =>
    rw [Source.Goal.read] at h
    obtain ⟨p, l, hp', h⟩ := bind_eq_ok h
    obtain ⟨rfl, rfl⟩ := pure_eq_ok h
    exact Predicate.assigned_of_read hp hp'
  | truth _ =>
    cases h
    exact .nil _
  | cut =>
    cases h
    exact .nil _
  | not s _ _ ih =>
    rw [Source.Goal.read] at h
    obtain ⟨gs, l, hgs, h⟩ := bind_eq_ok (checked_eq_ok h)
    obtain ⟨rfl, rfl⟩ := pure_eq_ok h
    exact assigned_readAll (fun x hx depth n g k hg => ih x hx hg) hgs
  | unify ha hb =>
    rw [Source.Goal.read] at h
    obtain ⟨a, l, ha', h⟩ := bind_eq_ok h
    obtain ⟨b, l', hb', h⟩ := bind_eq_ok h
    obtain ⟨rfl, rfl⟩ := pure_eq_ok h
    exact (Term.assigned_of_read ha ha').append (Term.assigned_of_read hb hb')
  | is ha he =>
    rw [Source.Goal.read] at h
    obtain ⟨a, l, ha', h⟩ := bind_eq_ok h
    obtain ⟨e, l', he', h⟩ := bind_eq_ok h
    obtain ⟨rfl, rfl⟩ := pure_eq_ok h
    exact (Term.assigned_of_read ha ha').append (Formula.assigned_of_read he he')
  | compare op ha hb =>
    rw [Source.Goal.read] at h
    obtain ⟨a, l, ha', h⟩ := bind_eq_ok h
    obtain ⟨b, l', hb', h⟩ := bind_eq_ok h
    obtain ⟨rfl, rfl⟩ := pure_eq_ok h
    exact (Formula.assigned_of_read ha ha').append (Formula.assigned_of_read hb hb')
  | collect kind s ht _ _ hr ih =>
    rw [Source.Goal.read] at h
    obtain ⟨t, l, ht', h⟩ := bind_eq_ok h
    obtain ⟨gs, l', hgs, h⟩ := bind_eq_ok (checked_eq_ok h)
    obtain ⟨r, l'', hr', h⟩ := bind_eq_ok h
    obtain ⟨rfl, rfl⟩ := pure_eq_ok h
    exact ((Term.assigned_of_read ht ht').append (assigned_readAll (fun x hx depth n g k hg => ih x hx hg) hgs)).append
      (Term.assigned_of_read hr hr')
  | assert s hh _ ih | retract s hh _ ih =>
    rw [Source.Goal.read] at h
    obtain ⟨p, l, hp, h⟩ := bind_eq_ok h
    obtain ⟨gs, l', hgs, h⟩ := bind_eq_ok h
    obtain ⟨rfl, rfl⟩ := pure_eq_ok h
    exact (Predicate.assigned_of_read hh hp).append (assigned_readBody (fun x hx depth n g k hg => ih x hx hg) hgs)

theorem assigned_of_body {b : Source.Body} (hb : b.Valid) {gs : List Goal} (h : b.read c n = .ok (gs, k)) :
    Assigned n (Source.Goal.placesAll b.goals) (Goal.namesAll gs) k := by
  rw [Source.Body.read] at h
  exact Goal.assigned_readAll (fun x hx depth n g k hg => Goal.assigned_of_read (hb.goals x hx) hg) (checked_eq_ok h)

theorem Statement.assigned_of_read {x : Source.Statement} (hx : x.form.Valid) {s : Statement}
    (h : x.read c n = .ok (s, k)) : Assigned n x.form.places s.form.names k := by
  obtain ⟨span, form⟩ := x
  have directive {g : Source.Goal} (hg : g.Valid)
      (h : (g.read 0 >>= fun g => pure (⟨.directive g, span⟩ : Statement) : Source.Reading Statement) c n = .ok (s, k)) :
      Assigned n g.places s.form.names k := by
    obtain ⟨g', l, hg', h⟩ := bind_eq_ok h
    obtain ⟨rfl, rfl⟩ := pure_eq_ok h
    exact Goal.assigned_of_read hg hg'
  cases hx with
  | @fact head hhead =>
    change (head.read 0 >>= fun head => pure (⟨.fact head, span⟩ : Statement) : Source.Reading Statement) c n = _ at h
    obtain ⟨p, l, hp, h⟩ := bind_eq_ok h
    obtain ⟨rfl, rfl⟩ := pure_eq_ok h
    exact Predicate.assigned_of_read hhead hp
  | @rule head body hhead hbody =>
    change (head.read 0 >>= fun head => body.read >>= fun body => pure (⟨.rule head body, span⟩ : Statement) :
      Source.Reading Statement) c n = _ at h
    obtain ⟨p, l, hp, h⟩ := bind_eq_ok h
    obtain ⟨gs, l', hgs, h⟩ := bind_eq_ok h
    obtain ⟨rfl, rfl⟩ := pure_eq_ok h
    exact (Predicate.assigned_of_read hhead hp).append (assigned_of_body hbody hgs)
  | @query body hbody =>
    change (body.read >>= fun body => pure (⟨.query body, span⟩ : Statement) : Source.Reading Statement) c n = _ at h
    obtain ⟨gs, l, hgs, h⟩ := bind_eq_ok h
    obtain ⟨rfl, rfl⟩ := pure_eq_ok h
    exact assigned_of_body hbody hgs
  | assert s hhead hbody => exact directive (.assert s hhead hbody) h
  | retract s hhead hbody => exact directive (.retract s hhead hbody) h

end Reading

section Places

variable {places : List (Option String)} {names : List String}

theorem count_take_lt {i j : Nat} (hi : places[i]? = some none) (hij : i < j) :
    (places.take i).count none < (places.take j).count none := by
  have hstep : (places.take (i + 1)).count none = (places.take i).count none + 1 := by
    rw [List.take_add_one, hi, List.count_append]
    rfl
  have hle : (places.take (i + 1)).count none ≤ (places.take j).count none :=
    (List.take_sublist_take_left hij).count_le none
  omega

theorem exists_of_lt_count {k : Nat} (h : k < places.count none) :
    ∃ i, places[i]? = some none ∧ (places.take i).count none = k := by
  induction places generalizing k with
  | nil => cases h
  | cons p ps ih =>
    cases p with
    | none =>
      cases k with
      | zero => exact ⟨0, rfl, rfl⟩
      | succ k =>
        obtain ⟨i, hi, hcount⟩ := ih (k := k) (by simpa using h)
        exact ⟨i + 1, hi, by simp [hcount]⟩
    | some x =>
      obtain ⟨i, hi, hcount⟩ := ih (k := k) (by simpa using h)
      exact ⟨i + 1, hi, by simp [hcount]⟩

/-- The names at the places: what is written is kept, anonymous variables have different names, and one of them has the
name of a variable that is written only where that name has the form of theirs and a number that one of them has. -/
structure Apart (places : List (Option String)) (names : List String) : Prop where
  length_eq : names.length = places.length
  written : ∀ (i : Nat) x, places[i]? = some (some x) → names[i]? = some x
  distinct : ∀ i j : Nat, i ≠ j → places[i]? = some none → places[j]? = some none → names[i]? ≠ names[j]?
  clash : (∃ (i j : Nat) (x : String), places[i]? = some none ∧ places[j]? = some (some x) ∧ names[i]? = names[j]?) ↔
    ∃ k < places.count none, some (anonymousName k) ∈ places

theorem Assigned.apart {k : Nat} (h : Assigned 0 places names k) : Apart places names := by
  have hnames (i : Nat) : names[i]? = places[i]?.map fun p => p.getD (anonymousName ((places.take i).count none)) := by
    rw [h.names_eq, getElem?_numbered, Nat.zero_add]
  have hanonymous {i : Nat} (hi : places[i]? = some none) :
      names[i]? = some (anonymousName ((places.take i).count none)) := by
    rw [hnames, hi]
    rfl
  have hwritten (i : Nat) (x : String) (hi : places[i]? = some (some x)) : names[i]? = some x := by
    rw [hnames, hi]
    rfl
  refine ⟨by rw [h.names_eq, length_numbered], hwritten, ?_, ?_⟩
  · intro i j hij hi hj heq
    rw [hanonymous hi, hanonymous hj, Option.some.injEq] at heq
    have hcount := anonymousName_inj heq
    rcases Nat.lt_or_gt_of_ne hij with hlt | hlt
    · have := count_take_lt hi hlt
      omega
    · have := count_take_lt hj hlt
      omega
  · constructor
    · rintro ⟨i, j, x, hi, hj, heq⟩
      rw [hanonymous hi, hwritten j x hj, Option.some.injEq] at heq
      have hlt : (places.take i).count none < places.count none := by
        have := count_take_lt hi (Nat.lt_of_lt_of_le (List.getElem?_eq_some_iff.mp hi).1 (Nat.le_refl places.length))
        rwa [List.take_length] at this
      exact ⟨_, hlt, heq ▸ List.mem_of_getElem? hj⟩
    · rintro ⟨k, hk, hmem⟩
      obtain ⟨i, hi, hcount⟩ := exists_of_lt_count hk
      obtain ⟨j, hj⟩ := List.mem_iff_getElem?.mp hmem
      exact ⟨i, j, _, hi, hj, by rw [hanonymous hi, hwritten j _ hj, hcount]⟩

end Places

theorem Program.assigned_of_readStatements {c : Source.Context} {n : Nat} {xs : List Source.Statement}
    (hxs : ∀ x ∈ xs, x.form.Valid) {done ss : List Statement} (h : Source.readStatements c n done xs = .ok ss) :
    ∃ more k, ss = done.reverse ++ more ∧
      Assigned n (xs.flatMap fun x => x.form.places) (more.flatMap fun s => s.form.names) k := by
  induction xs generalizing n done with
  | nil =>
    cases h
    exact ⟨[], n, by simp, .nil n⟩
  | cons x xs ih =>
    rw [Source.readStatements] at h
    cases hs : x.read c n with
    | error e =>
      rw [hs] at h
      cases h
    | ok r =>
      obtain ⟨s, l⟩ := r
      rw [hs] at h
      obtain ⟨more, k, rfl, hmore⟩ := ih (fun y hy => hxs y (by simp [hy])) h
      refine ⟨s :: more, k, by simp, ?_⟩
      rw [List.flatMap_cons, List.flatMap_cons]
      exact (Statement.assigned_of_read (hxs x (by simp)) hs).append hmore

section Parsing

variable {text : String}

theorem Program.apart_of_parse {limits : Limits} {source : String} {p : Program}
    (h : Program.parse limits source text = .ok p) : ∃ tree, Source.parseRule .program source text = .ok tree ∧
      Apart (tree.flatMap fun s => s.form.places) p.names := by
  obtain ⟨tree, htree, hread⟩ := statements_of_parse h
  obtain ⟨more, k, hmore, hassigned⟩ := assigned_of_readStatements (Source.valid_of_parse htree) hread
  rw [List.reverse_nil, List.nil_append] at hmore
  rw [← hmore] at hassigned
  exact ⟨tree, htree, hassigned.apart⟩

theorem Goal.apart_of_parseQuery {goals : List Goal} (h : Goal.parseQuery text = .ok goals) :
    ∃ body, Source.parseRule .queryInput "<query>" text = .ok body ∧
      Apart (Source.Goal.placesAll body.goals) (Goal.namesAll goals) := by
  obtain ⟨body, k, hbody, hread⟩ := Source.parseAlone_eq_ok h
  exact ⟨body, hbody, (assigned_of_body (Source.valid_of_parseQuery hbody) hread).apart⟩

theorem Term.apart_of_parse {t : Term} (h : Term.parse text = .ok t) :
    ∃ x, Source.parseRule .termInput "<term>" text = .ok x ∧ Apart x.places t.names := by
  obtain ⟨x, k, hx, hread⟩ := Source.parseAlone_eq_ok h
  exact ⟨x, hx, (Term.assigned_of_read (Source.valid_of_parseTerm hx) hread).apart⟩

end Parsing

/-- In all that is read from one text the anonymous variables are different from one another, and from the variables
with names unless a name is written that one of them gets. -/
theorem anonymous_apart (text : String) :
    (∀ limits source p, Program.parse limits source text = .ok p →
      ∃ tree, Source.parseRule .program source text = .ok tree ∧ Apart (tree.flatMap fun s => s.form.places) p.names) ∧
    (∀ goals, Goal.parseQuery text = .ok goals → ∃ body, Source.parseRule .queryInput "<query>" text = .ok body ∧
      Apart (Source.Goal.placesAll body.goals) (Goal.namesAll goals)) ∧
    ∀ t, Term.parse text = .ok t →
      ∃ x, Source.parseRule .termInput "<term>" text = .ok x ∧ Apart x.places t.names :=
  ⟨fun _ _ _ => Program.apart_of_parse, fun _ => Goal.apart_of_parseQuery, fun _ => Term.apart_of_parse⟩

theorem anonymous_apart_twice : ∃ p, Program.parse {} "source" "fact p(_, ?x); query p(_, ?_);" = .ok p ∧
    ∃ tree, Source.parseRule .program "source" "fact p(_, ?x); query p(_, ?_);" = .ok tree ∧
      Apart (tree.flatMap fun s => s.form.places) p.names := by
  have hok : (Program.parse {} "source" "fact p(_, ?x); query p(_, ?_);").isOk = true := by decide +kernel
  cases hp : Program.parse {} "source" "fact p(_, ?x); query p(_, ?_);" with
  | error e =>
    rw [hp] at hok
    cases hok
  | ok p => exact ⟨p, rfl, (anonymous_apart _).1 _ _ p hp⟩

/-- A variable that is written with the name of the first anonymous one is the same variable. -/
theorem anonymous_clash : ∃ p tree, Program.parse {} "source" "fact p(_, ?_G0);" = .ok p ∧
    Source.parseRule .program "source" "fact p(_, ?_G0);" = .ok tree ∧
    (tree.flatMap fun s => s.form.places) = [none, some "_G0"] ∧ p.names = ["_G0", "_G0"] := by
  have hnames : (Program.parse {} "source" "fact p(_, ?_G0);").toOption.map Program.names = some ["_G0", "_G0"] := by
    decide +kernel
  have hplaces : (Source.parseRule .program "source" "fact p(_, ?_G0);").toOption.map
      (fun tree => tree.flatMap fun s => s.form.places) = some [none, some "_G0"] := by
    decide +kernel
  cases hp : Program.parse {} "source" "fact p(_, ?_G0);" with
  | error e =>
    rw [hp] at hnames
    cases hnames
  | ok p =>
    cases htree : Source.parseRule .program "source" "fact p(_, ?_G0);" with
    | error e =>
      rw [htree] at hplaces
      cases hplaces
    | ok tree =>
      rw [hp] at hnames
      rw [htree] at hplaces
      exact ⟨p, tree, rfl, rfl, Option.some.inj hplaces, Option.some.inj hnames⟩

end BilingualLogic
