import BilingualLogic.Proofs.Loading.Warnings

/-!
No clause of a predicate that is built in is ever stored. The grammar takes the names of reserved words out, the check
those of the predicates on lists; so a call never passes over the clauses that are stored for it.
-/

namespace BilingualLogic

open BilingualLogic.Language

/-- What has a meaning of its own when it is called: keywords with numbers of arguments. -/
def Predicate.builtins : List (Keyword × Nat) :=
  [(.cut, 0), (.true, 0), (.false, 0), (.unify, 2), (.member, 2), (.length, 2), (.append, 3)]

theorem Predicate.isBuiltin_of_mem {p : Predicate} {k : Keyword} (hname : p.name ∈ k.allSpellings)
    (hk : (k, p.arguments.length) ∈ builtins) : p.isBuiltin = true := by
  have hname := Keyword.ofSpelling?_of_mem hname
  simp only [builtins, List.mem_cons, Prod.mk.injEq, List.not_mem_nil, or_false] at hk
  rcases hk with ⟨rfl, hn⟩ | ⟨rfl, hn⟩ | ⟨rfl, hn⟩ | ⟨rfl, hn⟩ | ⟨rfl, hn⟩ | ⟨rfl, hn⟩ | ⟨rfl, hn⟩ <;>
    simp [isBuiltin, listKeyword?, hname, hn, Keyword.listArity?]

/-- A name that stands in a text is a reserved word in no spelling. -/
theorem namesPredicate_of_isName {k : Keyword} {name : String} (h : isName name.toList = true)
    (hk : Keyword.ofSpelling? name = some k) : k.namesPredicate = true := by
  by_contra hnot
  have hreserved : k ∈ reservedKeywords := List.mem_filter.mpr ⟨k.mem_all, by simpa using hnot⟩
  have hall : ∀ k ∈ reservedKeywords, ∀ t ∈ k.allSpellings, k.spells t.toList = true := by decide +kernel
  have hspells := hall k hreserved name (Keyword.mem_of_ofSpelling? hk)
  rw [spells_of_isName h hreserved] at hspells
  cases hspells

/-- The grammar and the check together leave no head that is built in. -/
theorem Predicate.isBuiltin_of_isName {p : Predicate} (hname : isName p.name.toList = true)
    (hlist : p.listKeyword? = none) : p.isBuiltin = false := by
  unfold isBuiltin
  rw [hlist]
  cases hk : Keyword.ofSpelling? p.name with
  | none => simp
  | some k =>
    have hpred := namesPredicate_of_isName hname hk
    cases k <;> simp [Keyword.namesPredicate, Keyword.listArity?] at hpred ⊢

section Names

/-- The name is one that a text can hold for a predicate. -/
def Predicate.HasName (p : Predicate) : Prop := isName p.name.toList = true

namespace Source

theorem Predicate.Valid.gives_name {x : Predicate} (h : x.Valid) (depth : Nat) :
    (x.read depth).Gives BilingualLogic.Predicate.HasName :=
  .bind (Reading.gives_any _) fun _ _ => Reading.gives_pure h.name

theorem Goal.Valid.gives_names {x : Goal} (h : x.Valid) (depth : Nat) :
    (x.read depth).Gives (Goal.AssertsOnly BilingualLogic.Predicate.HasName) := by
  have none {g : BilingualLogic.Goal} (hg : g.assertedHeads = []) :
      g.AssertsOnly BilingualLogic.Predicate.HasName := by
    simp [Goal.AssertsOnly, hg]
  induction h generalizing depth with
  | call hp => exact .bind (Reading.gives_any _) fun _ _ => Reading.gives_pure (none rfl)
  | truth _ => exact Reading.gives_pure (none rfl)
  | cut => exact Reading.gives_pure (none rfl)
  | not s _ _ ih =>
    exact .checked (.bind (Goal.gives_readAll fun x hx => ih x hx _) fun _ hgs =>
      Reading.gives_pure (Goal.forall_assertsOnly.mp hgs))
  | unify _ _ | is _ _ | compare op _ _ =>
    exact .bind (Reading.gives_any _) fun _ _ => .bind (Reading.gives_any _) fun _ _ => Reading.gives_pure (none rfl)
  | collect kind s _ _ _ _ ih =>
    exact .bind (Reading.gives_any _) fun _ _ => .checked (.bind (Goal.gives_readAll fun x hx => ih x hx _)
      fun _ hgs => .bind (Reading.gives_any _) fun _ _ => Reading.gives_pure (Goal.forall_assertsOnly.mp hgs))
  | assert s hh _ ih =>
    exact .bind (hh.gives_name depth) fun _ hh => .bind (Goal.gives_readBody s fun x hx => ih x hx _) fun _ hgs =>
      Reading.gives_pure (List.forall_mem_cons.mpr ⟨hh, Goal.forall_assertsOnly.mp hgs⟩)
  | retract s _ _ _ =>
    exact .bind (Reading.gives_any _) fun _ _ => .bind (Reading.gives_any _) fun _ _ => Reading.gives_pure (none rfl)

theorem Body.Valid.gives_names {b : Body} (h : b.Valid) :
    b.read.Gives fun gs => ∀ p ∈ Goal.allAssertedHeads gs, p.HasName :=
  .checked fun c n gs k hgs =>
    Goal.forall_assertsOnly.mp (Goal.gives_readAll (fun x hx => (h.goals x hx).gives_names 0) c n gs k hgs)

theorem StatementForm.Valid.gives_names {x : Statement} (h : x.form.Valid) :
    x.read.Gives fun st => ∀ p ∈ st.heads, p.HasName := by
  obtain ⟨span, form⟩ := x
  cases h with
  | fact hhead => exact .bind (hhead.gives_name 0) fun _ hhead => Reading.gives_pure (List.forall_mem_singleton.mpr hhead)
  | rule hhead hbody =>
    exact .bind (hhead.gives_name 0) fun _ hhead => .bind hbody.gives_names fun _ hbody =>
      Reading.gives_pure (List.forall_mem_cons.mpr ⟨hhead, hbody⟩)
  | query hbody => exact .bind hbody.gives_names fun _ hgoals => Reading.gives_pure hgoals
  | assert s hhead hbody => exact .bind ((Goal.Valid.assert s hhead hbody).gives_names 0) fun _ hg => Reading.gives_pure hg
  | retract s hhead hbody =>
    exact .bind ((Goal.Valid.retract s hhead hbody).gives_names 0) fun _ hg => Reading.gives_pure hg

end Source

end Names

namespace Program

theorem names_of_parse {limits : Limits} {source text : String} {p : Program}
    (h : Program.parse limits source text = .ok p) : ∀ st ∈ p.statements, ∀ head ∈ st.heads, head.HasName := by
  obtain ⟨tree, htree, hread⟩ := Program.statements_of_parse h
  have hvalid := Source.valid_of_parse htree
  exact Source.gives_of_readStatements (fun x hx => Source.StatementForm.Valid.gives_names (hvalid x hx)) (by simp) hread

theorem listKeyword?_of_check {p : Program} {store : Store} {ws : List Warning} (h : p.check store = .ok ws) :
    ∀ st ∈ p.statements, ∀ head ∈ st.heads, head.listKeyword? = none := by
  intro st hst head hhead
  have hfaults := (warnings_of_check h).1
  simp only [faults, List.append_eq_nil_iff, List.flatMap_eq_nil_iff, List.map_eq_nil_iff] at hfaults
  have hnone := List.filterMap_eq_nil_iff.mp (hfaults.1 st hst) head hhead
  simpa using hnone

end Program

namespace Session

variable {limits : Limits} {s : Session} {w : World} {q : Option Search}

theorem Accepts.isBuiltin {id code : String} {p : Program} {warnings : List Warning}
    (h : s.Accepts id code p warnings) : ∀ st ∈ p.statements, ∀ head ∈ st.heads, head.isBuiltin = false :=
  fun st hst head hhead => Predicate.isBuiltin_of_isName (Program.names_of_parse h.parsed st hst head hhead)
    (Program.listKeyword?_of_check h.checked st hst head hhead)

theorem lasting_notBuiltin : Search.Lasting (·.All fun c => ∀ p ∈ c.heads, p.isBuiltin = false)
    (·.AssertsOnly (·.isBuiltin = false)) :=
  Search.lasting_heads fun f p hp => by simpa using hp

/-- Heads of which every program that is accepted has only some kind are of that kind in the store. -/
theorem Loaded.heads {P : Predicate → Prop} (hP : ∀ (f : Term → Term) p, P p → P (p.mapTerms f))
    (hprograms : ∀ {s : Session} {id code : String} {p : Program} {warnings : List Warning},
      s.Accepts id code p warnings → ∀ st ∈ p.statements, ∀ head ∈ st.heads, P head)
    (h : Loaded limits s) : s.store.All fun c => ∀ p ∈ c.heads, P p := by
  induction h with
  | start => exact Store.all_empty
  | load _ hload ih =>
    obtain ⟨p, ha, -, hv⟩ := accepts_of_load hload
    exact (hv.keeps (Search.lasting_heads hP) (fun st hst => Statement.keeps_heads (hprograms ha st hst)) ih).1

theorem Loaded.notBuiltin (h : Loaded limits s) : s.store.All fun c => ∀ p ∈ c.heads, p.isBuiltin = false :=
  h.heads (fun f p hp => by simpa using hp) Accepts.isBuiltin

theorem Loaded.hasName (h : Loaded limits s) : s.store.All fun c => ∀ p ∈ c.heads, p.HasName :=
  h.heads (fun _ _ hp => hp) fun ha => Program.names_of_parse ha.parsed

theorem Moment.notBuiltin (h : Moment limits w q) : w.store.All fun c => ∀ p ∈ c.heads, p.isBuiltin = false := by
  cases h with
  | between hs => exact hs.notBuiltin
  | during hs ha hv =>
    exact (hv.keeps lasting_notBuiltin (fun st hst => Statement.keeps_heads (ha.isBuiltin st hst)) hs.notBuiltin).1

/-- At every moment of loading sources, the head of no stored clause is built in, in any spelling; and a call to its
predicate is proved by clauses, of which it is one. -/
theorem Moment.clauses_callable (h : Moment limits w q) : ∀ t ∈ w.store.tables, ∀ c ∈ t.clauses,
    (∀ k : Keyword, c.clause.head.name ∈ k.allSpellings →
      (k, c.clause.head.arguments.length) ∉ Predicate.builtins) ∧
    ∀ p : Predicate, p.key = c.clause.head.key → c ∈ w.store.clausesAfter p.key none ∧
      ∀ n w s barrier rest b, Search.call limits n w s p barrier rest b = Search.callClauses n w s p rest b := by
  intro t ht c hc
  have hhead : c.clause.head.isBuiltin = false := h.notBuiltin t ht c hc _ (List.mem_cons_self ..)
  refine ⟨fun k hname hk => ?_, fun p hp => ⟨?_, fun n w s barrier rest b => ?_⟩⟩
  · rw [Predicate.isBuiltin_of_mem hname hk] at hhead
    cases hhead
  · rw [hp]
    exact h.built.filed.mem_clausesAfter ht hc
  · exact Search.call_eq_callClauses ((Predicate.isBuiltin_of_key hp).trans hhead) w s barrier

/-- The name is that of a predicate on lists, but with another number of arguments. -/
theorem clauses_callable_append : ∃ s r, (start {}).load 2 "" "assert append(a);" = some (.ok (s, r)) ∧
    s.store.keys = [⟨"append", 1⟩] ∧ ∀ t ∈ s.world.store.tables, ∀ c ∈ t.clauses,
      (∀ k : Keyword, c.clause.head.name ∈ k.allSpellings →
        (k, c.clause.head.arguments.length) ∉ Predicate.builtins) ∧
      ∀ p : Predicate, p.key = c.clause.head.key → c ∈ s.world.store.clausesAfter p.key none ∧
        ∀ n w s barrier rest b, Search.call {} n w s p barrier rest b = Search.callClauses n w s p rest b := by
  have hload : ((start {}).load 2 "" "assert append(a);").any (fun r => r.toOption.any fun r =>
      r.1.store.keys == [⟨"append", 1⟩]) = true := by decide +kernel
  obtain ⟨⟨s, r⟩, h, hkeys⟩ := Bounded.exists_of_any hload
  exact ⟨s, r, h, beq_iff_eq.mp hkeys, (Moment.between (.load .start h)).clauses_callable⟩

end Session

end BilingualLogic
