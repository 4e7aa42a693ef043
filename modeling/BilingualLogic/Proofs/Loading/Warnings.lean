import BilingualLogic.Proofs.Loading.Heads

/-!
Warnings of calls to predicates that nothing defines. Such a predicate has no clause at any moment of loading the
program, and its calls fail; unless a clause that was loaded before asserts one, which the check does not look for.
-/

namespace BilingualLogic

theorem Predicate.isBuiltin_of_key {p q : Predicate} (h : p.key = q.key) : p.isBuiltin = q.isBuiltin := by
  simp only [key, Key.mk.injEq] at h
  simp only [isBuiltin, listKeyword?, h.1, h.2]

namespace Program

theorem of_mem_warnCalls {known : List Key} {calls : List (Predicate × Nat)} {w : Warning}
    (h : w ∈ warnCalls known calls) :
    w.key ∉ known ∧ ∃ c ∈ calls, c.1.isBuiltin = false ∧ w = ⟨c.1.key, c.2⟩ := by
  induction calls generalizing known with
  | nil => cases h
  | cons c calls ih =>
    obtain ⟨p, line⟩ := c
    rw [warnCalls] at h
    split at h
    · obtain ⟨hknown, d, hd, hw⟩ := ih h
      exact ⟨hknown, d, List.mem_cons_of_mem _ hd, hw⟩
    · next hp =>
      simp only [Bool.or_eq_true, List.contains_iff_mem, not_or, Bool.not_eq_true] at hp
      rcases List.mem_cons.mp h with rfl | h
      · exact ⟨hp.2, _, List.mem_cons_self .., hp.1, rfl⟩
      · obtain ⟨hknown, d, hd, hw⟩ := ih h
        exact ⟨fun hk => hknown (List.mem_cons_of_mem _ hk), d, List.mem_cons_of_mem _ hd, hw⟩

theorem warnings_of_check {p : Program} {store : Store} {ws : List Warning} (h : p.check store = .ok ws) :
    p.faults = [] ∧ ws = p.warnings store := by
  unfold check at h
  split at h
  · next hfaults =>
    cases h
    exact ⟨hfaults, rfl⟩
  · cases h
  · cases h

theorem of_mem_warnings {p : Program} {store : Store} {w : Warning} (h : w ∈ p.warnings store) :
    w.key ∉ store.keys ∧ (∀ st ∈ p.statements, ∀ head ∈ st.heads, head.key ≠ w.key) ∧
      ∃ call : Predicate, call.isBuiltin = false ∧ w.key = call.key := by
  obtain ⟨hknown, c, -, hc, rfl⟩ := of_mem_warnCalls h
  rw [List.mem_append, not_or] at hknown
  refine ⟨hknown.1, fun st hst head hhead heq => hknown.2 ?_, c.1, hc, rfl⟩
  exact List.mem_map.mpr ⟨head, List.mem_flatMap.mpr ⟨st, hst, hhead⟩, heq⟩

end Program

theorem Store.head_of_notMem_keys {s : Store} (hs : s.Filed) {k : Key} (hk : k ∉ s.keys) : s.All (·.head.key ≠ k) := by
  intro t ht c hc heq
  refine hk (List.mem_map.mpr ⟨t, List.mem_filter.mpr ⟨ht, ?_⟩, ?_⟩)
  · simpa using List.ne_nil_of_mem hc
  · rw [← hs.heads t ht c hc, heq]

namespace Search

theorem turn_of_no_clauses {limits : Limits} {w : World} {s : Search} {f : Frame} {rest : List Frame}
    {b : Substitution} {p : Predicate} (he : s.error = none) (hc : s.current = some ⟨f :: rest, b⟩)
    (hx : excess limits (s.steps + 1) = none) (hf : f.goal = .call p) (hp : p.isBuiltin = false)
    (hnone : w.store.storedClauses p.key = []) (n : Nat) : turn limits n w s = some (.goes w s.counted) := by
  obtain ⟨g, barrier⟩ := f
  obtain rfl : g = .call p := hf
  have hcall : callClauses n w s.counted p rest b = some (w, s.counted) := by
    simp [callClauses, Store.clausesAfter, hnone, tryClauses]
  simp [turn, he, hc, hx, goalTurn, simpleStep, call_eq_callClauses hp, hcall]

end Search

namespace Session

/-- Where no clause that was loaded before asserts clauses of a predicate that a warning names, no clause of it is
stored at any moment of loading the program, and every call to it fails. -/
theorem warned_calls_fail {limits : Limits} {s : Session} {id code : String} {p : Program} {warnings : List Warning}
    {warning : Warning} {w : World} {q : Option Search} (h : Loaded limits s) (ha : s.Accepts id code p warnings)
    (hw : warning ∈ warnings)
    (hstored : s.store.All fun c => ∀ head ∈ Goal.allAssertedHeads c.body, head.key ≠ warning.key)
    (hv : (s.loading id code).Visits code p.statements w q) :
    w.store.storedClauses warning.key = [] ∧ ∀ search f rest b call, q = some search → search.error = none →
      search.current = some ⟨f :: rest, b⟩ → f.goal = .call call → call.key = warning.key →
      Search.excess limits (search.steps + 1) = none → ∀ n, Search.turn limits n w search =
        some (.goes w search.counted) := by
  obtain ⟨-, rfl⟩ := Program.warnings_of_check ha.checked
  obtain ⟨hkeys, hheads, call, hcall, hkey⟩ := Program.of_mem_warnings hw
  have hbefore : s.store.All fun c => ∀ head ∈ c.heads, head.key ≠ warning.key := fun t ht c hc =>
    List.forall_mem_cons.mpr ⟨Store.head_of_notMem_keys h.built.filed hkeys t ht c hc, hstored t ht c hc⟩
  have hall := (hv.keeps (Search.lasting_heads (P := (·.key ≠ warning.key)) fun f p hp => by simpa using hp)
    (fun st hst => Statement.keeps_heads (hheads st hst)) hbefore).1
  have hfiled : w.store.Filed := (Moment.during h ha hv).built.filed
  have hnone : w.store.storedClauses warning.key = [] := by
    refine List.eq_nil_iff_forall_not_mem.mpr fun c hc => ?_
    exact hall.storedClauses hc _ (List.mem_cons_self ..) (hfiled.head_of_mem hc)
  refine ⟨hnone, fun search f rest b call' _ he hc hf hcall' hx n => ?_⟩
  have hbuiltin : call'.isBuiltin = false := (Predicate.isBuiltin_of_key (hcall'.trans hkey)).trans hcall
  exact Search.turn_of_no_clauses he hc hx hf hbuiltin (hcall' ▸ hnone) n

/-- A source was read as the query of `p` and nothing else. -/
def isQueryOfP : Except Error Program → Bool
  | .ok ⟨id, [⟨.query [.call ⟨p, []⟩], _⟩]⟩ => [id, p] == ["", "p"]
  | _ => false

/-- A query calls a predicate without clauses. -/
theorem warned_calls_fail_query : ∃ p warnings span, ∃ warning ∈ warnings, (start {}).Accepts "" "query p;" p warnings ∧
    p.statements = [⟨.query [.call ⟨"p", []⟩], span⟩] ∧ warning.key = ⟨"p", 0⟩ ∧
    Search.turn {} 1 ⟨∅, 0⟩ (.start [.call ⟨"p", []⟩] ∅ 0) =
      some (.goes ⟨∅, 0⟩ (Search.start [.call ⟨"p", []⟩] ∅ 0).counted) := by
  have hreads : isQueryOfP (Program.parse {} "" "query p;") = true := by decide +kernel
  unfold isQueryOfP at hreads
  split at hreads
  · next id p span hparse =>
    simp only [beq_iff_eq, List.cons.injEq, and_true] at hreads
    obtain ⟨rfl, rfl⟩ := hreads
    have hcheck : (⟨"", [⟨.query [.call ⟨"p", []⟩], span⟩]⟩ : Program).check ∅ = .ok [⟨⟨"p", 0⟩, span.start.line⟩] := rfl
    have ha : (start {}).Accepts "" "query p;" _ _ := ⟨hparse, hcheck⟩
    have hv : ((start {}).loading "" "query p;").Visits "query p;" [⟨.query [.call ⟨"p", []⟩], span⟩] ⟨∅, 0⟩
        (some (.start [.call ⟨"p", []⟩] ∅ 0)) := .query rfl .here
    have hfails := warned_calls_fail .start ha (List.mem_singleton.mpr rfl) Store.all_empty hv
    exact ⟨_, _, span, _, List.mem_singleton.mpr rfl, ha, rfl, rfl, hfails.2 _ _ _ _ _ rfl rfl rfl rfl rfl rfl 1⟩
  · cases hreads

/-- The rule was loaded before: proving its body stores the clause that the warning says there is none of. -/
theorem warned_call_succeeds : ∃ s r s' r',
    (start {}).load 20 "" "rule r :- assert p;" = some (.ok (s, r)) ∧
    s.load 20 "" "query r; query p;" = some (.ok (s', r')) ∧
    r'.warnings.map (·.key) = [⟨"p", 0⟩] ∧ r'.results.map (·.solutions.length) = [1, 1] ∧
    (s'.store.storedClauses ⟨"p", 0⟩).length = 1 := by
  have hloads : ((start {}).load 20 "" "rule r :- assert p;").any (fun r => r.toOption.any fun r =>
      (r.1.load 20 "" "query r; query p;").any fun r' => r'.toOption.any fun r' =>
        r'.2.warnings.map (·.key) == [⟨"p", 0⟩] && r'.2.results.map (·.solutions.length) == [1, 1] &&
          (r'.1.store.storedClauses ⟨"p", 0⟩).length == 1) = true := by decide +kernel
  obtain ⟨⟨s, r⟩, h, hloads⟩ := Bounded.exists_of_any hloads
  obtain ⟨⟨s', r'⟩, h', hloads⟩ := Bounded.exists_of_any hloads
  simp only [Bool.and_eq_true, beq_iff_eq] at hloads
  exact ⟨s, r, s', r', h, h', hloads.1.1, hloads.1.2, hloads.2⟩

end Session

end BilingualLogic
