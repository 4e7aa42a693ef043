import Mathlib.Data.String.Basic
import BilingualLogic.Proofs.FactTable.Export

/-!
Facts that are exported and loaded again. What tables hold without loss comes back predicate by predicate, in order and
loosely equal, if the source that is made of the table is not too long.
-/

namespace BilingualLogic

namespace FactTable

/-- The row is read as a fact that may be stored, where terms nest at most `d` levels deep. -/
structure Row.Loadable (d : Nat) (r : Row) : Prop where
  name : Language.isName r.1.toList = true
  reads : ∀ v ∈ r.arguments, ReadsValue v
  fits : ∀ v ∈ r.arguments, FactTable.Fits d v
  callable : ∀ head : Predicate, head.key = r.key → head.isBuiltin = false

/-- The clause is a fact of the row. -/
def Row.Yields (r : Row) (c : Clause) : Prop :=
  ∃ as, c = ⟨⟨r.1, as⟩, []⟩ ∧ List.Forall₂ Translates r.arguments as

end FactTable

namespace Session

open FactTable

variable {rs : List Row} {sts : List Statement} {n : Nat} {code : String}

theorem key_of_yields {r : Row} {c : Clause} (h : r.Yields c) : c.head.key = r.key := by
  obtain ⟨as, rfl, has⟩ := h
  simp [Predicate.key, Row.key, has.length_eq]

theorem clauses_add (s : Store) (c : Clause) (k : Key) :
    (s.add c).clauses k = if k = c.head.key then s.clauses k ++ [c] else s.clauses k := by
  rw [Store.clauses, Store.storedClauses_add]
  split <;> simp [Store.clauses]

theorem executeAll_rows (h : List.Forall₂ Row.States rs sts) (s : Session) (r : Response) :
    ∃ s' r', executeAll n code s r sts = some (s', r') ∧ s'.limits = s.limits ∧
      ∀ k, ∃ cs, s'.store.clauses k = s.store.clauses k ++ cs ∧ List.Forall₂ Row.Yields (rs.filter (·.key = k)) cs := by
  induction h generalizing s r with
  | nil => exact ⟨s, _, rfl, rfl, fun k => ⟨[], (List.append_nil _).symm, .nil⟩⟩
  | @cons row st rs sts hst _ ih =>
    obtain ⟨as, hform, has⟩ := hst
    have hyields : row.Yields ⟨⟨row.1, as⟩, []⟩ := ⟨as, rfl, has⟩
    have hexecute : execute n code s r st = some (s.add ⟨⟨row.1, as⟩, []⟩, r) := by rw [execute, hform]
    obtain ⟨s', r', hs', hlimits, hclauses⟩ := ih (s.add ⟨⟨row.1, as⟩, []⟩) r
    refine ⟨s', r', by rw [executeAll, hexecute]; exact hs', hlimits, fun k => ?_⟩
    obtain ⟨cs, hcs, hrows⟩ := hclauses k
    have hadd : (s.add ⟨⟨row.1, as⟩, []⟩).store.clauses k =
        if k = row.key then s.store.clauses k ++ [⟨⟨row.1, as⟩, []⟩] else s.store.clauses k := by
      rw [← key_of_yields hyields]
      exact clauses_add _ _ _
    rw [hadd] at hcs
    by_cases hk : row.key = k
    · rw [if_pos hk.symm, List.append_assoc] at hcs
      exact ⟨_, hcs, by rw [List.filter_cons_of_pos (by simpa using hk)]; exact .cons hyields hrows⟩
    · rw [if_neg (Ne.symm hk)] at hcs
      exact ⟨cs, hcs, by rw [List.filter_cons_of_neg (by simpa using hk)]; exact hrows⟩

theorem statement_faults {r : Row} {st : Statement} (h : r.States st)
    (hbuiltin : ∀ head : Predicate, head.key = r.key → head.isBuiltin = false) :
    st.headFaults = [] ∧ st.goalFaults = [] := by
  obtain ⟨as, hform, has⟩ := h
  have hhead : (⟨r.1, as⟩ : Predicate).isBuiltin = false := hbuiltin _ (key_of_yields ⟨as, rfl, has⟩)
  have hlist : (⟨r.1, as⟩ : Predicate).listKeyword? = none := by
    rw [Predicate.isBuiltin, Bool.or_eq_false_iff] at hhead
    simpa using hhead.1
  constructor
  · simp [Statement.headFaults, Statement.heads, hform, hlist]
  · simp [Statement.goalFaults, Statement.goals, hform, Goal.allSubgoals]

theorem all_faults (h : List.Forall₂ Row.States rs sts)
    (hbuiltin : ∀ r ∈ rs, ∀ head : Predicate, head.key = r.key → head.isBuiltin = false) :
    ∀ st ∈ sts, st.headFaults = [] ∧ st.goalFaults = [] := by
  induction h with
  | nil => simp
  | cons hst _ ih =>
    obtain ⟨hr, hrs⟩ := List.forall_mem_cons.mp hbuiltin
    exact List.forall_mem_cons.mpr ⟨statement_faults hst hr, ih hrs⟩

theorem faults_of_rows {p : Program} (h : List.Forall₂ Row.States rs p.statements)
    (hbuiltin : ∀ r ∈ rs, ∀ head : Predicate, head.key = r.key → head.isBuiltin = false) : p.faults = [] := by
  have hall := all_faults h hbuiltin
  simp only [Program.faults, List.append_eq_nil_iff, List.flatMap_eq_nil_iff, List.map_eq_nil_iff]
  exact ⟨fun st hst => (hall st hst).1, fun st hst => (hall st hst).2⟩

theorem load_rows {source : String} (hsource : source.toList = rs.flatMap Row.text) (s : Session)
    (hrows : ∀ r ∈ rs, r.Loadable s.limits.maxTermDepth) (hsize : source.utf8ByteSize ≤ s.limits.maxFileSize) (n : Nat)
    (id : String) : ∃ s' r', s.load n id source = some (.ok (s', r')) ∧ s'.limits = s.limits ∧
      ∀ k, ∃ cs, s'.store.clauses k = s.store.clauses k ++ cs ∧ List.Forall₂ Row.Yields (rs.filter (·.key = k)) cs := by
  obtain ⟨hreads, hstates⟩ := parse_rows hsource (fun r hr => ⟨(hrows r hr).name, (hrows r hr).reads⟩) s.limits id
  obtain ⟨p, hp⟩ := hreads.mpr ⟨hsize, fun r hr => (hrows r hr).fits⟩
  obtain ⟨ws, hcheck⟩ :=
    Program.check_eq_ok_iff.mpr (faults_of_rows (hstates p hp) fun r hr => (hrows r hr).callable)
  obtain ⟨s', r', hs', hlimits, hclauses⟩ :=
    executeAll_rows (n := n) (hstates p hp) (s.loading id source) ⟨id, [], [], ws⟩
  refine ⟨s', r', ?_, hlimits, hclauses⟩
  rw [load_of_accepts ⟨hp, hcheck⟩, hs', Option.map_some]

theorem load_of_size {s : Session} {source : String} (h : s.limits.maxFileSize < source.utf8ByteSize) (n : Nat)
    (id : String) : s.load n id source =
      some (.error (.limit (.fileSize s.limits.maxFileSize source.utf8ByteSize))) := by
  rw [load, Program.parse, if_pos h]

end Session

namespace FactTable

section Loaded

variable {limits : Limits} {s : Session}

theorem mem_tableFacts (hs : s.store.Filed) {p : Predicate} : p ∈ s.store.tableFacts ↔ p ∈ s.store.groundFacts p.key := by
  rw [← hs.groundFacts, List.mem_filter]
  simp

theorem head_of_groundFact {R : Clause → Prop} (h : s.store.All R) {k : Key} {p : Predicate}
    (hp : p ∈ s.store.groundFacts k) : ∃ c, R c ∧ c.head = p := by
  rw [Store.groundFacts_eq] at hp
  obtain ⟨c, hc, rfl⟩ := List.mem_map.mp hp
  exact ⟨c.clause, h.storedClauses (List.mem_of_mem_filter hc), rfl⟩

/-- What is made of the table of a store that loading has led to is the text of its facts, predicate by predicate in
order, and may be loaded. -/
theorem toSource_export (hs : Session.Loaded limits s) (hfacts : ∀ k, ∀ p ∈ s.store.groundFacts k, p.Tabular) :
    Json.parse? maxNesting (ofStore s.store).compact = some (ofStore s.store) ∧ ∃ (source : String) (rs : List Row),
      (∀ text, Json.parse? maxNesting text = some (ofStore s.store) → toSource text = .ok source) ∧
      source.toList = rs.flatMap Row.text ∧ (∀ r ∈ rs, r.Loadable ({} : Limits).maxTermDepth) ∧
      ∀ k, rs.filter (·.key = k) = (s.store.groundFacts k).map toRow := by
  have hfiled : s.store.Filed := hs.built.filed
  have htabular (p) (hp : p ∈ s.store.tableFacts) : p.Tabular := hfacts p.key p ((mem_tableFacts hfiled).mp hp)
  have hname {k} (p) (hp : p ∈ s.store.groundFacts k) : p.HasName := by
    obtain ⟨c, hc, rfl⟩ := head_of_groundFact hs.hasName hp
    exact hc c.head (List.mem_cons_self ..)
  have hcallable {k} (p) (hp : p ∈ s.store.groundFacts k) : p.isBuiltin = false := by
    obtain ⟨c, hc, rfl⟩ := head_of_groundFact hs.notBuiltin hp
    exact hc c.head (List.mem_cons_self ..)
  have hcompact := Json.parse?_compact (exact_ofStore hfiled fun p hp => (htabular p hp).arguments)
  obtain ⟨source, hsource⟩ := toSource_ofStore hfiled
    (fun p hp => nameFault?_of_isName (hname p ((mem_tableFacts hfiled).mp hp)) (htabular p hp).name)
    fun p hp t ht => ((htabular p hp).arguments t ht).1
  obtain ⟨members, table, hjson, htable, hlist, -, hvalues⟩ := toSource_ok (hsource _ hcompact)
  rw [hcompact, Option.some.injEq] at hjson
  have hrows := rowsOf_ofStore hfiled hjson htable
  refine ⟨hcompact, source, rowsOf table, hsource, hlist, fun r hr => ?_, hrows⟩
  have hmem : r ∈ (s.store.groundFacts r.key).map toRow := by
    rw [← hrows]
    exact List.mem_filter.mpr ⟨hr, by simp⟩
  obtain ⟨p, hp, rfl⟩ := List.mem_map.mp hmem
  refine ⟨hname p hp, hvalues _ hr, List.forall_mem_map.mpr fun t ht => ?_, fun head hhead => ?_⟩
  · obtain ⟨ht, hdepth⟩ := (hfacts _ p hp).arguments t ht
    exact fits_tabular ht hdepth
  · rw [Predicate.isBuiltin_of_key (hhead.trans (key_toRow p)), hcallable p hp]

theorem loose_of_yields {p : Predicate} {c : Clause} (hp : p.Tabular) (h : (toRow p).Yields c) :
    c.body = [] ∧ p.loose c.head = true := by
  obtain ⟨as, rfl, has⟩ := h
  have hloose : Term.looseAll p.arguments as = true :=
    looseAll_of_forall (fun t ht u hu => loose_tabular (hp.arguments t ht).1 hu) has
  refine ⟨rfl, ?_⟩
  rw [Predicate.loose, hloose, Bool.and_true]
  exact beq_self_eq_true p.name

/-- Facts that tables hold without loss are written to a table, and the source that is made of it is loaded in a session
of its own if it has at most five megabytes. It then defines, for every name and number of arguments, as many facts as
there were, in their order and loosely equal. -/
theorem load_export (hs : Session.Loaded limits s) (hfacts : ∀ k, ∀ p ∈ s.store.groundFacts k, p.Tabular) :
    Json.parse? maxNesting (ofStore s.store).compact = some (ofStore s.store) ∧ ∃ source : String,
      (∀ text, Json.parse? maxNesting text = some (ofStore s.store) → toSource text = .ok source) ∧
      (source.utf8ByteSize ≤ 5 * 1024 * 1024 → ∀ n id, ∃ s' r,
        (Session.start {}).load n id source = some (.ok (s', r)) ∧
          ∀ k, List.Forall₂ (fun p c => c.body = [] ∧ p.loose c.head = true) (s.store.groundFacts k)
            (s'.store.clauses k)) ∧
      (5 * 1024 * 1024 < source.utf8ByteSize → ∀ n id, (Session.start {}).load n id source =
        some (.error (.limit (.fileSize (5 * 1024 * 1024) source.utf8ByteSize)))) := by
  obtain ⟨hcompact, source, rs, hsource, hlist, hloadable, hrows⟩ := toSource_export hs hfacts
  refine ⟨hcompact, source, hsource, fun hsize n id => ?_, fun hsize n id => Session.load_of_size hsize n id⟩
  obtain ⟨s', r, hload, -, hclauses⟩ := Session.load_rows hlist (Session.start {}) hloadable hsize n id
  refine ⟨s', r, hload, fun k => ?_⟩
  obtain ⟨cs, hcs, hyields⟩ := hclauses k
  have hnew : s'.store.clauses k = cs := hcs
  rw [hrows, List.forall₂_map_left_iff] at hyields
  rw [hnew]
  exact ((List.forall₂_and_left _ _).mpr ⟨hfacts k, hyields⟩).imp fun p c h => loose_of_yields h.1 h.2

/-- One name with two numbers of arguments, an atom and a text that come back as texts, and a fact with a variable. -/
theorem load_export_two_arities : ∃ s r,
    (Session.start {}).load 2 "" "fact p(a, \"5\"); fact q(?X); fact p([7, true]); fact p(b, 5.0);" = some (.ok (s, r)) ∧
    (s.store.groundFacts ⟨"p", 2⟩).length = 2 ∧
    (∀ k, ∀ p ∈ s.store.groundFacts k, p.Tabular) ∧
    Json.parse? maxNesting (ofStore s.store).compact = some (ofStore s.store) ∧ ∃ source : String,
      (∀ text, Json.parse? maxNesting text = some (ofStore s.store) → toSource text = .ok source) ∧
      (source.utf8ByteSize ≤ 5 * 1024 * 1024 → ∀ n id, ∃ s' r,
        (Session.start {}).load n id source = some (.ok (s', r)) ∧
          ∀ k, List.Forall₂ (fun p c => c.body = [] ∧ p.loose c.head = true) (s.store.groundFacts k)
            (s'.store.clauses k)) ∧
      (5 * 1024 * 1024 < source.utf8ByteSize → ∀ n id, (Session.start {}).load n id source =
        some (.error (.limit (.fileSize (5 * 1024 * 1024) source.utf8ByteSize)))) := by
  have hload : ((Session.start {}).load 2 "" "fact p(a, \"5\"); fact q(?X); fact p([7, true]); fact p(b, 5.0);").any
      (fun r => r.toOption.any fun r => (r.1.store.groundFacts ⟨"p", 2⟩).length == 2 &&
        r.1.store.tableFacts.all fun p => decide p.Tabular) = true := by decide +kernel
  obtain ⟨⟨s, r⟩, h, htest⟩ := Bounded.exists_of_any hload
  obtain ⟨hlength, htabular⟩ := Bool.and_eq_true_iff.mp htest
  have hs : Session.Loaded {} s := .load .start h
  have hfacts : ∀ k, ∀ p ∈ s.store.groundFacts k, p.Tabular := by
    intro k p hp
    rw [← hs.built.filed.groundFacts] at hp
    exact of_decide_eq_true (List.all_eq_true.mp htabular p (List.mem_of_mem_filter hp))
  exact ⟨s, r, h, beq_iff_eq.mp hlength, hfacts, load_export hs hfacts⟩

end Loaded

section Letters

/-- A fact with a text of `n` letters. -/
def lettersFact (n : Nat) : Predicate := ⟨"p", [.const (.text (String.ofList (List.replicate n 'a')))]⟩

def lettersSource (n : Nat) : String := "fact p(\"" ++ String.ofList (List.replicate n 'a') ++ "\");\n"

theorem utf8Len_replicate (n : Nat) : String.utf8Len (List.replicate n 'a') = n := by
  induction n with
  | zero => rfl
  | succ n ih =>
    rw [List.replicate_succ, String.utf8Len_cons, ih]
    rfl

theorem size_lettersSource (n : Nat) : (lettersSource n).utf8ByteSize = n + 12 := by
  have hfront : "fact p(\"".utf8ByteSize = 8 := rfl
  have hback : "\");\n".utf8ByteSize = 4 := rfl
  rw [lettersSource, String.utf8ByteSize_append, String.utf8ByteSize_append,
    String.utf8ByteSize_ofList (List.replicate n 'a'), utf8Len_replicate, hfront, hback]
  omega

theorem toRow_letters (n : Nat) :
    toRow (lettersFact n) = ("p", .array [.string (String.ofList (List.replicate n 'a'))]) := by
  simp [toRow, lettersFact, Term.toJson, Value.toJson]

theorem toList_lettersSource (n : Nat) : (lettersSource n).toList = (toRow (lettersFact n)).text := by
  have hescaped : (List.replicate n 'a').flatMap escaped = List.replicate n 'a' := by
    induction n with
    | zero => rfl
    | succ n ih =>
      rw [List.replicate_succ, List.flatMap_cons, ih]
      rfl
  have hshown : shown (.string (String.ofList (List.replicate n 'a'))) = '"' :: (List.replicate n 'a' ++ ['"']) := by
    rw [shown, termText]
    simp [hescaped]
  have hfact : (Keyword.fact.spelling .latin).toList = ['f', 'a', 'c', 't'] := rfl
  rw [toRow_letters]
  simp [Row.text, Row.arguments, Language.spread, hshown, hfact, lettersSource]

theorem tabular_letters (n : Nat) : (lettersFact n).Tabular where
  name := (by decide : IsPlainName "p")
  arguments := by simp [lettersFact, Term.Tabular.text, Term.depth]

theorem loadable_letters (n : Nat) : (toRow (lettersFact n)).Loadable 100 := by
  rw [toRow_letters]
  exact {
    name := (by decide : Language.isName "p".toList = true)
    reads := List.forall_mem_singleton.mpr (readsValue_string _)
    fits := List.forall_mem_singleton.mpr (.string 99 _)
    callable := fun head hhead => by
      have hsame : head.key = (⟨"p", [.var "X"]⟩ : Predicate).key := hhead
      rw [Predicate.isBuiltin_of_key hsame]
      rfl }

theorem eq_of_yields_letters {n : Nat} {c : Clause} (h : (toRow (lettersFact n)).Yields c) : c = ⟨lettersFact n, []⟩ := by
  rw [toRow_letters] at h
  obtain ⟨as, rfl, has⟩ := h
  cases has with
  | cons htext hnil =>
    cases hnil
    cases htext
    rfl

theorem load_letters {s : Session} (hlimits : s.limits = {}) {n : Nat} (hn : n + 12 ≤ 5 * 1024 * 1024) (m : Nat)
    (id : String) : ∃ s' r, s.load m id (lettersSource n) = some (.ok (s', r)) ∧ s'.limits = {} ∧
      ∀ k, s'.store.clauses k = s.store.clauses k ++ if (lettersFact n).key = k then [⟨lettersFact n, []⟩] else [] := by
  have hsource : (lettersSource n).toList = [toRow (lettersFact n)].flatMap Row.text := by
    rw [toList_lettersSource, List.flatMap_singleton]
  obtain ⟨s', r, hload, hsame, hclauses⟩ := Session.load_rows hsource s
    (by rw [hlimits]; exact List.forall_mem_singleton.mpr (loadable_letters n))
    (by rw [hlimits, size_lettersSource]; exact hn) m id
  refine ⟨s', r, hload, hsame.trans hlimits, fun k => ?_⟩
  obtain ⟨cs, hcs, hyields⟩ := hclauses k
  rw [hcs]
  congr 1
  by_cases hk : (lettersFact n).key = k
  · rw [List.filter_cons_of_pos (by rw [key_toRow]; simpa using hk), List.filter_nil] at hyields
    rw [if_pos hk]
    cases hyields with
    | cons hc hnil =>
      cases hnil
      rw [eq_of_yields_letters hc]
  · rw [List.filter_cons_of_neg (by rw [key_toRow]; simpa using hk), List.filter_nil] at hyields
    cases hyields
    rw [if_neg hk]

/-- A source has room for all rows that it is made of. -/
theorem size_le_of_filter {rs : List Row} {source : String} (h : source.toList = rs.flatMap Row.text)
    (f : Row → Bool) : (String.ofList ((rs.filter f).flatMap Row.text)).utf8ByteSize ≤ source.utf8ByteSize := by
  rw [← String.ofList_toList (s := source), h, String.utf8ByteSize_ofList, String.utf8ByteSize_ofList]
  exact String.utf8Len_le_of_sublist (List.filter_sublist.flatMap Row.text)

/-- Twice as many letters may be too long for a source that is made of the table. -/
theorem export_letters {n : Nat} (hn : n + 12 ≤ 5 * 1024 * 1024) (hlong : 5 * 1024 * 1024 < (n + 12) + (n + 12)) :
    ∃ s₁ r₁ s₂ r₂ source,
      (Session.start {}).load 0 "" (lettersSource n) = some (.ok (s₁, r₁)) ∧
      s₁.load 0 "" (lettersSource n) = some (.ok (s₂, r₂)) ∧
      (∀ k, ∀ p ∈ s₂.store.groundFacts k, p.Tabular) ∧
      Json.parse? maxNesting (ofStore s₂.store).compact = some (ofStore s₂.store) ∧
      toSource (ofStore s₂.store).compact = .ok source ∧
      ∀ m id s r, (Session.start {}).load m id source ≠ some (.ok (s, r)) := by
  have hlimits : (Session.start {}).limits = {} := rfl
  obtain ⟨s₁, r₁, hload₁, hlimits₁, hclauses₁⟩ := load_letters hlimits hn 0 ""
  obtain ⟨s₂, r₂, hload₂, -, hclauses₂⟩ := load_letters hlimits₁ hn 0 ""
  have hfacts (k) : s₂.store.groundFacts k =
      if (lettersFact n).key = k then [lettersFact n, lettersFact n] else [] := by
    rw [Store.groundFacts, hclauses₂, hclauses₁]
    split <;> rfl
  have htabular : ∀ k, ∀ p ∈ s₂.store.groundFacts k, p.Tabular := by
    intro k p hp
    rw [hfacts] at hp
    split at hp
    · obtain rfl : p = lettersFact n := by simpa using hp
      exact tabular_letters n
    · cases hp
  have hs₂ : Session.Loaded {} s₂ := .load (.load .start hload₁) hload₂
  obtain ⟨hcompact, source, rs, hsource, hlist, -, hrows⟩ := toSource_export hs₂ htabular
  refine ⟨s₁, r₁, s₂, r₂, source, hload₁, hload₂, htabular, hcompact, hsource _ hcompact, fun m id s r h => ?_⟩
  have hsize := size_le_of_filter hlist (·.key = (lettersFact n).key)
  rw [hrows, hfacts, if_pos rfl] at hsize
  have hboth : [lettersFact n, lettersFact n].map toRow = [toRow (lettersFact n), toRow (lettersFact n)] := rfl
  rw [hboth, List.flatMap_cons, List.flatMap_singleton, ← toList_lettersSource, String.ofList_append,
    String.ofList_toList, String.utf8ByteSize_append, size_lettersSource] at hsize
  rw [Session.load_of_size (hlong.trans_le hsize) m id] at h
  cases h

/-- Two facts of three million letters each can be loaded one after the other, but not what is made of their table. -/
theorem export_not_loaded : ∃ s₁ r₁ s₂ r₂ source,
    (Session.start {}).load 0 "" (lettersSource 3000000) = some (.ok (s₁, r₁)) ∧
    s₁.load 0 "" (lettersSource 3000000) = some (.ok (s₂, r₂)) ∧
    (∀ k, ∀ p ∈ s₂.store.groundFacts k, p.Tabular) ∧
    Json.parse? maxNesting (ofStore s₂.store).compact = some (ofStore s₂.store) ∧
    toSource (ofStore s₂.store).compact = .ok source ∧
    ∀ m id s r, (Session.start {}).load m id source ≠ some (.ok (s, r)) :=
  export_letters (by decide) (by decide)

end Letters

end FactTable

end BilingualLogic
