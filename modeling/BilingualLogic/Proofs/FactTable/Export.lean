import BilingualLogic.Proofs.FactTable.Tabular
import BilingualLogic.Proofs.Restoration.Store

/-!
Tables of the facts of a store. The facts without variables stand under their names in the order of the store, and
where tables hold all of them without loss the table is written as facts again.
-/

namespace BilingualLogic

/-- A fact without variables. -/
def Clause.isGroundFact (c : Clause) : Bool := c.isFact && Term.groundAll c.head.arguments

/-- The facts without variables that the table has, in order. -/
def Table.groundFacts (t : Table) : List Predicate :=
  (t.clauses.filter (·.clause.isGroundFact)).map (·.clause.head)

/-- The facts without variables of a predicate, in the order of the store. -/
def Store.groundFacts (s : Store) (k : Key) : List Predicate :=
  ((s.clauses k).filter Clause.isGroundFact).map (·.head)

/-- All facts without variables, table after table. -/
def Store.tableFacts (s : Store) : List Predicate := s.defined.flatMap Table.groundFacts

namespace FactTable

/-- The row that a fact gives, with its name. -/
def toRow (p : Predicate) : Row := (p.name, .array (p.arguments.map Term.toJson))

/-- The predicate of which the row gives a fact. -/
def Row.key (r : Row) : Key := ⟨r.1, r.arguments.length⟩

theorem key_toRow (p : Predicate) : (toRow p).key = p.key := by
  simp [Row.key, toRow, Row.arguments, Predicate.key]

section Rows

variable {name : String}

/-- The rows that stand under a name. -/
def rowsNamed (table : List (String × List Json)) (name : String) : List Json := (table.lookup name).getD []

theorem rows_eq (t : Table) : rows t = t.groundFacts.map fun p => (toRow p).2 := by
  rw [rows, Table.groundFacts, List.map_map]
  refine Eq.trans ?_ (congrFun List.filterMap_eq_map _)
  rw [List.filterMap_filter]
  rfl

theorem rowsNamed_cons (k : String) (old : List Json) (table : List (String × List Json)) :
    rowsNamed ((k, old) :: table) name = if name = k then old else rowsNamed table name := by
  rw [rowsNamed, Json.lookup_cons_eq]
  split <;> rfl

theorem rowsNamed_addRows (new : List Json) (n : String) (table : List (String × List Json)) :
    rowsNamed (addRows n new table) name = rowsNamed table name ++ if name = n then new else [] := by
  induction table with
  | nil =>
    rw [addRows, rowsNamed_cons]
    rfl
  | cons m table ih =>
    obtain ⟨k, old⟩ := m
    rw [addRows]
    split
    · next hk =>
      rw [rowsNamed_cons, rowsNamed_cons, hk]
      split <;> simp
    · next hk =>
      rw [rowsNamed_cons, rowsNamed_cons, ih]
      split
      · next hname => simp [hname, hk]
      · rfl

theorem keys_addRows (new : List Json) (n : String) (table : List (String × List Json)) :
    (addRows n new table).map Prod.fst =
      if n ∈ table.map Prod.fst then table.map Prod.fst else table.map Prod.fst ++ [n] := by
  induction table with
  | nil => rfl
  | cons m table ih =>
    obtain ⟨k, old⟩ := m
    rw [addRows]
    split
    · next hk => simp [hk]
    · next hk =>
      have hne : n ≠ k := fun heq => hk heq.symm
      rw [List.map_cons, ih]
      simp only [List.map_cons, List.mem_cons, hne, false_or]
      split <;> rfl

/-- Puts the rows of tables behind those that are there, by name. -/
def collect (table : List (String × List Json)) (ts : List Table) : List (String × List Json) :=
  ts.foldl (fun members t =>
    match rows t with
    | [] => members
    | new => addRows t.key.name new members) table

theorem collect_cons (table : List (String × List Json)) (t : Table) (ts : List Table) :
    collect table (t :: ts) = collect (if rows t = [] then table else addRows t.key.name (rows t) table) ts := by
  rw [collect, List.foldl_cons]
  cases rows t <;> rfl

theorem nodup_addRows {table : List (String × List Json)} (h : (table.map Prod.fst).Nodup) (new : List Json)
    (n : String) : ((addRows n new table).map Prod.fst).Nodup := by
  rw [keys_addRows]
  split
  · exact h
  · next hnew =>
    refine List.nodup_append.mpr ⟨h, List.nodup_singleton n, fun k hk l hl heq => hnew ?_⟩
    rw [← List.mem_singleton.mp hl, ← heq]
    exact hk

/-- Every name is there once, with the rows that were there and then those of its tables in order. -/
theorem rowsNamed_collect (table : List (String × List Json)) (h : (table.map Prod.fst).Nodup) (ts : List Table) :
    ((collect table ts).map Prod.fst).Nodup ∧ ∀ name,
      rowsNamed (collect table ts) name = rowsNamed table name ++ (ts.filter (·.key.name = name)).flatMap rows := by
  induction ts generalizing table with
  | nil => exact ⟨h, fun name => (List.append_nil _).symm⟩
  | cons t ts ih =>
    rw [collect_cons]
    by_cases hrows : rows t = []
    · rw [if_pos hrows]
      refine ⟨(ih _ h).1, fun name => ?_⟩
      rw [(ih _ h).2, List.filter_cons]
      split <;> simp [hrows]
    · rw [if_neg hrows]
      obtain ⟨hkeys, hnamed⟩ := ih _ (nodup_addRows h (rows t) t.key.name)
      refine ⟨hkeys, fun name => ?_⟩
      rw [hnamed, rowsNamed_addRows, List.append_assoc, List.filter_cons]
      by_cases hname : t.key.name = name
      · simp [hname]
      · simp [hname, Ne.symm hname]

theorem mem_groundFacts {t : Table} {p : Predicate} (hp : p ∈ t.groundFacts) : ∃ c ∈ t.clauses, c.clause.head = p := by
  obtain ⟨c, hc, rfl⟩ := List.mem_map.mp hp
  exact ⟨c, List.mem_of_mem_filter hc, rfl⟩

theorem filter_groundFacts {t : Table} (h : ∀ c ∈ t.clauses, c.clause.head.key = t.key) (f : Key → Bool) :
    t.groundFacts.filter (fun p => f p.key) = if f t.key then t.groundFacts else [] := by
  have hkey (p) (hp : p ∈ t.groundFacts) : p.key = t.key := by
    obtain ⟨c, hc, rfl⟩ := mem_groundFacts hp
    exact h c hc
  rw [List.filter_congr fun p hp => congrArg f (hkey p hp)]
  cases f t.key <;> simp

theorem rows_of_name {ts : List Table} (h : ∀ t ∈ ts, ∀ c ∈ t.clauses, c.clause.head.key = t.key) (name : String) :
    (ts.filter (·.key.name = name)).flatMap rows =
      ((ts.flatMap Table.groundFacts).filter fun p => decide (p.key.name = name)).map fun p => (toRow p).2 := by
  induction ts with
  | nil => rfl
  | cons t ts ih =>
    obtain ⟨ht, hts⟩ := List.forall_mem_cons.mp h
    rw [List.flatMap_cons, List.filter_append, List.map_append, ← ih hts,
      filter_groundFacts ht fun k => decide (k.name = name), List.filter_cons]
    by_cases hname : t.key.name = name
    · simp [hname, rows_eq]
    · simp [hname]

theorem mem_keys_collect {table : List (String × List Json)} {ts : List Table}
    (h : name ∈ (collect table ts).map Prod.fst) :
    name ∈ table.map Prod.fst ∨ ∃ t ∈ ts, t.key.name = name ∧ rows t ≠ [] := by
  induction ts generalizing table with
  | nil => exact .inl h
  | cons t ts ih =>
    rw [collect_cons] at h
    rcases ih h with hmem | ⟨u, hu, hname⟩
    · split at hmem
      · exact .inl hmem
      · next hrows =>
        rw [keys_addRows] at hmem
        split at hmem
        · exact .inl hmem
        · rcases List.mem_append.mp hmem with hmem | hmem
          · exact .inl hmem
          · exact .inr ⟨t, by simp, (List.mem_singleton.mp hmem).symm, hrows⟩
    · exact .inr ⟨u, List.mem_cons_of_mem _ hu, hname⟩

end Rows

end FactTable

namespace Store

variable {s : Store}

theorem groundFacts_eq (s : Store) (k : Key) : s.groundFacts k =
    ((s.storedClauses k).filter (·.clause.isGroundFact)).map (·.clause.head) := by
  rw [groundFacts, clauses, List.filter_map, List.map_map]
  rfl

theorem tableFacts_eq (s : Store) : s.tableFacts = s.tables.flatMap Table.groundFacts := by
  unfold tableFacts defined
  induction s.tables with
  | nil => rfl
  | cons t ts ih =>
    rw [List.filter_cons, List.flatMap_cons, ← ih]
    split
    · rfl
    · next hempty => simp_all [Table.groundFacts]

theorem Filed.groundFacts (h : s.Filed) (k : Key) :
    s.tableFacts.filter (·.key = k) = s.groundFacts k := by
  rw [tableFacts_eq, groundFacts_eq]
  obtain ⟨tables, nextId⟩ := s
  obtain ⟨hkeys, hheads⟩ := h
  dsimp only at hkeys hheads ⊢
  induction tables with
  | nil => rfl
  | cons t ts ih =>
    rw [List.map_cons, List.nodup_cons] at hkeys
    obtain ⟨ht, hts⟩ := List.forall_mem_cons.mp hheads
    rw [storedClauses_cons, List.flatMap_cons, List.filter_append, FactTable.filter_groundFacts ht fun l => decide (l = k)]
    by_cases hk : t.key = k
    · have hrest : (ts.flatMap Table.groundFacts).filter (·.key = k) = [] := by
        rw [List.filter_eq_nil_iff]
        intro p hp
        obtain ⟨u, hu, hp⟩ := List.mem_flatMap.mp hp
        obtain ⟨c, hc, rfl⟩ := FactTable.mem_groundFacts hp
        rw [hts u hu c hc, decide_eq_true_eq, ← hk]
        exact fun heq => hkeys.1 (heq ▸ List.mem_map_of_mem hu)
      rw [hrest, List.append_nil, if_pos hk, if_pos (decide_eq_true hk)]
      rfl
    · rw [ih hkeys.2 hts, if_neg hk, if_neg (by simpa using hk), List.nil_append]

end Store

namespace FactTable

section Export

variable {s : Store} {name : String}

theorem lookup_reverse {β : Type} {ms : List (String × β)} (h : (ms.map Prod.fst).Nodup) (name : String) :
    ms.reverse.lookup name = ms.lookup name := by
  induction ms with
  | nil => rfl
  | cons m ms ih =>
    obtain ⟨k, u⟩ := m
    rw [List.map_cons, List.nodup_cons] at h
    rw [List.reverse_cons, List.lookup_append, ih h.2, Json.lookup_cons_eq, Json.lookup_cons_eq]
    split
    · next hname =>
      cases hlater : ms.lookup name with
      | none => rfl
      | some w =>
        have hmem : name ∈ ms.map Prod.fst := List.mem_map_of_mem (Json.mem_of_lookup hlater)
        exact absurd (hname ▸ hmem) h.1
    · exact Option.or_none

theorem ofStore_eq (s : Store) : ∃ members, ofStore s = .object members ∧ Json.Ascending members ∧
    ∀ name, members.lookup name = ((collect [] s.defined).lookup name).map Json.array := by
  obtain ⟨hascending, hlookup⟩ :=
    Json.foldl_insertMember ((collect [] s.defined).map fun m => (m.1, Json.array m.2)) [] .nil
  refine ⟨_, rfl, hascending, fun name => ?_⟩
  refine (hlookup name).trans ?_
  rw [List.lookup_nil, Option.or_none, lookup_reverse, Json.lookup_map]
  rw [List.map_map]
  exact (rowsNamed_collect [] .nil s.defined).1

theorem rowsNamed_ofStore (hs : s.Filed) (name : String) : rowsNamed (collect [] s.defined) name =
    (s.tableFacts.filter fun p => decide (p.key.name = name)).map fun p => (toRow p).2 := by
  have hheads : ∀ t ∈ s.defined, ∀ c ∈ t.clauses, c.clause.head.key = t.key := fun t ht =>
    hs.heads t (List.mem_of_mem_filter ht)
  rw [(rowsNamed_collect [] .nil s.defined).2, rows_of_name hheads]
  rfl

theorem exists_fact_of_lookup (hs : s.Filed) {rows : List Json} (h : (collect [] s.defined).lookup name = some rows) :
    (∃ p ∈ s.tableFacts, p.name = name) ∧
      ∀ row ∈ rows, ∃ p ∈ s.tableFacts, row = (toRow p).2 := by
  constructor
  · have hkey : name ∈ (collect [] s.defined).map Prod.fst := List.mem_map_of_mem (Json.mem_of_lookup h)
    rcases mem_keys_collect hkey with hnil | ⟨t, ht, rfl, hrows⟩
    · cases hnil
    · rw [rows_eq, Ne, List.map_eq_nil_iff] at hrows
      obtain ⟨p, hp⟩ := List.exists_mem_of_ne_nil _ hrows
      obtain ⟨c, hc, rfl⟩ := mem_groundFacts hp
      refine ⟨_, List.mem_flatMap.mpr ⟨t, ht, hp⟩, ?_⟩
      rw [← hs.heads t (List.mem_of_mem_filter ht) c hc]
      rfl
  · intro row hrow
    have hrows := rowsNamed_ofStore hs name
    rw [rowsNamed, h, Option.getD_some] at hrows
    rw [hrows] at hrow
    obtain ⟨p, hp, rfl⟩ := List.mem_map.mp hrow
    exact ⟨p, List.mem_of_mem_filter hp, rfl⟩

theorem nodup_of_ascending {β : Type} {ms : List (String × β)} (h : ms.Pairwise fun a b => a.1 < b.1) :
    (ms.map Prod.fst).Nodup := by
  refine List.pairwise_map.mpr (h.imp ?_)
  rintro m l hlt heq
  rw [heq] at hlt
  exact String.lt_irrefl _ hlt

theorem factText_of_tabular {p : Predicate} (h : ∀ t ∈ p.arguments, t.Tabular) (name : String) :
    ∃ text, factText name (toRow p).2 = .ok text := by
  obtain ⟨texts, htexts⟩ := termTexts_of_forall (List.forall_mem_map.mpr fun t ht => termText_tabular (h t ht))
  refine ⟨"fact " ++ name ++ (if texts.isEmpty then "" else "(" ++ ", ".intercalate texts ++ ")") ++ ";\n", ?_⟩
  simp only [factText, toRow, htexts]
  rfl

theorem factTexts_of_forall {rows : List Json} (h : ∀ row ∈ rows, ∃ text, factText name row = .ok text) :
    ∃ source, factTexts name rows = .ok source := by
  induction rows with
  | nil => exact ⟨"", rfl⟩
  | cons row rows ih =>
    obtain ⟨⟨text, htext⟩, hrows⟩ := List.forall_mem_cons.mp h
    obtain ⟨source, hsource⟩ := ih hrows
    refine ⟨text ++ source, ?_⟩
    rw [factTexts, htext, hsource]
    rfl

theorem memberTexts_of_forall {members : List (String × Json)} (h : ∀ m ∈ members, nameFault? m.1 = none ∧
    ∃ rows, m.2 = .array rows ∧ ∀ row ∈ rows, ∃ text, factText m.1 row = .ok text) :
    ∃ source, memberTexts members = .ok source := by
  induction members with
  | nil => exact ⟨"", rfl⟩
  | cons m members ih =>
    obtain ⟨name, v⟩ := m
    obtain ⟨⟨hname, rows, rfl, hrows⟩, hmembers⟩ := List.forall_mem_cons.mp h
    obtain ⟨text, htext⟩ := factTexts_of_forall hrows
    obtain ⟨source, hsource⟩ := ih hmembers
    refine ⟨text ++ source, ?_⟩
    unfold memberTexts
    dsimp only at hname htext
    simp only [hname, htext, hsource]
    rfl

theorem sorted_object {members : List (String × Json)} (h : Json.Ascending members) : ∃ ms,
    sorted (.object members) = .object ms ∧ Json.Ascending ms ∧ ∀ name, ms.lookup name = (members.lookup name).map sorted := by
  obtain ⟨hascending, hlookup⟩ := Json.foldl_insertMember (sortedMembers members) [] .nil
  refine ⟨_, by rw [sorted, Json.sortedObject], hascending, fun name => (hlookup name).trans ?_⟩
  rw [List.lookup_nil, Option.or_none, sortedMembers_eq, ← List.map_reverse, Json.lookup_map,
    lookup_reverse (nodup_of_ascending h)]

/-- The table of a store whose facts have names and values that tables can hold is written as facts. -/
theorem toSource_ofStore (hs : s.Filed) (hnames : ∀ p ∈ s.tableFacts, nameFault? p.name = none)
    (harguments : ∀ p ∈ s.tableFacts, ∀ t ∈ p.arguments, t.Tabular) :
    ∃ source, ∀ text, Json.parse? maxNesting text = some (ofStore s) → toSource text = .ok source := by
  obtain ⟨members, hstore, hmembers, hlookup⟩ := ofStore_eq s
  obtain ⟨ms, hsorted, hascending, hvalues⟩ := sorted_object hmembers
  have hwritten : ∀ m ∈ ms, nameFault? m.1 = none ∧
      ∃ rows, m.2 = .array rows ∧ ∀ row ∈ rows, ∃ text, factText m.1 row = .ok text := by
    intro m hm
    have hmember := (hvalues m.1).symm.trans (Json.lookup_of_mem hascending hm)
    rw [hlookup, Option.map_map, Option.map_eq_some_iff] at hmember
    obtain ⟨rows, hrows, hvalue⟩ := hmember
    obtain ⟨⟨p, hp, hname⟩, hfacts⟩ := exists_fact_of_lookup hs hrows
    have hstable : rows.map sorted = rows := by
      refine (List.map_congr_left fun row hrow => ?_).trans (List.map_id' _)
      obtain ⟨q, hq, rfl⟩ := hfacts row hrow
      have htabular := sorted_tabular (.list (harguments q hq))
      rw [toJson_list] at htabular
      exact htabular
    refine ⟨hname ▸ hnames p hp, rows, ?_, fun row hrow => ?_⟩
    · rw [← hvalue, Function.comp_apply, sorted, sortedAll_eq, hstable]
    · obtain ⟨q, hq, rfl⟩ := hfacts row hrow
      exact factText_of_tabular (harguments q hq) m.1
  obtain ⟨source, hsource⟩ := memberTexts_of_forall hwritten
  refine ⟨source, fun text htext => ?_⟩
  rw [toSource, htext, hstore, Option.map_some, hsorted]
  exact hsource

theorem exact_ofStore (hs : s.Filed)
    (harguments : ∀ p ∈ s.tableFacts, ∀ t ∈ p.arguments, t.Tabular ∧ t.depth ≤ 100) :
    Json.Exact maxNesting (ofStore s) := by
  obtain ⟨members, hstore, hmembers, hlookup⟩ := ofStore_eq s
  rw [hstore]
  refine .object fun m hm => ?_
  have hmember := Json.lookup_of_mem hmembers hm
  rw [hlookup, Option.map_eq_some_iff] at hmember
  obtain ⟨rows, hrows, hvalue⟩ := hmember
  rw [← hvalue]
  refine .array fun row hrow => ?_
  obtain ⟨p, hp, rfl⟩ := (exists_fact_of_lookup hs hrows).2 row hrow
  refine .array (List.forall_mem_map.mpr fun t ht => ?_)
  obtain ⟨htabular, hdepth⟩ := harguments p hp t ht
  exact exact_tabular htabular (hdepth.trans (by decide))

theorem rowsNamed_of_notMem {table : List (String × List Json)} (h : name ∉ table.map Prod.fst) :
    rowsNamed table name = [] := by
  rw [rowsNamed]
  cases hlookup : table.lookup name with
  | none => rfl
  | some rows => exact absurd (List.mem_map_of_mem (Json.mem_of_lookup hlookup)) h

theorem filter_rowsOf {table : List (String × List Json)} (h : (table.map Prod.fst).Nodup) (name : String) :
    (rowsOf table).filter (·.1 = name) = (rowsNamed table name).map fun row => (name, row) := by
  induction table with
  | nil => rfl
  | cons m table ih =>
    obtain ⟨k, rows⟩ := m
    rw [List.map_cons, List.nodup_cons] at h
    rw [rowsOf, List.flatMap_cons, List.filter_append, rowsNamed_cons]
    have hrest := ih h.2
    rw [rowsOf] at hrest
    rw [hrest]
    split
    · next hname =>
      have hnone : rowsNamed table name = [] := rowsNamed_of_notMem (hname ▸ h.1)
      rw [hnone, List.map_nil, List.append_nil, List.filter_eq_self.mpr (by simp [hname]), hname]
    · next hname =>
      rw [List.filter_eq_nil_iff.mpr (by simpa using fun _ _ => Ne.symm hname), List.nil_append]

theorem rowsOf_ofStore (hs : s.Filed) {members : List (String × Json)} {table : List (String × List Json)}
    (hstore : ofStore s = .object members) (htable : Tabulates members table) (k : Key) :
    (rowsOf table).filter (·.key = k) = (s.groundFacts k).map toRow := by
  obtain ⟨members', hstore', hmembers, hlookup⟩ := ofStore_eq s
  obtain rfl : members' = members := Json.object.inj (hstore'.symm.trans hstore)
  have hrows : rowsNamed table k.name = rowsNamed (collect [] s.defined) k.name := by
    have hname := htable.rows k.name
    rw [lookup_reverse (nodup_of_ascending hmembers), hlookup] at hname
    have hinjective : Function.Injective (Option.map Json.array) :=
      Option.map_injective fun _ _ => Json.array.inj
    rw [rowsNamed, rowsNamed, hinjective hname]
  have hkey (r : Row) : decide (r.key = k) = (decide (r.key = k) && decide (r.1 = k.name)) := by
    by_cases hr : r.key = k
    · simp [← hr, Row.key]
    · simp [hr]
  calc (rowsOf table).filter (·.key = k)
      = ((rowsOf table).filter (·.1 = k.name)).filter (·.key = k) := by
        rw [List.filter_filter]
        exact List.filter_congr fun r _ => hkey r
    _ = ((s.tableFacts.filter fun p => decide (p.key.name = k.name)).map toRow).filter (·.key = k) := by
        rw [filter_rowsOf (nodup_of_ascending htable.ordered), hrows, rowsNamed_ofStore hs, List.map_map]
        congr 1
        refine List.map_congr_left fun p hp => ?_
        have hname : p.key.name = k.name := by simpa using List.of_mem_filter hp
        rw [Function.comp_apply, ← hname]
        rfl
    _ = (s.tableFacts.filter (·.key = k)).map toRow := by
        rw [List.filter_map, List.filter_filter]
        congr 1
        refine List.filter_congr fun p _ => ?_
        have hp := hkey (toRow p)
        rw [key_toRow] at hp
        rw [Function.comp_apply, key_toRow]
        exact hp.symm
    _ = (s.groundFacts k).map toRow := by rw [hs.groundFacts]

end Export

end FactTable

end BilingualLogic
