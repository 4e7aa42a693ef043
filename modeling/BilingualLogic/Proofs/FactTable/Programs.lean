import BilingualLogic.Proofs.FactTable.Sorting
import BilingualLogic.Proofs.FactTable.Terms
import BilingualLogic.Proofs.Loading.Admission

/-!
Tables of facts as programs. The source that is made of a table is read as one fact for every row, in the order of the
names, if it is not too long and all values in the rows are terms within the limits; otherwise it is an error.
-/

namespace BilingualLogic

open BilingualLogic.Language Text

namespace Language

/-- Whether a word is a letter or `_` with characters of names behind it. -/
def isIdentifier (w : List Char) : Bool :=
  w.all isNameChar && w.head?.any fun c => Unicode.isLetter c || c == '_'

theorem isName_eq (w : List Char) : isName w = (isIdentifier w && reservedKeywords.all (! ·.spells w)) := rfl

end Language

namespace FactTable

/-- A row of a table with the name that it stands under. -/
abbrev Row := String × Json

/-- The rows of the names one after the other. -/
def rowsOf (table : List (String × List Json)) : List Row :=
  table.flatMap fun m => m.2.map fun row => (m.1, row)

/-- The arguments that a row gives: a row that is no array is a single argument. -/
def Row.arguments (r : Row) : List Json :=
  match r.2 with
  | .array items => items
  | v => [v]

/-- The statement is the fact of the row. -/
def Row.States (r : Row) (s : Statement) : Prop :=
  ∃ as, s.form = .fact ⟨r.1, as⟩ ∧ List.Forall₂ Translates r.arguments as

/-- The table has the names of the members in order, each with the rows of its last member. -/
structure Tabulates (members : List (String × Json)) (table : List (String × List Json)) : Prop where
  ordered : table.Pairwise fun a b => a.1 < b.1
  rows : ∀ name, (table.lookup name).map Json.array = members.reverse.lookup name

theorem sized_arguments {r : Row} {v : Json} (hsized : r.2.Sized) (hv : v ∈ r.arguments) : v.Sized := by
  obtain ⟨name, row⟩ := r
  cases hsized with
  | array hitems => exact hitems v hv
  | _ =>
    obtain rfl := List.mem_singleton.mp hv
    constructor
    all_goals assumption

section Rows

variable {r : Row} {name source : String}

theorem isName_of_nameFault? (hname : isIdentifier name.toList = true) (h : nameFault? name = none) :
    isName name.toList = true := by
  rw [isName_eq, hname, Bool.true_and, List.all_eq_true]
  intro k hk
  rw [Bool.not_eq_true']
  by_contra hspells
  obtain ⟨t, ht, hword⟩ := spells_mem (Bool.of_not_eq_false hspells)
  obtain rfl : t = name := String.toList_injective hword
  have hreserved : k.namesPredicate = false := by simpa using (List.mem_filter.mp hk).2
  have hkeyword := Keyword.ofSpelling?_of_mem ht
  have hfault (b : Bool) : (if b then some (TableFault.invalidName t)
      else if (some k).any (! ·.namesPredicate) then some (.reservedName t) else none) ≠ none := by
    cases b <;> simp [hreserved]
  rw [nameFault?, hkeyword] at h
  exact hfault _ h

/-- The text of a row. -/
def Row.text (r : Row) : List Char :=
  (Keyword.fact.spelling .latin).toList ++ ' ' :: (r.1.toList
    ++ (if r.arguments.isEmpty then [] else '(' :: (spread ',' shown r.arguments ++ [')'])) ++ [';', '\n'])

theorem factText_ok (h : factText r.1 r.2 = .ok source) :
    source.toList = r.text ∧ ∀ v ∈ r.arguments, ∃ text, termText v = .ok text := by
  obtain ⟨name, row⟩ := r
  have hrow : factText name row = termTexts (Row.arguments (name, row)) >>= fun texts =>
      .ok ("fact " ++ name ++ (if texts.isEmpty then "" else "(" ++ ", ".intercalate texts ++ ")") ++ ";\n") := by
    cases row <;> rfl
  rw [hrow] at h
  cases htexts : termTexts (Row.arguments (name, row)) with
  | error e =>
    rw [htexts] at h
    cases h
  | ok texts =>
    rw [htexts] at h
    cases h
    refine ⟨?_, (termTexts_ok htexts).2⟩
    have hempty : texts.isEmpty = (Row.arguments (name, row)).isEmpty := by
      have hlength := congrArg List.length (termTexts_ok htexts).1
      rw [List.length_map, List.length_map] at hlength
      rw [Bool.eq_iff_iff, List.isEmpty_iff_length_eq_zero, List.isEmpty_iff_length_eq_zero, hlength]
    have hfact : (Keyword.fact.spelling .latin).toList = ['f', 'a', 'c', 't'] := rfl
    simp only [String.toList_append, Row.text, hfact]
    rw [← hempty]
    cases hnone : texts.isEmpty with
    | true => simp
    | false => simp [intercalate_texts htexts]

/-- The source is the fact of the row, where there is room for its values. -/
def Row.Meant (r : Row) (x : Source.Statement) : Prop :=
  x.read.Exactly (fun c => ∀ v ∈ r.arguments, Fits c.maxDepth v) r.States

theorem meant_row {x : Source.Predicate} (hx : x.name = r.1 ∧ List.Forall₂ FactTable.Meant r.arguments x.arguments)
    (s : Span) : r.Meant ⟨s, .fact x⟩ := by
  obtain ⟨name, xs⟩ := x
  obtain ⟨rfl, hxs⟩ := hx
  have hhead : (Source.Predicate.read 0 ⟨r.1, xs⟩).Exactly (fun c => ∀ v ∈ r.arguments, Fits c.maxDepth v) fun p =>
      ∃ as, p = ⟨r.1, as⟩ ∧ List.Forall₂ Translates r.arguments as :=
    (meant_all hxs 0).map fun as has => ⟨as, rfl, has⟩
  refine hhead.map (f := fun p : Predicate => (⟨.fact p, s⟩ : Statement)) ?_
  rintro _ ⟨as, rfl, has⟩
  exact ⟨as, rfl, has⟩

theorem reads_row (hname : isName r.1.toList = true) (hvalues : ∀ v ∈ r.arguments, ReadsValue v) (o : List Char) :
    Solid (r.text ++ o) ∧ Reads true statement (r.text ++ o) o r.Meant := by
  have hends : Blank.skipText ('\n' :: o) = Blank.skipText o := Blank.skipText_blank rfl o
  have hread : ReadItems shown FactTable.Meant r.arguments := fun v hv => ⟨(hvalues v hv).solid, (hvalues v hv).reads⟩
  have hpredicate : Reads true (call .predicate)
      (r.1.toList ++ ((if r.arguments.isEmpty then [] else '(' :: (spread ',' shown r.arguments ++ [')']))
        ++ ';' :: '\n' :: o)) (';' :: '\n' :: o) fun x => ∀ s, r.Meant ⟨s, .fact x⟩ := by
    cases hnone : r.arguments.isEmpty with
    | true =>
      rw [List.isEmpty_iff] at hnone
      exact reads_unapplied hname (meant_row ⟨rfl, hnone ▸ .nil⟩) (endsGoal_semicolon _).endsPredicate
    | false =>
      have happlied := reads_applied (R := fun x => ∀ s, r.Meant ⟨s, .fact x⟩) hname hread
        (List.isEmpty_eq_false_iff.mp hnone) (fun xs hxs => meant_row ⟨rfl, hxs⟩) (';' :: '\n' :: o)
      simpa using happlied
  have htext : r.text ++ o = (Keyword.fact.spelling .latin).toList ++ ' ' :: (r.1.toList
      ++ ((if r.arguments.isEmpty then [] else '(' :: (spread ',' shown r.arguments ++ [')'])) ++ ';' :: '\n' :: o)) := by
    simp [Row.text]
  rw [htext]
  refine ⟨(startsWord_keyword .fact .latin _).solid, ?_⟩
  exact (reads_declaredFact (startsWord_of_isName hname _).solid hpredicate).of_gap hends

end Rows

theorem readStatements_rows {rs : List Row} {xs : List Source.Statement} (h : List.Forall₂ Row.Meant rs xs)
    (c : Source.Context) (n : Nat) (done : List Statement) :
    ((∀ r ∈ rs, ∀ v ∈ r.arguments, Fits c.maxDepth v) →
      ∃ ss, Source.readStatements c n done xs = .ok (done.reverse ++ ss) ∧ List.Forall₂ Row.States rs ss) ∧
    (¬ (∀ r ∈ rs, ∀ v ∈ r.arguments, Fits c.maxDepth v) → ∀ ss, Source.readStatements c n done xs ≠ .ok ss) := by
  induction h generalizing n done with
  | nil => exact ⟨fun _ => ⟨[], by rw [List.append_nil]; rfl, .nil⟩, fun hno => absurd (by simp) hno⟩
  | @cons r x rs xs hx _ ih =>
    rw [Source.readStatements_cons, List.forall_mem_cons]
    by_cases hr : ∀ v ∈ r.arguments, Fits c.maxDepth v
    · obtain ⟨s, hs, hstates⟩ := (hx c n).1 hr
      rw [hs]
      obtain ⟨hyes, hno⟩ := ih n (s :: done)
      refine ⟨fun hall => ?_, fun hnot => hno fun hall => hnot ⟨hr, hall⟩⟩
      obtain ⟨ss, hss, hrest⟩ := hyes hall.2
      rw [List.reverse_cons, List.append_assoc] at hss
      exact ⟨s :: ss, hss, .cons hstates hrest⟩
    · refine ⟨fun hall => absurd hall.1 hr, fun _ ss hss => ?_⟩
      cases hread : x.read c n with
      | error e =>
        rw [hread] at hss
        cases hss
      | ok y => exact (hx c n).2 hr y hread

/-- The text of rows is a program if it is not too long and there is room for all values, and an error otherwise. -/
theorem parse_rows {rs : List Row} {source : String} (hsource : source.toList = rs.flatMap Row.text)
    (hrows : ∀ r ∈ rs, isName r.1.toList = true ∧ ∀ v ∈ r.arguments, ReadsValue v) (limits : Limits) (id : String) :
    ((∃ p, Program.parse limits id source = .ok p) ↔ source.utf8ByteSize ≤ limits.maxFileSize ∧
      ∀ r ∈ rs, ∀ v ∈ r.arguments, Fits limits.maxTermDepth v) ∧
    ∀ p, Program.parse limits id source = .ok p → List.Forall₂ Row.States rs p.statements := by
  have hread : Reads true (call .program) source.toList [] (List.Forall₂ Row.Meant rs) :=
    hsource ▸ reads_statements fun r hr => reads_row (hrows r hr).1 (hrows r hr).2
  obtain ⟨xs, d, hxs, -, hmeant⟩ := hread .start
  have htree : grammar.parse Source.ruleDepth .program source = .ok xs := ranking.parse_ok.mpr ⟨d, hxs⟩
  obtain ⟨hyes, hno⟩ := readStatements_rows hmeant ⟨id, limits.maxTermDepth⟩ 0 []
  have hparse (p : Program) : Program.parse limits id source = .ok p ↔ source.utf8ByteSize ≤ limits.maxFileSize ∧
      p.source = id ∧ Source.readStatements ⟨id, limits.maxTermDepth⟩ 0 [] xs = .ok p.statements := by
    rw [Program.parse_eq_ok_iff, htree]
    constructor
    · rintro ⟨hsize, hid, tree, htree', hstatements⟩
      cases htree'
      exact ⟨hsize, hid, hstatements⟩
    · rintro ⟨hsize, hid, hstatements⟩
      exact ⟨hsize, hid, xs, rfl, hstatements⟩
  refine ⟨⟨?_, ?_⟩, ?_⟩
  · rintro ⟨p, hp⟩
    obtain ⟨hsize, -, hstatements⟩ := (hparse p).mp hp
    refine ⟨hsize, ?_⟩
    by_contra hroom
    exact hno hroom p.statements hstatements
  · rintro ⟨hsize, hroom⟩
    obtain ⟨ss, hss, -⟩ := hyes hroom
    exact ⟨⟨id, ss⟩, (hparse ⟨id, ss⟩).mpr ⟨hsize, rfl, hss⟩⟩
  · intro p hp
    obtain ⟨-, -, hstatements⟩ := (hparse p).mp hp
    by_cases hroom : ∀ r ∈ rs, ∀ v ∈ r.arguments, Fits limits.maxTermDepth v
    · obtain ⟨ss, hss, hstates⟩ := hyes hroom
      rw [hss] at hstatements
      cases hstatements
      exact hstates
    · exact absurd hstatements (hno hroom p.statements)

section Tables

variable {text source name : String} {members : List (String × Json)} {table : List (String × List Json)}

theorem factTexts_ok {rows : List Json} (h : factTexts name rows = .ok source) :
    source.toList = (rows.map fun row => (name, row)).flatMap Row.text ∧
      ∀ row ∈ rows, ∃ text, factText name row = .ok text := by
  induction rows generalizing source with
  | nil =>
    cases h
    simp
  | cons row rows ih =>
    rw [factTexts] at h
    cases hrow : factText name row with
    | error e =>
      rw [hrow] at h
      cases h
    | ok text =>
      cases hrows : factTexts name rows with
      | error e =>
        rw [hrow, hrows] at h
        cases h
      | ok texts =>
        rw [hrow, hrows] at h
        cases h
        obtain ⟨htexts, hall⟩ := ih hrows
        have htext : text.toList = Row.text (name, row) := (factText_ok hrow).1
        exact ⟨by rw [String.toList_append, htext, htexts]; rfl, List.forall_mem_cons.mpr ⟨⟨text, hrow⟩, hall⟩⟩

theorem memberTexts_ok (h : memberTexts members = .ok source) : ∃ table : List (String × List Json),
    members = (table.map fun m => (m.1, Json.array m.2)) ∧ source.toList = (rowsOf table).flatMap Row.text ∧
      ∀ m ∈ table, nameFault? m.1 = none ∧ ∀ row ∈ m.2, ∃ text, factText m.1 row = .ok text := by
  induction members generalizing source with
  | nil =>
    cases h
    exact ⟨[], rfl, rfl, by simp⟩
  | cons m members ih =>
    obtain ⟨name, value⟩ := m
    unfold memberTexts at h
    split at h
    · cases h
    · next rows hname =>
      cases hrows : factTexts name rows with
      | error e =>
        rw [hrows] at h
        cases h
      | ok text =>
        cases hrest : memberTexts members with
        | error e =>
          rw [hrows, hrest] at h
          cases h
        | ok texts =>
          rw [hrows, hrest] at h
          cases h
          obtain ⟨table, rfl, htexts, hall⟩ := ih hrest
          obtain ⟨htext, hfacts⟩ := factTexts_ok hrows
          refine ⟨(name, rows) :: table, rfl, ?_, List.forall_mem_cons.mpr ⟨⟨hname, hfacts⟩, hall⟩⟩
          rw [String.toList_append, htext, htexts, ← List.flatMap_append]
          rfl
    · cases h

/-- An array of rows that are written is as it was before its objects were sorted. -/
theorem sorted_of_rows {w : Json} {rows : List Json} (hsized : w.Sized) (hw : sorted w = .array rows)
    (hrows : ∀ row ∈ rows, ∃ text, factText name row = .ok text) : w = .array rows := by
  cases hsized with
  | @array items hitems =>
    rw [sorted, sortedAll_eq] at hw
    cases hw
    have hsame : items.map sorted = items := by
      refine (List.map_congr_left fun v hv => ?_).trans (List.map_id' _)
      obtain ⟨text, htext⟩ := hrows (sorted v) (List.mem_map_of_mem hv)
      exact sorted_of_factText (hitems v hv) htext
    rw [hsame]
  | _ => cases hw

theorem tabulates_of_sorted (hsized : Json.Sized (.object members))
    (hsorted : sorted (.object members) = .object (table.map fun m => (m.1, .array m.2)))
    (hrows : ∀ m ∈ table, ∀ row ∈ m.2, ∃ text, factText m.1 row = .ok text) : Tabulates members table := by
  obtain ⟨hascending, hlookup⟩ := Json.foldl_insertMember (sortedMembers members) [] .nil
  rw [sorted, Json.sortedObject, Json.object.injEq] at hsorted
  rw [hsorted] at hascending hlookup
  rw [Json.Ascending, List.pairwise_map] at hascending
  refine ⟨hascending, fun name => ?_⟩
  have hname := hlookup name
  rw [Json.lookup_map, sortedMembers_eq, ← List.map_reverse, Json.lookup_map, List.lookup_nil, Option.or_none] at hname
  cases hlast : members.reverse.lookup name with
  | none => rw [hname, hlast, Option.map_none]
  | some w =>
    rw [hlast, Option.map_some] at hname
    obtain ⟨rows, htable, hw⟩ := Option.map_eq_some_iff.mp hname
    have hmember : (name, w) ∈ members := List.mem_reverse.mp (Json.mem_of_lookup hlast)
    cases hsized with
    | object hall =>
      have hsame : w = .array rows := sorted_of_rows (hall _ hmember) hw.symm (hrows _ (Json.mem_of_lookup htable))
      rw [hname, ← hw, hsame]

/-- What is made of a text is the text of the rows of its table, all of which are read where they are written. -/
theorem toSource_ok (h : toSource text = .ok source) : ∃ members table,
    Json.parse? maxNesting text = some (.object members) ∧ Tabulates members table ∧
      source.toList = (rowsOf table).flatMap Row.text ∧
        (∀ m ∈ table, nameFault? m.1 = none) ∧ ∀ r ∈ rowsOf table, ∀ v ∈ r.arguments, ReadsValue v := by
  rw [toSource] at h
  split at h
  · cases h
  · next members' hparse =>
    obtain ⟨v, hv, hsorted⟩ := Option.map_eq_some_iff.mp hparse
    have hsized := Json.parse?_sized hv
    obtain ⟨table, rfl, hsource, hall⟩ := memberTexts_ok h
    obtain ⟨members, rfl⟩ : ∃ members, v = .object members := by
      cases hsized with
      | @object members _ => exact ⟨members, rfl⟩
      | _ => cases hsorted
    have htable := tabulates_of_sorted hsized hsorted fun m hm => (hall m hm).2
    refine ⟨members, table, hv, htable, hsource, fun m hm => (hall m hm).1, fun r hr v hv => ?_⟩
    obtain ⟨⟨name, rows⟩, hm, hr⟩ := List.mem_flatMap.mp hr
    obtain ⟨row, hrow, rfl⟩ := List.mem_map.mp hr
    have hlast := htable.rows name
    rw [Json.lookup_of_mem htable.ordered hm, Option.map_some] at hlast
    have hmember : (name, Json.array rows) ∈ members := List.mem_reverse.mp (Json.mem_of_lookup hlast.symm)
    obtain ⟨text, htext⟩ := (hall _ hm).2 row hrow
    obtain ⟨valueText, hvalue⟩ := (factText_ok (r := (name, row)) htext).2 v hv
    refine readsValue ?_ hvalue
    cases hsized with
    | object hmembers =>
      have hrows : Json.Sized (.array rows) := hmembers _ hmember
      cases hrows with
      | array hrows => exact sized_arguments (hrows row hrow) hv
  · cases h

/-- Under the default limits the source that is made of a table whose names are identifiers is read if it has at most
five megabytes, the values in the rows nest at most a hundred levels deep, and their numbers are in the range of
decimals. It is read as one fact for every row, in the order of the names, and as nothing else. -/
theorem parse_toSource (h : toSource text = .ok source) (id : String) : ∃ members table,
    Json.parse? maxNesting text = some (.object members) ∧ Tabulates members table ∧
      ((∀ m ∈ table, isIdentifier m.1.toList = true) →
        ((∃ p, Program.parse {} id source = .ok p) ↔ source.utf8ByteSize ≤ 5 * 1024 * 1024 ∧
          ∀ r ∈ rowsOf table, ∀ v ∈ r.arguments, Fits 100 v) ∧
        ∀ p, Program.parse {} id source = .ok p → List.Forall₂ Row.States (rowsOf table) p.statements) := by
  obtain ⟨members, table, hjson, htable, hsource, hfaults, hvalues⟩ := toSource_ok h
  refine ⟨members, table, hjson, htable, fun hnames => ?_⟩
  have hrows : ∀ r ∈ rowsOf table, isName r.1.toList = true ∧ ∀ v ∈ r.arguments, ReadsValue v := by
    intro r hr
    obtain ⟨m, hm, hr'⟩ := List.mem_flatMap.mp hr
    obtain ⟨row, -, rfl⟩ := List.mem_map.mp hr'
    exact ⟨isName_of_nameFault? (hnames m hm) (hfaults m hm), hvalues _ hr⟩
  exact parse_rows hsource hrows {} id

/-- Two names, the later one written first, with a fraction and a text that has a quote in it. -/
theorem parse_toSource_two_names : toSource "\x7b\"q\": [\"\\\"\"], \"p\": [2.5, []]\x7d" =
      .ok "fact p(2.5);\nfact p;\nfact q(\"\\\"\");\n" ∧
    ∃ members table,
      Json.parse? maxNesting "\x7b\"q\": [\"\\\"\"], \"p\": [2.5, []]\x7d" = some (.object members) ∧
      Tabulates members table ∧ ((∀ m ∈ table, isIdentifier m.1.toList = true) →
        ((∃ p, Program.parse {} "" "fact p(2.5);\nfact p;\nfact q(\"\\\"\");\n" = .ok p) ↔
          "fact p(2.5);\nfact p;\nfact q(\"\\\"\");\n".utf8ByteSize ≤ 5 * 1024 * 1024 ∧
            ∀ r ∈ rowsOf table, ∀ v ∈ r.arguments, Fits 100 v) ∧
        ∀ p, Program.parse {} "" "fact p(2.5);\nfact p;\nfact q(\"\\\"\");\n" = .ok p →
          List.Forall₂ Row.States (rowsOf table) p.statements) := by
  have h : toSource "\x7b\"q\": [\"\\\"\"], \"p\": [2.5, []]\x7d" =
      .ok "fact p(2.5);\nfact p;\nfact q(\"\\\"\");\n" := Except.toOption_eq_some_iff.mp (by decide +kernel)
  exact ⟨h, parse_toSource h ""⟩

/-- A number that no decimal has room for is written all the same, and is not read. -/
theorem toSource_out_of_range : toSource "\x7b\"p\": [1e30]\x7d" = .ok "fact p(1e+30);\n" ∧
    ¬ ∃ p, Program.parse {} "" "fact p(1e+30);\n" = .ok p := by
  refine ⟨Except.toOption_eq_some_iff.mp (by decide +kernel), ?_⟩
  have hnone : (Program.parse {} "" "fact p(1e+30);\n").toOption.isNone = true := by decide +kernel
  rintro ⟨p, hp⟩
  rw [hp] at hnone
  cases hnone

end Tables

end FactTable

end BilingualLogic
