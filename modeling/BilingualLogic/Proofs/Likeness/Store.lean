import BilingualLogic.Proofs.Likeness.Goal
import BilingualLogic.Store

/-!
Stores with the same clauses, but for the names by which bodies call built-in predicates. What is added to both and
removed from both is the same, if the names in the bodies of retracted clauses keep clauses apart.
-/

namespace BilingualLogic

variable {L : Likeness}

theorem Term.length_eq_of_sameAll {as bs : List Term} (h : sameAll as bs = true) : as.length = bs.length := by
  induction as generalizing bs with
  | nil =>
    cases bs with
    | nil => rfl
    | cons b bs => cases h
  | cons a as ih =>
    cases bs with
    | nil => cases h
    | cons b bs =>
      rw [sameAll, Bool.and_eq_true] at h
      rw [List.length_cons, List.length_cons, ih h.2]

namespace Goal

theorem builtinNames_cons (g : Goal) (gs : List Goal) :
    builtinNames (g :: gs) = builtinNames [g] ++ builtinNames gs := by
  simp [builtinNames, allSubgoals]

@[simp] theorem builtinNames_not (gs : List Goal) : builtinNames [.not gs] = builtinNames gs := by
  simp [builtinNames, allSubgoals, subgoals]

@[simp] theorem builtinNames_collect (kind : Collection) (t r : Term) (gs : List Goal) :
    builtinNames [.collect kind t gs r] = builtinNames gs := by
  simp [builtinNames, allSubgoals, subgoals]

@[simp] theorem builtinNames_assert (p : Predicate) (gs : List Goal) :
    builtinNames [.assert p gs] = builtinNames gs := by
  simp [builtinNames, allSubgoals, subgoals]

@[simp] theorem builtinNames_retract (p : Predicate) (gs : List Goal) :
    builtinNames [.retract p gs] = builtinNames gs := by
  simp [builtinNames, allSubgoals, subgoals]

theorem same_called (hL : ∀ x y, L.names x y → x = y)
    (hcalls : ∀ {a b}, L.calls a b → Keyword.ofSpelling? a = Keyword.ofSpelling? b) {p p' q q' : Predicate}
    (hp : p.CalledAlike L p') (hq : q.CalledAlike L q') (hfixed : q.isBuiltin = true → L.Fixed q.name) :
    (p == q) = (p' == q') := by
  change (p.name == q.name && Term.sameAll p.arguments q.arguments) =
    (p'.name == q'.name && Term.sameAll p'.arguments q'.arguments)
  have hps := hp.arguments.length_eq
  have hqs := hq.arguments.length_eq
  rw [Predicate.alike_arguments_eq hL hp.arguments, Predicate.alike_arguments_eq hL hq.arguments]
  cases hsame : Term.sameAll p'.arguments q'.arguments with
  | false => rw [Bool.and_false, Bool.and_false]
  | true =>
    have hlength := Term.length_eq_of_sameAll hsame
    rw [Bool.and_true, Bool.and_true, Bool.beq_eq_decide_eq, Bool.beq_eq_decide_eq, decide_eq_decide]
    by_cases hb : p.isBuiltin = q.isBuiltin
    · cases hq' : q.isBuiltin with
      | true =>
        have h := hfixed hq' q'.name p.name p'.name (hq.builtin hq') (hp.builtin (hb.trans hq'))
        rw [eq_comm, h, eq_comm]
      | false => rw [hp.own (hb.trans hq'), hq.own hq']
    · -- names that make the one call built in and the other not are different
      refine iff_of_false (fun h => hb ?_) (fun h => hb ?_)
      · refine Predicate.isBuiltin_congr (by rw [h]) ?_
        rw [hps, hqs, hlength]
      · rw [hp.isBuiltin_eq hcalls, hq.isBuiltin_eq hcalls]
        exact Predicate.isBuiltin_congr (by rw [h]) hlength

theorem sameAll_of_same {as as' bs bs' : List Goal}
    (has : List.Forall₂ (fun a a' => ∀ {b b' : Goal}, b.Alike L b' → (∀ n ∈ builtinNames [b], L.Fixed n) →
      a.same b = a'.same b') as as')
    (hbs : List.Forall₂ (Alike L) bs bs') (hfixed : ∀ n ∈ builtinNames bs, L.Fixed n) :
    sameAll as bs = sameAll as' bs' := by
  induction has generalizing bs bs' with
  | nil => cases hbs <;> rfl
  | cons h _ ih =>
    cases hbs with
    | nil => rfl
    | cons hb hbs =>
      rw [builtinNames_cons] at hfixed
      obtain ⟨hhead, htail⟩ := List.forall_mem_append.mp hfixed
      rw [sameAll, sameAll, h hb hhead, ih hbs htail]

section Same

variable (hL : ∀ x y, L.names x y → x = y)
  (hcalls : ∀ {a b}, L.calls a b → Keyword.ofSpelling? a = Keyword.ofSpelling? b)

include hL hcalls

theorem Alike.same {a a' b b' : Goal} (ha : a.Alike L a') (hb : b.Alike L b')
    (hfixed : ∀ n ∈ builtinNames [b], L.Fixed n) : a.same b = a'.same b' := by
  have all {as as' bs bs' : List Goal}
      (has : List.Forall₂ (fun a a' => ∃ _ : Alike L a a', ∀ {b b' : Goal}, b.Alike L b' →
        (∀ n ∈ builtinNames [b], L.Fixed n) → a.same b = a'.same b') as as')
      (hbs : List.Forall₂ (Alike L) bs bs') (hfixed : ∀ n ∈ builtinNames bs, L.Fixed n) :
      sameAll as bs = sameAll as' bs' :=
    sameAll_of_same (has.imp fun _ _ h => h.choose_spec) hbs hfixed
  induction ha using Alike.induct generalizing b b' with
  | call hp =>
    cases hb with
    | @call q q' hq =>
      refine same_called hL hcalls hp hq fun hb => hfixed _ ?_
      simp [builtinNames, allSubgoals, subgoals, hb]
    | _ => rfl
  | cut => cases hb <;> rfl
  | not _ ih =>
    cases hb with
    | not hbs => exact all ih hbs fun n hn => hfixed n (by simpa using hn)
    | _ => rfl
  | unify h h' =>
    cases hb with
    | unify hb hb' => rw [h.eq hL, h'.eq hL, hb.eq hL, hb'.eq hL]
    | _ => rfl
  | is h h' =>
    cases hb with
    | is hb hb' => rw [h.eq hL, h'.eq hL, hb.eq hL, hb'.eq hL]
    | _ => rfl
  | compare h h' =>
    cases hb with
    | compare hb hb' => rw [h.eq hL, h'.eq hL, hb.eq hL, hb'.eq hL]
    | _ => rfl
  | collect ht _ hr ih =>
    cases hb with
    | collect ht' hbs hr' =>
      rw [Goal.same, Goal.same, ht.eq hL, ht'.eq hL, hr.eq hL, hr'.eq hL,
        all ih hbs fun n hn => hfixed n (by simpa using hn)]
    | _ => rfl
  | assert hp _ ih =>
    cases hb with
    | assert hq hbs =>
      rw [Goal.same, Goal.same, hp.eq hL, hq.eq hL,
        all ih hbs fun n hn => hfixed n (by simpa using hn)]
    | _ => rfl
  | retract hp _ _ ih =>
    cases hb with
    | retract hq hbs _ =>
      rw [Goal.same, Goal.same, hp.eq hL, hq.eq hL,
        all ih hbs fun n hn => hfixed n (by simpa using hn)]
    | _ => rfl

theorem sameAll_alike {as as' bs bs' : List Goal} (has : List.Forall₂ (Alike L) as as')
    (hbs : List.Forall₂ (Alike L) bs bs') (hfixed : ∀ n ∈ builtinNames bs, L.Fixed n) :
    sameAll as bs = sameAll as' bs' :=
  sameAll_of_same (has.imp fun _ _ h => h.same hL hcalls) hbs hfixed

end Same

end Goal

/-- Clauses with the same number that are alike. -/
structure StoredClause.Alike (L : Likeness) (c d : StoredClause) : Prop where
  id : c.id = d.id
  clause : c.clause.Alike L d.clause

structure Table.Alike (L : Likeness) (t u : Table) : Prop where
  key : t.key = u.key
  clauses : List.Forall₂ (StoredClause.Alike L) t.clauses u.clauses

namespace Store

structure Alike (L : Likeness) (s s' : Store) : Prop where
  tables : List.Forall₂ (Table.Alike L) s.tables s'.tables
  nextId : s.nextId = s'.nextId

variable {s s' : Store}

theorem alike_empty : Alike L ∅ ∅ := ⟨.nil, rfl⟩

theorem alike_self (htexts : ∀ content, L.texts content) (hcalls : L.calls = Eq)
    (h : s.VarsIn fun x => L.names x x) : s.Alike L s :=
  ⟨List.forall₂_same.mpr fun t ht => ⟨rfl, List.forall₂_same.mpr fun c hc =>
    ⟨rfl, Clause.alike_self htexts hcalls (h t ht c hc)⟩⟩, rfl⟩

theorem Alike.add (h : s.Alike L s') {c d : Clause} (hc : c.Alike L d) : (s.add c).Alike L (s'.add d) := by
  have hnew : StoredClause.Alike L ⟨s.nextId, c⟩ ⟨s'.nextId, d⟩ := ⟨h.nextId, hc⟩
  have insert {ts us : List Table} (h : List.Forall₂ (Table.Alike L) ts us) :
      List.Forall₂ (Table.Alike L) (insert ⟨s.nextId, c⟩ ts) (insert ⟨s'.nextId, d⟩ us) := by
    induction h with
    | nil => exact .cons ⟨hc.head.key_eq, .cons hnew .nil⟩ .nil
    | @cons t u ts us htu hts ih =>
      rw [Store.insert, Store.insert, hc.head.key_eq, htu.key]
      split
      · exact .cons ⟨rfl, List.rel_append htu.clauses (.cons hnew .nil)⟩ hts
      · exact .cons htu ih
  exact ⟨insert h.tables, by rw [Store.add, Store.add, h.nextId]⟩

theorem Alike.keys_eq (h : s.Alike L s') : s.keys = s'.keys := by
  obtain ⟨ts, next⟩ := s
  obtain ⟨us, next'⟩ := s'
  obtain ⟨h, -⟩ := h
  rw [keys, keys, defined, defined]
  dsimp only at h ⊢
  induction h with
  | nil => rfl
  | @cons t u _ _ htu _ ih =>
    obtain ⟨k, cs⟩ := t
    obtain ⟨k', ds⟩ := u
    obtain ⟨rfl : k = k', hcs⟩ := htu
    cases hcs with
    | nil => exact ih
    | cons _ _ => exact congrArg (k :: ·) ih

theorem Alike.storedClauses (h : s.Alike L s') (k : Key) :
    List.Forall₂ (StoredClause.Alike L) (s.storedClauses k) (s'.storedClauses k) := by
  have find {ts us : List Table} (h : List.Forall₂ (Table.Alike L) ts us) :
      Option.Rel (Table.Alike L) (ts.find? (·.key = k)) (us.find? (·.key = k)) := by
    induction h with
    | nil => exact .none
    | @cons t u ts us htu _ ih =>
      rw [List.find?_cons, List.find?_cons, htu.key]
      split
      · exact .some htu
      · exact ih
  have hfind := find h.tables
  rw [Store.storedClauses, Store.storedClauses]
  generalize s.tables.find? _ = r at hfind ⊢
  generalize s'.tables.find? _ = r' at hfind ⊢
  cases hfind with
  | none => exact .nil
  | some h => exact h.clauses

theorem Alike.clausesAfter (h : s.Alike L s') (k : Key) (after : Option Nat) :
    List.Forall₂ (StoredClause.Alike L) (s.clausesAfter k after) (s'.clausesAfter k after) := by
  have hstored := h.storedClauses k
  cases after with
  | none => exact hstored
  | some id =>
    rw [Store.clausesAfter, Store.clausesAfter]
    generalize s.storedClauses k = cs at hstored ⊢
    generalize s'.storedClauses k = ds at hstored ⊢
    induction hstored with
    | nil => exact .nil
    | @cons c d cs ds hcd hcs ih =>
      rw [List.dropWhile_cons, List.dropWhile_cons, hcd.id]
      split
      · exact ih
      · exact .cons hcd hcs

theorem Alike.replaceClauses (h : s.Alike L s') (k : Key) {cs ds : List StoredClause}
    (hcs : List.Forall₂ (StoredClause.Alike L) cs ds) : (s.replaceClauses k cs).Alike L (s'.replaceClauses k ds) := by
  refine ⟨?_, h.nextId⟩
  rw [Store.replaceClauses, Store.replaceClauses, List.forall₂_map_left_iff, List.forall₂_map_right_iff]
  refine h.tables.imp fun t u htu => ?_
  rw [htu.key]
  split
  · exact ⟨rfl, hcs⟩
  · exact htu

theorem removeFirst_alike {p q : StoredClause → Bounded Bool} (hpq : ∀ c d, StoredClause.Alike L c d → p c = q d)
    {cs ds : List StoredClause} (h : List.Forall₂ (StoredClause.Alike L) cs ds) :
    Option.Rel (Option.Rel (List.Forall₂ (StoredClause.Alike L))) (removeFirst p cs) (removeFirst q ds) := by
  induction h with
  | nil => exact .some .none
  | @cons c d cs ds hcd hcs ih =>
    rw [removeFirst, removeFirst, hpq c d hcd]
    cases q d with
    | none => exact .none
    | some b =>
      cases b with
      | true => exact .some (.some hcs)
      | false => exact ih.map fun _ _ h => h.map fun _ _ h => .cons hcd h

/-- Both have removed a clause or neither has, and the stores are still alike. -/
def AlikeRemovals (L : Likeness) (r r' : Bool × Store) : Prop := r.1 = r'.1 ∧ r.2.Alike L r'.2

section Remove

variable (hL : ∀ x y, L.names x y → x = y)

include hL

theorem Alike.retractHead (h : s.Alike L s') {p q : Predicate} (hpq : p.Alike L q) (n : Nat) :
    Option.Rel (AlikeRemovals L) (s.retractHead n p) (s'.retractHead n q) := by
  rw [hpq.eq hL, Store.retractHead, Store.retractHead]
  refine Option.Rel.map (removeFirst_alike (fun c d hcd => ?_) (h.storedClauses q.key)) fun r r' hr => ?_
  · rw [headUnifies, headUnifies, Clause.rename, Clause.rename, Clause.mapTerms, Clause.mapTerms, hcd.id,
      hcd.clause.head.eq hL]
  · cases hr with
    | none => exact ⟨rfl, h⟩
    | some hcs => exact ⟨rfl, h.replaceClauses q.key hcs⟩

theorem Alike.retractClause (hcalls : ∀ {a b}, L.calls a b → Keyword.ofSpelling? a = Keyword.ofSpelling? b)
    (h : s.Alike L s') {c d : Clause} (hcd : c.Alike L d) (hfixed : ∀ a ∈ Goal.builtinNames c.body, L.Fixed a) :
    AlikeRemovals L (s.retractClause c) (s'.retractClause d) := by
  have hsame (e e' : StoredClause) (he : StoredClause.Alike L e e') :
      some (e.clause.same c) = some (e'.clause.same d) := by
    rw [Clause.same, Clause.same, he.clause.head.eq hL, hcd.head.eq hL,
      Goal.sameAll_alike hL hcalls he.clause.body hcd.body hfixed]
  have hremove := removeFirst_alike hsame (h.storedClauses d.head.key)
  rw [Store.retractClause, Store.retractClause, hcd.head.key_eq]
  generalize removeFirst _ (s.storedClauses _) = r at hremove ⊢
  generalize removeFirst _ (s'.storedClauses _) = r' at hremove ⊢
  cases hremove with
  | none => exact ⟨rfl, h⟩
  | some hr =>
    cases hr with
    | none => exact ⟨rfl, h⟩
    | some hcs => exact ⟨rfl, h.replaceClauses _ hcs⟩

end Remove

end Store
end BilingualLogic
