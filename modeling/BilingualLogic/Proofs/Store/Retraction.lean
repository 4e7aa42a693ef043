import BilingualLogic.Proofs.Definite.Copy
import BilingualLogic.Proofs.Store.Order
import BilingualLogic.Proofs.Unification.Alike

/-!
What a retraction removes. The head of every clause is named after the number of the clause before it is unified with
the pattern. Where these names are not in the pattern, the choice of names is of no account, neither that of the clauses
nor that of the pattern. Where the pattern has such a name from a copy of a clause, a clause that matches can be missed.
-/

namespace BilingualLogic

namespace Term

theorem bindVars_var {t : Term} (h : t.isNormal = true) : t.bindVars .var = t := by
  induction t with
  | var x => simp [bindVars]
  | const v => simp [bindVars]
  | list as ih =>
    have has := hereditary_isNormal.list.mp h
    rw [bindVars_list, List.map_congr_left fun a ha => ih a ha (has a ha), List.map_id']
  | pattern as r ih ihr =>
    obtain ⟨hne, htail, has, hr⟩ := isNormal_pattern.mp h
    rw [bindVars_pattern, List.map_congr_left fun a ha => ih a ha (has a ha), List.map_id', ihr hr]
    obtain ⟨a, as, rfl⟩ := List.exists_cons_of_ne_nil hne
    cases r with
    | var x => rfl
    | const v => rfl
    | list bs => cases htail
    | pattern bs q => cases htail

end Term

namespace Predicate

/-- The predicate with other names for its variables. -/
def withNames (f : String → String) (p : Predicate) : Predicate := p.mapTerms (·.bindVars fun x => .var (f x))

def Mentions (p : Predicate) (x : String) : Prop := ∃ t ∈ p.arguments, t.Occurs x

/-- The names that the variables of the head and of the pattern get are all different. -/
structure Apart (f g : String → String) (head pattern : Predicate) : Prop where
  inHead {x y : String} : head.Mentions x → head.Mentions y → f x = f y → x = y
  inPattern {x y : String} : pattern.Mentions x → pattern.Mentions y → g x = g y → x = y
  between {x y : String} : head.Mentions x → pattern.Mentions y → f x ≠ g y

/-- Names that stand for the same variable in two ways of naming a head and a pattern. -/
inductive Renames (f g f' g' : String → String) (head pattern : Predicate) : String → String → Prop
  | head {x : String} : head.Mentions x → Renames f g f' g' head pattern (f x) (f' x)
  | pattern {x : String} : pattern.Mentions x → Renames f g f' g' head pattern (g x) (g' x)

variable {head pattern : Predicate} {f g f' g' : String → String}

theorem Apart.oneToOne (h : Apart f g head pattern) (h' : Apart f' g' head pattern) :
    OneToOne (Renames f g f' g' head pattern) := by
  rintro _ _ _ _ (@⟨x, hx⟩ | @⟨x, hx⟩) (@⟨y, hy⟩ | @⟨y, hy⟩)
  · exact ⟨fun he => congrArg f' (h.inHead hx hy he), fun he => congrArg f (h'.inHead hx hy he)⟩
  · exact ⟨fun he => absurd he (h.between hx hy), fun he => absurd he (h'.between hx hy)⟩
  · exact ⟨fun he => absurd he.symm (h.between hy hx), fun he => absurd he.symm (h'.between hy hx)⟩
  · exact ⟨fun he => congrArg g' (h.inPattern hx hy he), fun he => congrArg g (h'.inPattern hx hy he)⟩

theorem alike_withNames {R : String → String → Prop} {p : Predicate} (h : ∀ x, p.Mentions x → R (f x) (g x)) :
    (p.withNames f).Alike { names := R } (p.withNames g) :=
  ⟨rfl, Term.forall₂_map fun t ht =>
    Term.alike_bindVars (fun _ => trivial) fun x hx => .var (h x ⟨t, ht, hx⟩)⟩

/-- Whether a head unifies with a pattern is the same whatever names keep their variables apart. -/
theorem unify_isSome_of_apart (h : Apart f g head pattern) (h' : Apart f' g' head pattern) (n : Nat) :
    ((head.withNames f).unify n (pattern.withNames g) ∅).map Option.isSome =
      ((head.withNames f').unify n (pattern.withNames g') ∅).map Option.isSome := by
  have hrel : AlikeResults { names := Renames f g f' g' head pattern }
      ((head.withNames f).unify n (pattern.withNames g) ∅) ((head.withNames f').unify n (pattern.withNames g') ∅) :=
    unify_alike (h.oneToOne h') n (alike_withNames fun _ hx => .head hx) (alike_withNames fun _ hx => .pattern hx)
      Substitution.alike_empty
  unfold AlikeResults at hrel
  generalize (head.withNames f).unify n _ ∅ = r at hrel ⊢
  generalize (head.withNames f').unify n _ ∅ = r' at hrel ⊢
  cases hrel with
  | none => rfl
  | some hrel => cases hrel <;> rfl

theorem withNames_id {p : Predicate} (h : ∀ t ∈ p.arguments, t.isNormal = true) : p.withNames id = p := by
  have hargs : p.arguments.map (·.bindVars .var) = p.arguments.map id :=
    List.map_congr_left fun t ht => Term.bindVars_var (h t ht)
  rw [List.map_id] at hargs
  exact congrArg (Predicate.mk p.name) hargs

end Predicate

namespace Store

theorem removeFirst_congr {p q : StoredClause → Bounded Bool} {cs : List StoredClause} (h : ∀ c ∈ cs, p c = q c) :
    removeFirst p cs = removeFirst q cs := by
  induction cs with
  | nil => rfl
  | cons c cs ih => rw [removeFirst, removeFirst, h c (by simp), ih fun d hd => h d (by simp [hd])]

theorem removeFirst_none {p : StoredClause → Bounded Bool} {cs : List StoredClause}
    (h : removeFirst p cs = some none) : ∀ c ∈ cs, p c = some false := by
  induction cs with
  | nil => simp
  | cons c cs ih =>
    rw [removeFirst] at h
    split at h
    · cases h
    · cases h
    · next hc =>
      obtain ⟨r, hr, h⟩ := Option.map_eq_some_iff.mp h
      obtain rfl := Option.map_eq_none_iff.mp h
      exact List.forall_mem_cons.mpr ⟨hc, ih hr⟩

theorem removeFirst_some {p : StoredClause → Bounded Bool} {cs ds : List StoredClause}
    (h : removeFirst p cs = some (some ds)) : ∃ before c after, cs = before ++ c :: after ∧ ds = before ++ after ∧
      p c = some true ∧ ∀ d ∈ before, p d = some false := by
  induction cs generalizing ds with
  | nil => cases h
  | cons c cs ih =>
    rw [removeFirst] at h
    split at h
    · cases h
    · next hc =>
      cases h
      exact ⟨[], c, cs, rfl, rfl, hc, by simp⟩
    · next hc =>
      obtain ⟨r, hr, h⟩ := Option.map_eq_some_iff.mp h
      obtain ⟨es, rfl, rfl⟩ := Option.map_eq_some_iff.mp h
      obtain ⟨before, d, after, rfl, rfl, hd, hbefore⟩ := ih hr
      exact ⟨c :: before, d, after, rfl, rfl, hd, List.forall_mem_cons.mpr ⟨hc, hbefore⟩⟩

theorem storedClauses_replaceClauses (s : Store) (k : Key) {cs : List StoredClause} (h : s.storedClauses k ≠ [])
    (k' : Key) : (s.replaceClauses k cs).storedClauses k' = if k' = k then cs else s.storedClauses k' := by
  unfold storedClauses at h ⊢
  unfold replaceClauses
  have hcomp : ((fun t : Table => decide (t.key = k')) ∘ fun t => if t.key = k then ⟨k, cs⟩ else t) =
      fun t => decide (t.key = k') := by
    funext t
    by_cases ht : t.key = k
    · simp [ht]
    · simp [ht]
  rw [List.find?_map, hcomp]
  cases hfind : s.tables.find? (fun t => decide (t.key = k')) with
  | none =>
    by_cases hk : k' = k
    · subst hk
      simp [hfind] at h
    · simp [hk]
  | some t =>
    have ht : t.key = k' := by simpa using List.find?_some hfind
    by_cases hk : k' = k
    · simp [ht, hk]
    · simp [ht, hk]

/-- What is said of a retraction of a pattern when `hits` says which clauses match it. -/
def RemovesFirst (s : Store) (k : Key) (hits : StoredClause → Prop) (removed : Bool) (s' : Store) : Prop :=
  (removed = true ↔ ∃ c ∈ s.storedClauses k, hits c) ∧
  (removed = true → ∃ before c after, s.storedClauses k = before ++ c :: after ∧ hits c ∧ (∀ d ∈ before, ¬ hits d) ∧
    ∀ k', s'.storedClauses k' = if k' = k then before ++ after else s.storedClauses k') ∧
  (removed = false → s' = s)

variable {n : Nat} {s s' : Store} {p : Predicate} {removed : Bool}

theorem RemovesFirst.congr {k : Key} {hits hits' : StoredClause → Prop} (h : s.RemovesFirst k hits removed s')
    (heq : ∀ c ∈ s.storedClauses k, hits c ↔ hits' c) : s.RemovesFirst k hits' removed s' := by
  obtain ⟨hiff, hfirst, hnone⟩ := h
  refine ⟨hiff.trans (exists_congr fun c => and_congr_right (heq c)), fun hr => ?_, hnone⟩
  obtain ⟨before, c, after, hcs, hc, hbefore, hs'⟩ := hfirst hr
  refine ⟨before, c, after, hcs, (heq c (by simp [hcs])).mp hc, fun d hd hits => ?_, hs'⟩
  exact hbefore d hd ((heq d (by simp [hcs, hd])).mpr hits)

theorem retractHead_removesFirst (h : s.retractHead n p = some (removed, s')) :
    s.RemovesFirst p.key (fun c => headUnifies n p c = some true) removed s' := by
  obtain ⟨r, hr, h⟩ := Option.map_eq_some_iff.mp h
  cases r with
  | none =>
    cases h
    have hnone := removeFirst_none hr
    refine ⟨⟨by simp, ?_⟩, by simp, fun _ => rfl⟩
    rintro ⟨c, hc, hits⟩
    rw [hnone c hc] at hits
    cases hits
  | some cs =>
    cases h
    obtain ⟨before, c, after, hcs, rfl, hc, hbefore⟩ := removeFirst_some hr
    refine ⟨⟨fun _ => ⟨c, by simp [hcs], hc⟩, fun _ => rfl⟩, fun _ => ⟨before, c, after, hcs, hc, ?_, ?_⟩, by simp⟩
    · intro d hd hits
      rw [hbefore d hd] at hits
      cases hits
    · exact s.storedClauses_replaceClauses p.key (by simp [hcs])

theorem headUnifies_apart {c : StoredClause} {f g : String → String} (hp : ∀ t ∈ p.arguments, t.isNormal = true)
    (hown : ∀ x, c.clause.head.Mentions x → ¬ p.Mentions (Clause.renamed c.id x))
    (hnames : Predicate.Apart f g c.clause.head p) :
    headUnifies n p c = ((c.clause.head.withNames f).unify n (p.withNames g) ∅).map Option.isSome := by
  have hapart : Predicate.Apart (Clause.renamed c.id) id c.clause.head p := by
    refine ⟨fun _ _ he => (Clause.renamed_inj he).2, fun _ _ he => he, ?_⟩
    rintro x y hx hy rfl
    exact hown x hx hy
  have h := Predicate.unify_isSome_of_apart hapart hnames n
  rw [Predicate.withNames_id hp] at h
  exact h

/-- Where no clause, named after its number, has a variable of the pattern, a retraction removes the first clause that
unifies with the pattern when the variables of both have any names that are all different, and it removes nothing
else. With other names in the pattern, which those of the clauses are not among either, it does the same. -/
theorem retractHead_of_apart {f : StoredClause → String → String} {g : String → String}
    (hp : ∀ t ∈ p.arguments, t.isNormal = true)
    (hown : ∀ c ∈ s.storedClauses p.key, ∀ x, c.clause.head.Mentions x → ¬ p.Mentions (Clause.renamed c.id x))
    (hnames : ∀ c ∈ s.storedClauses p.key, Predicate.Apart (f c) g c.clause.head p)
    (h : s.retractHead n p = some (removed, s')) :
    s.RemovesFirst p.key (fun c => ∃ b, (c.clause.head.withNames (f c)).unify n (p.withNames g) ∅ = some (some b))
      removed s' ∧
    ((∀ c ∈ s.storedClauses p.key, Predicate.Apart (Clause.renamed c.id) g c.clause.head p) →
      s.retractHead n (p.withNames g) = some (removed, s')) := by
  constructor
  · have hfirst := retractHead_removesFirst h
    have hits (c) (hc : c ∈ s.storedClauses p.key) : headUnifies n p c = some true ↔
        ∃ b, (c.clause.head.withNames (f c)).unify n (p.withNames g) ∅ = some (some b) := by
      rw [headUnifies_apart hp (hown c hc) (hnames c hc), Option.map_eq_some_iff]
      constructor
      · rintro ⟨r, hr, hsome⟩
        obtain ⟨b, rfl⟩ := Option.isSome_iff_exists.mp hsome
        exact ⟨b, hr⟩
      · rintro ⟨b, hb⟩
        exact ⟨some b, hb, rfl⟩
    exact hfirst.congr hits
  · intro hid
    rw [← h]
    have hkey : (p.withNames g).key = p.key := by simp [Predicate.key, Predicate.withNames, Predicate.mapTerms]
    rw [retractHead, retractHead, hkey]
    congr 1
    apply removeFirst_congr
    intro c hc
    exact (headUnifies_apart hp (hown c hc) (hid c hc)).symm

theorem mentions_varFirst {name x y : String} {v : Value} (h : (⟨name, [.var y, .const v]⟩ : Predicate).Mentions x) :
    x = y := by
  obtain ⟨t, ht, hx⟩ := h
  rcases List.mem_pair.mp ht with rfl | rfl
  · cases hx
    rfl
  · cases hx

theorem mentions_varSecond {name x y : String} {v : Value} (h : (⟨name, [.const v, .var y]⟩ : Predicate).Mentions x) :
    x = y := by
  obtain ⟨t, ht, hx⟩ := h
  rcases List.mem_pair.mp ht with rfl | rfl
  · cases hx
  · cases hx
    rfl

/-- The pattern `p(b, ?y)`. -/
def secondOpen (y : String) : Predicate := ⟨"p", [.atom "b", .var y]⟩

/-- The clauses `p(?X, a)` and `r :- retract p(b, ?X)`. -/
def retractor : Store :=
  (Store.empty.add ⟨⟨"p", [.var "X", .atom "a"]⟩, []⟩).add ⟨⟨"r", []⟩, [.retract (secondOpen "X") []]⟩

theorem rename_first (n : Nat) : (⟨⟨"p", [.var "X", .atom "a"]⟩, []⟩ : Clause).rename n =
    ⟨⟨"p", [.var (Clause.renamed n "X"), .atom "a"]⟩, []⟩ := by
  simp [Clause.rename, Clause.mapTerms, Predicate.mapTerms, Goal.mapTermsAll, Term.bindVars, Term.atom]

theorem retractHead_retractor {y : String} {b : Bool}
    (h : ((⟨"p", [.var "X#0", .atom "a"]⟩ : Predicate).unify n (secondOpen y) ∅).map Option.isSome = some b) :
    retractor.retractHead n (secondOpen y) =
      some (b, if b then retractor.replaceClauses ⟨"p", 2⟩ [] else retractor) := by
  have hstored : retractor.storedClauses ⟨"p", 2⟩ = [⟨0, ⟨⟨"p", [.var "X", .atom "a"]⟩, []⟩⟩] := rfl
  have hunifies : headUnifies n (secondOpen y) ⟨0, ⟨⟨"p", [.var "X", .atom "a"]⟩, []⟩⟩ = some b := by
    rw [headUnifies, rename_first]
    exact h
  change (removeFirst _ (retractor.storedClauses ⟨"p", 2⟩)).map _ = _
  rw [hstored, removeFirst, hunifies]
  cases b <;> rfl

/-- The pattern `p(b, ?Y)` removes the fact, whatever the variables are called. -/
theorem retractHead_of_apart_fact :
    retractor.RemovesFirst ⟨"p", 2⟩
      (fun c => ∃ b, (c.clause.head.withNames fun _ => "Left").unify 2 ((secondOpen "Y").withNames fun _ => "Right") ∅ =
        some (some b)) true (retractor.replaceClauses ⟨"p", 2⟩ []) ∧
    retractor.retractHead 2 ((secondOpen "Y").withNames fun _ => "Right") =
      some (true, retractor.replaceClauses ⟨"p", 2⟩ []) := by
  have hstored : retractor.storedClauses (secondOpen "Y").key = [⟨0, ⟨⟨"p", [.var "X", .atom "a"]⟩, []⟩⟩] := rfl
  have apart {f : String → String} (hf : f "X" ≠ "Right") :
      Predicate.Apart f (fun _ => "Right") ⟨"p", [.var "X", .atom "a"]⟩ (secondOpen "Y") := by
    refine ⟨fun hx hy _ => ?_, fun hx hy _ => ?_, fun hx _ he => hf ?_⟩
    · rw [mentions_varFirst hx, mentions_varFirst hy]
    · rw [mentions_varSecond hx, mentions_varSecond hy]
    · rw [← mentions_varFirst hx, he]
  have h := retractHead_of_apart (f := fun _ _ => "Left") (g := fun _ => "Right") (p := secondOpen "Y")
    (by simp [secondOpen, Term.isNormal, Term.atom])
    (by
      rw [hstored, List.forall_mem_singleton]
      intro x hx hy
      rw [mentions_varFirst hx] at hy
      exact absurd (mentions_varSecond hy) (by decide +kernel))
    (by
      rw [hstored, List.forall_mem_singleton]
      exact apart (by decide))
    (retractHead_retractor (n := 2) (b := true) (by decide +kernel))
  refine ⟨h.1, h.2 ?_⟩
  rw [hstored, List.forall_mem_singleton]
  exact apart (by decide +kernel)

/-- The first copy of the rule asks to remove `p(b, ?X#0)`, and `X#0` is the name under which the fact is tried: the
fact stays, though with another name it unifies with the pattern. -/
theorem retractHead_misses_copy :
    ((⟨⟨"r", []⟩, [.retract (secondOpen "X") []]⟩ : Clause).rename 0).body = [.retract (secondOpen "X#0") []] ∧
    retractor.retractHead 2 (secondOpen "X#0") = some (false, retractor) ∧
    ((⟨"p", [.var "Left", .atom "a"]⟩ : Predicate).unify 2 (secondOpen "X#0") ∅).map Option.isSome = some true := by
  have hname : Clause.renamed 0 "X" = "X#0" := by decide +kernel
  refine ⟨?_, retractHead_retractor (b := false) (by decide +kernel), by decide +kernel⟩
  simp [Clause.rename, Clause.mapTerms, Goal.mapTermsAll, Goal.mapTerms, Predicate.mapTerms, secondOpen, Term.bindVars,
    Term.atom, hname]

end Store
end BilingualLogic
