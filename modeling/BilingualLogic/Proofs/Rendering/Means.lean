import BilingualLogic.Proofs.Decimal.Text
import BilingualLogic.Proofs.Rendering.Reread

/-!
What the parts of a source mean: the terms, formulas and goals that they are read as where nesting allows it.
-/

namespace BilingualLogic

open Text

section Reading

open Source

variable {α β : Type} {c : Context} {n : Nat}

theorem bind_ok {m : Reading α} {f : α → Reading β} {x : α} {k : Nat} (h : m c n = .ok (x, k)) :
    (m >>= f) c n = f x c k := by
  rw [Reading.bind_apply, h]
  rfl

theorem checkDepth_ok {depth : Nat} (h : depth ≤ c.maxDepth) (span : Span) :
    Reading.checkDepth depth span c n = .ok ((), n) := by
  rw [Reading.checkDepth, if_neg (Nat.not_lt.mpr h)]

end Reading

/-- The source reads as the term where nesting allows it. -/
def Term.Means (t : Term) (x : Source.Term) : Prop :=
  ∀ depth c n, depth + t.depth ≤ c.maxDepth → x.read depth c n = .ok (t.reread n)

theorem Term.means_all {as : List Term} {xs : List Source.Term} (h : List.Forall₂ Term.Means as xs) {depth : Nat}
    {c : Source.Context} (hd : depth + Term.depthAll as ≤ c.maxDepth) (n : Nat) :
    Source.Term.readAll depth xs c n = .ok (Term.rereadAll n as) := by
  induction h generalizing n with
  | nil => rfl
  | @cons a x as xs hx _ ih =>
    rw [Term.depthAll] at hd
    rw [Source.Term.readAll, bind_ok (hx depth c n (by omega)), bind_ok (ih (by omega) _)]
    rfl

section Means

open Source

theorem Term.means_anonymous {x : String} (h : Term.isHidden x = true) (s : Span) :
    Term.Means (.var x) (.anonymous s) := by
  intro depth c n hd
  have hd : depth + 1 ≤ c.maxDepth := hd
  rw [Source.Term.read, bind_ok (checkDepth_ok hd s), Term.reread, if_pos h]
  rfl

example (s : Span) : Source.Term.read 0 (.list s [.anonymous s, .anonymous s] none) ⟨"[_, _]", 2⟩ 3 =
    .ok (.list [.var "_G3", .var "_G4"], 5) := by cbv

theorem Term.means_var {x : String} (h : Term.isHidden x = false) (s : Span) : Term.Means (.var x) (.var s x) := by
  intro depth c n hd
  have hd : depth + 1 ≤ c.maxDepth := hd
  rw [Source.Term.read, bind_ok (checkDepth_ok hd s), Term.reread, if_neg (by simp [h])]
  rfl

/-- The characters of numerals that are written stand for themselves. -/
theorem asciiDigit_of_numeral {c : Char} (h : c.isDigit = true ∨ c ∈ ['-', '.', 'e', '+']) : asciiDigit c = c := by
  refine if_neg fun harabic => ?_
  rcases h with hc | hc
  · simp only [Char.isDigit, ge_iff_le, Bool.and_eq_true, decide_eq_true_eq] at hc
    exact absurd (Char.le_trans harabic.1 hc.2) (by decide)
  · simp only [List.mem_cons, List.not_mem_nil, or_false] at hc
    rcases hc with rfl | rfl | rfl | rfl
    all_goals exact absurd harabic.1 (by decide)

theorem asciiDigit_text {a : Decimal} {c : Char} (h : c ∈ a.text.toList) : asciiDigit c = c := by
  apply asciiDigit_of_numeral
  rw [Decimal.text_toList, Decimal.plainForm] at h
  rcases List.mem_append.mp h with h | h
  · split at h
    · exact Or.inr (by simp [List.mem_singleton.mp h])
    · cases h
  · rcases List.mem_append.mp h with h | h
    · exact Or.inl (a.isDigit_shownWhole c h)
    · split at h
      · cases h
      · rcases List.mem_cons.mp h with h | h
        · exact Or.inr (by simp [h])
        · exact Or.inl (a.isDigit_shownDecimals c h)

theorem readNumber_text (a : Decimal) (s : Span) (c : Context) (n : Nat) :
    readNumber s a.text c n = .ok (a.normalize, n) := by
  have hmap : a.text.map asciiDigit = a.text := by
    rw [← String.toList_inj, String.toList_map]
    exact (List.map_congr_left fun c hc => asciiDigit_text hc).trans (List.map_id' _)
  rw [readNumber, hmap, Decimal.ofNumeral?_text]
  rfl

theorem Term.means_number (a : Decimal) (s : Span) : Term.Means (.const (.number a)) (.number s a.text) := by
  intro depth c n hd
  have hd : depth + 1 ≤ c.maxDepth := hd
  rw [Source.Term.read, bind_ok (checkDepth_ok hd s), bind_ok (readNumber_text a s c n)]
  rfl

theorem Term.means_text (content : String) (s : Span) : Term.Means (.const (.text content)) (.text s content) := by
  intro depth c n hd
  have hd : depth + 1 ≤ c.maxDepth := hd
  rw [Source.Term.read, bind_ok (checkDepth_ok hd s)]
  rfl

theorem Term.means_boolean (b : Bool) (s : Span) : Term.Means (.const (.boolean b)) (.boolean s b) := by
  intro depth c n hd
  have hd : depth + 1 ≤ c.maxDepth := hd
  rw [Source.Term.read, bind_ok (checkDepth_ok hd s)]
  rfl

theorem Term.means_atom (name : String) (s : Span) : Term.Means (.const (.atom name)) (.atom s name) := by
  intro depth c n hd
  have hd : depth + 1 ≤ c.maxDepth := hd
  rw [Source.Term.read, bind_ok (checkDepth_ok hd s)]
  rfl

theorem Term.means_list {as : List Term} {xs : List Source.Term} (h : List.Forall₂ Term.Means as xs) (s : Span) :
    Term.Means (.list as) (.list s xs none) := by
  intro depth c n hd
  rw [Term.depth] at hd
  rw [Source.Term.read, bind_ok (checkDepth_ok (by omega) s), bind_ok (Term.means_all h (by omega) n)]
  rfl

theorem Term.cons_of_isTail {as : List Term} {r : Term} (has : as ≠ []) (hr : r.isTail = true) :
    Term.cons as r = .pattern as r := by
  obtain ⟨a, as, rfl⟩ := List.exists_cons_of_ne_nil has
  cases r with
  | list bs => cases hr
  | pattern bs q => cases hr
  | var x => rfl
  | const v => rfl

theorem Term.rereadAll_ne_nil {n : Nat} {as : List Term} (h : as ≠ []) : (Term.rereadAll n as).1 ≠ [] := by
  cases as with
  | nil => exact absurd rfl h
  | cons a as => simp [Term.rereadAll]

theorem Term.isTail_reread {n : Nat} {t : Term} (h : t.isTail = true) : (t.reread n).1.isTail = true := by
  cases t with
  | var x =>
    rw [Term.reread]
    split <;> rfl
  | const w => cases w <;> rfl
  | list as => cases h
  | pattern as r => cases h

theorem Term.means_pattern {as : List Term} {r : Term} {xs : List Source.Term} {y : Source.Term} (has : as ≠ [])
    (hr : r.isTail = true) (h : List.Forall₂ Term.Means as xs) (hy : r.Means y) (s : Span) :
    Term.Means (.pattern as r) (.list s xs (some y)) := by
  intro depth c n hd
  rw [Term.depth] at hd
  have hcons := Term.cons_of_isTail (Term.rereadAll_ne_nil (n := n) has) (Term.isTail_reread (n := (Term.rereadAll n as).2) hr)
  rw [Source.Term.read, bind_ok (checkDepth_ok (by omega) s), bind_ok (Term.means_all h (by omega) n),
    bind_ok (hy (depth + 1) c _ (by omega)), hcons]
  rfl

def Predicate.Means (p : BilingualLogic.Predicate) (x : Source.Predicate) : Prop :=
  ∀ depth c n, depth + p.depth ≤ c.maxDepth → x.read depth c n = .ok (p.reread n)

theorem Predicate.means {p : BilingualLogic.Predicate} {xs : List Source.Term}
    (h : List.Forall₂ Term.Means p.arguments xs) : Predicate.Means p ⟨p.name, xs⟩ := by
  intro depth c n hd
  rw [Source.Predicate.read, bind_ok (Term.means_all h hd n)]
  rfl

end Means

namespace Formula

/-- As in a formula of the given precedence: parentheses nest only where they are written. -/
def MeansIn (outer : Nat) (e : Formula) (x : Source.Formula) : Prop :=
  ∀ depth c n, depth + e.levels outer ≤ c.maxDepth → x.read depth c n = .ok (e.reread, n)

def Means (e : Formula) (x : Source.Formula) : Prop :=
  ∀ depth c n, depth + e.depth ≤ c.maxDepth → x.read depth c n = .ok (e.reread, n)

variable {outer : Nat} {e a b : Formula} {x y : Source.Formula}

theorem means_number (a : Decimal) (s : Span) : MeansIn outer (.term (.const (.number a))) (.number s a.text) := by
  intro depth c n _
  rw [Source.Formula.read, bind_ok (readNumber_text a s c n)]
  rfl

theorem means_var {x : String} (h : Term.isHidden x = false) : MeansIn outer (.term (.var x)) (.var x) := by
  intro depth c n _
  rw [reread, mapTerms, Term.reread, if_neg (by simp [h])]
  rfl

theorem means_text (content : String) : MeansIn outer (.term (.const (.text content))) (.text content) :=
  fun _ _ _ _ => rfl

theorem means_negate (h : MeansIn 3 e x) : MeansIn outer (.negate e) (.negate x) := by
  intro depth c n hd
  rw [Source.Formula.read, bind_ok (h depth c n hd)]
  rfl

theorem means_binary {op : Operation} (ha : MeansIn op.precedence a x) (hb : MeansIn (op.precedence + 1) b y) :
    MeansIn op.precedence (.binary op a b) (.binary op x y) := by
  intro depth c n hd
  rw [levels, if_neg (Nat.lt_irrefl _)] at hd
  rw [Source.Formula.read, bind_ok (ha depth c n (by omega)), bind_ok (hb depth c n (by omega))]
  rfl

theorem means_group (h : MeansIn 0 e x) (s : Span) : Means e (.group s x) := by
  intro depth c n hd
  rw [Formula.depth] at hd
  rw [Source.Formula.read, bind_ok (checkDepth_ok (by omega) s), h (depth + 1) c n (by omega)]

theorem Means.parenthesized {op : Operation} (h : Means (.binary op a b) x) (hop : op.precedence < outer) :
    MeansIn outer (.binary op a b) x := by
  intro depth c n hd
  rw [levels, if_pos hop] at hd
  apply h
  rw [Formula.depth, levels, if_neg (Nat.not_lt_zero _)]
  omega

end Formula

namespace Goal

def Means (g : Goal) (x : Source.Goal) : Prop :=
  ∀ depth c n, depth + g.depth ≤ c.maxDepth → x.read depth c n = .ok (g.reread n)

/-- As the goals of a negation or a collection. -/
structure MeansNested (goals : List Goal) (x : Source.Scope × List Source.Goal) : Prop where
  grouped : x.1.grouped = ! isBare goals
  goals : List.Forall₂ Means goals x.2

variable {goals : List Goal} {xs : List Source.Goal} {depth n : Nat} {c : Source.Context}

theorem means_all (h : List.Forall₂ Means goals xs) (hd : depth + depthAll goals ≤ c.maxDepth) (n : Nat) :
    Source.Goal.readAll depth xs c n = .ok (rereadAll n goals) := by
  induction h generalizing n with
  | nil => rfl
  | @cons g x goals xs hx _ ih =>
    rw [depthAll] at hd
    rw [Source.Goal.readAll, bind_ok (hx depth c n (by omega)), bind_ok (ih (by omega) _)]
    rfl

example (s : Span) : Source.Goal.readAll 0 [.cut, .call ⟨"p", [.anonymous s]⟩] ⟨"!, p(_)", 1⟩ 3 =
    .ok ([.cut, .call ⟨"p", [.var "_G3"]⟩], 4) := by cbv

theorem MeansNested.check {x : Source.Scope × List Source.Goal} (h : MeansNested goals x)
    (hd : depth + depthNested goals ≤ c.maxDepth) : x.1.check depth c n = .ok ((), n) := by
  rw [depthNested] at hd
  rw [Source.Scope.check, h.grouped]
  refine checkDepth_ok ?_ x.1.span
  cases hbare : isBare goals with
  | true =>
    rw [hbare] at hd
    simp only [Bool.not_true, Bool.false_eq_true, if_false, if_true] at hd ⊢
    omega
  | false =>
    rw [hbare] at hd
    simp only [Bool.not_false, Bool.false_eq_true, if_false, if_true] at hd ⊢
    omega

theorem MeansNested.read_all {x : Source.Scope × List Source.Goal} (h : MeansNested goals x)
    (hd : depth + depthNested goals ≤ c.maxDepth) : Source.Goal.readAll (depth + 1) x.2 c n = .ok (rereadAll n goals) := by
  rw [depthNested] at hd
  exact means_all h.goals (by omega) n

theorem means_body (h : List.Forall₂ Means goals xs) (hd : depth + depthBody goals ≤ c.maxDepth) (s : Span) :
    Source.Goal.readBody depth s xs c n = .ok (rereadAll n goals) := by
  cases h with
  | nil => rfl
  | @cons g x goals xs hx h =>
    simp only [depthBody, depthAll] at hd
    rw [Source.Goal.readBody, bind_ok (checkDepth_ok (by omega) s), bind_ok (hx _ c n (by omega)),
      bind_ok (means_all h (by omega) _)]
    rfl

theorem means_call {p : Predicate} {x : Source.Predicate} (h : p.Means x) : Means (.call p) (.call x) := by
  intro depth c n hd
  rw [Goal.depth] at hd
  rw [Source.Goal.read, bind_ok (h depth c n hd)]
  rfl

theorem means_cut : Means .cut .cut := fun _ _ _ _ => rfl

theorem means_not {x : Source.Scope × List Source.Goal} (h : MeansNested goals x) : Means (.not goals) (.not x.1 x.2) := by
  intro depth c n hd
  rw [Goal.depth] at hd
  rw [Source.Goal.read, bind_ok (h.check hd), bind_ok (h.read_all hd)]
  rfl

theorem means_unify {a b : Term} {x y : Source.Term} (ha : a.Means x) (hb : b.Means y) :
    Means (.unify a b) (.unify x y) := by
  intro depth c n hd
  rw [Goal.depth] at hd
  rw [Source.Goal.read, bind_ok (ha depth c n (by omega)), bind_ok (hb depth c _ (by omega))]
  rfl

theorem means_is {a : Term} {e : Formula} {x : Source.Term} {y : Source.Formula} (ha : a.Means x) (he : e.Means y) :
    Means (.is a e) (.is x y) := by
  intro depth c n hd
  rw [Goal.depth] at hd
  rw [Source.Goal.read, bind_ok (ha depth c n (by omega)), bind_ok (he depth c _ (by omega))]
  rfl

theorem means_compare (op : Comparison) {a b : Formula} {x y : Source.Formula} (ha : a.Means x) (hb : b.Means y) :
    Means (.compare op a b) (.compare op x y) := by
  intro depth c n hd
  rw [Goal.depth] at hd
  rw [Source.Goal.read, bind_ok (ha depth c n (by omega)), bind_ok (hb depth c n (by omega))]
  rfl

theorem means_collect (kind : Collection) {t r : Term} {x z : Source.Term} {y : Source.Scope × List Source.Goal}
    (ht : t.Means x) (h : MeansNested goals y) (hr : r.Means z) :
    Means (.collect kind t goals r) (.collect kind x y.1 y.2 z) := by
  intro depth c n hd
  rw [Goal.depth] at hd
  rw [Source.Goal.read, bind_ok (ht depth c n (by omega)), bind_ok (h.check (by omega)), bind_ok (h.read_all (by omega)),
    bind_ok (hr depth c _ (by omega))]
  rfl

theorem means_assert {head : Predicate} {x : Source.Predicate} (hh : head.Means x) (h : List.Forall₂ Means goals xs)
    (s : Span) : Means (.assert head goals) (.assert x s xs) := by
  intro depth c n hd
  rw [Goal.depth] at hd
  rw [Source.Goal.read, bind_ok (hh depth c n (by omega)), bind_ok (means_body h (by omega) s)]
  rfl

theorem means_retract {head : Predicate} {x : Source.Predicate} (hh : head.Means x) (h : List.Forall₂ Means goals xs)
    (s : Span) : Means (.retract head goals) (.retract x s xs) := by
  intro depth c n hd
  rw [Goal.depth] at hd
  rw [Source.Goal.read, bind_ok (hh depth c n (by omega)), bind_ok (means_body h (by omega) s)]
  rfl

end Goal

namespace StatementForm

def Means (f : StatementForm) (x : Source.Statement) : Prop :=
  ∀ c n, f.depth ≤ c.maxDepth → x.read c n = .ok (⟨(f.reread n).1, x.span⟩, (f.reread n).2)

variable {head : Predicate} {x : Source.Predicate} {goals : List Goal}

theorem means_fact (h : head.Means x) (s : Span) : Means (.fact head) ⟨s, .fact x⟩ := by
  intro c n hd
  rw [depth] at hd
  change ((x.read 0 >>= fun head => pure (⟨.fact head, s⟩ : Statement)) : Source.Reading Statement) c n = _
  rw [bind_ok (h 0 c n (by omega))]
  rfl

theorem read_body {b : Source.Body} {c : Source.Context} {n : Nat} (h : List.Forall₂ Goal.Means goals b.goals)
    (hd : max 1 (Goal.depthAll goals) ≤ c.maxDepth) : b.read c n = .ok (Goal.rereadAll n goals) := by
  rw [Source.Body.read, bind_ok (checkDepth_ok (by omega) b.span), Goal.means_all h (by omega) n]

theorem means_rule {b : Source.Body} (h : head.Means x) (hb : List.Forall₂ Goal.Means goals b.goals) (s : Span) :
    Means (.rule head goals) ⟨s, .rule x b⟩ := by
  intro c n hd
  rw [depth] at hd
  change ((x.read 0 >>= fun head => b.read >>= fun body => pure (⟨.rule head body, s⟩ : Statement)) :
    Source.Reading Statement) c n = _
  rw [bind_ok (h 0 c n (by omega)), bind_ok (read_body hb (by omega))]
  rfl

theorem means_query {b : Source.Body} (hb : List.Forall₂ Goal.Means goals b.goals) (s : Span) :
    Means (.query goals) ⟨s, .query b⟩ := by
  intro c n hd
  rw [depth] at hd
  change ((b.read >>= fun body => pure (⟨.query body, s⟩ : Statement)) : Source.Reading Statement) c n = _
  rw [bind_ok (read_body hb (by omega))]
  rfl

theorem means_directive {g : Goal} {y : Source.Goal} (h : g.Means y) (s : Span) :
    Means (.directive g) ⟨s, .directive y⟩ := by
  intro c n hd
  rw [depth] at hd
  change ((y.read 0 >>= fun goal => pure (⟨.directive goal, s⟩ : Statement)) : Source.Reading Statement) c n = _
  rw [bind_ok (h 0 c n (by omega))]
  rfl

/-- The statements are read in order, whatever was read before. -/
theorem readStatements_means {fs : List StatementForm} {xs : List Source.Statement} (h : List.Forall₂ Means fs xs)
    {c : Source.Context} (hd : ∀ f ∈ fs, f.depth ≤ c.maxDepth) (n : Nat) (done : List Statement) :
    ∃ ss, Source.readStatements c n done xs = .ok (done.reverse ++ ss) ∧ ss.map Statement.form = rereadAll n fs := by
  induction h generalizing n done with
  | nil => exact ⟨[], by simp [Source.readStatements], rfl⟩
  | @cons f x fs xs hx _ ih =>
    obtain ⟨ss, hss, hforms⟩ := ih (fun f hf => hd f (by simp [hf])) (f.reread n).2 (⟨(f.reread n).1, x.span⟩ :: done)
    refine ⟨⟨(f.reread n).1, x.span⟩ :: ss, ?_, ?_⟩
    · rw [Source.readStatements, hx c n (hd f (by simp))]
      dsimp only
      rw [hss]
      simp
    · rw [List.map_cons, hforms]
      rfl

end StatementForm

end BilingualLogic
