import BilingualLogic.Proofs.Search.Moments

/-!
The unifications and the traversals of lists that a turn performs, one after the other. They may go on forever where
bindings lead back to themselves. If each that is performed returns, the turn returns.
-/

namespace BilingualLogic

/-- A single unification, of two terms or of the head of a clause with a call, or the traversal of a list. -/
inductive Primitive where
  | unify (a b : Term) (s : Substitution)
  | unifyHead (head call : Predicate) (s : Substitution)
  | traverse (list : Term) (s : Substitution)

def Primitive.Returns : Primitive → Prop
  | unify a b s => ∃ n r, BilingualLogic.unify n a b s = some r
  | unifyHead head call s => ∃ n r, head.unify n call s = some r
  | traverse list s => ∃ n r, Sequence.items s n list = some r

namespace Sequence

variable {limits : Limits} {s : Substitution}

inductive MemberPerforms (x xs : Term) (s : Substitution) : Primitive → Prop
  | traverse : MemberPerforms x xs s (.traverse xs s)
  | unify {n : Nat} {as : List Term} {a : Term} : items s n xs = some (some as) → a ∈ as →
    MemberPerforms x xs s (.unify x a s)

inductive SplitsPerform (front back whole : Term) (s : Substitution) : Primitive → Prop
  | traverse : SplitsPerform front back whole s (.traverse whole s)
  | front {n k : Nat} {as : List Term} : items s n whole = some (some as) → k ≤ as.length →
    SplitsPerform front back whole s (.unify front (.list (as.take k)) s)
  | back {n m k : Nat} {as : List Term} {s' : Substitution} : items s n whole = some (some as) → k ≤ as.length →
    unify m front (.list (as.take k)) s = some (some s') →
    SplitsPerform front back whole s (.unify back (.list (as.drop k)) s')

inductive AppendPerforms (limits : Limits) (front back whole : Term) (s : Substitution) : Primitive → Prop
  | front : AppendPerforms limits front back whole s (.traverse front s)
  | back {n : Nat} {r : Option (List Term)} : items s n front = some r →
    AppendPerforms limits front back whole s (.traverse back s)
  | join {n m : Nat} {as bs : List Term} : items s n front = some (some as) → items s m back = some (some bs) →
    limits.checkListLength (as.length + bs.length) = .ok () →
    AppendPerforms limits front back whole s (.unify whole (.list (as ++ bs)) s)
  | splits {n m : Nat} {r q : Option (List Term)} {op : Primitive} : items s n front = some r →
    items s m back = some q → r = none ∨ q = none → SplitsPerform front back whole s op →
    AppendPerforms limits front back whole s op

inductive LengthPerforms (limits : Limits) (copy : Nat) (list count : Term) (s : Substitution) : Primitive → Prop
  | traverse : LengthPerforms limits copy list count s (.traverse list s)
  | measured {n : Nat} {as : List Term} {x : Decimal} : items s n list = some (some as) →
    Decimal.ofInt? as.length = some x → LengthPerforms limits copy list count s (.unify count (.number x) s)
  | made {n k : Nat} : items s n list = some none → (s.walk list).isVar = true → size? s count = some k →
    limits.checkListLength k = .ok () →
    LengthPerforms limits copy list count s (.unify list (.list (freshItems copy k)) s)

theorem answers_returns {α : Type} {f : Nat → α → Bounded (Option Substitution)}
    (hf : ∀ {n m}, n ≤ m → ∀ x, Bounded.Le (f n x) (f m x)) (xs : List α) (h : ∀ x ∈ xs, ∃ n r, f n x = some r)
    (done : List Substitution) : ∃ n r, answers (f n) done xs = some r := by
  induction xs generalizing done with
  | nil => exact ⟨0, _, rfl⟩
  | cons x xs ih =>
    obtain ⟨⟨n, r, hr⟩, hxs⟩ := List.forall_mem_cons.mp h
    obtain ⟨m, rs, hrs⟩ := ih hxs (r.toList ++ done)
    refine ⟨max n m, rs, ?_⟩
    have hrs := (answers_le (hf (Nat.le_max_right n m)) _ xs).eq_some hrs
    rw [answers, (hf (Nat.le_max_left n m) x).eq_some hr]
    cases r <;> exact hrs

theorem member_returns {x xs : Term} (h : ∀ op, MemberPerforms x xs s op → op.Returns) :
    ∃ n r, member n x xs s = some r := by
  obtain ⟨n, r, hr⟩ := h _ .traverse
  cases r with
  | none => exact ⟨n, [], by rw [member, hr]⟩
  | some as =>
    obtain ⟨m, bs, hbs⟩ := answers_returns (f := fun n a => BilingualLogic.unify n x a s)
      (fun hnm a => unify_le hnm x a s) as (fun a ha => h _ (.unify hr ha)) []
    refine ⟨max n m, bs, ?_⟩
    rw [member, (items_le (Nat.le_max_left n m) s xs).eq_some hr]
    exact (answers_le (fun a => unify_le (Nat.le_max_right n m) x a s) [] as).eq_some hbs

/-- The answer of one split of a list, if there is one. -/
def atSplit (as : List Term) (front back : Term) (s : Substitution) (n k : Nat) : Bounded (Option Substitution) :=
  match BilingualLogic.unify n front (.list (as.take k)) s with
  | some (some s) => BilingualLogic.unify n back (.list (as.drop k)) s
  | r => r

theorem atSplit_le {n m : Nat} (h : n ≤ m) (as : List Term) (front back : Term) (k : Nat) :
    Bounded.Le (atSplit as front back s n k) (atSplit as front back s m k) := by
  unfold atSplit
  rcases unify_le h front (.list (as.take k)) s with hu | hu <;> rw [hu]
  · exact .none _
  · split
    · exact unify_le h back _ _
    · exact .refl _

theorem atSplit_returns {front back whole : Term} {n k : Nat} {as : List Term}
    (h : ∀ op, SplitsPerform front back whole s op → op.Returns) (hr : items s n whole = some (some as))
    (hk : k ≤ as.length) : ∃ n r, atSplit as front back s n k = some r := by
  obtain ⟨i, r₁, hr₁⟩ := h _ (.front hr hk)
  cases r₁ with
  | none => exact ⟨i, none, by rw [atSplit, hr₁]⟩
  | some s₁ =>
    obtain ⟨j, r₂, hr₂⟩ := h _ (.back hr hk hr₁)
    refine ⟨max i j, r₂, ?_⟩
    rw [atSplit, (unify_le (Nat.le_max_left i j) _ _ s).eq_some hr₁]
    exact (unify_le (Nat.le_max_right i j) _ _ s₁).eq_some hr₂

theorem splits_returns {front back whole : Term} (h : ∀ op, SplitsPerform front back whole s op → op.Returns) :
    ∃ n r, append.splits n front back whole s = some r := by
  obtain ⟨n, r, hr⟩ := h _ .traverse
  cases r with
  | none => exact ⟨n, _, by rw [append.splits, hr]⟩
  | some as =>
    obtain ⟨m, bs, hbs⟩ := answers_returns (fun hnm => atSplit_le hnm as front back) (List.range (as.length + 1))
      (fun k hk => atSplit_returns h hr (Nat.lt_succ_iff.mp (List.mem_range.mp hk))) []
    refine ⟨max n m, .ok bs, ?_⟩
    rw [append.splits, (items_le (Nat.le_max_left n m) s whole).eq_some hr]
    exact Option.map_eq_some_iff.mpr ⟨bs, (answers_le (atSplit_le (Nat.le_max_right n m) as front back) [] _).eq_some hbs, rfl⟩

theorem append_returns {front back whole : Term} (h : ∀ op, AppendPerforms limits front back whole s op → op.Returns) :
    ∃ n r, append limits n front back whole s = some r := by
  obtain ⟨n, r, hr⟩ := h _ .front
  obtain ⟨m, q, hq⟩ := h _ (.back hr)
  have split (hopen : r = none ∨ q = none) : ∃ n r, append limits n front back whole s = some r := by
    obtain ⟨k, result, hsplits⟩ := splits_returns fun op hop => h op (.splits hr hq hopen hop)
    have hle : max n m ≤ max (max n m) k := Nat.le_max_left _ k
    refine ⟨max (max n m) k, result, ?_⟩
    rw [append, (items_le (Nat.le_trans (Nat.le_max_left n m) hle) s front).eq_some hr,
      (items_le (Nat.le_trans (Nat.le_max_right n m) hle) s back).eq_some hq]
    have hsplits := (splits_le (Nat.le_max_right (max n m) k) front back whole s).eq_some hsplits
    rcases hopen with rfl | rfl
    · exact hsplits
    · cases r <;> exact hsplits
  cases r with
  | none => exact split (.inl rfl)
  | some as =>
    cases q with
    | none => exact split (.inr rfl)
    | some bs =>
      cases hl : limits.checkListLength (as.length + bs.length) with
      | error e =>
        refine ⟨max n m, .error e, ?_⟩
        simp only [append, (items_le (Nat.le_max_left n m) s front).eq_some hr,
          (items_le (Nat.le_max_right n m) s back).eq_some hq, hl]
      | ok u =>
        obtain ⟨k, r, hu⟩ := h _ (.join hr hq hl)
        have hle : max n m ≤ max (max n m) k := Nat.le_max_left _ k
        refine ⟨max (max n m) k, .ok r.toList, ?_⟩
        simp only [append, (items_le (Nat.le_trans (Nat.le_max_left n m) hle) s front).eq_some hr,
          (items_le (Nat.le_trans (Nat.le_max_right n m) hle) s back).eq_some hq, hl,
          (unify_le (Nat.le_max_right _ k) whole _ s).eq_some hu, Option.map_some]

theorem length_returns {copy : Nat} {list count : Term}
    (h : ∀ op, LengthPerforms limits copy list count s op → op.Returns) :
    ∃ n r, length limits n copy list count s = some r := by
  obtain ⟨n, r, hr⟩ := h _ .traverse
  cases r with
  | some as =>
    cases hx : Decimal.ofInt? as.length with
    | none => exact ⟨n, .ok [], by simp only [length, hr, hx]⟩
    | some x =>
      obtain ⟨m, r, hu⟩ := h _ (.measured hr hx)
      refine ⟨max n m, .ok r.toList, ?_⟩
      simp only [length, (items_le (Nat.le_max_left n m) s list).eq_some hr, hx,
        (unify_le (Nat.le_max_right n m) count _ s).eq_some hu, Option.map_some]
  | none =>
    cases hvar : (s.walk list).isVar with
    | false => exact ⟨n, .ok [], by simp [length, hr, hvar]⟩
    | true =>
      cases hk : size? s count with
      | none => exact ⟨n, .ok [], by simp [length, hr, hvar, hk]⟩
      | some k =>
        cases hl : limits.checkListLength k with
        | error e => exact ⟨n, .error e, by simp [length, hr, hvar, hk, hl]⟩
        | ok u =>
          obtain ⟨m, r, hu⟩ := h _ (.made hr hvar hk hl)
          refine ⟨max n m, .ok r.toList, ?_⟩
          simp [length, (items_le (Nat.le_max_left n m) s list).eq_some hr, hvar, hk, hl,
            (unify_le (Nat.le_max_right n m) list _ s).eq_some hu]

end Sequence

namespace Store

/-- The comparisons of a pattern with the heads of clauses, up to the first that unifies. -/
inductive Compares (pattern : Predicate) : List StoredClause → Primitive → Prop
  | first {c : StoredClause} {cs : List StoredClause} :
    Compares pattern (c :: cs) (.unifyHead (c.clause.rename c.id).head pattern ∅)
  | next {n : Nat} {c : StoredClause} {cs : List StoredClause} {op : Primitive} :
    headUnifies n pattern c = some false → Compares pattern cs op → Compares pattern (c :: cs) op

theorem headUnifies_le {n m : Nat} (h : n ≤ m) (pattern : Predicate) (c : StoredClause) :
    Bounded.Le (headUnifies n pattern c) (headUnifies m pattern c) :=
  (Predicate.unify_le h _ pattern ∅).map _

theorem removeFirst_returns {pattern : Predicate} {cs : List StoredClause}
    (h : ∀ op, Compares pattern cs op → op.Returns) : ∃ n r, removeFirst (headUnifies n pattern) cs = some r := by
  induction cs with
  | nil => exact ⟨0, none, rfl⟩
  | cons c cs ih =>
    obtain ⟨n, r, hr⟩ := h _ .first
    have hc : headUnifies n pattern c = some r.isSome := by rw [headUnifies, hr, Option.map_some]
    cases r with
    | some b => exact ⟨n, some cs, by rw [removeFirst, hc]; rfl⟩
    | none =>
      obtain ⟨m, r, hrest⟩ := ih fun op hop => h op (.next hc hop)
      refine ⟨max n m, r.map (c :: ·), ?_⟩
      have hrest := (removeFirst_le (headUnifies_le (Nat.le_max_right n m) pattern) cs).eq_some hrest
      rw [removeFirst, (headUnifies_le (Nat.le_max_left n m) pattern c).eq_some hc, hrest]
      rfl

theorem retractHead_returns {s : Store} {pattern : Predicate}
    (h : ∀ op, Compares pattern (s.storedClauses pattern.key) op → op.Returns) :
    ∃ n r, s.retractHead n pattern = some r := by
  obtain ⟨n, r, hr⟩ := removeFirst_returns h
  exact ⟨n, _, Option.map_eq_some_iff.mpr ⟨r, hr, rfl⟩⟩

end Store

namespace Search

variable {limits : Limits} {w : World} {s : Search} {b : Substitution} {rest : List Frame}

/-- The unifications of the heads of clauses with a call, up to the first that succeeds. -/
inductive Tries (call : Predicate) (b : Substitution) : Nat → List StoredClause → Primitive → Prop
  | first {copies : Nat} {c : StoredClause} {cs : List StoredClause} :
    Tries call b copies (c :: cs) (.unifyHead (c.clause.rename copies).head call b)
  | next {n copies : Nat} {c : StoredClause} {cs : List StoredClause} {op : Primitive} :
    (c.clause.rename copies).head.unify n call b = some none → Tries call b (copies + 1) cs op →
      Tries call b copies (c :: cs) op

inductive Retries (store : Store) : Nat → List Choice → Primitive → Prop
  | dropped {copies : Nat} {rest : List Frame} {cs : List Choice} {op : Primitive} :
    Retries store copies cs op → Retries store copies (.answers [] rest :: cs) op
  | clauses {copies after : Nat} {call : Predicate} {rest : List Frame} {b : Substitution} {cs : List Choice}
    {op : Primitive} : Tries call b copies (store.clausesAfter call.key (some after)) op →
      Retries store copies (.clauses call after rest b :: cs) op
  | next {n copies copies' after : Nat} {call : Predicate} {rest : List Frame} {b : Substitution} {choices : Choices}
    {cs : List Choice} {op : Primitive} :
    tryClauses n call rest b choices copies (store.clausesAfter call.key (some after)) = some (copies', none) →
      Retries store copies' cs op → Retries store copies (.clauses call after rest b :: cs) op

inductive CallPerforms (limits : Limits) (w : World) (p : Predicate) (b : Substitution) : Primitive → Prop
  | member {x xs : Term} {op : Primitive} : Keyword.ofSpelling? p.name = some .member → p.arguments = [x, xs] →
    Sequence.MemberPerforms x xs b op → CallPerforms limits w p b op
  | append {front back whole : Term} {op : Primitive} : Keyword.ofSpelling? p.name = some .append →
    p.arguments = [front, back, whole] → Sequence.AppendPerforms limits front back whole b op →
      CallPerforms limits w p b op
  | length {xs x : Term} {op : Primitive} : Keyword.ofSpelling? p.name = some .length → p.arguments = [xs, x] →
    Sequence.LengthPerforms limits w.copies xs x b op → CallPerforms limits w p b op
  | unify {x y : Term} : Keyword.ofSpelling? p.name = some .unify → p.arguments = [x, y] →
    CallPerforms limits w p b (.unify x y b)
  | clauses {op : Primitive} : p.isBuiltin = false → Tries p b w.copies (w.store.clausesAfter p.key none) op →
    CallPerforms limits w p b op

/-- What proving a goal performs, without the searches that are nested in it. -/
inductive GoalPerforms (limits : Limits) (w : World) (b : Substitution) (steps : Nat) : Goal → Primitive → Prop
  | call {p : Predicate} {op : Primitive} : CallPerforms limits w p b op → GoalPerforms limits w b steps (.call p) op
  | unify {x y : Term} : GoalPerforms limits w b steps (.unify x y) (.unify x y b)
  | is {x : Term} {e : Formula} {d : Decimal} : e.value b = some d →
    GoalPerforms limits w b steps (.is x e) (.unify x (.number d.normalize) b)
  | retract {head : Predicate} {op : Primitive} :
    Store.Compares (head.mapTerms b.resolve) (w.store.storedClauses (head.mapTerms b.resolve).key) op →
      GoalPerforms limits w b steps (.retract head []) op
  | collect {n : Nat} {kind : Collection} {t r : Term} {goals : List Goal} {terms : List Term} {w' : World}
    {inner : Search} : gather limits n w (start goals b steps) t [] = some (terms, w', inner) → inner.error = none →
      GoalPerforms limits w b steps (.collect kind t goals r) (.unify r (.list (kind.arrange terms)) b)

inductive TurnPerforms (limits : Limits) (w : World) (s : Search) : Primitive → Prop
  | back {op : Primitive} : s.error = none → s.current = none → Retries w.store w.copies s.choices.stack op →
    TurnPerforms limits w s op
  | goal {f : Frame} {rest : List Frame} {b : Substitution} {op : Primitive} : s.error = none →
    s.current = some ⟨f :: rest, b⟩ → excess limits (s.steps + 1) = none →
      GoalPerforms limits w b (s.steps + 1) f.goal op → TurnPerforms limits w s op

/-- A pull performs the operation, in the search itself or in one that is nested in it. -/
def Performs (limits : Limits) (toEnd : Bool) (w : World) (s : Search) (op : Primitive) : Prop :=
  ∃ w' s', Visits limits toEnd w s w' s' ∧ TurnPerforms limits w' s' op

theorem Performs.of_visits {toEnd toEnd' : Bool} {w' : World} {s' : Search} {op : Primitive}
    (h : Performs limits toEnd' w' s' op)
    (hvisits : ∀ {w₁ s₁}, Visits limits toEnd' w' s' w₁ s₁ → Visits limits toEnd w s w₁ s₁) :
    Performs limits toEnd w s op := by
  obtain ⟨w₁, s₁, hv, hop⟩ := h
  exact ⟨w₁, s₁, hvisits hv, hop⟩

theorem tryClauses_returns {call : Predicate} {copies : Nat} {cs : List StoredClause} (rest : List Frame)
    (choices : Choices) (h : ∀ op, Tries call b copies cs op → op.Returns) : ∃ n r, tryClauses n call rest b choices copies cs = some r := by
  induction cs generalizing copies with
  | nil => exact ⟨0, _, rfl⟩
  | cons c cs ih =>
    obtain ⟨n, r, hr⟩ := h _ .first
    cases r with
    | some b' => exact ⟨n, _, by simp only [tryClauses, hr]; rfl⟩
    | none =>
      obtain ⟨m, r, hrest⟩ := ih fun op hop => h op (.next hr hop)
      refine ⟨max n m, r, ?_⟩
      simp only [tryClauses, (Predicate.unify_le (Nat.le_max_left n m) _ call b).eq_some hr]
      exact (tryClauses_le (Nat.le_max_right n m) call rest b choices _ cs).eq_some hrest

theorem retry_returns {store : Store} {copies : Nat} {cs : List Choice} (height : Nat)
    (h : ∀ op, Retries store copies cs op → op.Returns) : ∃ n r, retry n store copies height cs = some r := by
  induction cs generalizing copies height with
  | nil => exact ⟨0, _, rfl⟩
  | cons c cs ih =>
    match c with
    | .answers [] _ => exact ih _ fun op hop => h op (.dropped hop)
    | .answers [b] _ => exact ⟨0, _, rfl⟩
    | .answers (b :: b' :: bs) _ => exact ⟨0, _, rfl⟩
    | .clauses call after rest b =>
      obtain ⟨n, ⟨copies', found⟩, htry⟩ := tryClauses_returns rest ⟨cs, height - 1⟩
        fun op hop => h op (.clauses hop)
      cases found with
      | some x => exact ⟨n, _, by rw [retry, htry]⟩
      | none =>
        obtain ⟨m, r, hr⟩ := ih (height - 1) fun op (hop : Retries store copies' cs op) => h op (.next htry hop)
        refine ⟨max n m, r, ?_⟩
        rw [retry, (tryClauses_le (Nat.le_max_left n m) _ _ _ _ _ _).eq_some htry]
        exact (retry_le (Nat.le_max_right n m) store copies' (height - 1) cs).eq_some hr

theorem call_returns {p : Predicate} {barrier : Nat} (h : ∀ op, CallPerforms limits w p b op → op.Returns) :
    ∃ n r, call limits n w s p barrier rest b = some r := by
  cases hp : p.isBuiltin with
  | false =>
    obtain ⟨n, r, hr⟩ := tryClauses_returns rest s.choices fun op hop => h op (.clauses hp hop)
    exact ⟨n, _, by rw [call_eq_callClauses hp, callClauses_eq, hr, Option.map_some]⟩
  | true =>
    rcases Predicate.isBuiltin_cases hp with ⟨hname, hargs⟩ | ⟨hname, hargs⟩ | ⟨hname, hargs⟩ | ⟨hname, x, xs, hargs⟩ |
      ⟨hname, front, back, whole, hargs⟩ | ⟨hname, xs, x, hargs⟩ | ⟨hname, x, y, hargs⟩ <;>
      simp only [call, hname, hargs]
    · exact ⟨0, _, rfl⟩
    · exact ⟨0, _, rfl⟩
    · exact ⟨0, _, rfl⟩
    · obtain ⟨n, r, hr⟩ := Sequence.member_returns fun op hop => h op (.member hname hargs hop)
      exact ⟨n, _, by rw [hr, Option.map_some]⟩
    · obtain ⟨n, r, hr⟩ := Sequence.append_returns fun op hop => h op (.append hname hargs hop)
      exact ⟨n, _, by rw [hr, Option.map_some]⟩
    · obtain ⟨n, r, hr⟩ := Sequence.length_returns fun op hop => h op (.length hname hargs hop)
      exact ⟨n, _, by rw [hr, Option.map_some]⟩
    · obtain ⟨n, r, hr⟩ := h _ (.unify hname hargs)
      exact ⟨n, _, by rw [hr, Option.map_some]⟩

theorem simpleStep_returns {f : Frame} {steps : Nat} (h : ∀ op, GoalPerforms limits w b steps f.goal op → op.Returns) :
    ∃ n r, simpleStep limits n w s f rest b = some r := by
  obtain ⟨g, barrier⟩ := f
  cases g with
  | call p => exact call_returns fun op hop => h op (.call hop)
  | unify x y =>
    obtain ⟨n, r, hr⟩ := h _ .unify
    exact ⟨n, _, Option.map_eq_some_iff.mpr ⟨r, hr, rfl⟩⟩
  | is x e =>
    cases hd : e.value b with
    | none => exact ⟨0, _, by simp only [simpleStep, Formula.unifyValue, hd]; rfl⟩
    | some d =>
      obtain ⟨n, r, hr⟩ := h _ (.is hd)
      exact ⟨n, _, by simp only [simpleStep, Formula.unifyValue, hd]; rw [hr]; rfl⟩
  | retract head body =>
    cases body with
    | nil =>
      obtain ⟨n, r, hr⟩ := Store.retractHead_returns fun op hop => h op (.retract hop)
      exact ⟨n, _, Option.map_eq_some_iff.mpr ⟨r, hr, rfl⟩⟩
    | cons g gs => exact ⟨0, _, rfl⟩
  | _ => exact ⟨0, _, rfl⟩

/-- Proving a goal returns if what it performs does, and the search that is nested in it. -/
theorem goalTurn_returns {f : Frame} (hnot : ∀ goals, f.goal = .not goals →
      ∃ n r, next limits n w (start goals b s.steps) = some r)
    (hcollect : ∀ kind t goals r, f.goal = .collect kind t goals r →
      ∃ n r, drain limits n w (start goals b s.steps) = some r)
    (hops : ∀ op, GoalPerforms limits w b s.steps f.goal op → op.Returns) :
    ∃ n t, goalTurn limits n w s f rest b = some t := by
  have simple (hf : ∀ n, goalTurn limits n w s f rest b =
      (simpleStep limits n w s f rest b).map fun r => Turn.goes r.1 r.2) :
      ∃ n t, goalTurn limits n w s f rest b = some t := by
    obtain ⟨n, r, hr⟩ := simpleStep_returns hops
    exact ⟨n, _, (hf n).trans (Option.map_eq_some_iff.mpr ⟨r, hr, rfl⟩)⟩
  obtain ⟨g, barrier⟩ := f
  cases g with
  | not goals =>
    obtain ⟨n, r, hr⟩ := hnot goals rfl
    exact ⟨n, _, Option.map_eq_some_iff.mpr ⟨r, hr, rfl⟩⟩
  | collect kind t goals result =>
    obtain ⟨n, ⟨answers, w', inner⟩, hr⟩ := hcollect kind t goals result rfl
    have hgather : gather limits n w (start goals b s.steps) t [] = some (answers.map (·.resolve t), w', inner) := by
      rw [gather_eq_drain, hr]
      rfl
    cases he : inner.error with
    | some e => exact ⟨n, _, by simp only [goalTurn, hgather, Option.bind_some, he]; rfl⟩
    | none =>
      obtain ⟨m, r, hu⟩ := hops _ (.collect hgather he)
      refine ⟨max n m, Option.isSome_iff_exists.mp ?_⟩
      simp only [goalTurn, (gather_le limits (Nat.le_max_left n m) _ _ _ _).eq_some hgather, Option.bind_some, he,
        (unify_le (Nat.le_max_right n m) _ _ b).eq_some hu]
      rfl
  | _ => exact simple fun _ => rfl

end Search
end BilingualLogic
