import BilingualLogic.Proofs.Likeness.Onward
import BilingualLogic.Proofs.Likeness.Solution
import BilingualLogic.Proofs.Names.Reachable

/-!
Open queries do not disturb each other. In whatever order they are pulled, each draws the solutions that it draws alone
and ends with the same error, if none of them asserts or retracts. All of them count copies together, so the numbers in
names of variables are different, but no two numbers become one.
-/

namespace BilingualLogic

section Numbers

variable {ρ : Nat → Nat → Prop} {m n : Nat}

/-- The same name, but for the number of the copy that it was made for. -/
inductive Renumbered (ρ : Nat → Nat → Prop) : String → String → Prop
  | same {x : String} : (∀ k z, x ≠ Clause.renamed k z) → Renumbered ρ x x
  | copy {k k' : Nat} (z : String) : ρ k k' → Renumbered ρ (Clause.renamed k z) (Clause.renamed k' z)

def renumbering (ρ : Nat → Nat → Prop) : Likeness := { names := Renumbered ρ }

theorem renumbered_of_plain {x : String} (h : Plain x) : Renumbered ρ x x := by
  refine .same fun k z he => h ?_
  rw [he]
  simp [Clause.renamed]

theorem renumbered_eq {x y : String} : Renumbered Eq x y ↔ x = y := by
  constructor
  · rintro (_ | ⟨_, rfl⟩) <;> rfl
  · rintro rfl
    by_cases h : ∃ k z, x = Clause.renamed k z
    · obtain ⟨k, z, rfl⟩ := h
      exact .copy z rfl
    · exact .same fun k z he => h ⟨k, z, he⟩

theorem oneToOne_renumbered (hρ : OneToOne ρ) : OneToOne (Renumbered ρ) := by
  rintro _ _ _ _ (hx | ⟨z, hk⟩) (hx' | ⟨z', hk'⟩)
  · rfl
  · exact iff_of_false (hx _ z') (hx _ z')
  · exact iff_of_false (fun he => hx' _ z he.symm) fun he => hx' _ z he.symm
  · constructor
    · intro he
      obtain ⟨hnumber, rfl⟩ := Clause.renamed_inj he
      rw [(hρ _ _ _ _ hk hk').mp hnumber]
    · intro he
      obtain ⟨hnumber, rfl⟩ := Clause.renamed_inj he
      rw [(hρ _ _ _ _ hk hk').mpr hnumber]

theorem proper_renumbering (hρ : OneToOne ρ) : (renumbering ρ).Proper where
  names := oneToOne_renumbered hρ
  texts _ he := Formula.alike_self (fun _ => trivial) ((Formula.plain_of_parse he).mono fun _ => renumbered_of_plain)
  calls := by
    rintro a _ rfl
    rfl

/-- The numbers that correspond from here on, when so many have been given out on either side. -/
def numbersOnward (ρ : Nat → Nat → Prop) (m n k k' : Nat) : Prop :=
  (ρ k k' ∧ k < m ∧ k' < n) ∨ ∃ j, k = m + j ∧ k' = n + j

theorem OneToOne.numbersOnward (hρ : OneToOne ρ) (m n : Nat) : OneToOne (numbersOnward ρ m n) := by
  rintro k k' l l' (⟨h, hk, hk'⟩ | ⟨i, hk, hk'⟩) (⟨h', hl, hl'⟩ | ⟨j, hl, hl'⟩)
  · exact hρ _ _ _ _ h h'
  all_goals omega

theorem onward_renumbered (ρ : Nat → Nat → Prop) (m n : Nat) :
    Onward (Renumbered ρ) m n = Renumbered (numbersOnward ρ m n) := by
  have notAhead {m k : Nat} {z : String} (h : k < m) : NotAhead m (Clause.renamed k z) := by
    intro l y he
    rwa [← (Clause.renamed_inj he).1]
  funext x y
  apply propext
  constructor
  · rintro (⟨hxy, hx, hy⟩ | ⟨j, z⟩)
    · cases hxy with
      | same h => exact .same h
      | copy z hk => exact .copy z (.inl ⟨hk, hx _ z rfl, hy _ z rfl⟩)
    · exact .copy z (.inr ⟨j, rfl, rfl⟩)
  · rintro (h | ⟨z, ⟨hk, hm, hn⟩ | ⟨j, rfl, rfl⟩⟩)
    · exact .before (.same h) (fun k z he => absurd he (h k z)) fun k z he => absurd he (h k z)
    · exact .before (.copy z hk) (notAhead hm) (notAhead hn)
    · exact .after j z

end Numbers

/-- The numbers up to here keep their names. -/
theorem Renumbered.extend {ρ' : Nat → Nat → Prop} (hρ : ∀ k k', ρ k k' → k < m → k' < n → ρ' k k') {x y : String}
    (h : Renumbered ρ x y) (hx : NotAhead m x) (hy : NotAhead n y) : Renumbered ρ' x y := by
  cases h with
  | same h => exact .same h
  | copy z hk => exact .copy z (hρ _ _ hk (hx _ z rfl) (hy _ z rfl))

namespace Query

open Search

section Interleaved

variable {ι : Type} [DecidableEq ι] {limits : Limits} {S : Store} {w w' : World} {q q' : Query} {n : Nat}

/-- Pulls several open queries, each time the one that is next in the order. -/
def interleaved (limits : Limits) (effort : Nat) :
    List ι → World → (ι → Query) → Bounded (List (ι × Option Solution) × World × (ι → Query))
  | [], w, qs => some ([], w, qs)
  | i :: is, w, qs =>
    ((qs i).next limits effort w).bind fun (a, w, q) =>
      (interleaved limits effort is w (Function.update qs i q)).map fun (as, w, qs) => ((i, a) :: as, w, qs)

/-- What was drawn from one of the queries. -/
def drawnFrom (i : ι) (as : List (ι × Option Solution)) : List (Option Solution) :=
  (as.filter (·.1 = i)).map Prod.snd

@[simp] theorem drawnFrom_self (i : ι) (a : Option Solution) (as : List (ι × Option Solution)) :
    drawnFrom i ((i, a) :: as) = a :: drawnFrom i as := by
  simp [drawnFrom]

theorem drawnFrom_of_ne {i j : ι} (h : j ≠ i) (a : Option Solution) (as : List (ι × Option Solution)) :
    drawnFrom j ((i, a) :: as) = drawnFrom j as := by
  simp [drawnFrom, h.symm]

/-- A query that is pulled alone, with the numbers in its names and those in the names of its twin among others. -/
structure Alone where
  numbers : Nat → Nat → Prop
  world : World
  query : Query

variable {x : Alone}

/-- A query alone and the same one among others, in worlds with the clauses of one store. -/
structure Paired (limits : Limits) (S : Store) (w : World) (x : Alone) (q : Query) : Prop where
  oneToOne : OneToOne x.numbers
  query : x.query.Alike (renumbering x.numbers) q
  plain : ∀ v ∈ x.query.vars, Plain v
  alone : Settled NotAhead x.world x.query.search
  shared : Settled NotAhead w q.search
  still : ¬ Edits limits true x.world x.query.search
  store : x.world.store = S
  stores : S.Alike { names := Eq } w.store

/-- The numbers that correspond after a pull of both. -/
def Alone.onward (x : Alone) (w : World) : Nat → Nat → Prop := numbersOnward x.numbers x.world.copies w.copies

/-- A pull of both: they stay paired, and the solutions are alike and have names in use only. -/
structure PairedPull (limits : Limits) (S : Store) (w : World) (x : Alone) (r r' : Option Solution × World × Query) :
    Prop where
  paired : Paired limits S r'.2.1 ⟨x.onward w, r.2.1, r.2.2⟩ r'.2.2
  solution : Option.Rel (Solution.Alike (renumbering (x.onward w))) r.1 r'.1
  copies : x.world.copies ≤ r.2.1.copies
  copies' : w.copies ≤ r'.2.1.copies
  names : ∀ a, r.1 = some a → a.VarsIn (NotAhead r.2.1.copies)
  names' : ∀ a, r'.1 = some a → a.VarsIn (NotAhead r'.2.1.copies)

theorem search_of_next {a : Option Solution} (hn : q.next limits n w = some (a, w', q')) :
    ∃ answer, Search.next limits n w q.search = some (answer, w', q'.search) ∧
      a = answer.map (Solution.project q.vars) ∧ q'.vars = q.vars := by
  obtain ⟨⟨answer, w₁, search⟩, hsearch, heq⟩ := Option.map_eq_some_iff.mp hn
  cases heq
  exact ⟨answer, hsearch, rfl, rfl⟩

/-- A pull leaves the names of the solution, the search and the clauses in use. -/
theorem next_keeps (hs : Settled NotAhead w q.search) (hvars : ∀ x ∈ q.vars, Plain x) {a : Option Solution}
    (hn : q.next limits n w = some (a, w', q')) :
    Keeps NotAhead w w' q'.search ∧ ∀ b, a = some b → b.VarsIn (NotAhead w'.copies) := by
  obtain ⟨answer, hsearch, rfl, -⟩ := search_of_next hn
  obtain ⟨hk, hanswer⟩ := (pulls_gathering_keep naming_notAhead limits n).1 hs hsearch
  refine ⟨hk, fun b hb => ?_⟩
  obtain ⟨s, hs, rfl⟩ := Option.map_eq_some_iff.mp hb
  exact Solution.project_varsIn (fun x hx => Reachable.plain_notAhead _ x (hvars x hx)) (hanswer s hs)

theorem Alike.onward (h : x.query.Alike (renumbering x.numbers) q)
    (hs : x.query.search.VarsIn (NotAhead x.world.copies))
    (hs' : q.search.VarsIn (NotAhead w.copies)) : x.query.Alike (renumbering (x.onward w)) q := by
  have hnames : (renumbering x.numbers).withNames (Onward (renumbering x.numbers).names x.world.copies w.copies) =
      renumbering (x.onward w) :=
    congrArg (fun R => ({ names := R } : Likeness)) (onward_renumbered x.numbers x.world.copies w.copies)
  exact ⟨h.vars, hnames ▸ h.search.onward hs hs'⟩

theorem Paired.world (h : Paired limits S w x q) : x.world.Alike (renumbering (x.onward w)) w := by
  refine ⟨?_, fun k z => .copy z (.inr ⟨k, rfl, rfl⟩)⟩
  rw [h.store]
  exact h.stores

theorem Paired.pull (h : Paired limits S w x q) (n : Nat) :
    Option.Rel (PairedPull limits S w x) (x.query.next limits n x.world) (q.next limits n w) := by
  have hnumbers := h.oneToOne.numbersOnward x.world.copies w.copies
  have hquery := h.query.onward h.alone.search h.shared.search
  have hpull := next_alike (n := n) (proper_renumbering hnumbers) h.world hquery
    (fun v hv => renumbered_of_plain (h.plain v hv)) fun he => absurd he.toEnd h.still
  refine hpull.imp_of_eq ?_
  rintro ⟨a, v, p⟩ ⟨a', v', p'⟩ hn hn' ⟨ha, hv, hp⟩
  obtain ⟨hkeeps, hnames⟩ := next_keeps h.alone h.plain hn
  obtain ⟨hkeeps', hnames'⟩ := next_keeps h.shared (h.query.vars ▸ h.plain) hn'
  obtain ⟨_, hsearch, -, hvars⟩ := search_of_next hn
  have hstore : v.store = S := (next_store (fun he => h.still he.toEnd) hsearch).trans h.store
  refine ⟨⟨hnumbers, hp, ?_, hkeeps.settled, hkeeps'.settled, fun he => h.still (he.of_pull hsearch), hstore, ?_⟩, ha,
    hkeeps.copies, hkeeps'.copies, hnames, hnames'⟩
  · exact fun y hy => h.plain y (hvars ▸ hy)
  · exact hstore ▸ hv.store

/-- While another query is pulled, both wait. -/
theorem Paired.wait (h : Paired limits S w x q) (hcopies : w.copies ≤ w'.copies)
    (hstore : w'.store.VarsIn (NotAhead w'.copies)) (hstores : S.Alike { names := Eq } w'.store) :
    Paired limits S w' x q :=
  { h with shared := ⟨hstore, h.shared.search.mono fun _ => naming_notAhead.mono hcopies⟩, stores := hstores }

/-- What a query gives alone, and what was drawn from it among others. -/
structure AlikeRuns (w : World) (x : Alone) (r : List (Option Solution) × World × Query) (as : List (Option Solution))
    (q : Query) (ρ : Nat → Nat → Prop) : Prop where
  oneToOne : OneToOne ρ
  keeps : ∀ k k', x.numbers k k' → k < x.world.copies → k' < w.copies → ρ k k'
  solutions : List.Forall₂ (Option.Rel (Solution.Alike (renumbering ρ))) r.1 as
  error : r.2.2.search.error = q.search.error

theorem AlikeRuns.before {r : List (Option Solution) × World × Query} {as : List (Option Solution)}
    {ρ : Nat → Nat → Prop} (h : AlikeRuns w' x r as q ρ) (hcopies : w.copies ≤ w'.copies) : AlikeRuns w x r as q ρ :=
  { h with keeps := fun k k' hk hx hw => h.keeps k k' hk hx (Nat.lt_of_lt_of_le hw hcopies) }

/-- Runs after a pull of both are runs with that pull before them. -/
theorem PairedPull.prepend {r r' : Option Solution × World × Query} (h : PairedPull limits S w x r r')
    {t : List (Option Solution) × World × Query} {as : List (Option Solution)} {ρ : Nat → Nat → Prop}
    (ht : AlikeRuns r'.2.1 ⟨x.onward w, r.2.1, r.2.2⟩ t as q ρ) : AlikeRuns w x (r.1 :: t.1, t.2) (r'.1 :: as) q ρ where
  oneToOne := ht.oneToOne
  keeps k k' hk hx hw := ht.keeps k k' (.inl ⟨hk, hx, hw⟩) (Nat.lt_of_lt_of_le hx h.copies)
    (Nat.lt_of_lt_of_le hw h.copies')
  solutions := by
    refine .cons (h.solution.imp_of_eq fun a b ha hb hab => ?_) ht.solutions
    have hnames (y z : String) (h : Renumbered (x.onward w) y z) := h.extend ht.keeps
    exact hab.withNames hnames (h.names a ha) (h.names' b hb)
  error := ht.error

theorem interleaved_paired {xs : ι → Alone} {qs : ι → Query} (h : ∀ i, Paired limits S w (xs i) (qs i)) (n : Nat)
    (is : List ι) :
    ((interleaved limits n is w qs).isSome ↔
      ∀ i, (pulls (Query.next limits n) (is.count i) (xs i).world (xs i).query).isSome) ∧
    ∀ as w' qs', interleaved limits n is w qs = some (as, w', qs') → ∀ i, ∃ r ρ,
      pulls (Query.next limits n) (is.count i) (xs i).world (xs i).query = some r ∧
        AlikeRuns w (xs i) r (drawnFrom i as) (qs' i) ρ := by
  induction is generalizing w xs qs with
  | nil =>
    refine ⟨by simp [interleaved, pulls], fun as w' qs' hi i => ?_⟩
    cases hi
    exact ⟨_, (xs i).numbers, rfl, (h i).oneToOne, fun _ _ h _ _ => h, .nil, (h i).query.search.error⟩
  | cons i is ih =>
    have hpull := (h i).pull n
    rw [interleaved]
    cases hn : (xs i).query.next limits n (xs i).world with
    | none =>
      rw [hn] at hpull
      generalize (qs i).next limits n w = r' at hpull ⊢
      cases hpull
      refine ⟨iff_of_false (by simp) fun hall => ?_, fun _ _ _ hi => by cases hi⟩
      simpa [pulls, hn] using hall i
    | some r =>
      rw [hn] at hpull
      generalize (qs i).next limits n w = r' at hpull ⊢
      cases hpull with
      | @some _ r' hpull =>
        have hpaired (j : ι) : Paired limits S r'.2.1
            (Function.update xs i ⟨(xs i).onward w, r.2.1, r.2.2⟩ j) (Function.update qs i r'.2.2 j) := by
          by_cases hj : j = i
          · subst hj
            simpa using hpull.paired
          · simpa [hj] using (h j).wait hpull.copies' hpull.paired.shared.store hpull.paired.stores
        obtain ⟨hreturns, hruns⟩ := ih hpaired
        -- the pull that both have made comes first in the runs of this query and is none of the others' pulls
        have hfirst (j : ι) : pulls (Query.next limits n) ((i :: is).count j) (xs j).world (xs j).query =
            (pulls (Query.next limits n) (is.count j) (Function.update xs i ⟨(xs i).onward w, r.2.1, r.2.2⟩ j).world
              (Function.update xs i ⟨(xs i).onward w, r.2.1, r.2.2⟩ j).query).map
              fun t => if j = i then (r.1 :: t.1, t.2) else t := by
          by_cases hj : j = i
          · subst hj
            simp [pulls, hn]
          · simp [hj, List.count_cons_of_ne (Ne.symm hj)]
        refine ⟨by simp [hfirst, hreturns], fun as w' qs' hi j => ?_⟩
        obtain ⟨⟨as, w₁, qs₁⟩, hrest, heq⟩ := Option.map_eq_some_iff.mp hi
        cases heq
        obtain ⟨t, ρ, ht, hruns⟩ := hruns _ _ _ hrest j
        refine ⟨_, ρ, by rw [hfirst, ht]; rfl, ?_⟩
        by_cases hj : j = i
        · subst hj
          simpa using hpull.prepend (by simpa using hruns)
        · simpa [drawnFrom_of_ne hj] using AlikeRuns.before (by simpa [hj] using hruns) hpull.copies'

/-- Every query is paired with itself before any of them is pulled. -/
theorem paired_self {ss : List Search} (h : Reachable limits w ss) (hq : q.search ∈ ss)
    (hplain : ∀ v ∈ q.vars, Plain v) (hstill : ¬ Edits limits true w q.search) :
    Paired limits w.store w ⟨Eq, w, q⟩ q := by
  obtain ⟨hstore, hss⟩ := h.settled
  have hsettled : Settled NotAhead w q.search := ⟨hstore, hss _ hq⟩
  have hself (V : String → Prop) (v : String) (_ : V v) : Renumbered Eq v v := renumbered_eq.mpr rfl
  refine ⟨oneToOne_eq, ⟨rfl, ?_⟩, hplain, hsettled, hsettled, hstill, rfl, ?_⟩
  · exact Search.alike_self (fun _ => trivial) rfl (fun _ _ => renumbered_eq.mp)
      (hsettled.search.mono (hself _))
  · exact Store.alike_self (fun _ => trivial) rfl (hstore.mono fun _ _ => rfl)

/-- Whatever order open queries are pulled in, if none of them asserts or retracts: the pulls return just if those of
every query alone do, and then each query has drawn the solutions that it draws alone, but for the numbers in names,
which correspond one to one, and has the same error or none. -/
theorem interleaved_alone {ss : List Search} {qs : ι → Query} (h : Reachable limits w ss)
    (hopen : ∀ i, (qs i).search ∈ ss) (hplain : ∀ i, ∀ v ∈ (qs i).vars, Plain v)
    (hstill : ∀ i, ¬ Edits limits true w (qs i).search) (n : Nat) (is : List ι) :
    ((interleaved limits n is w qs).isSome ↔ ∀ i, (pulls (Query.next limits n) (is.count i) w (qs i)).isSome) ∧
    ∀ as w' qs', interleaved limits n is w qs = some (as, w', qs') → ∀ i, ∃ alone v q ρ,
      pulls (Query.next limits n) (is.count i) w (qs i) = some (alone, v, q) ∧ OneToOne ρ ∧
        List.Forall₂ (Option.Rel (Solution.Alike (renumbering ρ))) alone (drawnFrom i as) ∧
          q.search.error = (qs' i).search.error := by
  obtain ⟨hreturns, hruns⟩ :=
    interleaved_paired (fun i => paired_self h (hopen i) (hplain i) (hstill i)) n is
  refine ⟨hreturns, fun as w' qs' hi i => ?_⟩
  obtain ⟨⟨alone, v, q⟩, ρ, halone, hruns⟩ := hruns as w' qs' hi i
  exact ⟨alone, v, q, ρ, halone, hruns.oneToOne, hruns.solutions, hruns.error⟩

/-- Two queries that make new lists, in turns. -/
theorem interleaved_lists : ∃ goals, Goal.parseQuery "member(?X, [1, 2]), length(?Y, ?X)" = .ok goals ∧
    ∃ as w qs, interleaved {} 20 [false, true, false, true, true] ⟨∅, 0⟩ (fun _ => .start goals) = some (as, w, qs) ∧
      w.copies = 4 ∧ ∀ i, ∃ alone v q ρ,
        pulls (Query.next {} 20) ([false, true, false, true, true].count i) ⟨∅, 0⟩ (.start goals) = some (alone, v, q) ∧
          OneToOne ρ ∧ List.Forall₂ (Option.Rel (Solution.Alike (renumbering ρ))) alone (drawnFrom i as) ∧
            q.search.error = (qs i).search.error := by
  have hreads : (Goal.parseQuery "member(?X, [1, 2]), length(?Y, ?X)").toOption.any (fun goals =>
      Goal.isStaticAll goals && Goal.reportedVars goals == ["X", "Y"] &&
        (interleaved {} 20 [false, true, false, true, true] ⟨∅, 0⟩ fun _ => .start goals).any fun r =>
          r.2.1.copies == 4) = true := by decide +kernel
  obtain ⟨goals, hgoals, hreads⟩ := exists_of_any hreads
  simp only [Bool.and_eq_true, beq_iff_eq] at hreads
  obtain ⟨⟨hstatic, hvars⟩, hdrawn⟩ := hreads
  obtain ⟨⟨as, w, qs⟩, hi, hcopies⟩ := (Option.any_eq_true _ _).mp hdrawn
  have hstill : ¬ Edits {} true ⟨∅, 0⟩ (.start goals ∅ 0) :=
    (static_start hstatic ∅ 0).not_edits Store.isStatic_empty
  have hplain : ∀ v ∈ (Query.start goals).vars, Plain v := by
    rw [Query.start, hvars]
    simp [Plain]
  obtain ⟨-, hall⟩ := interleaved_alone (ι := Bool) (Reachable.start.ask hgoals) (fun _ => by simp [Query.start])
    (fun _ => hplain) (fun _ => hstill) 20 [false, true, false, true, true]
  exact ⟨goals, hgoals, as, w, qs, hi, by simpa using hcopies, hall as w qs hi⟩

end Interleaved

end Query
end BilingualLogic
