import BilingualLogic.Proofs.Definite.Solution
import BilingualLogic.Proofs.Search.Turn
import BilingualLogic.Proofs.Store.Order

/-!
What a turn does to the solutions of a search with definite goals: all of them are kept, those of an answer are given
out with it, and no new ones come in.
-/

namespace BilingualLogic

variable {used : Nat → String → Prop} {store : Store}

theorem Store.Definite.clause (hd : store.Definite) {k : Key} {d : StoredClause} (h : d ∈ store.storedClauses k) :
    d.clause.Definite := by
  obtain ⟨t, ht, heq⟩ := storedClauses_mem (List.ne_nil_of_mem h)
  exact hd t ht d (by rw [heq]; exact h)

namespace Search

def Pending (store : Store) (ds : List StoredClause) (p : Predicate) (fs : List Frame) (b : Substitution)
    (σ : Assignment) : Prop := Solved store fs b σ ∧ ∃ d ∈ ds, d.clause.DerivesCall store p σ

def ChoiceSolved (store : Store) (σ : Assignment) : Choice → Prop
  | .clauses p id fs b => Pending store (store.clausesAfter p.key (some id)) p fs b σ
  | .answers bs fs => ∃ b ∈ bs, Solved store fs b σ

def StackSolved (store : Store) (cs : List Choice) (σ : Assignment) : Prop := ∃ c ∈ cs, ChoiceSolved store σ c

def CurrentSolved (store : Store) (current : Option Branch) (σ : Assignment) : Prop :=
  ∃ branch, current = some branch ∧ Solved store branch.goals branch.bindings σ

def SearchSolved (store : Store) (s : Search) (σ : Assignment) : Prop :=
  CurrentSolved store s.current σ ∨ StackSolved store s.choices.stack σ

def ChoiceFits (P : Term → Prop) : Choice → Prop
  | .clauses p _ fs b => p.isBuiltin = false ∧ (∀ t ∈ p.arguments, P t) ∧ Fits P fs b
  | .answers bs fs => ∀ b ∈ bs, Fits P fs b

structure SearchFits (P : Term → Prop) (s : Search) : Prop where
  error : s.error = none
  current : ∀ branch, s.current = some branch → Fits P branch.goals branch.bindings
  stack : ∀ c ∈ s.choices.stack, ChoiceFits P c

theorem ChoiceFits.mono (hu : Naming used) {m n : Nat} (hmn : m ≤ n) {c : Choice}
    (h : ChoiceFits (Term.Named used m) c) : ChoiceFits (Term.Named used n) c := by
  cases c with
  | clauses p id fs b => exact ⟨h.1, fun t ht => (h.2.1 t ht).mono hu hmn, h.2.2.mono hu hmn⟩
  | answers bs fs => exact fun b hb => (h b hb).mono hu hmn

theorem SearchFits.mono (hu : Naming used) {m n : Nat} (hmn : m ≤ n) {s : Search}
    (h : SearchFits (Term.Named used m) s) : SearchFits (Term.Named used n) s :=
  ⟨h.error, fun branch hb => (h.current branch hb).mono hu hmn, fun c hc => (h.stack c hc).mono hu hmn⟩

theorem searchFits_found {P : Term → Prop} {s : Search} {branch : Branch} {choices : Choices} (herror : s.error = none)
    (hbranch : Fits P branch.goals branch.bindings) (hstack : ∀ c ∈ choices.stack, ChoiceFits P c) :
    SearchFits P (foundSearch s (some (branch, choices))) where
  error := herror
  current := by
    rintro _ ⟨⟩
    exact hbranch
  stack := hstack

theorem stackSolved_cons {c : Choice} {cs : List Choice} {σ : Assignment} :
    StackSolved store (c :: cs) σ ↔ ChoiceSolved store σ c ∨ StackSolved store cs σ := by
  simp [StackSolved]

theorem pending_cons {d : StoredClause} {ds : List StoredClause} {p : Predicate} {fs : List Frame} {b : Substitution}
    {σ : Assignment} : Pending store (d :: ds) p fs b σ ↔
      (Solved store fs b σ ∧ d.clause.DerivesCall store p σ) ∨ Pending store ds p fs b σ := by
  simp [Pending, and_or_left]

theorem currentSolved_some {branch : Branch} {σ : Assignment} :
    CurrentSolved store (some branch) σ ↔ Solved store branch.goals branch.bindings σ := by
  simp [CurrentSolved]

variable {n copies : Nat} {p : Predicate} {fs : List Frame} {b : Substitution}

theorem tryClauses_conserves (hu : Naming used) (ho : store.Ordered) (hd : store.Definite) {s : Search}
    (hcurrent : s.current = none) (hs : SearchFits (Term.Named used copies) s) (hp : p.isBuiltin = false)
    (hargs : ∀ t ∈ p.arguments, t.Named used copies) (hb : Fits (Term.Named used copies) fs b)
    (before ds : List StoredClause) (hds : store.storedClauses p.key = before ++ ds) {copies' : Nat}
    {found : Option (Branch × Choices)} (h : tryClauses n p fs b s.choices copies ds = some (copies', found)) :
    copies ≤ copies' ∧ SearchFits (Term.Named used copies') (foundSearch s found) ∧
      Conserves used copies (fun σ => Pending store ds p fs b σ ∨ StackSolved store s.choices.stack σ)
        (SearchSolved store (foundSearch s found)) := by
  induction ds generalizing before copies with
  | nil =>
    cases h
    refine ⟨Nat.le_refl _, hs, .of_iff fun σ => ?_⟩
    simp [Pending, SearchSolved, foundSearch, CurrentSolved, hcurrent]
  | cons d ds ih =>
    have hclause : d.clause.Definite := hd.clause (k := p.key) (by simp [hds])
    rw [tryClauses] at h
    rcases hunify : (d.clause.rename copies).head.unify n p b with _ | _ | unified
    · simp [hunify] at h
    · simp only [hunify] at h
      have hle := Nat.le_succ copies
      obtain ⟨hcopies, hfits, hconserves⟩ := ih (hs.mono hu hle) (fun t ht => (hargs t ht).mono hu hle)
        (hb.mono hu hle) (before ++ [d]) (by simp [hds]) h
      have hcopy := (copy_conserves store hu hclause hargs hb 0 hunify).or (Pending store ds p fs b)
      -- the copy has no solutions, so the call loses none with this clause
      have hpending : Conserves used copies (Pending store (d :: ds) p fs b) (Pending store ds p fs b) :=
        hcopy.congr (fun σ => pending_cons) (by simp)
      exact ⟨by omega, hfits, (hpending.or _).trans hu hle hconserves⟩
    · simp only [hunify] at h
      cases h
      have hcopy := ((copy_conserves store hu hclause hargs hb s.choices.height hunify).or (Pending store ds p fs b)).or
        (StackSolved store s.choices.stack)
      have hafter : store.clausesAfter p.key (some d.id) = ds := Store.clausesAfter_of_append ho hds
      have hle := Nat.le_succ copies
      have hstack : ∀ c ∈ .clauses p d.id fs b :: s.choices.stack, ChoiceFits (Term.Named used (copies + 1)) c :=
        List.forall_mem_cons.mpr ⟨⟨hp, fun t ht => (hargs t ht).mono hu hle, hb.mono hu hle⟩,
          fun c hc => (hs.stack c hc).mono hu hle⟩
      refine ⟨hle, searchFits_found hs.error (fits_copy hu hclause hargs hb s.choices.height hunify) hstack, ?_⟩
      refine hcopy.congr (fun σ => or_congr_left pending_cons) fun σ => ?_
      simp only [SearchSolved, foundSearch, currentSolved_some, Choices.push, stackSolved_cons, ChoiceSolved, hafter,
        Option.some.injEq, exists_eq_left', or_assoc]

theorem retry_conserves (hu : Naming used) (ho : store.Ordered) (hd : store.Definite) {s : Search}
    (hcurrent : s.current = none) (herror : s.error = none) {height : Nat} {cs : List Choice}
    (hcs : ∀ c ∈ cs, ChoiceFits (Term.Named used copies) c) {copies' : Nat} {found : Option (Branch × Choices)}
    (h : retry n store copies height cs = some (copies', found)) :
    copies ≤ copies' ∧ SearchFits (Term.Named used copies') (foundSearch { s with choices := .empty } found) ∧
      Conserves used copies (StackSolved store cs)
        (SearchSolved store (foundSearch { s with choices := .empty } found)) := by
  induction cs generalizing copies height with
  | nil =>
    cases h
    refine ⟨Nat.le_refl _, ⟨herror, ?_, ?_⟩, .of_iff fun σ => ?_⟩
    · simp [foundSearch, hcurrent]
    · simp [foundSearch, Choices.empty]
    · simp [SearchSolved, foundSearch, CurrentSolved, hcurrent, Choices.empty]
  | cons c cs ih =>
    have hrest := fun c' hc' => hcs c' (List.mem_cons_of_mem c hc')
    cases c with
    | answers bs fs =>
      have hanswers : ∀ b ∈ bs, Fits (Term.Named used copies) fs b := hcs _ List.mem_cons_self
      rcases bs with _ | ⟨b, _ | ⟨b', bs⟩⟩
      · obtain ⟨hcopies, hfits, hconserves⟩ := ih hrest h
        refine ⟨hcopies, hfits, hconserves.congr (fun σ => ?_) fun _ => Iff.rfl⟩
        simp [stackSolved_cons, ChoiceSolved]
      · cases h
        refine ⟨Nat.le_refl _, searchFits_found herror (hanswers b List.mem_cons_self) hrest, .of_iff fun σ => ?_⟩
        simp [stackSolved_cons, ChoiceSolved, SearchSolved, foundSearch, currentSolved_some]
      · cases h
        have hstack : ∀ c ∈ .answers (b' :: bs) fs :: cs, ChoiceFits (Term.Named used _) c :=
          List.forall_mem_cons.mpr ⟨fun b hb => hanswers b (List.mem_cons_of_mem _ hb), hrest⟩
        refine ⟨Nat.le_refl _, searchFits_found herror (hanswers b List.mem_cons_self) hstack, .of_iff fun σ => ?_⟩
        simp [stackSolved_cons, ChoiceSolved, SearchSolved, foundSearch, currentSolved_some, or_assoc]
    | clauses p id fs b =>
      obtain ⟨hp, hargs, hb⟩ : ChoiceFits (Term.Named used copies) (.clauses p id fs b) := hcs _ List.mem_cons_self
      obtain ⟨before, hbefore⟩ := List.dropWhile_suffix (l := store.storedClauses p.key) (·.id ≤ id)
      let below : Search := { s with choices := ⟨cs, height - 1⟩ }
      have hbelow : SearchFits (Term.Named used copies) below := ⟨herror, by simp [below, hcurrent], hrest⟩
      rw [retry] at h
      rcases htry : tryClauses n p fs b ⟨cs, height - 1⟩ copies (store.clausesAfter p.key (some id)) with
        _ | ⟨copies₁, found₁⟩
      · simp [htry] at h
      obtain ⟨hcopies, hfits, hconserves⟩ :=
        tryClauses_conserves hu ho hd (s := below) hcurrent hbelow hp hargs hb before _ hbefore.symm htry
      cases found₁ with
      | none =>
        simp only [htry] at h
        obtain ⟨hcopies', hfits', hconserves'⟩ := ih hfits.stack h
        refine ⟨by omega, hfits', .trans hu hcopies (hconserves.congr (fun σ => stackSolved_cons) fun σ => ?_) hconserves'⟩
        simp [SearchSolved, foundSearch, CurrentSolved, hcurrent, below]
      | some found₁ =>
        simp only [htry] at h
        cases h
        exact ⟨hcopies, hfits, hconserves.congr (fun σ => stackSolved_cons) fun _ => Iff.rfl⟩

/-- What the solutions of a search become when answers are given out. -/
structure Advances (used : Nat → String → Prop) (w : World) (s : Search) (answers : List Substitution) (w' : World)
    (s' : Search) : Prop where
  store : w'.store = w.store
  copies : w.copies ≤ w'.copies
  given : ∀ b ∈ answers, Fits (Term.Named used w'.copies) [] b
  fits : SearchFits (Term.Named used w'.copies) s'
  conserves : Conserves used w.copies (SearchSolved w.store s)
    fun σ => (∃ b ∈ answers, Solved w.store [] b σ) ∨ SearchSolved w.store s' σ

namespace Advances

variable {w w' w'' : World} {s s' s'' : Search} {as bs : List Substitution}

theorem of_iff (hs : SearchFits (Term.Named used w.copies) s')
    (h : ∀ σ, SearchSolved w.store s σ ↔ SearchSolved w.store s' σ) : Advances used w s [] w s' :=
  ⟨rfl, Nat.le_refl _, by simp, hs, .of_iff fun σ => by simp [h σ]⟩

theorem trans (hu : Naming used) (h : Advances used w s as w' s') (h' : Advances used w' s' bs w'' s'') :
    Advances used w s (as ++ bs) w'' s'' where
  store := h'.store.trans h.store
  copies := h.copies.trans h'.copies
  given := List.forall_mem_append.mpr ⟨fun b hb => (h.given b hb).mono hu h'.copies, h'.given⟩
  fits := h'.fits
  conserves := by
    have hstep := h.store ▸ h'.conserves
    refine h.conserves.trans hu h.copies ((hstep.or _).congr (fun σ => or_comm) fun σ => ?_)
    simp only [List.mem_append, or_and_right, exists_or]
    rw [or_assoc, or_comm, or_assoc]

end Advances

/-- A pull that has ended has given out all solutions. -/
def Turn.Advances (used : Nat → String → Prop) (w : World) (s : Search) : Turn → Prop
  | .goes w' s' => Search.Advances used w s [] w' s'
  | .stops answer w' s' =>
    Search.Advances used w s answer.toList w' s' ∧ (answer = none → ∀ σ, ¬ SearchSolved w'.store s' σ)

theorem Turn.Advances.of_goes (hu : Naming used) {w w' : World} {s s' : Search} {t : Turn}
    (h : Search.Advances used w s [] w' s') (ht : t.Advances used w' s') : t.Advances used w s := by
  cases t with
  | goes w₁ s₁ => exact h.trans hu ht
  | stops answer w₁ s₁ => exact ⟨h.trans hu ht.1, ht.2⟩

section Turns

variable {limits : Limits} {w : World} {s : Search} {f : Frame} {t : Turn}

theorem call_of_truth? {holds : Bool} (hp : p.truth? = some holds) (w : World) (s : Search) (barrier : Nat) :
    call limits n w s p barrier fs b = some (w, if holds then s.succeed fs b else s) := by
  unfold Predicate.truth? at hp
  unfold call
  split at hp
  · next hkey hnone =>
    cases hp
    rw [hkey, List.length_eq_zero_iff.mp hnone]
    rfl
  · next hkey hnone =>
    cases hp
    rw [hkey, List.length_eq_zero_iff.mp hnone]
    rfl
  · cases hp

variable (hu : Naming used) (ho : w.store.Ordered) (hd : w.store.Definite)

section Goal

variable (hcurrent : s.current = none) (hs : SearchFits (Term.Named used w.copies) s)
  (hb : Fits (Term.Named used w.copies) (f :: fs) b)

include hcurrent hs hb

theorem advances_holds {holds : Bool} (h : ∀ σ : Assignment, Derives w.store (f.goal.mapTerms σ.apply) ↔ holds = true) :
    Advances used w { s with current := some ⟨f :: fs, b⟩ } [] w (if holds then s.succeed fs b else s) := by
  cases holds with
  | true =>
    refine .of_iff ⟨hs.error, ?_, hs.stack⟩ fun σ => ?_
    · rintro branch hbranch
      cases hbranch
      exact hb.tail
    · simp [SearchSolved, currentSolved_some, succeed, solved_cons, h σ]
  | false =>
    refine .of_iff hs fun σ => ?_
    simp [SearchSolved, CurrentSolved, hcurrent, solved_cons, h σ]

theorem advances_unify {x y : Term} (hf : f.goal = .unify x y) {r : Option Substitution}
    (h : BilingualLogic.unify n x y b = some r) :
    Advances used w { s with current := some ⟨f :: fs, b⟩ } [] w
      (r.elim s fun unified => s.succeed fs unified) := by
  have hsolved (σ : Assignment) : Solved w.store (f :: fs) b σ ↔ ∃ unified, r = some unified ∧
      Solved w.store fs unified σ := solved_unify hb hf h σ
  cases r with
  | some unified =>
    refine .of_iff ⟨hs.error, ?_, hs.stack⟩ fun σ => ?_
    · rintro branch hbranch
      cases hbranch
      exact fits_unify hb hf h
    · simp [SearchSolved, currentSolved_some, succeed, hsolved σ]
  | none =>
    refine .of_iff hs fun σ => ?_
    simp [SearchSolved, CurrentSolved, hcurrent, hsolved σ]

include hu ho hd

theorem advances_call (hf : f.goal = .call p) (hp : p.isBuiltin = false) {w' : World} {s' : Search}
    (h : callClauses n w s p fs b = some (w', s')) :
    Advances used w { s with current := some ⟨f :: fs, b⟩ } [] w' s' := by
  have hgoal := hb.goals f List.mem_cons_self
  rw [hf] at hgoal
  rw [callClauses_eq] at h
  obtain ⟨⟨copies, found⟩, htry, h⟩ := Option.map_eq_some_iff.mp h
  cases h
  obtain ⟨hcopies, hfits, hconserves⟩ :=
    tryClauses_conserves hu ho hd hcurrent hs hp hgoal.2 hb.tail [] (w.store.storedClauses p.key) rfl htry
  refine ⟨rfl, hcopies, by simp, hfits, hconserves.congr (fun σ => ?_) fun σ => by simp⟩
  rw [SearchSolved, currentSolved_some, solved_cons, hf, derives_call_iff hp, Pending, Store.clauses]
  simp

theorem goalTurn_advances (h : goalTurn limits n w s f fs b = some t) :
    t.Advances used w { s with current := some ⟨f :: fs, b⟩ } := by
  have hgoal := hb.goals f List.mem_cons_self
  cases hf : f.goal with
  | call p =>
    rw [hf] at hgoal
    simp only [goalTurn, simpleStep, hf] at h
    obtain ⟨⟨w', s'⟩, hcall, rfl⟩ := Option.map_eq_some_iff.mp h
    rcases hgoal.1 with hp | hp
    · rw [call_eq_callClauses hp] at hcall
      exact advances_call hu ho hd hcurrent hs hb hf hp hcall
    · obtain ⟨holds, hp⟩ := Option.isSome_iff_exists.mp hp
      rw [call_of_truth? hp] at hcall
      cases hcall
      exact advances_holds hcurrent hs hb fun σ => hf ▸ derives_truth_iff hp σ
  | unify x y =>
    simp only [goalTurn, simpleStep, hf] at h
    obtain ⟨⟨w', s'⟩, hstep, rfl⟩ := Option.map_eq_some_iff.mp h
    obtain ⟨r, hr, hstep⟩ := Option.map_eq_some_iff.mp hstep
    have hadvances := advances_unify hcurrent hs hb hf hr
    cases r <;> cases hstep <;> exact hadvances
  | _ =>
    rw [hf] at hgoal
    exact absurd hgoal not_false

end Goal

include hu ho hd

theorem backTurn_advances (hcurrent : s.current = none) (hs : SearchFits (Term.Named used w.copies) s)
    (h : backTurn n w s = some t) : t.Advances used w s := by
  obtain ⟨⟨copies, found⟩, hretry, h⟩ := Option.map_eq_some_iff.mp h
  obtain ⟨hcopies, hfits, hconserves⟩ := retry_conserves hu ho hd hcurrent hs.error hs.stack hretry
  have hadvances : Advances used w s [] { w with copies } (foundSearch { s with choices := .empty } found) := by
    refine ⟨rfl, hcopies, by simp, hfits, hconserves.congr (fun σ => ?_) fun σ => by simp⟩
    simp [SearchSolved, CurrentSolved, hcurrent]
  rcases found with _ | ⟨branch, choices⟩
  · cases h
    refine ⟨hadvances, fun _ σ => ?_⟩
    simp [SearchSolved, CurrentSolved, StackSolved, hcurrent, Choices.empty]
  · cases h
    exact hadvances

theorem turn_advances (hl : limits.maxInferences = none) (hs : SearchFits (Term.Named used w.copies) s)
    (h : turn limits n w s = some t) : t.Advances used w s := by
  unfold turn at h
  rw [if_neg (by simp [hs.error])] at h
  rcases hcurrent : s.current with _ | ⟨_ | ⟨f, fs⟩, b⟩
  · simp only [hcurrent] at h
    exact backTurn_advances hu ho hd hcurrent hs h
  · simp only [hcurrent] at h
    cases h
    have hb := hs.current _ hcurrent
    refine ⟨⟨rfl, Nat.le_refl _, by simpa using hb, ⟨hs.error, by simp, hs.stack⟩, .of_iff fun σ => ?_⟩, by simp⟩
    simp [SearchSolved, hcurrent, CurrentSolved]
  · have hexcess : excess limits (s.steps + 1) = none := by simp [excess, hl]
    simp only [hcurrent, hexcess] at h
    have hcounted : SearchFits (Term.Named used w.copies) s.counted := ⟨hs.error, by simp [counted], hs.stack⟩
    have hgoal := goalTurn_advances hu ho hd rfl hcounted (hs.current _ hcurrent) h
    have hstart : Advances used w s [] w { s.counted with current := some ⟨f :: fs, b⟩ } := by
      refine .of_iff ⟨hs.error, hcurrent ▸ hs.current, hs.stack⟩ fun σ => ?_
      rw [SearchSolved, hcurrent]
      rfl
    exact .of_goes hu hstart hgoal

end Turns

end Search
end BilingualLogic
