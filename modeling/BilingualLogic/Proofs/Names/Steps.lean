import BilingualLogic.Proofs.Definite.Solution
import BilingualLogic.Proofs.Names.Occurrence
import BilingualLogic.Proofs.Sequence.Answers
import BilingualLogic.Proofs.Search.Turn

/-!
What a turn does to the names of a search. Only the copies of clauses and the lists that are made bring in new names,
and these carry the numbers that were counted.
-/

namespace BilingualLogic

variable {V W : String → Prop}

namespace Sequence

variable {n : Nat} {s : Substitution}

theorem member_varsIn (hs : s.VarsIn V) {x xs : Term} (hx : x.VarsIn V) (hxs : xs.VarsIn V) {bs : List Substitution}
    (h : member n x xs s = some bs) : ∀ b ∈ bs, b.VarsIn V :=
  fun _ hb => hs.of_grows (member_grows Term.hereditary_varsIn hs.walkable hs.bindings.closed hx hxs h hb)

theorem append_varsIn {limits : Limits} (hs : s.VarsIn V) {front back whole : Term} (hf : front.VarsIn V)
    (hb : back.VarsIn V) (hw : whole.VarsIn V) {bs : List Substitution}
    (h : append limits n front back whole s = some (.ok bs)) : ∀ b ∈ bs, b.VarsIn V :=
  fun _ hmem => hs.of_grows (append_grows Term.hereditary_varsIn hs.walkable hs.bindings.closed hf hb hw h hmem)

theorem freshItems_varsIn {used : Nat → String → Prop} (hu : Naming used) (copy n : Nat) :
    ∀ t ∈ freshItems copy n, t.VarsIn (used (copy + 1)) := by
  refine List.forall_mem_map.mpr fun i _ => Term.varsIn_var.mpr ?_
  exact hu.copy copy ("_L" ++ toString i)

theorem length_varsIn {used : Nat → String → Prop} (hu : Naming used) {limits : Limits} {copy : Nat}
    (hs : s.VarsIn (used copy)) {list count : Term} (hl : list.VarsIn (used copy)) (hc : count.VarsIn (used copy))
    {bs : List Substitution} (h : length limits n copy list count s = some (.ok bs)) :
    ∀ b ∈ bs, b.VarsIn (used (copy + 1)) := by
  have hs' := hs.mono (fun x => hu.succ)
  intro b hb
  exact hs'.of_grows (length_grows Term.hereditary_varsIn hs'.walkable hs'.bindings.closed (hl.mono fun x => hu.succ)
    (hc.mono fun x => hu.succ) (fun d => Term.varsIn_const _) (freshItems_varsIn hu copy) h hb)

theorem mem_distinctFrom {kept ts : List Term} {t : Term} (h : t ∈ distinctFrom kept ts) : t ∈ kept ∨ t ∈ ts := by
  induction ts generalizing kept with
  | nil => exact Or.inl (by simpa [distinctFrom] using h)
  | cons a as ih =>
    rw [distinctFrom] at h
    rcases ih h with h | h
    · split at h
      · exact Or.inl h
      · rcases List.mem_cons.mp h with rfl | h
        · exact Or.inr (by simp)
        · exact Or.inl h
    · exact Or.inr (List.mem_cons_of_mem a h)

end Sequence

theorem Collection.mem_arrange {kind : Collection} {ts : List Term} {t : Term} (h : t ∈ kind.arrange ts) : t ∈ ts := by
  cases kind with
  | setOf => simpa using Sequence.mem_distinctFrom h
  | _ => exact h

namespace Search

def FramesIn (V : String → Prop) (fs : List Frame) : Prop := ∀ f ∈ fs, f.goal.VarsIn V

structure BranchIn (V : String → Prop) (b : Branch) : Prop where
  goals : FramesIn V b.goals
  bindings : b.bindings.VarsIn V

def ChoiceIn (V : String → Prop) : Choice → Prop
  | .clauses call _ rest b => call.VarsIn V ∧ BranchIn V ⟨rest, b⟩
  | .answers pending rest => FramesIn V rest ∧ ∀ b ∈ pending, b.VarsIn V

def FoundIn (V : String → Prop) (found : Option (Branch × Choices)) : Prop :=
  ∀ branch choices, found = some (branch, choices) → BranchIn V branch ∧ ∀ c ∈ choices.stack, ChoiceIn V c

structure VarsIn (V : String → Prop) (s : Search) : Prop where
  current : ∀ b, s.current = some b → BranchIn V b
  choices : ∀ c ∈ s.choices.stack, ChoiceIn V c

theorem FramesIn.mono (hVW : ∀ x, V x → W x) {fs : List Frame} (h : FramesIn V fs) : FramesIn W fs :=
  fun f hf => (h f hf).mono hVW

theorem BranchIn.mono (hVW : ∀ x, V x → W x) {b : Branch} (h : BranchIn V b) : BranchIn W b :=
  ⟨h.goals.mono hVW, h.bindings.mono hVW⟩

theorem ChoiceIn.mono (hVW : ∀ x, V x → W x) {c : Choice} (h : ChoiceIn V c) : ChoiceIn W c := by
  cases c with
  | clauses call after rest b => exact ⟨h.1.mono hVW, h.2.mono hVW⟩
  | answers pending rest => exact ⟨h.1.mono hVW, fun b hb => (h.2 b hb).mono hVW⟩

variable {s : Search} {fs : List Frame} {b : Substitution}

theorem VarsIn.mono (hVW : ∀ x, V x → W x) (h : s.VarsIn V) : s.VarsIn W :=
  ⟨fun b hb => (h.current b hb).mono hVW, fun c hc => (h.choices c hc).mono hVW⟩

theorem varsIn_frames {barrier : Nat} {goals : List Goal} (h : ∀ g ∈ goals, g.VarsIn V) (hfs : FramesIn V fs) :
    FramesIn V (frames barrier goals fs) :=
  List.forall_mem_append.mpr ⟨List.forall_mem_map.mpr h, hfs⟩

theorem varsIn_start {goals : List Goal} (h : ∀ g ∈ goals, g.VarsIn V) (hb : b.VarsIn V) (steps : Nat) :
    (start goals b steps).VarsIn V where
  current := by
    rintro _ ⟨⟩
    exact ⟨varsIn_frames h (by simp [FramesIn]), hb⟩
  choices := by simp [start, Choices.empty]

theorem VarsIn.succeed (h : s.VarsIn V) (hfs : FramesIn V fs) (hb : b.VarsIn V) : (s.succeed fs b).VarsIn V where
  current := by
    rintro _ ⟨⟩
    exact ⟨hfs, hb⟩
  choices := h.choices

theorem varsIn_failWith (s : Search) (e : Error) : (s.failWith e).VarsIn V :=
  ⟨by simp [failWith], by simp [failWith, Choices.empty]⟩

theorem VarsIn.cut (h : s.VarsIn V) (hfs : FramesIn V fs) (hb : b.VarsIn V) (barrier : Nat) :
    (s.cut barrier fs b).VarsIn V where
  current := by
    rintro _ ⟨⟩
    exact ⟨hfs, hb⟩
  choices c hc := h.choices c (List.mem_of_mem_drop hc)

theorem VarsIn.offer (h : s.VarsIn V) (hfs : FramesIn V fs) {bs : List Substitution} (hbs : ∀ b ∈ bs, b.VarsIn V) :
    (s.offer fs bs).VarsIn V := by
  rcases bs with _ | ⟨b, _ | ⟨b', bs⟩⟩
  · exact h
  · exact h.succeed hfs (hbs b (by simp))
  · refine ⟨?_, List.forall_mem_cons.mpr ⟨⟨hfs, fun c hc => hbs c (List.mem_cons_of_mem b hc)⟩, h.choices⟩⟩
    rintro _ ⟨⟩
    exact ⟨hfs, hbs b (by simp)⟩

theorem VarsIn.offerOrFail (h : s.VarsIn V) (hfs : FramesIn V fs) {r : Except Error (List Substitution)}
    (hr : ∀ bs, r = .ok bs → ∀ b ∈ bs, b.VarsIn V) : (s.offerOrFail fs r).VarsIn V := by
  cases r with
  | ok bs => exact h.offer hfs (hr bs rfl)
  | error e => exact varsIn_failWith s e

theorem VarsIn.withSteps (h : s.VarsIn V) (steps : Nat) : ({ s with steps } : Search).VarsIn V :=
  ⟨h.current, h.choices⟩

theorem VarsIn.counted (h : s.VarsIn V) : s.counted.VarsIn V := ⟨by simp [Search.counted], h.choices⟩

section Steps

variable {used : Nat → String → Prop} (hu : Naming used) {n copies copies' : Nat} {call : Predicate}
  {store : Store} {found : Option (Branch × Choices)}

include hu

theorem copy_varsIn {c : Clause} (h : c.VarsIn V) (n : Nat) : (c.rename n).VarsIn (used (n + 1)) :=
  h.mapTerms fun t _ => t.varsIn_copy hu n

/-- A copy that the call unifies with goes on with its body, and the numbers that were counted are behind. -/
theorem tryClauses_varsIn {cs : Choices} (hcall : call.VarsIn (used copies))
    (hbranch : BranchIn (used copies) ⟨fs, b⟩) (hcs : ∀ c ∈ cs.stack, ChoiceIn (used copies) c)
    {ds : List StoredClause} (hds : ∀ d ∈ ds, d.clause.VarsIn V)
    (h : tryClauses n call fs b cs copies ds = some (copies', found)) :
    copies ≤ copies' ∧ FoundIn (used copies') found := by
  induction ds generalizing copies with
  | nil =>
    cases h
    exact ⟨Nat.le_refl _, by simp [FoundIn]⟩
  | cons d ds ih =>
    have succ (x : String) : used copies x → used (copies + 1) x := hu.succ
    obtain ⟨hd, hds⟩ := List.forall_mem_cons.mp hds
    rw [tryClauses] at h
    split at h
    · cases h
    · next unified hunify =>
      cases h
      refine ⟨Nat.le_succ copies, ?_⟩
      rintro _ _ ⟨⟩
      have hcopy := copy_varsIn hu hd copies
      have hb := hbranch.bindings.mono succ
      have hg := Predicate.unify_grows Term.hereditary_varsIn hb.walkable hb.bindings hcopy.head (hcall.mono succ) hunify
      exact ⟨⟨varsIn_frames hcopy.body (hbranch.goals.mono succ), hb.of_grows hg⟩,
        List.forall_mem_cons.mpr ⟨⟨hcall.mono succ, hbranch.mono succ⟩, fun c hc => (hcs c hc).mono succ⟩⟩
    · obtain ⟨hle, hfound⟩ := ih (hcall.mono succ) (hbranch.mono succ) (fun c hc => (hcs c hc).mono succ) hds h
      exact ⟨Nat.le_of_succ_le hle, hfound⟩

theorem retry_varsIn (hstore : store.VarsIn V) {height : Nat} {cs : List Choice}
    (hcs : ∀ c ∈ cs, ChoiceIn (used copies) c) (h : retry n store copies height cs = some (copies', found)) :
    copies ≤ copies' ∧ FoundIn (used copies') found := by
  induction cs generalizing copies height with
  | nil =>
    cases h
    exact ⟨Nat.le_refl _, by simp [FoundIn]⟩
  | cons c cs ih =>
    obtain ⟨hc, hrest⟩ := List.forall_mem_cons.mp hcs
    cases c with
    | answers bs fs =>
      obtain ⟨hfs, hbs⟩ := hc
      rcases bs with _ | ⟨b, _ | ⟨b', bs⟩⟩
      · exact ih hrest h
      · cases h
        refine ⟨Nat.le_refl _, ?_⟩
        rintro _ _ ⟨⟩
        exact ⟨⟨hfs, hbs b (by simp)⟩, hrest⟩
      · cases h
        refine ⟨Nat.le_refl _, ?_⟩
        rintro _ _ ⟨⟩
        exact ⟨⟨hfs, hbs b (by simp)⟩,
          List.forall_mem_cons.mpr ⟨⟨hfs, fun c hc => hbs c (List.mem_cons_of_mem b hc)⟩, hrest⟩⟩
    | clauses call after fs b =>
      have hds : ∀ d ∈ store.clausesAfter call.key (some after), d.clause.VarsIn V :=
        fun d hd => hstore.storedClauses ((List.dropWhile_suffix _).subset hd)
      rw [retry] at h
      split at h
      · cases h
      · next copies₁ found₁ htry =>
        cases h
        exact tryClauses_varsIn hu hc.1 hc.2 hrest hds htry
      · next copies₁ htry =>
        obtain ⟨hle, -⟩ := tryClauses_varsIn hu hc.1 hc.2 hrest hds htry
        obtain ⟨hle', hfound⟩ := ih (fun c hc => (hrest c hc).mono fun x => hu.mono hle) h
        exact ⟨hle.trans hle', hfound⟩

end Steps

/-- All names in the clauses and in the search are in use, as far as copies were counted. -/
structure Settled (used : Nat → String → Prop) (w : World) (s : Search) : Prop where
  store : w.store.VarsIn (used w.copies)
  search : s.VarsIn (used w.copies)

structure Keeps (used : Nat → String → Prop) (w w' : World) (s' : Search) : Prop where
  copies : w.copies ≤ w'.copies
  settled : Settled used w' s'

section Turns

variable {used : Nat → String → Prop} {limits : Limits} {n : Nat} {w w' : World} {s' : Search}

theorem Settled.keeps (h : Settled used w s) (hs' : s'.VarsIn (used w.copies)) : Keeps used w w s' :=
  ⟨Nat.le_refl _, h.store, hs'⟩

theorem Settled.keeps_succeed (h : Settled used w s) (hb : BranchIn (used w.copies) ⟨fs, b⟩) :
    Keeps used w w (s.succeed fs b) :=
  h.keeps (h.search.succeed hb.goals hb.bindings)

theorem keeps_unified (h : Settled used w s) (hb : BranchIn (used w.copies) ⟨fs, b⟩) {r : Option Substitution}
    (hstep : (match r with | some b => (w, s.succeed fs b) | none => (w, s)) = (w', s'))
    (hr : ∀ b, r = some b → b.VarsIn (used w.copies)) : Keeps used w w' s' := by
  cases r with
  | none =>
    cases hstep
    exact h.keeps h.search
  | some b =>
    cases hstep
    exact h.keeps_succeed ⟨hb.goals, hr b rfl⟩

variable (hu : Naming used)

include hu

theorem callClauses_keeps (h : Settled used w s) {p : Predicate} (hp : p.VarsIn (used w.copies))
    (hb : BranchIn (used w.copies) ⟨fs, b⟩) (hcall : callClauses n w s p fs b = some (w', s')) :
    Keeps used w w' s' := by
  rw [callClauses_eq] at hcall
  obtain ⟨⟨copies, found⟩, htry, hcall⟩ := Option.map_eq_some_iff.mp hcall
  cases hcall
  obtain ⟨hle, hfound⟩ := tryClauses_varsIn hu hp hb h.search.choices (fun d hd => h.store.storedClauses hd) htry
  have mono (x : String) : used w.copies x → used copies x := hu.mono hle
  refine ⟨hle, h.store.mono mono, ?_⟩
  rcases found with _ | ⟨branch, choices⟩
  · exact h.search.mono mono
  · obtain ⟨hbranch, hchoices⟩ := hfound branch choices rfl
    exact ⟨fun _ hb => by cases hb; exact hbranch, hchoices⟩

theorem call_keeps (h : Settled used w s) {p : Predicate} (hp : p.VarsIn (used w.copies)) {barrier : Nat}
    (hb : BranchIn (used w.copies) ⟨fs, b⟩) (hcall : call limits n w s p barrier fs b = some (w', s')) :
    Keeps used w w' s' := by
  obtain ⟨name, arguments⟩ := p
  unfold call at hcall
  split at hcall
  · cases hcall
    exact h.keeps (h.search.cut hb.goals hb.bindings barrier)
  · cases hcall
    exact h.keeps_succeed hb
  · cases hcall
    exact h.keeps h.search
  · next x xs _ hargs =>
    obtain rfl := hargs
    obtain ⟨bs, hbs, hcall⟩ := Option.map_eq_some_iff.mp hcall
    cases hcall
    exact h.keeps (h.search.offer hb.goals
      (Sequence.member_varsIn hb.bindings (hp x (by simp)) (hp xs (by simp)) hbs))
  · next front back whole _ hargs =>
    obtain rfl := hargs
    obtain ⟨r, hr, hcall⟩ := Option.map_eq_some_iff.mp hcall
    cases hcall
    refine h.keeps (h.search.offerOrFail hb.goals fun bs hbs => ?_)
    exact Sequence.append_varsIn hb.bindings (hp front (by simp)) (hp back (by simp)) (hp whole (by simp)) (hbs ▸ hr)
  · next xs count _ hargs =>
    obtain rfl := hargs
    obtain ⟨r, hr, hcall⟩ := Option.map_eq_some_iff.mp hcall
    cases hcall
    have succ (x : String) : used w.copies x → used (w.copies + 1) x := hu.succ
    refine ⟨Nat.le_succ _, h.store.mono succ, (h.search.mono succ).offerOrFail (hb.goals.mono succ) fun bs hbs => ?_⟩
    exact Sequence.length_varsIn hu hb.bindings (hp xs (by simp)) (hp count (by simp)) (hbs ▸ hr)
  · next x y _ hargs =>
    obtain rfl := hargs
    obtain ⟨r, hr, hcall⟩ := Option.map_eq_some_iff.mp hcall
    exact keeps_unified h hb hcall fun b hb' => hb.bindings.unify (hp x (by simp)) (hp y (by simp)) (hb' ▸ hr)
  · exact callClauses_keeps hu h hp hb hcall

theorem simpleStep_keeps (h : Settled used w s) {f : Frame} (hf : f.goal.VarsIn (used w.copies))
    (hb : BranchIn (used w.copies) ⟨fs, b⟩) (hstep : simpleStep limits n w s f fs b = some (w', s')) :
    Keeps used w w' s' := by
  obtain ⟨g, barrier⟩ := f
  have hresolve : ∀ t : Term, t.VarsIn (used w.copies) → (b.resolve t).VarsIn (used w.copies) :=
    fun t ht => hb.bindings.resolve ht
  cases hf with
  | call hp => exact call_keeps hu h hp hb hstep
  | cut =>
    cases hstep
    exact h.keeps (h.search.cut hb.goals hb.bindings barrier)
  | not _ =>
    cases hstep
    exact h.keeps h.search
  | unify hx hy =>
    obtain ⟨r, hr, hstep⟩ := Option.map_eq_some_iff.mp hstep
    exact keeps_unified h hb hstep fun b hb' => hb.bindings.unify hx hy (hb' ▸ hr)
  | @is x e hx he =>
    obtain ⟨r, hr, hstep⟩ := Option.map_eq_some_iff.mp hstep
    refine keeps_unified h hb hstep fun b hb' => ?_
    rw [hb', Formula.unifyValue] at hr
    split at hr
    · exact hb.bindings.unify hx (Term.varsIn_const _) hr
    · cases hr
  | @compare op x y _ _ =>
    cases hstep
    split
    · exact h.keeps_succeed hb
    · exact h.keeps h.search
  | collect _ _ _ =>
    cases hstep
    exact h.keeps h.search
  | @assert head body hh hbody =>
    cases hstep
    have hc : (Clause.mk head body).VarsIn (used w.copies) := ⟨hh, hbody⟩
    exact ⟨Nat.le_refl _, h.store.add (hc.mapTerms hresolve), h.search.succeed hb.goals hb.bindings⟩
  | @retract head body hh hbody =>
    cases body with
    | nil =>
      obtain ⟨⟨removed, store⟩, hr, hstep⟩ := Option.map_eq_some_iff.mp hstep
      cases hstep
      refine ⟨Nat.le_refl _, h.store.retractHead hr, ?_⟩
      split
      · exact h.search.succeed hb.goals hb.bindings
      · exact h.search
    | cons g gs =>
      cases hstep
      refine ⟨Nat.le_refl _, h.store.retractClause _, ?_⟩
      split
      · exact h.search.succeed hb.goals hb.bindings
      · exact h.search

end Turns

section Runs

variable {used : Nat → String → Prop} {limits : Limits} {n : Nat} {w w' : World} {s' : Search}

theorem Keeps.trans {w'' : World} {s'' : Search} (h : Keeps used w w' s') (h' : Keeps used w' w'' s'') :
    Keeps used w w'' s'' :=
  ⟨h.copies.trans h'.copies, h'.settled⟩

def Turn.Keeps (used : Nat → String → Prop) (w : World) : Turn → Prop
  | .goes w' s' => Search.Keeps used w w' s'
  | .stops answer w' s' => Search.Keeps used w w' s' ∧ ∀ b, answer = some b → b.VarsIn (used w'.copies)

def PullsKeep (used : Nat → String → Prop) (limits : Limits) (n : Nat) : Prop :=
  ∀ {w s answer w' s'}, Settled used w s → next limits n w s = some (answer, w', s') →
    Keeps used w w' s' ∧ ∀ b, answer = some b → b.VarsIn (used w'.copies)

def GatheringKeeps (used : Nat → String → Prop) (limits : Limits) (n : Nat) : Prop :=
  ∀ {w s t done ts w' s'}, Settled used w s → t.VarsIn (used w.copies) → (∀ t ∈ done, t.VarsIn (used w.copies)) →
    gather limits n w s t done = some (ts, w', s') → Keeps used w w' s' ∧ ∀ t ∈ ts, t.VarsIn (used w'.copies)

theorem keeps_failed (h : Keeps used w w' s') (s : Search) (e : Error) :
    Turn.Keeps used w (.stops none w' (s.failWith e)) :=
  ⟨⟨h.copies, h.settled.store, varsIn_failWith s e⟩, by simp⟩

variable (hu : Naming used)

include hu

theorem backTurn_keeps (h : Settled used w s) {t : Turn} (ht : backTurn n w s = some t) : t.Keeps used w := by
  obtain ⟨⟨copies, found⟩, hretry, ht⟩ := Option.map_eq_some_iff.mp ht
  obtain ⟨hle, hfound⟩ := retry_varsIn hu h.store h.search.choices hretry
  have hstore : w.store.VarsIn (used copies) := h.store.mono fun x => hu.mono hle
  rcases found with _ | ⟨branch, choices⟩
  · cases ht
    refine ⟨⟨hle, hstore, fun b hb => (h.search.current b hb).mono fun x => hu.mono hle, ?_⟩, by simp⟩
    simp [Choices.empty]
  · cases ht
    obtain ⟨hbranch, hchoices⟩ := hfound branch choices rfl
    exact ⟨hle, hstore, fun _ hb => by cases hb; exact hbranch, hchoices⟩

theorem goalTurn_keeps (hnext : PullsKeep used limits n) (hgather : GatheringKeeps used limits n)
    (h : Settled used w s) {f : Frame} (hf : f.goal.VarsIn (used w.copies))
    (hb : BranchIn (used w.copies) ⟨fs, b⟩) {t : Turn} (ht : goalTurn limits n w s f fs b = some t) :
    t.Keeps used w := by
  unfold goalTurn at ht
  split at ht
  · next goals hgoal =>
    obtain ⟨⟨answer, w', inner⟩, hn, ht⟩ := Option.map_eq_some_iff.mp ht
    cases hgoal ▸ hf with
    | not hgoals =>
      -- the search inside counts on, which keeps the names of the one around it in use
      obtain ⟨hk, -⟩ := hnext ⟨h.store, varsIn_start hgoals hb.bindings s.steps⟩ hn
      have mono (x : String) : used w.copies x → used w'.copies x := hu.mono hk.copies
      have hs := (h.search.mono mono).withSteps inner.steps
      dsimp only at ht
      split at ht
      · cases ht
        exact keeps_failed hk _ _
      · cases ht
        exact ⟨hk.copies, hk.settled.store, hs⟩
      · cases ht
        exact ⟨hk.copies, hk.settled.store, hs.succeed (hb.goals.mono mono) (hb.bindings.mono mono)⟩
  · next kind template goals result hgoal =>
    obtain ⟨⟨terms, w', inner⟩, hn, ht⟩ := Option.bind_eq_some_iff.mp ht
    cases hgoal ▸ hf with
    | collect htemplate hgoals hresult =>
      obtain ⟨hk, hterms⟩ := hgather ⟨h.store, varsIn_start hgoals hb.bindings s.steps⟩ htemplate (by simp) hn
      have mono (x : String) : used w.copies x → used w'.copies x := hu.mono hk.copies
      have hs : Settled used w' { s with steps := inner.steps } :=
        ⟨hk.settled.store, (h.search.mono mono).withSteps inner.steps⟩
      dsimp only at ht
      split at ht
      · cases ht
        exact keeps_failed hk _ _
      · obtain ⟨r, hr, ht⟩ := Option.map_eq_some_iff.mp ht
        have hlist : (Term.list (kind.arrange terms)).VarsIn (used w'.copies) :=
          Term.varsIn_list.mpr fun t ht => hterms t (Collection.mem_arrange ht)
        cases r with
        | none =>
          cases ht
          exact ⟨hk.copies, hs⟩
        | some b =>
          cases ht
          have hb' := (hb.bindings.mono mono).unify (hresult.mono mono) hlist hr
          exact ⟨hk.copies, hs.store, hs.search.succeed (hb.goals.mono mono) hb'⟩
  · obtain ⟨⟨w', s'⟩, hstep, ht⟩ := Option.map_eq_some_iff.mp ht
    cases ht
    exact simpleStep_keeps hu h hf hb hstep

theorem turn_keeps_of (hnext : PullsKeep used limits n) (hgather : GatheringKeeps used limits n)
    (h : Settled used w s) {t : Turn} (ht : turn limits n w s = some t) : t.Keeps used w := by
  unfold turn at ht
  split at ht
  · cases ht
    exact ⟨h.keeps h.search, by simp⟩
  · split at ht
    · exact backTurn_keeps hu h ht
    · next b hcurrent =>
      cases ht
      have hb := (h.search.current _ hcurrent).bindings
      exact ⟨h.keeps ⟨by simp, h.search.choices⟩, fun _ hb' => by cases hb'; exact hb⟩
    · next f fs b hcurrent =>
      obtain ⟨hgoals, hb⟩ := h.search.current _ hcurrent
      obtain ⟨hf, hfs⟩ := List.forall_mem_cons.mp hgoals
      split at ht
      · cases ht
        exact keeps_failed (h.keeps h.search) _ _
      · exact goalTurn_keeps hu hnext hgather ⟨h.store, h.search.counted⟩ hf ⟨hfs, hb⟩ ht

theorem pulls_gathering_keep (limits : Limits) (n : Nat) : PullsKeep used limits n ∧ GatheringKeeps used limits n := by
  induction n with
  | zero =>
    constructor
    · intro w s answer w' s' _ hn
      cases hn
    · intro w s t done ts w' s' _ _ _ hg
      cases hg
  | succ n ih =>
    constructor
    · intro w s answer w' s' h hn
      rw [next_succ] at hn
      obtain ⟨t, ht, hn⟩ := Option.bind_eq_some_iff.mp hn
      have hk := turn_keeps_of hu ih.1 ih.2 h ht
      cases t with
      | goes w₁ s₁ =>
        obtain ⟨hk', hanswer⟩ := ih.1 hk.settled hn
        exact ⟨hk.trans hk', hanswer⟩
      | stops answer w₁ s₁ =>
        cases hn
        exact hk
    · intro w s t done ts w' s' h ht hdone hg
      rw [gather_succ] at hg
      obtain ⟨⟨answer, w₁, s₁⟩, hn, hg⟩ := Option.bind_eq_some_iff.mp hg
      obtain ⟨hk, hanswer⟩ := ih.1 h hn
      have mono (x : String) : used w.copies x → used w₁.copies x := hu.mono hk.copies
      cases answer with
      | none =>
        cases hg
        exact ⟨hk, fun t ht => (hdone t (by simpa using ht)).mono mono⟩
      | some b =>
        have hresolved := (hanswer b rfl).resolve (ht.mono mono)
        obtain ⟨hk', hts⟩ := ih.2 hk.settled (ht.mono mono)
          (List.forall_mem_cons.mpr ⟨hresolved, fun t ht => (hdone t ht).mono mono⟩) hg
        exact ⟨hk.trans hk', hts⟩

/-- A turn leaves all names in use, in the clauses and in the search, whatever searches it runs inside. -/
theorem turn_keeps (h : Settled used w s) {t : Turn} (ht : turn limits n w s = some t) : t.Keeps used w :=
  turn_keeps_of hu (pulls_gathering_keep hu limits n).1 (pulls_gathering_keep hu limits n).2 h ht

end Runs

end Search
end BilingualLogic
