import BilingualLogic.Proofs.Likeness.Evaluation
import BilingualLogic.Proofs.Likeness.Store
import BilingualLogic.Proofs.Search.Edits

/-!
Searches that are alike stay so when both prove the goal that is next or go back to their newest choice. The copies of
clauses and the new lists that are made meanwhile get names that correspond, if those correspond that are still to be
made.
-/

namespace BilingualLogic

variable {L : Likeness}

/-- The names that will be made when so many copies have been counted on either side correspond. -/
def Likeness.Ahead (L : Likeness) (m n : Nat) : Prop :=
  ∀ k x, L.names (Clause.renamed (m + k) x) (Clause.renamed (n + k) x)

theorem Likeness.Ahead.copy {m n : Nat} (h : L.Ahead m n) (x : String) :
    L.names (Clause.renamed m x) (Clause.renamed n x) := h 0 x

theorem Likeness.Ahead.succ {m n : Nat} (h : L.Ahead m n) : L.Ahead (m + 1) (n + 1) := by
  intro k x
  rw [Nat.add_right_comm, Nat.add_right_comm n]
  exact h (k + 1) x

/-- The same clauses, where names of variables are concerned, and names ahead that correspond. -/
structure World.Alike (L : Likeness) (w w' : World) : Prop where
  store : w.store.Alike (L.withNames Eq) w'.store
  ahead : L.Ahead w.copies w'.copies

structure Frame.Alike (L : Likeness) (f f' : Frame) : Prop where
  goal : f.goal.Alike L f'.goal
  barrier : f.barrier = f'.barrier

structure Branch.Alike (L : Likeness) (b b' : Branch) : Prop where
  goals : List.Forall₂ (Frame.Alike L) b.goals b'.goals
  bindings : b.bindings.Alike L b'.bindings

inductive Choice.Alike (L : Likeness) : Choice → Choice → Prop
  | clauses {p p' : Predicate} {after : Nat} {rest rest' : List Frame} {b b' : Substitution} : p.Alike L p' →
    Branch.Alike L ⟨rest, b⟩ ⟨rest', b'⟩ → Alike L (.clauses p after rest b) (.clauses p' after rest' b')
  | answers {pending pending' : List Substitution} {rest rest' : List Frame} :
    List.Forall₂ (Substitution.Alike L) pending pending' → List.Forall₂ (Frame.Alike L) rest rest' →
    Alike L (.answers pending rest) (.answers pending' rest')

structure Choices.Alike (L : Likeness) (cs cs' : Choices) : Prop where
  stack : List.Forall₂ (Choice.Alike L) cs.stack cs'.stack
  height : cs.height = cs'.height

theorem Choices.alike_empty : Choices.empty.Alike L .empty := ⟨.nil, rfl⟩

theorem Choices.Alike.push {cs cs' : Choices} (h : cs.Alike L cs') {c c' : Choice} (hc : c.Alike L c') :
    (cs.push c).Alike L (cs'.push c') :=
  ⟨.cons hc h.stack, by rw [Choices.push, Choices.push, h.height]⟩

theorem Choices.Alike.cutTo {cs cs' : Choices} (h : cs.Alike L cs') (height : Nat) :
    (cs.cutTo height).Alike L (cs'.cutTo height) := by
  rw [Choices.cutTo, Choices.cutTo, h.height]
  exact ⟨List.forall₂_drop _ h.stack, rfl⟩

namespace Search

structure Alike (L : Likeness) (s s' : Search) : Prop where
  current : Option.Rel (Branch.Alike L) s.current s'.current
  choices : s.choices.Alike L s'.choices
  steps : s.steps = s'.steps
  error : s.error = s'.error

/-- What was found, and the number of copies. -/
structure AlikeFound (L : Likeness) (r r' : Nat × Option (Branch × Choices)) : Prop where
  ahead : L.Ahead r.1 r'.1
  found : Option.Rel (fun x x' => x.1.Alike L x'.1 ∧ x.2.Alike L x'.2) r.2 r'.2

structure AlikeStep (L : Likeness) (r r' : World × Search) : Prop where
  world : r.1.Alike L r'.1
  search : r.2.Alike L r'.2

variable {s s' : Search} {fs fs' : List Frame} {b b' : Substitution} {w w' : World} {n : Nat}

theorem frames_alike {goals goals' : List Goal} (h : List.Forall₂ (Goal.Alike L) goals goals')
    (hfs : List.Forall₂ (Frame.Alike L) fs fs') (barrier : Nat) :
    List.Forall₂ (Frame.Alike L) (frames barrier goals fs) (frames barrier goals' fs') := by
  refine List.rel_append ?_ hfs
  rw [List.forall₂_map_left_iff, List.forall₂_map_right_iff]
  exact h.imp fun _ _ h => ⟨h, rfl⟩

theorem alike_start {goals goals' : List Goal} (h : List.Forall₂ (Goal.Alike L) goals goals') (hb : b.Alike L b')
    (steps : Nat) : (start goals b steps).Alike L (start goals' b' steps) :=
  ⟨.some ⟨frames_alike h .nil 0, hb⟩, Choices.alike_empty, rfl, rfl⟩

theorem Alike.succeed (h : s.Alike L s') (hb : Branch.Alike L ⟨fs, b⟩ ⟨fs', b'⟩) :
    (s.succeed fs b).Alike L (s'.succeed fs' b') :=
  ⟨.some hb, h.choices, h.steps, h.error⟩

theorem Alike.failWith (h : s.Alike L s') (e : Error) : (s.failWith e).Alike L (s'.failWith e) :=
  ⟨.none, Choices.alike_empty, h.steps, rfl⟩

theorem Alike.cut (h : s.Alike L s') (hb : Branch.Alike L ⟨fs, b⟩ ⟨fs', b'⟩) (barrier : Nat) :
    (s.cut barrier fs b).Alike L (s'.cut barrier fs' b') :=
  ⟨.some hb, h.choices.cutTo barrier, h.steps, h.error⟩

theorem Alike.withSteps (h : s.Alike L s') (steps : Nat) :
    ({ s with steps } : Search).Alike L { s' with steps } :=
  ⟨h.current, h.choices, rfl, h.error⟩

theorem Alike.counted (h : s.Alike L s') : s.counted.Alike L s'.counted :=
  ⟨.none, h.choices, by rw [Search.counted, Search.counted, h.steps], h.error⟩

theorem Alike.offer (h : s.Alike L s') (hfs : List.Forall₂ (Frame.Alike L) fs fs') {bs bs' : List Substitution}
    (hbs : List.Forall₂ (Substitution.Alike L) bs bs') : (s.offer fs bs).Alike L (s'.offer fs' bs') := by
  cases hbs with
  | nil => exact h
  | cons hb hmore =>
    cases hmore with
    | nil => exact h.succeed ⟨hfs, hb⟩
    | cons hb' hmore =>
      exact ⟨.some ⟨hfs, hb⟩, h.choices.push (.answers (.cons hb' hmore) hfs), h.steps, h.error⟩

theorem Alike.offerOrFail (h : s.Alike L s') (hfs : List.Forall₂ (Frame.Alike L) fs fs')
    {r r' : Except Error (List Substitution)} (hr : Sequence.AlikeAnswers L r r') :
    (s.offerOrFail fs r).Alike L (s'.offerOrFail fs' r') := by
  cases hr with
  | ok hbs => exact h.offer hfs hbs
  | error e => exact h.failWith e

theorem Alike.foundSearch (h : s.Alike L s') {r r' : Option (Branch × Choices)}
    (hr : Option.Rel (fun x x' => x.1.Alike L x'.1 ∧ x.2.Alike L x'.2) r r') :
    (s.foundSearch r).Alike L (s'.foundSearch r') := by
  cases hr with
  | none => exact h
  | some hr => exact ⟨.some hr.1, hr.2, h.steps, h.error⟩

section Clauses

variable (hL : L.Proper)

include hL

/-- The heads of corresponding copies unify with the call on both sides or on neither, and the copies that are passed
over are counted on both. -/
theorem tryClauses_alike {p p' : Predicate} (hp : p.Alike L p') (hb : Branch.Alike L ⟨fs, b⟩ ⟨fs', b'⟩)
    {cs cs' : Choices} (hcs : cs.Alike L cs') {ds ds' : List StoredClause}
    (hds : List.Forall₂ (StoredClause.Alike (L.withNames Eq)) ds ds') {m m' : Nat} (hm : L.Ahead m m') :
    Option.Rel (AlikeFound L) (tryClauses n p fs b cs m ds) (tryClauses n p' fs' b' cs' m' ds') := by
  induction hds generalizing m m' with
  | nil => exact .some ⟨hm, .none⟩
  | @cons d d' ds ds' hd _ ih =>
    have hcopy := hd.clause.rename hm.copy
    have hunify := Predicate.unify_alike hL.names n hcopy.head hp hb.bindings
    rw [tryClauses, tryClauses]
    generalize Predicate.unify n _ p b = r at hunify ⊢
    generalize Predicate.unify n _ p' b' = r' at hunify ⊢
    cases hunify with
    | none => exact .none
    | some h =>
      cases h with
      | none => exact ih hm.succ
      | some h =>
        rw [hcs.height, hd.id]
        exact .some ⟨hm.succ, .some ⟨⟨frames_alike hcopy.body hb.goals _, h⟩, hcs.push (.clauses hp hb)⟩⟩

theorem retry_alike {store store' : Store} (hstore : store.Alike (L.withNames Eq) store') {cs cs' : List Choice}
    (hcs : List.Forall₂ (Choice.Alike L) cs cs') {m m' : Nat} (hm : L.Ahead m m') (height : Nat) :
    Option.Rel (AlikeFound L) (retry n store m height cs) (retry n store' m' height cs') := by
  induction hcs generalizing m m' height with
  | nil => exact .some ⟨hm, .none⟩
  | cons hc hcs ih =>
    cases hc with
    | answers hbs hfs =>
      cases hbs with
      | nil => exact ih hm _
      | cons hb hmore =>
        cases hmore with
        | nil => exact .some ⟨hm, .some ⟨⟨hfs, hb⟩, hcs, rfl⟩⟩
        | cons hb' hmore => exact .some ⟨hm, .some ⟨⟨hfs, hb⟩, .cons (.answers (.cons hb' hmore) hfs) hcs, rfl⟩⟩
    | @clauses p p' after _ _ _ _ hp hb =>
      have hbelow : Choices.Alike L ⟨_, height - 1⟩ ⟨_, height - 1⟩ := ⟨hcs, rfl⟩
      have htry := tryClauses_alike (n := n) hL hp hb hbelow (hstore.clausesAfter p'.key (some after)) hm
      rw [retry, retry, hp.key_eq]
      generalize tryClauses n p _ _ _ m _ = r at htry ⊢
      generalize tryClauses n p' _ _ _ m' _ = r' at htry ⊢
      cases htry with
      | none => exact .none
      | @some r r' h =>
        obtain ⟨k, found⟩ := r
        obtain ⟨k', found'⟩ := r'
        obtain ⟨hk, hfound⟩ := h
        cases hfound with
        | none => exact ih hk _
        | some h => exact .some ⟨hk, .some h⟩

theorem callClauses_alike (hw : w.Alike L w') (hs : s.Alike L s') {p p' : Predicate} (hp : p.Alike L p')
    (hb : Branch.Alike L ⟨fs, b⟩ ⟨fs', b'⟩) :
    Option.Rel (AlikeStep L) (callClauses n w s p fs b) (callClauses n w' s' p' fs' b') := by
  rw [callClauses_eq, callClauses_eq, hp.key_eq]
  refine Option.Rel.map (tryClauses_alike hL hp hb hs.choices (hw.store.clausesAfter _ none) hw.ahead) ?_
  rintro ⟨_, _⟩ ⟨_, _⟩ ⟨hm, hfound⟩
  exact ⟨⟨hw.store, hm⟩, hs.foundSearch hfound⟩

end Clauses

section Steps

variable (hL : L.Proper)

theorem alike_unified (hw : w.Alike L w') (hs : s.Alike L s') (hfs : List.Forall₂ (Frame.Alike L) fs fs')
    {r r' : Bounded (Option Substitution)} (h : AlikeResults L r r') :
    Option.Rel (AlikeStep L)
      (r.map fun | some b => (w, s.succeed fs b) | none => (w, s))
      (r'.map fun | some b => (w', s'.succeed fs' b) | none => (w', s')) := by
  refine Option.Rel.map h fun r r' hr => ?_
  cases hr with
  | none => exact ⟨hw, hs⟩
  | some hb => exact ⟨hw, hs.succeed ⟨hfs, hb⟩⟩

include hL

theorem call_alike (limits : Limits) (hw : w.Alike L w') (hs : s.Alike L s') {p p' : Predicate}
    (hp : p.CalledAlike L p') (barrier : Nat) (hb : Branch.Alike L ⟨fs, b⟩ ⟨fs', b'⟩) :
    Option.Rel (AlikeStep L) (call limits n w s p barrier fs b) (call limits n w' s' p' barrier fs' b') := by
  cases hbuiltin : p.isBuiltin with
  | false =>
    have hbuiltin' := (hp.isBuiltin_eq hL.calls).symm.trans hbuiltin
    rw [call_eq_callClauses hbuiltin, call_eq_callClauses hbuiltin']
    exact callClauses_alike hL hw hs ⟨hp.own hbuiltin, hp.arguments⟩ hb
  | true =>
    have hkeyword := hp.keyword_eq hL.calls
    have hargs := hp.arguments
    obtain ⟨name, as⟩ := p
    obtain ⟨name', as'⟩ := p'
    unfold Predicate.isBuiltin Predicate.listKeyword? at hbuiltin
    unfold call
    dsimp only at hkeyword hargs hbuiltin ⊢
    rw [hkeyword] at hbuiltin ⊢
    generalize Keyword.ofSpelling? name' = k at hbuiltin ⊢
    split
    · cases hargs
      exact .some ⟨hw, hs.cut hb barrier⟩
    · cases hargs
      exact .some ⟨hw, hs.succeed hb⟩
    · cases hargs
      exact .some ⟨hw, hs⟩
    · rcases hargs with _ | ⟨hx, _ | ⟨hxs, _ | _⟩⟩
      exact Option.Rel.map (Sequence.member_alike hL.names hb.bindings hx hxs)
        fun _ _ hbs => ⟨hw, hs.offer hb.goals hbs⟩
    · rcases hargs with _ | ⟨hfront, _ | ⟨hback, _ | ⟨hwhole, _ | _⟩⟩⟩
      exact Option.Rel.map (Sequence.append_alike hL.names limits hb.bindings hfront hback hwhole)
        fun _ _ hr => ⟨hw, hs.offerOrFail hb.goals hr⟩
    · rcases hargs with _ | ⟨hxs, _ | ⟨hcount, _ | _⟩⟩
      exact Option.Rel.map (Sequence.length_alike hL.names limits hw.ahead.copy hb.bindings hxs hcount)
        fun _ _ hr => ⟨⟨hw.store, hw.ahead.succ⟩, hs.offerOrFail hb.goals hr⟩
    · rcases hargs with _ | ⟨hx, _ | ⟨hy, _ | _⟩⟩
      exact alike_unified hw hs hb.goals (unify_alike hL.names n hx hy hb.bindings)
    · -- a call that is built in has one of the forms above
      exfalso
      cases k with
      | none => simp at hbuiltin
      | some k =>
        clear hp hargs hkeyword hb hw hs hL
        rcases as with _ | ⟨_, _ | ⟨_, _ | ⟨_, _ | _⟩⟩⟩ <;> cases k <;> simp_all [Keyword.listArity?]

theorem resolve_alike (hb : b.Alike L b') (hnames : ∀ x y, L.names x y → x = y) {t u : Term} (h : Term.Alike L t u) :
    Term.Alike (L.withNames Eq) (b.resolve t) (b'.resolve u) :=
  (hb.resolve hL.names h).withNames (V := fun _ => True) (W := fun _ => True) (fun x y h _ _ => hnames x y h)
    (fun _ _ => trivial) fun _ _ => trivial

/-- Where clauses are asserted or retracted, names correspond to themselves only. -/
theorem simpleStep_alike (limits : Limits) (hw : w.Alike L w') (hs : s.Alike L s') {f f' : Frame} (hf : f.Alike L f')
    (hb : Branch.Alike L ⟨fs, b⟩ ⟨fs', b'⟩) (hedit : f.goal.isEdit = true → ∀ x y, L.names x y → x = y) :
    Option.Rel (AlikeStep L) (simpleStep limits n w s f fs b) (simpleStep limits n w' s' f' fs' b') := by
  obtain ⟨g, barrier⟩ := f
  obtain ⟨g', barrier'⟩ := f'
  obtain ⟨hg, rfl⟩ := hf
  dsimp only at hg hedit
  have removed {r r' : Bool × Store} (h : Store.AlikeRemovals (L.withNames Eq) r r') :
      AlikeStep L ({ w with store := r.2 }, if r.1 then s.succeed fs b else s)
        ({ w' with store := r'.2 }, if r'.1 then s'.succeed fs' b' else s') := by
    refine ⟨⟨h.2, hw.ahead⟩, ?_⟩
    rw [h.1]
    split
    · exact hs.succeed hb
    · exact hs
  cases hg with
  | call hp => exact call_alike hL limits hw hs hp barrier hb
  | cut => exact .some ⟨hw, hs.cut hb barrier⟩
  | not _ => exact .some ⟨hw, hs⟩
  | unify hx hy => exact alike_unified hw hs hb.goals (unify_alike hL.names n hx hy hb.bindings)
  | is hx he => exact alike_unified hw hs hb.goals (Formula.unifyValue_alike hL hb.bindings hx he n)
  | @compare op _ _ _ _ hx hy =>
    have hholds := op.holds_alike hL hb.bindings hx hy
    dsimp only at hholds
    simp only [simpleStep, hholds]
    split
    · exact .some ⟨hw, hs.succeed hb⟩
    · exact .some ⟨hw, hs⟩
  | collect _ _ _ => exact .some ⟨hw, hs⟩
  | @assert p p' body body' hp hbody =>
    have hc : Clause.Alike L ⟨p, body⟩ ⟨p', body'⟩ := ⟨hp, hbody⟩
    have hresolved := hc.mapTerms (resolve_alike hL hb.bindings (hedit rfl)) rfl
    exact .some ⟨⟨hw.store.add hresolved, hw.ahead⟩, hs.succeed hb⟩
  | @retract p p' body body' hp hbody hfixed =>
    have hnames : ∀ x y, (L.withNames Eq).names x y → x = y := fun _ _ h => h
    have hc : Clause.Alike L ⟨p, body⟩ ⟨p', body'⟩ := ⟨hp, hbody⟩
    have hresolved := hc.mapTerms (resolve_alike hL hb.bindings (hedit rfl)) rfl
    cases hbody with
    | nil => exact Option.Rel.map (hw.store.retractHead hnames hresolved.head n) fun _ _ h => removed h
    | cons _ _ =>
      refine .some (removed (hw.store.retractClause hnames hL.calls hresolved ?_))
      rw [← Goal.builtinNames_mapTermsAll b.resolve] at hfixed
      exact hfixed

end Steps

end Search
end BilingualLogic
