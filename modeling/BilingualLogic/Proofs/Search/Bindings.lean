import BilingualLogic.Proofs.Names.Reachable
import BilingualLogic.Proofs.Search.Moments
import BilingualLogic.Proofs.Substitution.Derived

/-!
The bindings that a search holds: those of its branch, and those behind its choices. After a turn each of them comes
from one that was held before by operations that make bindings, so all go back to the empty substitution.
-/

namespace BilingualLogic

open Substitution

theorem unifyAllBy_becomes {n : Nat} {as bs : List Term} {s s' : Substitution}
    (h : unifyAllBy (unify n) as bs s = some (some s')) : s.Becomes s' := by
  induction as generalizing bs s with
  | nil =>
    cases bs with
    | nil =>
      cases h
      exact .refl
    | cons b bs => cases h
  | cons a as ih =>
    cases bs with
    | nil => cases h
    | cons b bs =>
      rw [unifyAllBy] at h
      split at h
      · next s₁ hab => exact .head ⟨_, .unify hab⟩ (ih h)
      · next hab => exact absurd h (hab s')

theorem Predicate.unify_becomes {n : Nat} {p q : Predicate} {s s' : Substitution}
    (h : p.unify n q s = some (some s')) : s.Becomes s' := by
  unfold Predicate.unify unifyAll at h
  split at h
  · split at h
    · exact unifyAllBy_becomes h
    · cases h
  · cases h

def Choice.bindings : Choice → List Substitution
  | .clauses _ _ _ b => [b]
  | .answers pending _ => pending

namespace Search

variable {limits : Limits} {n : Nat} {w w' : World} {s s' : Search} {b b' : Substitution} {p : Predicate}
  {fs : List Frame} {cs : List Choice} {store : Store}

inductive Holds (s : Search) : Substitution → Prop
  | current {branch : Branch} : s.current = some branch → Holds s branch.bindings
  | choice {c : Choice} {b : Substitution} : c ∈ s.choices.stack → b ∈ c.bindings → Holds s b

/-- One of the substitutions becomes this one by operations that make bindings. -/
def ComesFrom (R : Substitution → Prop) (b' : Substitution) : Prop := ∃ b, R b ∧ b.Becomes b'

theorem ComesFrom.becomes {R : Substitution → Prop} (h : ComesFrom R b) (hb : b.Becomes b') : ComesFrom R b' := by
  obtain ⟨b₀, hR, hb₀⟩ := h
  exact ⟨b₀, hR, hb₀.trans hb⟩

theorem ComesFrom.gives {R : Substitution → Prop} (h : ComesFrom R b) {o : Binder} (hb : o.Gives b b') :
    ComesFrom R b' :=
  h.becomes (.single ⟨o, hb⟩)

def From (R : Substitution → Prop) (s : Search) : Prop := ∀ b, s.Holds b → ComesFrom R b

def FoundFrom (R : Substitution → Prop) (found : Option (Branch × Choices)) : Prop :=
  ∀ branch choices, found = some (branch, choices) → ComesFrom R branch.bindings ∧
    ∀ c ∈ choices.stack, ∀ b ∈ c.bindings, ComesFrom R b

section From

variable {R : Substitution → Prop}

theorem from_holds (s : Search) : s.From s.Holds := fun b hb => ⟨b, hb, .refl⟩

theorem From.choice (h : s.From R) {c : Choice} (hc : c ∈ s.choices.stack) (hb : b ∈ c.bindings) : ComesFrom R b :=
  h b (.choice hc hb)

theorem From.succeed (h : s.From R) (hb : ComesFrom R b) (fs : List Frame) : (s.succeed fs b).From R := by
  rintro _ (⟨⟨⟩⟩ | ⟨hc, hmem⟩)
  · exact hb
  · exact h.choice hc hmem

theorem From.cut (h : s.From R) (hb : ComesFrom R b) (barrier : Nat) (fs : List Frame) :
    (s.cut barrier fs b).From R := by
  rintro _ (⟨⟨⟩⟩ | ⟨hc, hmem⟩)
  · exact hb
  · exact h.choice (List.mem_of_mem_drop hc) hmem

theorem from_failWith (s : Search) (e : Error) : (s.failWith e).From R := by
  rintro _ (⟨⟨⟩⟩ | ⟨⟨⟩, _⟩)

theorem From.counted (h : s.From R) : s.counted.From R := by
  rintro _ (⟨⟨⟩⟩ | ⟨hc, hmem⟩)
  exact h.choice hc hmem

theorem From.withSteps (h : s.From R) (steps : Nat) : ({ s with steps } : Search).From R := by
  rintro _ (hc | ⟨hc, hmem⟩)
  · exact h _ (.current hc)
  · exact h.choice hc hmem

theorem From.offer (h : s.From R) {bs : List Substitution} (hbs : ∀ b ∈ bs, ComesFrom R b)
    (fs : List Frame) : (s.offer fs bs).From R := by
  match bs with
  | [] => exact h
  | [b] => exact h.succeed (hbs b (List.mem_singleton_self b)) fs
  | b :: b' :: bs =>
    obtain ⟨hb, hmore⟩ := List.forall_mem_cons.mp hbs
    rintro _ (⟨⟨⟩⟩ | ⟨hc, hmem⟩)
    · exact hb
    · rcases List.mem_cons.mp hc with rfl | hc
      · exact hmore _ hmem
      · exact h.choice hc hmem

theorem From.offerOrFail (h : s.From R) {r : Except Error (List Substitution)}
    (hr : ∀ bs, r = .ok bs → ∀ b ∈ bs, ComesFrom R b) (fs : List Frame) : (s.offerOrFail fs r).From R := by
  cases r with
  | error e => exact from_failWith s e
  | ok bs => exact h.offer (hr bs rfl) fs

theorem From.foundSearch (h : s.From R) {found : Option (Branch × Choices)} (hfound : FoundFrom R found) :
    (s.foundSearch found).From R := by
  cases found with
  | none => exact h
  | some x =>
    obtain ⟨hbranch, hchoices⟩ := hfound x.1 x.2 rfl
    rintro _ (⟨⟨⟩⟩ | ⟨hc, hmem⟩)
    · exact hbranch
    · exact hchoices _ hc _ hmem

theorem From.unified (h : s.From R) (hb : ComesFrom R b) {r : Option Substitution}
    (hstep : (match r with | some b => (w, s.succeed fs b) | none => (w, s)) = (w', s'))
    (hr : ∀ b', r = some b' → b.Becomes b') : s'.From R := by
  cases r with
  | none =>
    cases hstep
    exact h
  | some b' =>
    cases hstep
    exact h.succeed (hb.becomes (hr b' rfl)) fs

theorem tryClauses_from (hb : ComesFrom R b) {choices : Choices}
    (hchoices : ∀ c ∈ choices.stack, ∀ b ∈ c.bindings, ComesFrom R b) {m m' : Nat} {ds : List StoredClause}
    {found : Option (Branch × Choices)} (h : tryClauses n p fs b choices m ds = some (m', found)) :
    FoundFrom R found := by
  induction ds generalizing m with
  | nil =>
    cases h
    rintro _ _ ⟨⟩
  | cons d ds ih =>
    rw [tryClauses] at h
    split at h
    · cases h
    · next unified hunified =>
      cases h
      rintro _ _ ⟨⟩
      refine ⟨hb.becomes (Predicate.unify_becomes hunified), List.forall_mem_cons.mpr ⟨?_, hchoices⟩⟩
      exact List.forall_mem_singleton.mpr hb
    · exact ih h

theorem retry_from (hcs : ∀ c ∈ cs, ∀ b ∈ c.bindings, ComesFrom R b) {m m' height : Nat}
    {found : Option (Branch × Choices)} (h : retry n store m height cs = some (m', found)) : FoundFrom R found := by
  induction cs generalizing m height with
  | nil =>
    cases h
    rintro _ _ ⟨⟩
  | cons c cs ih =>
    obtain ⟨hc, hrest⟩ := List.forall_mem_cons.mp hcs
    match c with
    | .answers [] fs => exact ih hrest h
    | .answers [b] fs =>
      cases h
      rintro _ _ ⟨⟩
      exact ⟨hc b (List.mem_singleton_self b), hrest⟩
    | .answers (b :: b' :: bs) fs =>
      cases h
      rintro _ _ ⟨⟩
      obtain ⟨hb, hmore⟩ := List.forall_mem_cons.mp hc
      exact ⟨hb, List.forall_mem_cons.mpr ⟨hmore, hrest⟩⟩
    | .clauses p after fs b =>
      rw [retry] at h
      split at h
      · cases h
      · next htry =>
        cases h
        exact tryClauses_from (hc b (List.mem_singleton_self b)) hrest htry
      · exact ih hrest h

variable (hs : s.From R) (hb : ComesFrom R b)

include hs hb

theorem call_from {barrier : Nat} (h : call limits n w s p barrier fs b = some (w', s')) : s'.From R := by
  unfold call at h
  split at h
  · cases h
    exact hs.cut hb barrier fs
  · cases h
    exact hs.succeed hb fs
  · cases h
    exact hs
  · obtain ⟨bs, hbs, h⟩ := Option.map_eq_some_iff.mp h
    cases h
    exact hs.offer (fun b' hb' => hb.gives (.member hbs hb')) fs
  · obtain ⟨r, hr, h⟩ := Option.map_eq_some_iff.mp h
    cases h
    exact hs.offerOrFail (fun bs hbs b' hb' => hb.gives (.append (hbs ▸ hr) hb')) fs
  · obtain ⟨r, hr, h⟩ := Option.map_eq_some_iff.mp h
    cases h
    exact hs.offerOrFail (fun bs hbs b' hb' => hb.gives (.length (hbs ▸ hr) hb')) fs
  · obtain ⟨r, hr, h⟩ := Option.map_eq_some_iff.mp h
    exact hs.unified hb h fun b' hb' => .single ⟨_, .unify (hb' ▸ hr)⟩
  · rw [callClauses_eq] at h
    obtain ⟨⟨m, found⟩, htry, h⟩ := Option.map_eq_some_iff.mp h
    cases h
    exact hs.foundSearch (tryClauses_from hb (fun c hc b' hb' => hs.choice hc hb') htry)

theorem simpleStep_from {f : Frame} (h : simpleStep limits n w s f fs b = some (w', s')) : s'.From R := by
  obtain ⟨g, barrier⟩ := f
  cases g with
  | call p => exact call_from hs hb h
  | cut =>
    cases h
    exact hs.cut hb barrier fs
  | unify x y =>
    obtain ⟨r, hr, h⟩ := Option.map_eq_some_iff.mp h
    exact hs.unified hb h fun b' hb' => .single ⟨_, .unify (hb' ▸ hr)⟩
  | is x e =>
    obtain ⟨r, hr, h⟩ := Option.map_eq_some_iff.mp h
    exact hs.unified hb h fun b' hb' => .single ⟨_, .value (hb' ▸ hr)⟩
  | compare op x y =>
    cases h
    split
    · exact hs.succeed hb fs
    · exact hs
  | assert head body =>
    cases h
    exact hs.succeed hb fs
  | retract head body =>
    cases body with
    | nil =>
      obtain ⟨⟨removed, store⟩, -, h⟩ := Option.map_eq_some_iff.mp h
      cases h
      split
      · exact hs.succeed hb fs
      · exact hs
    | cons g gs =>
      cases h
      split
      · exact hs.succeed hb fs
      · exact hs
  | not _ | collect _ _ _ _ =>
    cases h
    exact hs

theorem goalTurn_from {f : Frame} {t : Turn} (h : goalTurn limits n w s f fs b = some t) : t.search.From R := by
  unfold goalTurn at h
  split at h
  · obtain ⟨⟨answer, w₁, inner⟩, -, h⟩ := Option.map_eq_some_iff.mp h
    have hs₁ := hs.withSteps inner.steps
    dsimp only at h
    split at h <;> cases h
    · exact from_failWith _ _
    · exact hs₁
    · exact hs₁.succeed hb fs
  · obtain ⟨⟨terms, w₁, inner⟩, -, h⟩ := Option.bind_eq_some_iff.mp h
    have hs₁ := hs.withSteps inner.steps
    dsimp only at h
    split at h
    · cases h
      exact from_failWith _ _
    · obtain ⟨r, hr, h⟩ := Option.map_eq_some_iff.mp h
      cases r with
      | none =>
        cases h
        exact hs₁
      | some b' =>
        cases h
        exact hs₁.succeed (hb.gives (.unify hr)) fs
  · obtain ⟨⟨w₁, s₁⟩, hstep, h⟩ := Option.map_eq_some_iff.mp h
    cases h
    exact simpleStep_from hs hb hstep

end From

theorem turn_from {t : Turn} (h : turn limits n w s = some t) : t.search.From s.Holds := by
  have hs := from_holds s
  unfold turn at h
  split at h
  · cases h
    exact hs
  · split at h
    · obtain ⟨⟨m, found⟩, hretry, h⟩ := Option.map_eq_some_iff.mp h
      have hfound := retry_from (fun c hc b' hb' => hs.choice hc hb') hretry
      cases found with
      | none =>
        cases h
        rintro _ (hcurrent | ⟨⟨⟩, _⟩)
        exact hs _ (.current hcurrent)
      | some x =>
        cases h
        exact hs.foundSearch hfound
    · cases h
      rintro _ (⟨⟨⟩⟩ | ⟨hc, hmem⟩)
      exact hs.choice hc hmem
    · next f fs b hcurrent =>
      split at h
      · cases h
        exact from_failWith _ _
      · exact goalTurn_from hs.counted ⟨b, .current hcurrent, .refl⟩ h

/-- The states of searches that were started without bindings, and of those nested in them. Every turn finds any
world. -/
inductive Arises (limits : Limits) : Search → Prop
  | start (goals : List Goal) (steps : Nat) : Arises limits (start goals ∅ steps)
  | turned {n : Nat} {w : World} {s : Search} {t : Turn} : Arises limits s → turn limits n w s = some t →
    Arises limits t.search
  | inside {s : Search} {f : Frame} {rest : List Frame} {b : Substitution} {goals : List Goal} : Arises limits s →
    s.current = some ⟨f :: rest, b⟩ → f.goal.inner? = some goals → Arises limits (start goals b (s.steps + 1))

theorem Arises.becomes (h : Arises limits s) (hb : s.Holds b) : Becomes ∅ b := by
  induction h generalizing b with
  | start goals steps =>
    rcases hb with ⟨⟨⟩⟩ | ⟨⟨⟩, _⟩
    exact .refl
  | turned _ ht ih =>
    obtain ⟨b₀, hb₀, hbecomes⟩ := turn_from ht b hb
    exact (ih hb₀).trans hbecomes
  | inside _ hcurrent _ ih =>
    rcases hb with ⟨⟨⟩⟩ | ⟨⟨⟩, _⟩
    have hheld := Holds.current hcurrent
    exact ih hheld

end Search

theorem Reachable.arises {limits : Limits} {w : World} {ss : List Search} (h : Reachable limits w ss) :
    ∀ s ∈ ss, Search.Arises limits s := by
  induction h with
  | start => simp
  | fact _ _ _ _ ih => exact ih
  | rule _ _ _ _ ih => exact ih
  | query _ _ _ _ ih => exact List.forall_mem_cons.mpr ⟨.start _ _, ih⟩
  | directive _ _ _ _ ih => exact List.forall_mem_cons.mpr ⟨.start _ _, ih⟩
  | ask _ _ ih => exact List.forall_mem_cons.mpr ⟨.start _ _, ih⟩
  | @goes w w' l r s s' n _ ht ih =>
    obtain ⟨hl, hs, hr⟩ := List.forall_mem_append.mp ih |>.imp_right List.forall_mem_cons.mp
    exact List.forall_mem_append.mpr ⟨hl, List.forall_mem_cons.mpr ⟨hs.turned ht, hr⟩⟩
  | @stops w w' l r s s' n answer _ ht ih =>
    obtain ⟨hl, hs, hr⟩ := List.forall_mem_append.mp ih |>.imp_right List.forall_mem_cons.mp
    exact List.forall_mem_append.mpr ⟨hl, List.forall_mem_cons.mpr ⟨hs.turned ht, hr⟩⟩
  | inside _ hmem hcurrent hinner ih => exact List.forall_mem_cons.mpr ⟨(ih _ hmem).inside hcurrent hinner, ih⟩
  | @closed w l r s _ ih =>
    obtain ⟨hl, hr⟩ := List.forall_mem_append.mp ih
    exact List.forall_mem_append.mpr ⟨hl, (List.forall_mem_cons.mp hr).2⟩

/-- In every state of a search, of those that sessions get to and of any other, the substitutions that are held go back
to the empty one. Whatever that one becomes by operations that make bindings, no variable is bound to itself or leads
back to itself, and walks end; and every further operation keeps all bindings, and adds only bindings of variables that
were unbound and that its arguments lead to. The variables of a new list stay unbound. -/
theorem bindings_grow (limits : Limits) :
    (∀ w ss, Reachable limits w ss → ∀ s ∈ ss, Search.Arises limits s) ∧
    (∀ s b, Search.Arises limits s → s.Holds b → Becomes ∅ b) ∧
    ∀ b, Becomes ∅ b → (∀ x, b.get? x ≠ some (.var x)) ∧ b.Direct ∧ b.Walkable ∧
      ∀ (o : Binder) b', o.Gives b b' → b.Extends (o.Touches b) b' := by
  refine ⟨fun w ss h => h.arises, fun s b h hb => h.becomes hb, fun b h => ?_⟩
  have hw : b.Walkable := h.walkable walkable_empty
  have hd : b.Direct := walkable_iff_direct.mp hw
  exact ⟨fun x hx => hd x (.single hx), hd, hw, fun o b' ho => (ho.walkable_extends hw).2⟩

theorem bindings_grow_cyclic : ∃ w s b b', Reachable {} w [s] ∧ s.Holds b ∧ (b.get? "X").isSome = true ∧ b.Direct ∧
    (Binder.member (.var "Y") (.list [.atom "c"])).Gives b b' ∧
    b.Extends ((Binder.member (.var "Y") (.list [.atom "c"])).Touches b) b' := by
  have hturn : (Goal.parseQuery "?X = [a | ?X]").toOption.any (fun goals =>
      (Search.turn {} 9 ⟨∅, 0⟩ (.start goals ∅ 0)).any fun t => t.goesOn && t.search.current.any fun branch =>
        (branch.bindings.get? "X").isSome &&
          (Sequence.member 9 (.var "Y") (.list [.atom "c"]) branch.bindings).any (! ·.isEmpty)) = true := by
    decide +kernel
  obtain ⟨goals, hgoals, hturn⟩ := exists_of_any hturn
  obtain ⟨t, ht, hturn⟩ := (Option.any_eq_true _ _).mp hturn
  cases t with
  | stops answer w s => cases hturn
  | goes w s =>
    obtain ⟨branch, hbranch, hturn⟩ := (Option.any_eq_true _ _).mp ((Bool.and_eq_true _ _).mp hturn).2
    obtain ⟨hx, hturn⟩ := (Bool.and_eq_true _ _).mp hturn
    obtain ⟨bs, hmember, hbs⟩ := (Option.any_eq_true _ _).mp hturn
    obtain ⟨b', hb'⟩ : ∃ b', b' ∈ bs := List.exists_mem_of_ne_nil bs (by simpa using hbs)
    have hreach : Reachable {} w [s] := (Reachable.start.ask hgoals).goes (l := []) ht
    have hheld : s.Holds branch.bindings := .current hbranch
    have hgives : (Binder.member (.var "Y") (.list [.atom "c"])).Gives branch.bindings b' := .member hmember hb'
    obtain ⟨harises, hbecomes, hgrow⟩ := bindings_grow {}
    obtain ⟨-, hdirect, -, hextends⟩ := hgrow _ (hbecomes s _ (harises w _ hreach s (List.mem_singleton_self s)) hheld)
    exact ⟨w, s, _, b', hreach, hheld, hx, hdirect, hgives, hextends _ b' hgives⟩

end BilingualLogic
