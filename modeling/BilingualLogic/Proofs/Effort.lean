import BilingualLogic.Search

/-!
Effort: a result that was finished is the result of every greater effort too. So a finished result does not depend on
the effort, and that a function returns means that it does so for some effort.
-/

namespace BilingualLogic

/-- The first is unfinished, or both are the same. -/
def Bounded.Le {α : Type} (r q : Bounded α) : Prop := r = none ∨ r = q

namespace Bounded.Le

variable {α β : Type}

theorem refl (r : Bounded α) : Bounded.Le r r := Or.inr rfl

theorem none (r : Bounded α) : Bounded.Le none r := Or.inl rfl

theorem eq_some {r q : Bounded α} (h : Bounded.Le r q) {a : α} (hr : r = some a) : q = some a := by
  rcases h with h | h
  · rw [h] at hr; cases hr
  · rw [← h]; exact hr

theorem of_forall {r q : Bounded α} (h : ∀ a, r = some a → q = some a) : Bounded.Le r q := by
  cases r with
  | none => exact none q
  | some a => exact Or.inr (h a rfl).symm

theorem trans {r q p : Bounded α} (h : Bounded.Le r q) (h' : Bounded.Le q p) : Bounded.Le r p :=
  of_forall fun _ hr => h'.eq_some (h.eq_some hr)

theorem map {r q : Bounded α} (h : Bounded.Le r q) (f : α → β) : Bounded.Le (Option.map f r) (Option.map f q) := by
  rcases h with h | h <;> rw [h]
  · exact none _
  · exact refl _

theorem bind {r q : Bounded α} {f g : α → Bounded β} (h : Bounded.Le r q) (hf : ∀ a, Bounded.Le (f a) (g a)) :
    Bounded.Le (Option.bind r f) (Option.bind q g) := by
  rcases h with h | h <;> rw [h]
  · exact none _
  · cases q with
    | none => exact refl _
    | some a => exact hf a

end Bounded.Le

theorem Bounded.le_of_succ {α : Type} {f : Nat → Bounded α} (h : ∀ n, Bounded.Le (f n) (f (n + 1))) {n m : Nat}
    (hnm : n ≤ m) : Bounded.Le (f n) (f m) := by
  induction hnm with
  | refl => exact .refl _
  | step _ ih => exact ih.trans (h _)

theorem Bounded.unique {α : Type} {f : Nat → Bounded α} (hf : ∀ {n m}, n ≤ m → Bounded.Le (f n) (f m)) {n m : Nat}
    {a b : α} (ha : f n = some a) (hb : f m = some b) : a = b := by
  have hn := (hf (Nat.le_max_left n m)).eq_some ha
  have hm := (hf (Nat.le_max_right n m)).eq_some hb
  rw [hn] at hm
  exact Option.some.inj hm

section Tests

variable {ε α : Type} {f : α → Bool}

theorem exists_of_any {r : Except ε α} (h : r.toOption.any f = true) : ∃ a, r = .ok a ∧ f a = true := by
  cases r with
  | error e => cases h
  | ok a => exact ⟨a, rfl, h⟩

theorem Bounded.exists_of_any {r : Bounded (Except ε α)} (h : r.any (fun r => r.toOption.any f) = true) :
    ∃ a, r = some (.ok a) ∧ f a = true := by
  obtain ⟨r, rfl, h⟩ := (Option.any_eq_true _ _).mp h
  obtain ⟨a, rfl, ha⟩ := BilingualLogic.exists_of_any h
  exact ⟨a, rfl, ha⟩

end Tests

section Unification

variable {u v : Term → Term → Substitution → Bounded (Option Substitution)}

theorem unifyAllBy_le (h : ∀ a b s, Bounded.Le (u a b s) (v a b s)) (as bs : List Term) (s : Substitution) :
    Bounded.Le (unifyAllBy u as bs s) (unifyAllBy v as bs s) := by
  induction as generalizing bs s with
  | nil => cases bs <;> exact .refl _
  | cons a as ih =>
    cases bs with
    | nil => exact .refl _
    | cons b bs =>
      simp only [unifyAllBy]
      rcases h a b s with hu | hu <;> rw [hu]
      · exact .none _
      · match v a b s with
        | none => exact .refl _
        | some none => exact .refl _
        | some (some s) => exact ih bs s

theorem unifyFrontBy_le (h : ∀ a b s, Bounded.Le (u a b s) (v a b s)) (as : List Term) (a : Term) (bs : List Term)
    (s : Substitution) : Bounded.Le (unifyFrontBy u as a bs s) (unifyFrontBy v as a bs s) := by
  unfold unifyFrontBy
  split
  · exact .refl _
  · rcases unifyAllBy_le h as (bs.take as.length) s with hu | hu <;> rw [hu]
    · exact .none _
    · split
      · exact h _ _ _
      · exact .refl _

theorem unifyPatternsBy_le (h : ∀ a b s, Bounded.Le (u a b s) (v a b s)) (as : List Term) (a : Term)
    (bs : List Term) (b : Term) (s : Substitution) :
    Bounded.Le (unifyPatternsBy u as a bs b s) (unifyPatternsBy v as a bs b s) := by
  unfold unifyPatternsBy
  dsimp only
  rcases unifyAllBy_le h (as.take (min as.length bs.length)) (bs.take (min as.length bs.length)) s with hu | hu <;>
    rw [hu]
  · exact .none _
  · split
    · exact h _ _ _
    · exact .refl _

end Unification

theorem unify_le_succ (n : Nat) (a b : Term) (s : Substitution) : Bounded.Le (unify n a b s) (unify (n + 1) a b s) := by
  induction n generalizing a b s with
  | zero => exact .none _
  | succ n ih =>
    rw [unify, unify]
    cases s.walk a <;> cases s.walk b <;> try exact .refl _
    case list.list as bs =>
      dsimp only
      split
      · exact unifyAllBy_le ih as bs s
      · exact .refl _
    case list.pattern bs as a => exact unifyFrontBy_le ih as a bs s
    case pattern.list as a bs => exact unifyFrontBy_le ih as a bs s
    case pattern.pattern as a bs b => exact unifyPatternsBy_le ih as a bs b s

theorem unify_le {n m : Nat} (h : n ≤ m) (a b : Term) (s : Substitution) :
    Bounded.Le (unify n a b s) (unify m a b s) :=
  Bounded.le_of_succ (fun n => unify_le_succ n a b s) h

theorem unifyAll_le {n m : Nat} (h : n ≤ m) (as bs : List Term) (s : Substitution) :
    Bounded.Le (unifyAll n as bs s) (unifyAll m as bs s) := by
  unfold unifyAll
  split
  · exact unifyAllBy_le (unify_le h) as bs s
  · exact .refl _

theorem Predicate.unify_le {n m : Nat} (h : n ≤ m) (p q : Predicate) (s : Substitution) :
    Bounded.Le (p.unify n q s) (p.unify m q s) := by
  unfold Predicate.unify
  split
  · exact unifyAll_le h p.arguments q.arguments s
  · exact .refl _

theorem Formula.unifyValue_le {n m : Nat} (h : n ≤ m) (t : Term) (e : Formula) (s : Substitution) :
    Bounded.Le (e.unifyValue n t s) (e.unifyValue m t s) := by
  unfold Formula.unifyValue
  split
  · exact BilingualLogic.unify_le h t _ s
  · exact .refl _

namespace Sequence

theorem items_le_succ (s : Substitution) (n : Nat) (t : Term) : Bounded.Le (items s n t) (items s (n + 1) t) := by
  induction n generalizing t with
  | zero => exact .none _
  | succ n ih =>
    rw [items, items]
    cases s.walk t with
    | var | const | list => exact .refl _
    | pattern as rest =>
      dsimp only
      rcases ih rest with h | h <;> rw [h]
      · exact .none _
      · exact .refl _

theorem items_le {n m : Nat} (h : n ≤ m) (s : Substitution) (t : Term) : Bounded.Le (items s n t) (items s m t) :=
  Bounded.le_of_succ (fun n => items_le_succ s n t) h

theorem answers_le {α : Type} {f g : α → Bounded (Option Substitution)} (h : ∀ a, Bounded.Le (f a) (g a))
    (done : List Substitution) (as : List α) : Bounded.Le (answers f done as) (answers g done as) := by
  induction as generalizing done with
  | nil => exact .refl _
  | cons a as ih =>
    simp only [answers]
    rcases h a with ha | ha <;> rw [ha]
    · exact .none _
    · match g a with
      | none => exact .refl _
      | some none => exact ih done
      | some (some s) => exact ih (s :: done)

theorem member_le {n m : Nat} (h : n ≤ m) (t list : Term) (s : Substitution) :
    Bounded.Le (member n t list s) (member m t list s) := by
  unfold member
  rcases items_le h s list with hi | hi <;> rw [hi]
  · exact .none _
  · match items s m list with
    | none => exact .refl _
    | some none => exact .refl _
    | some (some as) => exact answers_le (fun a => unify_le h t a s) [] as

theorem splits_le {n m : Nat} (h : n ≤ m) (front back whole : Term) (s : Substitution) :
    Bounded.Le (append.splits n front back whole s) (append.splits m front back whole s) := by
  unfold append.splits
  rcases items_le h s whole with hi | hi <;> rw [hi]
  · exact .none _
  · match items s m whole with
    | none => exact .refl _
    | some none => exact .refl _
    | some (some as) =>
      refine (answers_le (fun k => ?_) [] _).map _
      rcases unify_le h front (.list (as.take k)) s with hu | hu <;> rw [hu]
      · exact .none _
      · match unify m front (.list (as.take k)) s with
        | none => exact .refl _
        | some none => exact .refl _
        | some (some s) => exact unify_le h back _ s

theorem append_le (limits : Limits) {n m : Nat} (h : n ≤ m) (front back whole : Term) (s : Substitution) :
    Bounded.Le (append limits n front back whole s) (append limits m front back whole s) := by
  unfold append
  rcases items_le h s front with hf | hf <;> rw [hf]
  · exact .none _
  · match items s m front with
    | none => exact .refl _
    | some fronts =>
      dsimp only
      rcases items_le h s back with hb | hb <;> rw [hb]
      · exact .none _
      · match items s m back with
        | none => exact .refl _
        | some backs =>
          match fronts, backs with
          | none, _ => exact splits_le h front back whole s
          | some _, none => exact splits_le h front back whole s
          | some as, some bs =>
            dsimp only
            split
            · exact .refl _
            · exact (unify_le h whole _ s).map _

theorem length_le (limits : Limits) {n m : Nat} (h : n ≤ m) (copy : Nat) (list count : Term) (s : Substitution) :
    Bounded.Le (length limits n copy list count s) (length limits m copy list count s) := by
  unfold length
  rcases items_le h s list with hi | hi <;> rw [hi]
  · exact .none _
  · match items s m list with
    | none => exact .refl _
    | some (some as) =>
      dsimp only
      split
      · exact (unify_le h count _ s).map _
      · exact .refl _
    | some none =>
      dsimp only
      split
      · split
        · exact .refl _
        · split
          · exact .refl _
          · exact (unify_le h list _ s).map _
      · exact .refl _

end Sequence

namespace Store

theorem removeFirst_le {p q : StoredClause → Bounded Bool} (h : ∀ c, Bounded.Le (p c) (q c)) (cs : List StoredClause) :
    Bounded.Le (removeFirst p cs) (removeFirst q cs) := by
  induction cs with
  | nil => exact .refl _
  | cons c cs ih =>
    simp only [removeFirst]
    rcases h c with hc | hc <;> rw [hc]
    · exact .none _
    · match q c with
      | none => exact .refl _
      | some true => exact .refl _
      | some false => exact ih.map _

theorem retractHead_le {n m : Nat} (h : n ≤ m) (s : Store) (p : Predicate) :
    Bounded.Le (s.retractHead n p) (s.retractHead m p) :=
  (removeFirst_le (fun c => (Predicate.unify_le h (c.clause.rename c.id).head p ∅).map _) _).map _

end Store

namespace Search

theorem tryClauses_le {n m : Nat} (h : n ≤ m) (p : Predicate) (rest : List Frame) (b : Substitution) (cs : Choices)
    (copies : Nat) (ds : List StoredClause) :
    Bounded.Le (tryClauses n p rest b cs copies ds) (tryClauses m p rest b cs copies ds) := by
  induction ds generalizing copies with
  | nil => exact .refl _
  | cons d ds ih =>
    simp only [tryClauses]
    rcases Predicate.unify_le h (d.clause.rename copies).head p b with hu | hu <;> rw [hu]
    · exact .none _
    · match (d.clause.rename copies).head.unify m p b with
      | none => exact .refl _
      | some none => exact ih (copies + 1)
      | some (some _) => exact .refl _

theorem retry_le {n m : Nat} (h : n ≤ m) (store : Store) (copies height : Nat) (cs : List Choice) :
    Bounded.Le (retry n store copies height cs) (retry m store copies height cs) := by
  induction cs generalizing copies height with
  | nil => exact .refl _
  | cons c cs ih =>
    match c with
    | .answers [] _ => exact ih copies (height - 1)
    | .answers [_] _ => exact .refl _
    | .answers (_ :: _ :: _) _ => exact .refl _
    | .clauses p after rest b =>
      simp only [retry]
      rcases tryClauses_le h p rest b ⟨cs, height - 1⟩ copies (store.clausesAfter p.key (some after)) with ht | ht <;>
        rw [ht]
      · exact .none _
      · match tryClauses m p rest b ⟨cs, height - 1⟩ copies (store.clausesAfter p.key (some after)) with
        | none => exact .refl _
        | some (copies, some _) => exact .refl _
        | some (copies, none) => exact ih copies (height - 1)

theorem callClauses_le {n m : Nat} (h : n ≤ m) (w : World) (s : Search) (p : Predicate) (rest : List Frame)
    (b : Substitution) : Bounded.Le (callClauses n w s p rest b) (callClauses m w s p rest b) := by
  unfold callClauses
  rcases tryClauses_le h p rest b s.choices w.copies (w.store.clausesAfter p.key none) with ht | ht <;> rw [ht]
  · exact .none _
  · exact .refl _

theorem call_le (limits : Limits) {n m : Nat} (h : n ≤ m) (w : World) (s : Search) (p : Predicate) (barrier : Nat)
    (rest : List Frame) (b : Substitution) :
    Bounded.Le (call limits n w s p barrier rest b) (call limits m w s p barrier rest b) := by
  unfold call
  split
  · exact .refl _
  · exact .refl _
  · exact .refl _
  · exact (Sequence.member_le h _ _ b).map _
  · exact (Sequence.append_le limits h _ _ _ b).map _
  · exact (Sequence.length_le limits h _ _ _ b).map _
  · exact (unify_le h _ _ b).map _
  · exact callClauses_le h w s p rest b

theorem simpleStep_le (limits : Limits) {n m : Nat} (h : n ≤ m) (w : World) (s : Search) (f : Frame)
    (rest : List Frame) (b : Substitution) :
    Bounded.Le (simpleStep limits n w s f rest b) (simpleStep limits m w s f rest b) := by
  unfold simpleStep
  split
  · exact call_le limits h w s _ f.barrier rest b
  · exact .refl _
  · exact (unify_le h _ _ b).map _
  · exact (Formula.unifyValue_le h _ _ b).map _
  · exact .refl _
  · exact .refl _
  · exact (Store.retractHead_le h w.store _).map _
  · exact .refl _
  · exact .refl _
  · exact .refl _

end Search
end BilingualLogic
