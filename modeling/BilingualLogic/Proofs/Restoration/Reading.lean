import BilingualLogic.Proofs.Term.Reading
import BilingualLogic.Proofs.Unification.Alike

/-!
Texts that stand in two places of a source. They are read alike: places show in errors only, and what was counted before
shows in the names of anonymous variables only.
-/

namespace BilingualLogic

/-- What is read of a clause that stands in two places of a source: variables of a fact may have different names. -/
structure Clause.Twice (c d : Clause) : Prop where
  head : c.head.Alike { names := fun _ _ => True } d.head
  wellFormed : ∀ t ∈ c.head.arguments, t.WellFormed
  wellFormed' : ∀ t ∈ d.head.arguments, t.WellFormed
  rule : d.body ≠ [] → c = d

namespace Source

mutual

/-- The term wherever it stands. -/
def Term.unplaced : Term → Term
  | .anonymous _ => .anonymous default
  | .var _ name => .var default name
  | .number _ numeral => .number default numeral
  | .text _ content => .text default content
  | .boolean _ value => .boolean default value
  | .list _ items none => .list default (Term.unplacedAll items) none
  | .list _ items (some rest) => .list default (Term.unplacedAll items) (some rest.unplaced)
  | .atom _ name => .atom default name

def Term.unplacedAll : List Term → List Term
  | [] => []
  | t :: ts => t.unplaced :: Term.unplacedAll ts

end

def Predicate.unplaced (p : Predicate) : Predicate := ⟨p.name, Term.unplacedAll p.arguments⟩

def Formula.unplaced : Formula → Formula
  | .number _ numeral => .number default numeral
  | .var name => .var name
  | .text content => .text content
  | .negate e => .negate e.unplaced
  | .binary op a b => .binary op a.unplaced b.unplaced
  | .group _ e => .group default e.unplaced

def Scope.unplaced (s : Scope) : Scope := ⟨default, s.grouped⟩

mutual

def Goal.unplaced : Goal → Goal
  | .call p => .call p.unplaced
  | .cut => .cut
  | .not scope goals => .not scope.unplaced (Goal.unplacedAll goals)
  | .unify a b => .unify a.unplaced b.unplaced
  | .is a e => .is a.unplaced e.unplaced
  | .compare op a b => .compare op a.unplaced b.unplaced
  | .collect kind t scope goals r =>
    .collect kind t.unplaced scope.unplaced (Goal.unplacedAll goals) r.unplaced
  | .assert head _ body => .assert head.unplaced default (Goal.unplacedAll body)
  | .retract head _ body => .retract head.unplaced default (Goal.unplacedAll body)

def Goal.unplacedAll : List Goal → List Goal
  | [] => []
  | g :: gs => g.unplaced :: Goal.unplacedAll gs

end

mutual

/-- Whether there is an anonymous variable in the term. -/
def Term.hasAnonymous : Term → Bool
  | .anonymous _ => true
  | .list _ items none => Term.anyAnonymous items
  | .list _ items (some rest) => Term.anyAnonymous items || rest.hasAnonymous
  | _ => false

def Term.anyAnonymous : List Term → Bool
  | [] => false
  | t :: ts => t.hasAnonymous || Term.anyAnonymous ts

end

def Predicate.hasAnonymous (p : Predicate) : Bool := Term.anyAnonymous p.arguments

mutual

def Goal.hasAnonymous : Goal → Bool
  | .call p => p.hasAnonymous
  | .cut => false
  | .not _ goals => Goal.anyAnonymous goals
  | .unify a b => a.hasAnonymous || b.hasAnonymous
  | .is a _ => a.hasAnonymous
  | .compare _ _ _ => false
  | .collect _ t _ goals r => t.hasAnonymous || Goal.anyAnonymous goals || r.hasAnonymous
  | .assert head _ body => head.hasAnonymous || Goal.anyAnonymous body
  | .retract head _ body => head.hasAnonymous || Goal.anyAnonymous body

def Goal.anyAnonymous : List Goal → Bool
  | [] => false
  | g :: gs => g.hasAnonymous || Goal.anyAnonymous gs

end

section Reading

variable {α β γ δ : Type}

/-- Both readings give the same, errors apart. -/
def Reading.Agree (m m' : Reading α) : Prop := ∀ c n, (m c n).toOption = (m' c n).toOption

theorem Reading.Agree.refl (m : Reading α) : m.Agree m := fun _ _ => rfl

theorem Reading.Agree.bind {m m' : Reading α} {f f' : α → Reading β} (hm : m.Agree m') (hf : ∀ x, (f x).Agree (f' x)) :
    (m >>= f).Agree (m' >>= f') := by
  intro c n
  have h := hm c n
  rw [Source.Reading.bind_apply, Source.Reading.bind_apply]
  generalize m c n = r at h ⊢
  generalize m' c n = r' at h ⊢
  cases r with
  | error e =>
    cases r' with
    | error e' => rfl
    | ok r' => cases h
  | ok r =>
    cases r' with
    | error e' => cases h
    | ok r' =>
      obtain rfl : r = r' := Option.some.inj h
      exact hf r.1 c r.2

theorem Reading.Agree.checked {f f' : Unit → Reading β} {depth : Nat} (s s' : Text.Span) (hf : (f ()).Agree (f' ())) :
    (Reading.checkDepth depth s >>= f).Agree (Reading.checkDepth depth s' >>= f') := by
  refine .bind (fun c n => ?_) fun _ => hf
  unfold Reading.checkDepth
  split <;> rfl

theorem agree_readNumber (s s' : Text.Span) (numeral : String) :
    (readNumber s numeral).Agree (readNumber s' numeral) := by
  intro c n
  unfold readNumber
  cases Decimal.ofNumeral? (numeral.map asciiDigit) <;> rfl

/-- What both readings of one source give is related, wherever they begin to count. -/
def Reading.Related (R : α → β → Prop) (m : Reading α) (m' : Reading β) : Prop :=
  ∀ c n n' x x' k k', m c n = .ok (x, k) → m' c n' = .ok (x', k') → R x x'

variable {R : α → β → Prop} {S : γ → δ → Prop}

theorem Reading.Related.bind {m : Reading α} {m' : Reading β} {f : α → Reading γ} {f' : β → Reading δ}
    (hm : m.Related R m') (hf : ∀ x x', R x x' → (f x).Related S (f' x')) : (m >>= f).Related S (m' >>= f') := by
  intro c n n' y y' k k' h h'
  obtain ⟨x, l, hx, hy⟩ := bind_eq_ok h
  obtain ⟨x', l', hx', hy'⟩ := bind_eq_ok h'
  exact hf x x' (hm c n n' x x' l l' hx hx') c l l' y y' k k' hy hy'

theorem Reading.Related.bind_eq {m m' : Reading α} {f : α → Reading γ} {f' : α → Reading δ} (hm : m.Related Eq m')
    (hf : ∀ x, (f x).Related S (f' x)) : (m >>= f).Related S (m' >>= f') :=
  hm.bind fun x _ h => h ▸ hf x

theorem Reading.related_pure {x : α} {x' : β} (h : R x x') : Reading.Related R (pure x) (pure x') := by
  rintro c n n' _ _ k k' ⟨⟩ ⟨⟩
  exact h

theorem Reading.Related.checked {f : Unit → Reading γ} {f' : Unit → Reading δ} {depth : Nat} {s s' : Text.Span}
    (hf : (f ()).Related S (f' ())) :
    (Reading.checkDepth depth s >>= f).Related S (Reading.checkDepth depth s' >>= f') :=
  .bind (R := fun _ _ => True) (fun _ _ _ _ _ _ _ _ _ => trivial) fun _ _ _ => hf

theorem Reading.Related.of_agree {T : α → α → Prop} {m m' u : Reading α} (h : m.Related T m) (hm : m.Agree u)
    (hm' : m'.Agree u) : m.Related T m' := by
  intro c n n' x x' k k' hx hx'
  have hback : (m c n').toOption = some (x', k') := by rw [hm c n', ← hm' c n', hx']; rfl
  cases hr : m c n' with
  | error e =>
    rw [hr] at hback
    cases hback
  | ok r =>
    rw [hr] at hback
    cases hback
    exact h c n n' x x' k k' hx hr

theorem related_readNumber (s : Text.Span) (numeral : String) :
    (readNumber s numeral).Related Eq (readNumber s numeral) := by
  intro c n n' x x' k k' h h'
  have hx := (Term.readNumber_eq_ok h).1
  rw [(Term.readNumber_eq_ok h').1] at hx
  exact (Option.some.inj hx).symm

end Reading

section Places

/-! ### Places -/

theorem Term.agree_unplacedAll {xs : List Term} {depth : Nat}
    (h : ∀ x ∈ xs, (x.read depth).Agree (x.unplaced.read depth)) :
    (Term.readAll depth xs).Agree (Term.readAll depth (Term.unplacedAll xs)) := by
  induction xs with
  | nil => exact .refl _
  | cons x xs ih =>
    obtain ⟨hx, hxs⟩ := List.forall_mem_cons.mp h
    exact .bind hx fun _ => .bind (ih hxs) fun _ => .refl _

theorem Term.Valid.agree_unplaced {x : Term} (h : x.Valid) (depth : Nat) :
    (x.read depth).Agree (x.unplaced.read depth) := by
  induction h generalizing depth with
  | anonymous s => exact .checked _ _ (.refl _)
  | var s _ _ => exact .checked _ _ (.refl _)
  | number s numeral => exact .checked _ _ (.bind (agree_readNumber _ _ numeral) fun _ => .refl _)
  | text s content => exact .checked _ _ (.refl _)
  | boolean s b => exact .checked _ _ (.refl _)
  | atom s _ _ => exact .checked _ _ (.refl _)
  | list s _ ih => exact .checked _ _ (.bind (Term.agree_unplacedAll fun x hx => ih x hx _) fun _ => .refl _)
  | pattern s _ _ _ ih ihrest =>
    exact .checked _ _ (.bind (Term.agree_unplacedAll fun x hx => ih x hx _) fun _ => .bind (ihrest _) fun _ => .refl _)

theorem Predicate.Valid.agree_unplaced {p : Predicate} (h : p.Valid) (depth : Nat) :
    (p.read depth).Agree (p.unplaced.read depth) :=
  .bind (Term.agree_unplacedAll fun x hx => (h.arguments x hx).agree_unplaced depth) fun _ => .refl _

theorem Formula.Valid.agree_unplaced {x : Formula} (h : x.Valid) (depth : Nat) :
    (x.read depth).Agree (x.unplaced.read depth) := by
  induction h generalizing depth with
  | number s _ => exact .bind (agree_readNumber _ _ _) fun _ => .refl _
  | var _ _ => exact .refl _
  | text content => exact .refl _
  | negate _ ih => exact .bind (ih depth) fun _ => .refl _
  | binary op _ _ iha ihb => exact .bind (iha depth) fun _ => .bind (ihb depth) fun _ => .refl _
  | group s _ ih => exact .checked _ _ (ih _)

theorem Goal.agree_unplacedAll {xs : List Goal} {depth : Nat}
    (h : ∀ x ∈ xs, (x.read depth).Agree (x.unplaced.read depth)) :
    (Goal.readAll depth xs).Agree (Goal.readAll depth (Goal.unplacedAll xs)) := by
  induction xs with
  | nil => exact .refl _
  | cons x xs ih =>
    obtain ⟨hx, hxs⟩ := List.forall_mem_cons.mp h
    exact .bind hx fun _ => .bind (ih hxs) fun _ => .refl _

theorem Goal.agree_body {xs : List Goal} {depth : Nat} (s s' : Text.Span)
    (h : ∀ x ∈ xs, (x.read (depth + 1)).Agree (x.unplaced.read (depth + 1))) :
    (Goal.readBody depth s xs).Agree (Goal.readBody depth s' (Goal.unplacedAll xs)) := by
  cases xs with
  | nil => exact .refl _
  | cons x xs => exact .checked _ _ (Goal.agree_unplacedAll h)

theorem Goal.Valid.agree_unplaced {x : Goal} (h : x.Valid) (depth : Nat) :
    (x.read depth).Agree (x.unplaced.read depth) := by
  induction h generalizing depth with
  | call hp => exact .bind (hp.agree_unplaced depth) fun _ => .refl _
  | truth _ => exact .refl _
  | cut => exact .refl _
  | not s _ _ ih => exact .checked _ _ (.bind (Goal.agree_unplacedAll fun x hx => ih x hx _) fun _ => .refl _)
  | unify ha hb => exact .bind (ha.agree_unplaced depth) fun _ => .bind (hb.agree_unplaced depth) fun _ => .refl _
  | is ha he => exact .bind (ha.agree_unplaced depth) fun _ => .bind (he.agree_unplaced depth) fun _ => .refl _
  | compare op ha hb =>
    exact .bind (ha.agree_unplaced depth) fun _ => .bind (hb.agree_unplaced depth) fun _ => .refl _
  | collect kind s ht _ _ hr ih =>
    exact .bind (ht.agree_unplaced depth) fun _ => .checked _ _ (.bind (Goal.agree_unplacedAll fun x hx => ih x hx _)
      fun _ => .bind (hr.agree_unplaced depth) fun _ => .refl _)
  | assert s hh _ ih =>
    exact .bind (hh.agree_unplaced depth) fun _ => .bind (Goal.agree_body _ _ fun x hx => ih x hx _) fun _ => .refl _
  | retract s hh _ ih =>
    exact .bind (hh.agree_unplaced depth) fun _ => .bind (Goal.agree_body _ _ fun x hx => ih x hx _) fun _ => .refl _

end Places

section Names

/-! ### Names -/

theorem Term.related_readAll {R : BilingualLogic.Term → BilingualLogic.Term → Prop} {xs : List Term} {depth : Nat}
    (h : ∀ x ∈ xs, (x.read depth).Related R (x.read depth)) :
    (Term.readAll depth xs).Related (List.Forall₂ R) (Term.readAll depth xs) := by
  induction xs with
  | nil => exact Reading.related_pure .nil
  | cons x xs ih =>
    obtain ⟨hx, hxs⟩ := List.forall_mem_cons.mp h
    exact .bind hx fun _ _ ht => .bind (ih hxs) fun _ _ hts => Reading.related_pure (.cons ht hts)

theorem Term.hasAnonymous_of_mem {x : Term} {xs : List Term} (hx : x ∈ xs) (h : x.hasAnonymous = true) :
    Term.anyAnonymous xs = true := by
  induction xs with
  | nil => cases hx
  | cons y ys ih =>
    rw [Term.anyAnonymous, Bool.or_eq_true]
    rcases List.mem_cons.mp hx with rfl | hx
    · exact Or.inl h
    · exact Or.inr (ih hx)

/-- Terms are read alike if names correspond to themselves, and all names to one another where a variable is
anonymous. -/
theorem Term.Valid.related_read {L : Likeness} (hself : ∀ x, L.names x x) (htexts : ∀ content, L.texts content)
    {x : Term} (h : x.Valid) (hanonymous : x.hasAnonymous = true → ∀ y z, L.names y z) (depth : Nat) :
    (x.read depth).Related (Term.Alike L) (x.read depth) := by
  have const {v : Value} : (BilingualLogic.Term.const v).Alike L (.const v) := .const fun content _ => htexts content
  induction h generalizing depth with
  | anonymous s =>
    exact .checked (.bind (R := fun _ _ => True) (fun _ _ _ _ _ _ _ _ _ => trivial) fun y z _ =>
      Reading.related_pure (.var (hanonymous rfl y z)))
  | var s _ _ => exact .checked (Reading.related_pure (.var (hself _)))
  | number s numeral => exact .checked (.bind_eq (related_readNumber s numeral) fun _ => Reading.related_pure const)
  | text s content => exact .checked (Reading.related_pure const)
  | boolean s b => exact .checked (Reading.related_pure const)
  | atom s _ _ => exact .checked (Reading.related_pure const)
  | list s _ ih =>
    have hitems (x) (hx) := ih x hx fun h => hanonymous (Term.hasAnonymous_of_mem hx h)
    exact .checked (.bind (Term.related_readAll fun x hx => hitems x hx _) fun _ _ hts =>
      Reading.related_pure (.list hts))
  | pattern s _ _ _ ih ihrest =>
    have hitems (x) (hx) := ih x hx fun h => hanonymous (Bool.or_eq_true_iff.mpr (.inl (Term.hasAnonymous_of_mem hx h)))
    have hrest := ihrest fun h => hanonymous (Bool.or_eq_true_iff.mpr (.inr h))
    exact .checked (.bind (Term.related_readAll fun x hx => hitems x hx _) fun _ _ hts => .bind (hrest _) fun _ _ hr =>
      Reading.related_pure (.cons hts hr))

theorem Predicate.Valid.related_read {L : Likeness} (hself : ∀ x, L.names x x) (htexts : ∀ content, L.texts content)
    {p : Predicate} (h : p.Valid) (hanonymous : p.hasAnonymous = true → ∀ y z, L.names y z) (depth : Nat) :
    (p.read depth).Related (Predicate.Alike L) (p.read depth) :=
  .bind (Term.related_readAll fun x hx => (h.arguments x hx).related_read hself htexts
    (fun h => hanonymous (Term.hasAnonymous_of_mem hx h)) depth) fun _ _ hts => Reading.related_pure ⟨rfl, hts⟩

theorem Term.Valid.related_eq {x : Term} (h : x.Valid) (hnamed : x.hasAnonymous = false) (depth : Nat) :
    (x.read depth).Related Eq (x.read depth) := by
  intro c n n' t t' k k' ht ht'
  have hself (y : String) : ({ names := Eq } : Likeness).names y y := rfl
  have hanonymous (hx : x.hasAnonymous = true) : ∀ y z, ({ names := Eq } : Likeness).names y z := by
    rw [hnamed] at hx
    cases hx
  exact (h.related_read hself (fun _ => trivial) hanonymous depth c n n' t t' k k' ht ht').eq fun _ _ h => h

theorem Predicate.Valid.related_eq {p : Predicate} (h : p.Valid) (hnamed : p.hasAnonymous = false) (depth : Nat) :
    (p.read depth).Related Eq (p.read depth) := by
  have hargs (x) (hx : x ∈ p.arguments) : x.hasAnonymous = false := by
    by_contra hno
    have hany := Term.hasAnonymous_of_mem hx (Bool.of_not_eq_false hno)
    rw [Predicate.hasAnonymous, hany] at hnamed
    cases hnamed
  refine .bind (Term.related_readAll fun x hx => (h.arguments x hx).related_eq (hargs x hx) depth) fun ts ts' hts => ?_
  rw [List.forall₂_eq_eq_eq] at hts
  exact Reading.related_pure (congrArg _ hts)

theorem Formula.Valid.related_eq {x : Formula} (h : x.Valid) (depth : Nat) :
    (x.read depth).Related Eq (x.read depth) := by
  induction h generalizing depth with
  | number s _ => exact .bind_eq (related_readNumber _ _) fun _ => Reading.related_pure rfl
  | var _ _ => exact Reading.related_pure rfl
  | text content => exact Reading.related_pure rfl
  | negate _ ih => exact .bind_eq (ih depth) fun _ => Reading.related_pure rfl
  | binary op _ _ iha ihb => exact .bind_eq (iha depth) fun _ => .bind_eq (ihb depth) fun _ => Reading.related_pure rfl
  | group s _ ih => exact .checked (ih _)

theorem Goal.related_readAll {xs : List Goal} {depth : Nat} (hnamed : Goal.anyAnonymous xs = false)
    (h : ∀ x ∈ xs, x.hasAnonymous = false → (x.read depth).Related Eq (x.read depth)) :
    (Goal.readAll depth xs).Related Eq (Goal.readAll depth xs) := by
  induction xs with
  | nil => exact Reading.related_pure rfl
  | cons x xs ih =>
    obtain ⟨hx, hxs⟩ := List.forall_mem_cons.mp h
    obtain ⟨hnx, hnxs⟩ := Bool.or_eq_false_iff.mp hnamed
    exact .bind_eq (hx hnx) fun _ => .bind_eq (ih hnxs hxs) fun _ => Reading.related_pure rfl

theorem Goal.related_readBody {xs : List Goal} {depth : Nat} (s : Text.Span) (hnamed : Goal.anyAnonymous xs = false)
    (h : ∀ x ∈ xs, x.hasAnonymous = false → (x.read (depth + 1)).Related Eq (x.read (depth + 1))) :
    (Goal.readBody depth s xs).Related Eq (Goal.readBody depth s xs) := by
  cases xs with
  | nil => exact Reading.related_pure rfl
  | cons x xs => exact .checked (Goal.related_readAll hnamed h)

theorem Goal.Valid.related_eq {x : Goal} (h : x.Valid) (hnamed : x.hasAnonymous = false) (depth : Nat) :
    (x.read depth).Related Eq (x.read depth) := by
  induction h generalizing depth with
  | call hp => exact .bind_eq (hp.related_eq hnamed depth) fun _ => Reading.related_pure rfl
  | truth _ => exact Reading.related_pure rfl
  | cut => exact Reading.related_pure rfl
  | not s _ _ ih =>
    exact .checked (.bind_eq (Goal.related_readAll hnamed fun x hx hn => ih x hx hn _) fun _ =>
      Reading.related_pure rfl)
  | unify ha hb =>
    obtain ⟨hna, hnb⟩ := Bool.or_eq_false_iff.mp hnamed
    exact .bind_eq (ha.related_eq hna depth) fun _ => .bind_eq (hb.related_eq hnb depth) fun _ =>
      Reading.related_pure rfl
  | is ha he =>
    exact .bind_eq (ha.related_eq hnamed depth) fun _ => .bind_eq (he.related_eq depth) fun _ =>
      Reading.related_pure rfl
  | compare op ha hb =>
    exact .bind_eq (ha.related_eq depth) fun _ => .bind_eq (hb.related_eq depth) fun _ => Reading.related_pure rfl
  | collect kind s ht _ _ hr ih =>
    obtain ⟨hn, hnr⟩ := Bool.or_eq_false_iff.mp hnamed
    obtain ⟨hnt, hngs⟩ := Bool.or_eq_false_iff.mp hn
    exact .bind_eq (ht.related_eq hnt depth) fun _ => .checked (.bind_eq (Goal.related_readAll hngs fun x hx hn =>
      ih x hx hn _) fun _ => .bind_eq (hr.related_eq hnr depth) fun _ => Reading.related_pure rfl)
  | assert s hh _ ih =>
    obtain ⟨hnh, hngs⟩ := Bool.or_eq_false_iff.mp hnamed
    exact .bind_eq (hh.related_eq hnh depth) fun _ => .bind_eq (Goal.related_readBody s hngs fun x hx hn =>
      ih x hx hn _) fun _ => Reading.related_pure rfl
  | retract s hh _ ih =>
    obtain ⟨hnh, hngs⟩ := Bool.or_eq_false_iff.mp hnamed
    exact .bind_eq (hh.related_eq hnh depth) fun _ => .bind_eq (Goal.related_readBody s hngs fun x hx hn =>
      ih x hx hn _) fun _ => Reading.related_pure rfl

end Names


section Clauses

/-! ### Clauses -/

theorem Goal.assert_eq_ok {head : Predicate} {s : Text.Span} {body : List Goal} {depth : Nat} {c : Context} {n k : Nat}
    {g : BilingualLogic.Goal} (h : (Goal.assert head s body).read depth c n = .ok (g, k)) :
    ∃ p gs l, head.read depth c n = .ok (p, l) ∧ Goal.readBody depth s body c l = .ok (gs, k) ∧ g = .assert p gs := by
  obtain ⟨p, l, hp, h⟩ := bind_eq_ok h
  obtain ⟨gs, l', hgs, h⟩ := bind_eq_ok h
  obtain ⟨rfl, rfl⟩ := pure_eq_ok h
  exact ⟨p, gs, l, hp, hgs, rfl⟩

theorem Goal.retract_eq_ok {head : Predicate} {s : Text.Span} {body : List Goal} {depth : Nat} {c : Context} {n k : Nat}
    {g : BilingualLogic.Goal} (h : (Goal.retract head s body).read depth c n = .ok (g, k)) :
    ∃ p gs l, head.read depth c n = .ok (p, l) ∧ Goal.readBody depth s body c l = .ok (gs, k) ∧ g = .retract p gs := by
  obtain ⟨p, l, hp, h⟩ := bind_eq_ok h
  obtain ⟨gs, l', hgs, h⟩ := bind_eq_ok h
  obtain ⟨rfl, rfl⟩ := pure_eq_ok h
  exact ⟨p, gs, l, hp, hgs, rfl⟩

theorem Goal.readBody_nil {depth : Nat} {s : Text.Span} {c : Context} {n k : Nat} {gs : List BilingualLogic.Goal}
    (h : Goal.readBody depth s [] c n = .ok (gs, k)) : gs = [] := (pure_eq_ok h).1

variable {head head' : Predicate} {body body' : List Goal}

/-- A clause that stands in two places, if no variable of a rule is anonymous. -/
theorem twice_of_read (hhead : head.Valid) (hhead' : head'.Valid) (hbody : ∀ g ∈ body, g.Valid)
    (hbody' : ∀ g ∈ body', g.Valid) (hheads : head.unplaced = head'.unplaced)
    (hbodies : Goal.unplacedAll body = Goal.unplacedAll body')
    (hnamed : body ≠ [] → head.hasAnonymous = false ∧ Goal.anyAnonymous body = false) {s s' : Text.Span} {depth : Nat}
    {c : Context} {n n' l l' k k' : Nat} {p p' : BilingualLogic.Predicate} {gs gs' : List BilingualLogic.Goal}
    (hp : head.read depth c n = .ok (p, l)) (hgs : Goal.readBody depth s body c l = .ok (gs, k))
    (hp' : head'.read depth c n' = .ok (p', l')) (hgs' : Goal.readBody depth s' body' c l' = .ok (gs', k')) :
    (⟨p, gs⟩ : Clause).Twice ⟨p', gs'⟩ := by
  have heads {R : BilingualLogic.Predicate → BilingualLogic.Predicate → Prop}
      (h : (head.read depth).Related R (head.read depth)) : R p p' :=
    h.of_agree (hhead.agree_unplaced depth) (hheads ▸ hhead'.agree_unplaced depth) c n n' p p' l l' hp hp'
  refine ⟨heads (hhead.related_read (fun _ => trivial) (fun _ => trivial) (fun _ _ _ => trivial) depth),
    hhead.gives_wellFormed depth c n p l hp, hhead'.gives_wellFormed depth c n' p' l' hp', fun hne => ?_⟩
  have hne : body ≠ [] := by
    rintro rfl
    cases body' with
    | nil => exact hne (Goal.readBody_nil hgs')
    | cons g gs => cases hbodies
  obtain ⟨hnh, hnb⟩ := hnamed hne
  have hbodies : (Goal.readBody depth s body).Related Eq (Goal.readBody depth s' body') :=
    (Goal.related_readBody s hnb fun x hx hn => (hbody x hx).related_eq hn _).of_agree
      (Goal.agree_body s s fun x hx => (hbody x hx).agree_unplaced _)
      (hbodies ▸ Goal.agree_body s' s fun x hx => (hbody' x hx).agree_unplaced _)
  rw [heads (hhead.related_eq hnh depth), hbodies c l l' gs gs' k k' hgs hgs']

/-- Two directives of a source that assert a clause and retract it where it stands again. -/
theorem twice_of_readStatements {at₁ at₂ s s' : Text.Span} {source text : String} {c : Context} {n : Nat}
    {ss : List BilingualLogic.Statement}
    (htree : parseRule .program source text =
      .ok [⟨at₁, .directive (.assert head s body)⟩, ⟨at₂, .directive (.retract head' s' body')⟩])
    (hheads : head.unplaced = head'.unplaced) (hbodies : Goal.unplacedAll body = Goal.unplacedAll body')
    (hnamed : body ≠ [] → head.hasAnonymous = false ∧ Goal.anyAnonymous body = false)
    (hread : readStatements c n []
      [⟨at₁, .directive (.assert head s body)⟩, ⟨at₂, .directive (.retract head' s' body')⟩] = .ok ss) :
    ∃ d d' : Clause, d.Twice d' ∧
      ss = [⟨.directive (.assert d.head d.body), at₁⟩, ⟨.directive (.retract d'.head d'.body), at₂⟩] := by
  have hvalid := valid_of_parse htree
  obtain ⟨⟨hhead, hbody⟩, hhead', hbody'⟩ :
      (head.Valid ∧ ∀ g ∈ body, g.Valid) ∧ head'.Valid ∧ ∀ g ∈ body', g.Valid := by
    constructor
    · cases hvalid _ (List.mem_cons_self ..) with
      | assert _ hhead hbody => exact ⟨hhead, hbody⟩
    · cases hvalid _ (List.mem_cons_of_mem _ (List.mem_cons_self ..)) with
      | retract _ hhead hbody => exact ⟨hhead, hbody⟩
  rw [readStatements] at hread
  split at hread
  · next st l hst =>
    obtain ⟨g, l₁, hg, hst⟩ := bind_eq_ok hst
    obtain ⟨rfl, rfl⟩ := pure_eq_ok hst
    obtain ⟨p, gs, _, hp, hgs, rfl⟩ := Goal.assert_eq_ok hg
    rw [readStatements] at hread
    split at hread
    · next st' l' hst' =>
      obtain ⟨g', l₂, hg', hst'⟩ := bind_eq_ok hst'
      obtain ⟨rfl, rfl⟩ := pure_eq_ok hst'
      obtain ⟨p', gs', _, hp', hgs', rfl⟩ := Goal.retract_eq_ok hg'
      cases hread
      exact ⟨⟨p, gs⟩, ⟨p', gs'⟩, twice_of_read hhead hhead' hbody hbody' hheads hbodies hnamed hp hgs hp' hgs', rfl⟩
    · cases hread
  · cases hread

end Clauses

end Source
end BilingualLogic
