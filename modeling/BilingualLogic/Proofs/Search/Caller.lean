import BilingualLogic.Proofs.Likeness.Onward
import BilingualLogic.Proofs.Names.Reachable

/-!
What a call sees of the bindings that it is made under. Where two substitutions agree on the variables that its
arguments reach, it gives the same answers under both; the other bindings of the caller make no difference. It is not
enough that the arguments resolve to the same terms: a list may be bound in one piece or in two, variables may lead to
one another in another order, a text of a clause may name a variable of the caller, and a copy a variable of the call.
-/

namespace BilingualLogic

variable {V T : String → Prop}

/-- Terms of variables and texts of two sets only are like themselves. -/
def within (V T : String → Prop) : Likeness := { names := fun x y => x = y ∧ V x, texts := T }

/-- The term has variables and texts of the given sets only. -/
def Term.Within (V T : String → Prop) (t : Term) : Prop := t.Alike (within V T) t

def Formula.Within (V T : String → Prop) (e : Formula) : Prop := e.Alike (within V T) e

/-- The clauses have texts of the given set only. -/
def Store.TextsIn (T : String → Prop) (s : Store) : Prop := s.Alike { names := Eq, texts := T } s

/-- Two substitutions that agree on a set of variables. The values of these reach no others, nor do the texts of a set
where they are read as formulas. -/
structure Substitution.Agree (V T : String → Prop) (s s' : Substitution) : Prop where
  same {x : String} : V x → s.get? x = s'.get? x
  values {x : String} {t : Term} : V x → s.get? x = some t → t.Within V T
  texts {content : String} {e : Formula} : T content → Formula.parse content = .ok e → e.Within V T

/-- The same names in two runs that began with so many copies: those of a set, and those that were made since. -/
def sinceCall (V T : String → Prop) (m n : Nat) : Likeness :=
  (within V T).withNames (Onward (within V T).names m n)

theorem Formula.Alike.imp {L L' : Likeness} (h : ∀ {t u}, Term.Alike L t u → Term.Alike L' t u) {a b : Formula}
    (hab : a.Alike L b) : a.Alike L' b := by
  induction hab with
  | term htu => exact .term (h htu)
  | negate _ ih => exact .negate ih
  | binary _ _ ih ih' => exact .binary ih ih'

section Likeness

variable {m n : Nat} (hV : ∀ x, V x → NotAhead m x ∧ NotAhead n x)

include hV

theorem Term.Within.sinceCall {t u : Term} (h : t.Alike (within V T) u) : t.Alike (sinceCall V T m n) u := by
  refine Term.Alike.withNames ?_ h (fun _ _ => trivial) (fun _ _ => trivial)
  rintro x _ ⟨rfl, hx⟩ (_ : True) (_ : True)
  exact .before ⟨rfl, hx⟩ (hV x hx).1 (hV x hx).2

variable {s s' : Substitution} (hagree : s.Agree V T s')

include hagree

theorem proper_sinceCall : (sinceCall V T m n).Proper where
  names := by
    refine OneToOne.onward ?_ m n
    rintro x _ y _ ⟨rfl, _⟩ ⟨rfl, _⟩
    rfl
  texts hcontent hparse := Formula.Alike.imp (Term.Within.sinceCall hV) (hagree.texts hcontent hparse)
  calls := by
    rintro a _ rfl
    rfl

theorem Substitution.Agree.alike (hs : s.Walkable) (hs' : s'.Walkable)
    (hnew : ∀ k x, s.get? (Clause.renamed (m + k) x) = none)
    (hnew' : ∀ k x, s'.get? (Clause.renamed (n + k) x) = none) : s.Alike (sinceCall V T m n) s' := by
  refine ⟨?_, hs, hs'⟩
  rintro _ _ (⟨⟨rfl, hx⟩, _, _⟩ | ⟨k, z⟩)
  · rw [← hagree.same hx]
    exact .refl fun t ht => Term.Within.sinceCall hV (hagree.values hx ht)
  · rw [hnew, hnew']
    exact .none

end Likeness

namespace Search

variable {limits : Limits} {store : Store} {m n : Nat} {s s' : Substitution} {p : Predicate}

theorem get?_bind_renamed {x : String} (hx : '#' ∉ x.toList) (s : Substitution) (t : Term) (k : Nat) (y : String) :
    (s.bind x t).get? (Clause.renamed k y) = s.get? (Clause.renamed k y) := by
  refine Substitution.get?_bind_of_ne _ ?_ _
  rintro rfl
  exact hx (by simp [Clause.renamed])

/-- What the arguments of a call resolve to at its first answer. -/
def firstAnswer (w : World) (p : Predicate) (b : Substitution) : Bounded (Option (List Term)) :=
  (next {} 9 w (start [.call p] b 0)).map fun r => r.1.map fun b => p.arguments.map b.resolve

/-- The arguments of a call resolve to the same terms in two runs that began with so many copies, and nothing is added
or removed. Yet the first answers differ, however variables with numbers in their names are renamed. -/
structure TellsApart (store : Store) (p : Predicate) (m n : Nat) (s s' : Substitution) : Prop where
  same : p.arguments.map s.resolve = p.arguments.map s'.resolve
  new (k : Nat) (x : String) : s.get? (Clause.renamed (m + k) x) = none ∧ s'.get? (Clause.renamed (n + k) x) = none
  still (k : Nat) (b : Substitution) : ¬ Edits {} true ⟨store, k⟩ (start [.call p] b 0)
  answers : ∃ r r', firstAnswer ⟨store, m⟩ p s = some r ∧ firstAnswer ⟨store, n⟩ p s' = some r' ∧
    ∀ L : Likeness, (∀ x y, L.names x y → Plain x → x = y) → ¬ Option.Rel (List.Forall₂ (Term.Alike L)) r r'

section Pieces

/-- A predicate on lists of one item, and a rule that collects the lists in it that match its argument. -/
def collector : Store :=
  ((∅ : Store).add ⟨⟨"p", [.list [.var "H"]]⟩, []⟩).add
    ⟨⟨"r", [.var "A"]⟩, [.collect .findAll (.var "A") [.call ⟨"p", [.var "A"]⟩] (.list [.list [.atom "b"]])]⟩

/-- A list of one variable. -/
def inOnePiece : Substitution := Substitution.bind ∅ "A" (.list [.var "Y"])

/-- The same list, where a variable stands for what is behind the item. -/
def inTwoPieces : Substitution := (Substitution.bind ∅ "T" (.list [])).bind "A" (.pattern [.var "Y"] (.var "T"))

theorem tellsApart_pieces : TellsApart collector ⟨"r", [.var "A"]⟩ 0 0 inOnePiece inTwoPieces where
  same := by cbv
  new k x := by simp [inOnePiece, inTwoPieces, get?_bind_renamed]
  still _ _ := (static_start rfl _ _).not_edits ((Store.isStatic_empty.add rfl).add rfl)
  answers := by
    refine ⟨some [.list [.atom "b"]], some [.list [.var "Y"]], by cbv, by cbv, fun L _ h => ?_⟩
    cases h with | some h => cases h with | cons h _ => cases h with | list h => cases h with | cons h _ => cases h

end Pieces

section Circle

def identical : Store := (∅ : Store).add ⟨⟨"p", [.var "X", .var "X"]⟩, []⟩

/-- `Y` leads to `B` through `A`. -/
def throughA : Substitution := (Substitution.bind ∅ "Y" (.var "A")).bind "A" (.var "B")

/-- `Y` leads to `B` as `A` does. -/
def besideA : Substitution := (Substitution.bind ∅ "Y" (.var "B")).bind "A" (.var "B")

/-- The call binds `B` to a list that leads back to it. -/
theorem tellsApart_circle : TellsApart identical ⟨"p", [.var "A", .list [.var "Y"]]⟩ 0 0 throughA besideA where
  same := by cbv
  new k x := by simp [throughA, besideA, get?_bind_renamed]
  still _ _ := (static_start rfl _ _).not_edits (Store.isStatic_empty.add rfl)
  answers := by
    refine ⟨some [.list [.var "A"], .list [.list [.var "Y"]]], some [.list [.var "B"], .list [.list [.var "Y"]]],
      by cbv, by cbv, fun L hL h => ?_⟩
    cases h with | some h => cases h with | cons h _ => cases h with | list h => cases h with | cons h _ =>
      cases h with | var hAB => exact absurd (hL _ _ hAB (by simp [Plain])) (by decide)

end Circle

section Text

/-- The text in the rule names a variable that is not one of the rule. -/
def evaluator : Store := (∅ : Store).add ⟨⟨"r", [.var "Y"]⟩, [.is (.var "Y") (.term (.text "?X"))]⟩

def withX : Substitution := Substitution.bind ∅ "X" (.text "1")

/-- The search once it has entered the body of the rule. -/
def inBody (b : Substitution) : Search where
  current := some ⟨[⟨.is (.var "Y#0") (.term (.text "?X")), 0⟩], b.bind "Y#0" (.var "Y")⟩
  choices := ⟨[.clauses ⟨"r", [.var "Y"]⟩ 0 [] b], 1⟩
  steps := 1
  error := none

theorem next_evaluator {b : Substitution} (hb : b = withX ∨ b = ∅) :
    next {} 9 ⟨evaluator, 0⟩ (start [.call ⟨"r", [.var "Y"]⟩] b 0) = next {} 8 ⟨evaluator, 1⟩ (inBody b) := by
  have hcall : callClauses 8 ⟨evaluator, 0⟩ ⟨none, .empty, 1, none⟩ ⟨"r", [.var "Y"]⟩ [] b =
      some (⟨evaluator, 1⟩, inBody b) := by
    obtain rfl | rfl := hb <;> cbv
  rw [next]
  simp [start, frames, excess, simpleStep, call, Keyword.ofSpelling?, hcall]

theorem tellsApart_text : TellsApart evaluator ⟨"r", [.var "Y"]⟩ 0 0 withX ∅ where
  same := by cbv
  new k x := by simp [withX, get?_bind_renamed]
  still _ _ := (static_start rfl _ _).not_edits (Store.isStatic_empty.add rfl)
  answers := by
    -- The kernel reads the text as a formula.
    have hone : (next {} 8 ⟨evaluator, 1⟩ (inBody withX)).any (·.1.isSome) = true := by decide +kernel
    have hnone : (next {} 8 ⟨evaluator, 1⟩ (inBody ∅)).any (·.1.isNone) = true := by decide +kernel
    rw [← next_evaluator (.inl rfl)] at hone
    rw [← next_evaluator (.inr rfl)] at hnone
    obtain ⟨⟨_, r⟩, h, hr⟩ := (Option.any_eq_true _ _).mp hone
    obtain ⟨⟨_, r'⟩, h', hr'⟩ := (Option.any_eq_true _ _).mp hnone
    obtain ⟨b, rfl⟩ := Option.isSome_iff_exists.mp hr
    obtain rfl := Option.isNone_iff_eq_none.mp hr'
    refine ⟨_, _, congrArg _ h, congrArg _ h', fun L _ h => ?_⟩
    cases h

end Text

section Ahead

def listAndItem : Store := (∅ : Store).add ⟨⟨"p", [.list [.var "H"], .var "H"]⟩, []⟩

/-- The name in the call is that of the variable in the first copy. -/
theorem tellsApart_ahead : TellsApart listAndItem ⟨"p", [.var "H#0", .atom "c"]⟩ 0 1 ∅ ∅ where
  same := rfl
  new _ _ := ⟨rfl, rfl⟩
  still _ _ := (static_start rfl _ _).not_edits (Store.isStatic_empty.add rfl)
  answers := by
    refine ⟨none, some [.list [.atom "c"], .atom "c"], by cbv, by cbv, fun L _ h => ?_⟩
    cases h

end Ahead

end Search
end BilingualLogic
