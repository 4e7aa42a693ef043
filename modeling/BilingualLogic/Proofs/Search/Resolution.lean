import BilingualLogic.Program.Check
import BilingualLogic.Proofs.Effort

/-!
Resolution by plain recursion, from left to right and depth first. Every answer of a goal is given to a continuation,
the goals to its right; after it come the answers of the next alternative, unless a cut that the continuation reached
discards them. The number of copies of clauses goes along, for it names the variables of the next copy.
-/

namespace BilingualLogic

/-- How the answers of some goals came to their end. -/
inductive Ending where
  /-- All alternatives were tried. -/
  | exhausted
  /-- A cut discarded what was left. It stands in a body that the goals are in, so many calls further out. -/
  | cut (calls : Nat)
  | limit (error : Error)

def Ending.error : Ending → Option Error
  | limit e => some e
  | _ => none

structure Outcome where
  answers : List Substitution
  copies : Nat
  ending : Ending

namespace Outcome

def fails (copies : Nat) : Outcome := ⟨[], copies, .exhausted⟩

/-- What a cut makes of the outcome of the goals to its right. -/
def commit (r : Outcome) : Outcome :=
  match r.ending with
  | .exhausted => { r with ending := .cut 0 }
  | _ => r

/-- The outcome of the goals to the right of a call, seen from the body of the called clause. -/
def enter (r : Outcome) : Outcome :=
  match r.ending with
  | .cut calls => { r with ending := .cut (calls + 1) }
  | _ => r

/-- The outcome of a call, made of those of the bodies: a cut in one of them is a matter of the call alone. -/
def leave (r : Outcome) : Outcome :=
  match r.ending with
  | .cut 0 => { r with ending := .exhausted }
  | .cut (calls + 1) => { r with ending := .cut calls }
  | _ => r

/-- Goes on with other alternatives if nothing discards them. -/
def orElse (r : Outcome) (next : Nat → Bounded Outcome) : Bounded Outcome :=
  match r.ending with
  | .exhausted => (next r.copies).map fun q => { q with answers := r.answers ++ q.answers }
  | _ => some r

end Outcome

/-- What comes of an answer. -/
abbrev Continuation := Substitution → Nat → Bounded Outcome

namespace Resolution

/-- Takes every answer. -/
def every : Continuation := fun b copies => some ⟨[b], copies, .exhausted⟩

/-- Takes the first answer and discards all others. -/
def first : Continuation := fun b copies => some ⟨[b], copies, .cut 1⟩

def anyOf (k : Continuation) : List Substitution → Nat → Bounded Outcome
  | [], copies => some (.fails copies)
  | b :: bs, copies => (k b copies).bind fun r => r.orElse (anyOf k bs)

def anyOrLimit (k : Continuation) (copies : Nat) : Except Error (List Substitution) → Bounded Outcome
  | .ok bs => anyOf k bs copies
  | .error e => some ⟨[], copies, .limit e⟩

/-- Goes on if the goals of a negation have no answer. -/
def negate (rest : Nat → Bounded Outcome) (r : Outcome) : Bounded Outcome :=
  match r.ending.error, r.answers with
  | some e, _ => some ⟨[], r.copies, .limit e⟩
  | none, [] => rest r.copies
  | none, _ :: _ => some (.fails r.copies)

/-- Goes on with the list of all answers to the goals of a collection as its result. -/
def collect (effort : Nat) (kind : Collection) (template result : Term) (b : Substitution) (k : Continuation)
    (r : Outcome) : Bounded Outcome :=
  match r.ending.error with
  | some e => some ⟨[], r.copies, .limit e⟩
  | none =>
    (unify effort result (.list (kind.arrange (r.answers.map (·.resolve template)))) b).bind fun u =>
      anyOf k u.toList r.copies

/-- Runs the bodies of the clauses whose heads unify with a call, in order. -/
def clausesBy (solve : List Goal → Substitution → Nat → Continuation → Bounded Outcome) (effort : Nat)
    (call : Predicate) (b : Substitution) (k : Continuation) : List Clause → Nat → Bounded Outcome
  | [], copies => some (.fails copies)
  | c :: cs, copies =>
    let copy := c.rename copies
    (copy.head.unify effort call b).bind fun
      | none => clausesBy solve effort call b k cs (copies + 1)
      | some unified =>
        (solve copy.body unified (copies + 1) fun b copies => (k b copies).map .enter).bind fun r =>
          r.orElse (clausesBy solve effort call b k cs)

def callBy (solve : List Goal → Substitution → Nat → Continuation → Bounded Outcome) (limits : Limits) (store : Store)
    (effort : Nat) (p : Predicate) (b : Substitution) (copies : Nat) (k : Continuation) : Bounded Outcome :=
  match Keyword.ofSpelling? p.name, p.arguments with
  | some .cut, [] => (k b copies).map .commit
  | some .true, [] => k b copies
  | some .false, [] => some (.fails copies)
  | some .member, [x, xs] => (Sequence.member effort x xs b).bind fun bs => anyOf k bs copies
  | some .append, [front, back, whole] =>
    (Sequence.append limits effort front back whole b).bind (anyOrLimit k copies)
  | some .length, [xs, n] => (Sequence.length limits effort copies xs n b).bind (anyOrLimit k (copies + 1))
  | some .unify, [x, y] => (unify effort x y b).bind fun r => anyOf k r.toList copies
  | _, _ => (clausesBy solve effort p b k (store.clauses p.key) copies).map .leave

/-- The outcome of goals that nothing changes the clauses of. -/
def solve (limits : Limits) (store : Store) :
    Nat → List Goal → Substitution → Nat → Continuation → Bounded Outcome
  | 0, _, _, _, _ => none
  | _ + 1, [], b, copies, k => k b copies
  | n + 1, g :: goals, b, copies, k =>
    let rest : Continuation := fun b copies => solve limits store n goals b copies k
    match g with
    | .call p => callBy (solve limits store n) limits store n p b copies rest
    | .cut => (rest b copies).map .commit
    | .not goals =>
      (solve limits store n goals b copies first).bind (negate (rest b))
    | .unify x y => (unify n x y b).bind fun r => anyOf rest r.toList copies
    | .is x e => (e.unifyValue n x b).bind fun r => anyOf rest r.toList copies
    | .compare op x y => if op.holds x y b then rest b copies else some (.fails copies)
    | .collect kind template goals result =>
      (solve limits store n goals b copies every).bind (collect n kind template result b rest)
    | .assert _ _ => none
    | .retract _ _ => none

section Effort

variable {limits : Limits} {store : Store}

theorem callBy_eq_clausesBy {solve : List Goal → Substitution → Nat → Continuation → Bounded Outcome} {p : Predicate}
    (hp : p.isBuiltin = false) (effort : Nat) (b : Substitution) (copies : Nat) (k : Continuation) :
    callBy solve limits store effort p b copies k =
      (clausesBy solve effort p b k (store.clauses p.key) copies).map .leave := by
  unfold callBy
  unfold Predicate.isBuiltin Predicate.listKeyword? at hp
  split <;> simp_all [Keyword.listArity?]

theorem orElse_le {r : Outcome} {f g : Nat → Bounded Outcome} (h : ∀ copies, Bounded.Le (f copies) (g copies)) :
    Bounded.Le (r.orElse f) (r.orElse g) := by
  unfold Outcome.orElse
  split
  · exact (h _).map _
  · exact .refl _

variable {k k' : Continuation}

theorem anyOf_le (hk : ∀ b copies, Bounded.Le (k b copies) (k' b copies)) (bs : List Substitution) (copies : Nat) :
    Bounded.Le (anyOf k bs copies) (anyOf k' bs copies) := by
  induction bs generalizing copies with
  | nil => exact .refl _
  | cons b bs ih => exact (hk b copies).bind fun r => orElse_le ih

theorem anyOrLimit_le (hk : ∀ b copies, Bounded.Le (k b copies) (k' b copies)) (copies : Nat)
    (r : Except Error (List Substitution)) : Bounded.Le (anyOrLimit k copies r) (anyOrLimit k' copies r) := by
  cases r with
  | ok bs => exact anyOf_le hk bs copies
  | error e => exact .refl _

theorem negate_le {f g : Nat → Bounded Outcome} (h : ∀ copies, Bounded.Le (f copies) (g copies)) (r : Outcome) :
    Bounded.Le (negate f r) (negate g r) := by
  unfold negate
  split
  · exact .refl _
  · exact h r.copies
  · exact .refl _

theorem collect_le {n m : Nat} (h : n ≤ m) (hk : ∀ b copies, Bounded.Le (k b copies) (k' b copies))
    (kind : Collection) (template result : Term) (b : Substitution) (r : Outcome) :
    Bounded.Le (collect n kind template result b k r) (collect m kind template result b k' r) := by
  unfold collect
  split
  · exact .refl _
  · exact (unify_le h _ _ b).bind fun u => anyOf_le hk u.toList r.copies

variable {f g : List Goal → Substitution → Nat → Continuation → Bounded Outcome} {n m : Nat}

def Extends (f g : List Goal → Substitution → Nat → Continuation → Bounded Outcome) : Prop :=
  ∀ {k k' : Continuation}, (∀ b copies, Bounded.Le (k b copies) (k' b copies)) →
    ∀ goals b copies, Bounded.Le (f goals b copies k) (g goals b copies k')

theorem clausesBy_le (hfg : Extends f g) (h : n ≤ m) (hk : ∀ b copies, Bounded.Le (k b copies) (k' b copies))
    (p : Predicate) (b : Substitution) (cs : List Clause) (copies : Nat) :
    Bounded.Le (clausesBy f n p b k cs copies) (clausesBy g m p b k' cs copies) := by
  induction cs generalizing copies with
  | nil => exact .refl _
  | cons c cs ih =>
    refine (Predicate.unify_le h _ p b).bind ?_
    rintro (_ | unified)
    · exact ih (copies + 1)
    · exact (hfg (fun b copies => (hk b copies).map _) _ _ _).bind fun r => orElse_le ih

theorem callBy_le (hfg : Extends f g) (h : n ≤ m) (hk : ∀ b copies, Bounded.Le (k b copies) (k' b copies))
    (p : Predicate) (b : Substitution) (copies : Nat) :
    Bounded.Le (callBy f limits store n p b copies k) (callBy g limits store m p b copies k') := by
  unfold callBy
  split
  · exact (hk b copies).map _
  · exact hk b copies
  · exact .refl _
  · exact (Sequence.member_le h _ _ b).bind fun bs => anyOf_le hk bs copies
  · exact (Sequence.append_le limits h _ _ _ b).bind fun r => anyOrLimit_le hk copies r
  · exact (Sequence.length_le limits h copies _ _ b).bind fun r => anyOrLimit_le hk (copies + 1) r
  · exact (unify_le h _ _ b).bind fun r => anyOf_le hk r.toList copies
  · exact (clausesBy_le hfg h hk p b _ copies).map _

theorem solve_le (limits : Limits) (store : Store) {n m : Nat} (h : n ≤ m) :
    Extends (solve limits store n) (solve limits store m) := by
  induction n generalizing m with
  | zero => exact fun _ _ _ _ => .none _
  | succ n ih =>
    intro k k' hk goals b copies
    obtain ⟨m, rfl⟩ : ∃ j, m = j + 1 := ⟨m - 1, by omega⟩
    have hnm : n ≤ m := by omega
    cases goals with
    | nil => exact hk b copies
    | cons g goals =>
      have hrest (b : Substitution) (copies : Nat) := ih hnm hk goals b copies
      cases g with
      | call p => exact callBy_le (ih hnm) hnm hrest p b copies
      | cut => exact (hrest b copies).map _
      | not inner => exact (ih hnm (fun _ _ => .refl _) inner b copies).bind (negate_le (hrest b))
      | unify x y => exact (BilingualLogic.unify_le hnm x y b).bind fun r => anyOf_le hrest r.toList copies
      | is x e => exact (Formula.unifyValue_le hnm x e b).bind fun r => anyOf_le hrest r.toList copies
      | compare op x y =>
        simp only [solve]
        split
        · exact hrest b copies
        · exact .refl _
      | collect kind t inner result =>
        exact (ih hnm (fun _ _ => .refl _) inner b copies).bind (collect_le hnm hrest kind t result b)
      | assert head body => exact .refl _
      | retract head body => exact .refl _

end Effort

end Resolution
end BilingualLogic
