import BilingualLogic.Proofs.Grammar.Valid
import BilingualLogic.Proofs.Rendering.Means

/-!
What is read from a valid source in which no named variable is hidden can be written, and comes back the same: numbers
by their values, anonymous variables with the names that they had, since they are counted in the same order.
-/

namespace BilingualLogic

open Text

namespace Source

mutual

/-- The names of the named variables. -/
def Term.names : Term → List String
  | .var _ name => [name]
  | .list _ items none => Term.namesAll items
  | .list _ items (some rest) => Term.namesAll items ++ rest.names
  | _ => []

def Term.namesAll : List Term → List String
  | [] => []
  | t :: ts => t.names ++ Term.namesAll ts

end

def Predicate.names (p : Predicate) : List String := Term.namesAll p.arguments

def Formula.names : Formula → List String
  | .var name => [name]
  | .negate e => e.names
  | .binary _ a b => a.names ++ b.names
  | .group _ e => e.names
  | _ => []

mutual

def Goal.names : Goal → List String
  | .call p => p.names
  | .cut => []
  | .not _ goals => Goal.namesAll goals
  | .unify a b => a.names ++ b.names
  | .is a e => a.names ++ e.names
  | .compare _ a b => a.names ++ b.names
  | .collect _ t _ goals r => t.names ++ Goal.namesAll goals ++ r.names
  | .assert head _ body => head.names ++ Goal.namesAll body
  | .retract head _ body => head.names ++ Goal.namesAll body

def Goal.namesAll : List Goal → List String
  | [] => []
  | g :: gs => g.names ++ Goal.namesAll gs

end

def StatementForm.names : StatementForm → List String
  | .fact head => head.names
  | .rule head body => head.names ++ Goal.namesAll body.goals
  | .query body => Goal.namesAll body.goals
  | .directive g => g.names

end Source

section Reading

open Source

variable {α β : Type} {c : Context} {n k : Nat}

theorem bind_eq_ok {m : Reading α} {f : α → Reading β} {y : β} (h : (m >>= f) c n = .ok (y, k)) :
    ∃ x l, m c n = .ok (x, l) ∧ f x c l = .ok (y, k) := by
  rw [Reading.bind_apply] at h
  cases hx : m c n with
  | error e =>
    rw [hx] at h
    cases h
  | ok r =>
    rw [hx] at h
    exact ⟨r.1, r.2, rfl, h⟩

theorem checked_eq_ok {depth : Nat} {span : Span} {f : Unit → Reading β} {y : β}
    (h : (Reading.checkDepth depth span >>= f) c n = .ok (y, k)) : f () c n = .ok (y, k) := by
  obtain ⟨u, l, hcheck, h⟩ := bind_eq_ok h
  rw [Reading.checkDepth] at hcheck
  split at hcheck
  · cases hcheck
  · cases hcheck
    exact h

theorem pure_eq_ok {x y : α} (h : (pure x : Reading α) c n = .ok (y, k)) : y = x ∧ k = n := by
  cases h
  exact ⟨rfl, rfl⟩

end Reading

namespace Term

/-- The term comes back the same where it is written and read again. -/
structure Returns (n : Nat) (t : Term) (k : Nat) : Prop where
  readable : t.Readable
  same : t.same (t.reread n).1 = true
  next : (t.reread n).2 = k

structure ReturnAll (n : Nat) (ts : List Term) (k : Nat) : Prop where
  readable : ∀ t ∈ ts, t.Readable
  same : sameAll ts (rereadAll n ts).1 = true
  next : (rereadAll n ts).2 = k

theorem rereadAll_append (n : Nat) (as bs : List Term) : rereadAll n (as ++ bs) =
    ((rereadAll n as).1 ++ (rereadAll (rereadAll n as).2 bs).1, (rereadAll (rereadAll n as).2 bs).2) := by
  induction as generalizing n with
  | nil => rfl
  | cons a as ih => simp only [List.cons_append, rereadAll, ih]

theorem sameAll_append {as bs as' bs' : List Term} (ha : sameAll as as' = true) (hb : sameAll bs bs' = true) :
    sameAll (as ++ bs) (as' ++ bs') = true := by
  induction as generalizing as' with
  | nil =>
    cases as' with
    | nil => exact hb
    | cons a' as' => cases ha
  | cons a as ih =>
    cases as' with
    | nil => cases ha
    | cons a' as' =>
      simp only [sameAll, Bool.and_eq_true] at ha
      simp only [List.cons_append, sameAll, Bool.and_eq_true]
      exact ⟨ha.1, ih ha.2⟩

theorem ReturnAll.append {n k l : Nat} {as bs : List Term} (ha : ReturnAll n as k) (hb : ReturnAll k bs l) :
    ReturnAll n (as ++ bs) l := by
  obtain ⟨hreadable, hsame, rfl⟩ := ha
  have hboth := rereadAll_append n as bs
  refine ⟨fun t ht => ?_, ?_, ?_⟩
  · rcases List.mem_append.mp ht with ht | ht
    · exact hreadable t ht
    · exact hb.readable t ht
  · rw [hboth]
    exact sameAll_append hsame hb.same
  · rw [hboth]
    exact hb.next

theorem returns_list {n k : Nat} {as : List Term} (h : ReturnAll n as k) : Returns n (.list as) k :=
  ⟨.list h.readable, h.same, h.next⟩

theorem returns_pattern {n k l : Nat} {as : List Term} {r : Term} (has : as ≠ []) (h : ReturnAll n as k)
    (hr : Returns k r l) (htail : r.isTail = true) : Returns n (.pattern as r) l := by
  obtain ⟨hreadable, hsame, rfl⟩ := h
  refine ⟨.pattern has hreadable htail hr.readable, ?_, ?_⟩
  · rw [reread, same, hsame, hr.same]
    rfl
  · rw [reread]
    exact hr.next

/-- The rest of a list may itself be a list, whose items then stand behind those in front of it. -/
theorem returns_cons {n k l : Nat} {as : List Term} {r : Term} (has : as ≠ []) (h : ReturnAll n as k)
    (hr : Returns k r l) : Returns n (.cons as r) l := by
  have hempty : as.isEmpty = false := List.isEmpty_eq_false_iff.mpr has
  cases r with
  | var x => rw [cons_of_isTail has rfl]; exact returns_pattern has h hr rfl
  | const v => rw [cons_of_isTail has rfl]; exact returns_pattern has h hr rfl
  | list bs =>
    have hbs : ReturnAll k bs l := by
      cases hr.readable with
      | list hreadable => exact ⟨hreadable, hr.same, hr.next⟩
    have hcons : Term.cons as (.list bs) = .list (as ++ bs) := by
      rw [Term.cons, hempty]
      rfl
    rw [hcons]
    exact returns_list (h.append hbs)
  | pattern bs q =>
    obtain ⟨hreadable, hsame, hnext⟩ := hr
    cases hreadable with
    | pattern hne hbs htail hq =>
      rw [reread, same, Bool.and_eq_true] at hsame
      have hall : ReturnAll k bs (rereadAll k bs).2 := ⟨hbs, hsame.1, rfl⟩
      have hrest : Returns (rereadAll k bs).2 q l := ⟨hq, hsame.2, hnext⟩
      have hcons : Term.cons as (.pattern bs q) = .pattern (as ++ bs) q := by
        rw [Term.cons, hempty]
        rfl
      rw [hcons]
      exact returns_pattern (by simp [has]) (h.append hall) hrest htail

variable {depth n k : Nat} {c : Source.Context}

theorem returnAll_of_readAll {xs : List Source.Term}
    (h : ∀ x ∈ xs, ∀ n t k, x.read depth c n = .ok (t, k) → Returns n t k) {ts : List Term}
    (hts : Source.Term.readAll depth xs c n = .ok (ts, k)) : ReturnAll n ts k ∧ (xs ≠ [] → ts ≠ []) := by
  induction xs generalizing n ts with
  | nil =>
    rw [Source.Term.readAll] at hts
    obtain ⟨rfl, rfl⟩ := pure_eq_ok hts
    exact ⟨⟨by simp, rfl, rfl⟩, fun h => absurd rfl h⟩
  | cons x xs ih =>
    rw [Source.Term.readAll] at hts
    obtain ⟨t, l, ht, hts⟩ := bind_eq_ok hts
    obtain ⟨ts', l', hts', hts⟩ := bind_eq_ok hts
    obtain ⟨rfl, rfl⟩ := pure_eq_ok hts
    obtain ⟨hreadable, hsame, rfl⟩ := h x (by simp) n t l ht
    obtain ⟨hall, -⟩ := ih (fun x hx => h x (by simp [hx])) hts'
    refine ⟨⟨?_, ?_, hall.next⟩, by simp⟩
    · simpa using ⟨hreadable, hall.readable⟩
    · rw [rereadAll, sameAll, hsame, hall.same]
      rfl

theorem readNumber_eq_ok {s : Span} {numeral : String} {a : Decimal}
    (h : Source.readNumber s numeral c n = .ok (a, k)) :
    Decimal.ofNumeral? (numeral.map Source.asciiDigit) = some a ∧ k = n := by
  rw [Source.readNumber] at h
  cases hb : Decimal.ofNumeral? (numeral.map Source.asciiDigit) with
  | none =>
    rw [hb] at h
    cases h
  | some b =>
    rw [hb] at h
    obtain ⟨rfl, rfl⟩ := pure_eq_ok h
    exact ⟨rfl, rfl⟩

theorem mem_namesAll {x : Source.Term} {xs : List Source.Term} (hx : x ∈ xs) {y : String} (hy : y ∈ x.names) :
    y ∈ Source.Term.namesAll xs := by
  induction xs with
  | nil => cases hx
  | cons z zs ih =>
    rw [Source.Term.namesAll, List.mem_append]
    rcases List.mem_cons.mp hx with rfl | hx
    · exact Or.inl hy
    · exact Or.inr (ih hx)

theorem isHidden_anonymous (n : Nat) : isHidden ("_G" ++ toString n) = true := by
  rw [isHidden, String.toList_append]
  rfl

theorem returns_anonymous (n : Nat) : Returns n (.var ("_G" ++ toString n)) (n + 1) := by
  have hhidden := isHidden_anonymous n
  have hreread : (Term.var ("_G" ++ toString n)).reread n = (.var ("_G" ++ toString n), n + 1) := by
    rw [reread, if_pos hhidden]
  refine ⟨.anonymous hhidden, ?_, ?_⟩
  · rw [hreread, same, beq_self_eq_true]
  · rw [hreread]

theorem returns_var {x : String} (hx : VisibleName x) (n : Nat) : Returns n (.var x) n := by
  have hreread : (Term.var x).reread n = (.var x, n) := by
    rw [reread, if_neg (by simp [hx.isHidden])]
  refine ⟨.var hx, ?_, ?_⟩
  · rw [hreread, same, beq_self_eq_true]
  · rw [hreread]

theorem returns_number (a : Decimal) (n : Nat) : Returns n (.const (.number a)) n :=
  ⟨.number a, Decimal.beq_normalize a, rfl⟩

theorem returns_text (content : String) (n : Nat) : Returns n (.const (.text content)) n :=
  ⟨.text content, beq_self_eq_true content, rfl⟩

theorem returns_boolean (b : Bool) (n : Nat) : Returns n (.const (.boolean b)) n :=
  ⟨.boolean b, beq_self_eq_true b, rfl⟩

theorem returns_atom {name : String} (hname : Language.isName name.toList = true) (hne : name ≠ "_") (n : Nat) :
    Returns n (.const (.atom name)) n :=
  ⟨.atom hname hne, beq_self_eq_true name, rfl⟩

theorem returns_of_read {x : Source.Term} (hx : x.Valid) (hvisible : ∀ y ∈ x.names, isHidden y = false) {t : Term}
    (h : x.read depth c n = .ok (t, k)) : Returns n t k := by
  induction hx generalizing depth n t k with
  | anonymous s =>
    rw [Source.Term.read] at h
    replace h := checked_eq_ok h
    obtain ⟨name, l, hname, h⟩ := bind_eq_ok h
    obtain ⟨rfl, rfl⟩ := pure_eq_ok h
    cases hname
    exact returns_anonymous n
  | @var s name hne hchars =>
    rw [Source.Term.read] at h
    replace h := checked_eq_ok h
    obtain ⟨rfl, rfl⟩ := pure_eq_ok h
    exact returns_var ⟨hne, hchars, hvisible name (by simp [Source.Term.names])⟩ _
  | number s numeral =>
    rw [Source.Term.read] at h
    replace h := checked_eq_ok h
    obtain ⟨a, l, ha, h⟩ := bind_eq_ok h
    obtain ⟨rfl, rfl⟩ := pure_eq_ok h
    obtain ⟨-, rfl⟩ := readNumber_eq_ok ha
    exact returns_number a _
  | text s content =>
    rw [Source.Term.read] at h
    replace h := checked_eq_ok h
    obtain ⟨rfl, rfl⟩ := pure_eq_ok h
    exact returns_text content _
  | boolean s b =>
    rw [Source.Term.read] at h
    replace h := checked_eq_ok h
    obtain ⟨rfl, rfl⟩ := pure_eq_ok h
    exact returns_boolean b _
  | @atom s name hname hne =>
    rw [Source.Term.read] at h
    replace h := checked_eq_ok h
    obtain ⟨rfl, rfl⟩ := pure_eq_ok h
    exact returns_atom hname hne _
  | @list s items _ ih =>
    rw [Source.Term.read] at h
    replace h := checked_eq_ok h
    obtain ⟨ts, l, hts, h⟩ := bind_eq_ok h
    obtain ⟨rfl, rfl⟩ := pure_eq_ok h
    refine returns_list (returnAll_of_readAll (fun x hx n t k ht => ih x hx (fun y hy => ?_) ht) hts).1
    exact hvisible y (by rw [Source.Term.names]; exact mem_namesAll hx hy)
  | @pattern s items rest hne _ _ ih ihrest =>
    rw [Source.Term.read] at h
    replace h := checked_eq_ok h
    obtain ⟨ts, l, hts, h⟩ := bind_eq_ok h
    obtain ⟨r, l', hr, h⟩ := bind_eq_ok h
    obtain ⟨rfl, rfl⟩ := pure_eq_ok h
    obtain ⟨hall, hts⟩ := returnAll_of_readAll (fun x hx n t k ht => ih x hx (fun y hy => hvisible y (by
      rw [Source.Term.names]
      exact List.mem_append_left _ (mem_namesAll hx hy))) ht) hts
    refine returns_cons (hts hne) hall (ihrest (fun y hy => hvisible y ?_) hr)
    rw [Source.Term.names]
    exact List.mem_append_right _ hy

end Term

namespace Predicate

structure Returns (n : Nat) (p : Predicate) (k : Nat) : Prop where
  readable : p.Readable
  same : (p == (p.reread n).1) = true
  next : (p.reread n).2 = k

theorem returns_of_read {x : Source.Predicate} (hx : x.Valid) (hvisible : ∀ y ∈ x.names, Term.isHidden y = false)
    {p : Predicate} {depth n k : Nat} {c : Source.Context} (h : x.read depth c n = .ok (p, k)) : Returns n p k := by
  rw [Source.Predicate.read] at h
  obtain ⟨ts, l, hts, h⟩ := bind_eq_ok h
  obtain ⟨rfl, rfl⟩ := pure_eq_ok h
  obtain ⟨hall, -⟩ := Term.returnAll_of_readAll (fun t ht n u k hu => Term.returns_of_read (hx.arguments t ht)
    (fun y hy => hvisible y (Term.mem_namesAll ht hy)) hu) hts
  refine ⟨⟨hx.name, hall.readable⟩, ?_, hall.next⟩
  change (x.name == x.name && Term.sameAll ts (Term.rereadAll n ts).1) = true
  rw [hall.same, beq_self_eq_true]
  rfl

end Predicate

namespace Formula

/-- In a formula nothing is counted. -/
structure Returns (n : Nat) (e : Formula) (k : Nat) : Prop where
  readable : e.Readable
  same : (e == e.reread) = true
  next : n = k

theorem asciiDigit_eq_minus {c : Char} (h : Source.asciiDigit c = '-') : c = '-' := by
  unfold Source.asciiDigit at h
  split at h
  · next hc =>
    have hdigits : ∀ k < 10, Char.ofNat (k + '0'.toNat) ≠ '-' := by decide
    have hle : c.toNat ≤ '٩'.toNat := hc.2
    refine absurd h (hdigits (c.toNat - '٠'.toNat) ?_)
    change c.toNat ≤ 1641 at hle
    change c.toNat - 1632 < 10
    omega
  · exact h

theorem nonneg_of_readNumber {numeral : String} (hsign : ∀ ds, numeral.toList ≠ '-' :: ds) {s : Span}
    {c : Source.Context} {n k : Nat} {a : Decimal} (h : Source.readNumber s numeral c n = .ok (a, k)) :
    0 ≤ a.coefficient := by
  refine Decimal.ofNumeral?_nonneg (fun ds hds => ?_) (Term.readNumber_eq_ok h).1
  rw [String.toList_map] at hds
  obtain ⟨c, cs, hc, hminus, -⟩ := List.map_eq_cons_iff.mp hds
  exact hsign cs (asciiDigit_eq_minus hminus ▸ hc)

theorem returns_of_read {x : Source.Formula} (hx : x.Valid) (hvisible : ∀ y ∈ x.names, Term.isHidden y = false)
    {e : Formula} {depth n k : Nat} {c : Source.Context} (h : x.read depth c n = .ok (e, k)) : Returns n e k := by
  induction hx generalizing depth n e k with
  | @number s numeral hsign =>
    rw [Source.Formula.read] at h
    obtain ⟨a, l, ha, h⟩ := bind_eq_ok h
    obtain ⟨rfl, rfl⟩ := pure_eq_ok h
    have hnonneg := nonneg_of_readNumber hsign ha
    obtain ⟨-, rfl⟩ := Term.readNumber_eq_ok ha
    exact ⟨.number hnonneg, Decimal.beq_normalize a, rfl⟩
  | @var name hne hchars =>
    obtain ⟨rfl, rfl⟩ := pure_eq_ok h
    have hx : VisibleName name := ⟨hne, hchars, hvisible name (by simp [Source.Formula.names])⟩
    exact ⟨.var hx, (Term.returns_var hx 0).same, rfl⟩
  | text content =>
    obtain ⟨rfl, rfl⟩ := pure_eq_ok h
    exact ⟨.text content, beq_self_eq_true content, rfl⟩
  | negate _ ih =>
    rw [Source.Formula.read] at h
    obtain ⟨e, l, he, h⟩ := bind_eq_ok h
    obtain ⟨rfl, rfl⟩ := pure_eq_ok h
    obtain ⟨hreadable, hsame, rfl⟩ := ih hvisible he
    exact ⟨.negate hreadable, hsame, rfl⟩
  | binary op _ _ iha ihb =>
    rw [Source.Formula.read] at h
    obtain ⟨a, l, ha, h⟩ := bind_eq_ok h
    obtain ⟨b, l', hb, h⟩ := bind_eq_ok h
    obtain ⟨rfl, rfl⟩ := pure_eq_ok h
    obtain ⟨hreada, hsamea, rfl⟩ := iha (fun y hy => hvisible y (List.mem_append_left _ hy)) ha
    obtain ⟨hreadb, hsameb, rfl⟩ := ihb (fun y hy => hvisible y (List.mem_append_right _ hy)) hb
    refine ⟨.binary op hreada hreadb, ?_, rfl⟩
    change (op == op && a.same a.reread && b.same b.reread) = true
    rw [beq_self_eq_true, show a.same a.reread = true from hsamea, show b.same b.reread = true from hsameb]
    rfl
  | group s _ ih =>
    rw [Source.Formula.read] at h
    exact ih hvisible (checked_eq_ok h)

end Formula

namespace Goal

structure Returns (n : Nat) (g : Goal) (k : Nat) : Prop where
  readable : g.Readable
  same : g.same (g.reread n).1 = true
  next : (g.reread n).2 = k

structure ReturnAll (n : Nat) (gs : List Goal) (k : Nat) : Prop where
  readable : ∀ g ∈ gs, g.Readable
  same : sameAll gs (rereadAll n gs).1 = true
  next : (rereadAll n gs).2 = k

variable {depth n k : Nat} {c : Source.Context}

theorem returnAll_of_readAll {xs : List Source.Goal}
    (h : ∀ x ∈ xs, ∀ depth n g k, x.read depth c n = .ok (g, k) → Returns n g k) {gs : List Goal}
    (hgs : Source.Goal.readAll depth xs c n = .ok (gs, k)) : ReturnAll n gs k ∧ (xs ≠ [] → gs ≠ []) := by
  induction xs generalizing n gs with
  | nil =>
    rw [Source.Goal.readAll] at hgs
    obtain ⟨rfl, rfl⟩ := pure_eq_ok hgs
    exact ⟨⟨by simp, rfl, rfl⟩, fun h => absurd rfl h⟩
  | cons x xs ih =>
    rw [Source.Goal.readAll] at hgs
    obtain ⟨g, l, hg, hgs⟩ := bind_eq_ok hgs
    obtain ⟨gs', l', hgs', hgs⟩ := bind_eq_ok hgs
    obtain ⟨rfl, rfl⟩ := pure_eq_ok hgs
    obtain ⟨hreadable, hsame, rfl⟩ := h x (by simp) depth n g l hg
    obtain ⟨hall, -⟩ := ih (fun x hx => h x (by simp [hx])) hgs'
    refine ⟨⟨?_, ?_, hall.next⟩, by simp⟩
    · simpa using ⟨hreadable, hall.readable⟩
    · rw [rereadAll, sameAll, hsame, hall.same]
      rfl

theorem returnAll_of_readBody {xs : List Source.Goal}
    (h : ∀ x ∈ xs, ∀ depth n g k, x.read depth c n = .ok (g, k) → Returns n g k) {s : Span} {gs : List Goal}
    (hgs : Source.Goal.readBody depth s xs c n = .ok (gs, k)) : ReturnAll n gs k := by
  cases xs with
  | nil =>
    obtain ⟨rfl, rfl⟩ := pure_eq_ok hgs
    exact ⟨by simp, rfl, rfl⟩
  | cons x xs =>
    rw [Source.Goal.readBody] at hgs
    have hall : Source.Goal.readAll (depth + 1) (x :: xs) c n = .ok (gs, k) := by
      rw [Source.Goal.readAll]
      exact checked_eq_ok hgs
    exact (returnAll_of_readAll h hall).1

theorem mem_namesAll {x : Source.Goal} {xs : List Source.Goal} (hx : x ∈ xs) {y : String} (hy : y ∈ x.names) :
    y ∈ Source.Goal.namesAll xs := by
  induction xs with
  | nil => cases hx
  | cons z zs ih =>
    rw [Source.Goal.namesAll, List.mem_append]
    rcases List.mem_cons.mp hx with rfl | hx
    · exact Or.inl hy
    · exact Or.inr (ih hx)

theorem returns_clause {head : Source.Predicate} {body : List Source.Goal} (hhead : head.Valid)
    (hbody : ∀ x ∈ body, ∀ depth n g k, x.read depth c n = .ok (g, k) → Returns n g k)
    (hvisible : ∀ y ∈ head.names, Term.isHidden y = false) {s : Span} {f : Predicate → List Goal → Goal} {g : Goal}
    (h : (head.read depth >>= fun p => Source.Goal.readBody depth s body >>= fun gs => pure (f p gs) :
      Source.Reading Goal) c n = .ok (g, k)) :
    ∃ p gs l, g = f p gs ∧ Predicate.Returns n p l ∧ ReturnAll l gs k := by
  obtain ⟨p, l, hp, h⟩ := bind_eq_ok h
  obtain ⟨gs, l', hgs, h⟩ := bind_eq_ok h
  obtain ⟨rfl, rfl⟩ := pure_eq_ok h
  exact ⟨p, gs, l, rfl, Predicate.returns_of_read hhead hvisible hp, returnAll_of_readBody hbody hgs⟩

theorem returns_call {p : Predicate} (hp : Predicate.Returns n p k) : Returns n (.call p) k :=
  ⟨.call hp.readable, hp.same, hp.next⟩

theorem returns_truth {name : String} (hname : name ∈ Keyword.true.allSpellings ++ Keyword.false.allSpellings)
    (n : Nat) : Returns n (.call ⟨name, []⟩) n := by
  refine ⟨.truth hname, ?_, rfl⟩
  change (name == name && Term.sameAll [] []) = true
  rw [beq_self_eq_true]
  rfl

theorem returns_unify {t u : Term} {l : Nat} (ht : Term.Returns n t l) (hu : Term.Returns l u k) :
    Returns n (.unify t u) k := by
  obtain ⟨hreadt, hsamet, rfl⟩ := ht
  obtain ⟨hreadu, hsameu, rfl⟩ := hu
  refine ⟨.unify hreadt hreadu, ?_, rfl⟩
  change (t.same _ && u.same _) = true
  rw [hsamet, hsameu]
  rfl

theorem returns_is {t : Term} {e : Formula} {l : Nat} (ht : Term.Returns n t l) (he : Formula.Returns l e k) :
    Returns n (.is t e) k := by
  obtain ⟨hreadt, hsamet, rfl⟩ := ht
  obtain ⟨hreade, hsamee, rfl⟩ := he
  refine ⟨.is hreadt hreade, ?_, rfl⟩
  change (t.same _ && e == e.reread) = true
  rw [hsamet, hsamee]
  rfl

theorem returns_compare (op : Comparison) {e f : Formula} {l : Nat} (he : Formula.Returns n e l)
    (hf : Formula.Returns l f k) : Returns n (.compare op e f) k := by
  obtain ⟨hreade, hsamee, rfl⟩ := he
  obtain ⟨hreadf, hsamef, rfl⟩ := hf
  refine ⟨.compare op hreade hreadf, ?_, rfl⟩
  change (op == op && e == e.reread && f == f.reread) = true
  rw [beq_self_eq_true, hsamee, hsamef]
  rfl

theorem returns_not {gs : List Goal} (hne : gs ≠ []) (hgs : ReturnAll n gs k) : Returns n (.not gs) k :=
  ⟨.not hne hgs.readable, hgs.same, hgs.next⟩

theorem returns_collect (kind : Collection) {t r : Term} {gs : List Goal} {l l' : Nat} (ht : Term.Returns n t l)
    (hne : gs ≠ []) (hgs : ReturnAll l gs l') (hr : Term.Returns l' r k) : Returns n (.collect kind t gs r) k := by
  obtain ⟨hreadt, hsamet, rfl⟩ := ht
  obtain ⟨hreadgs, hsamegs, rfl⟩ := hgs
  obtain ⟨hreadr, hsamer, rfl⟩ := hr
  refine ⟨.collect kind hreadt hne hreadgs hreadr, ?_, rfl⟩
  change (kind == kind && t.same _ && sameAll gs _ && r.same _) = true
  rw [beq_self_eq_true, hsamet, hsamegs, hsamer]
  rfl

section Clauses

variable {p : Predicate} {gs : List Goal} {l : Nat} (hp : Predicate.Returns n p l) (hgs : ReturnAll l gs k)

include hp hgs

theorem same_clause : (p == (p.reread n).1 && sameAll gs (rereadAll (p.reread n).2 gs).1) = true := by
  rw [hp.same, hp.next, hgs.same]
  rfl

theorem returns_assert : Returns n (.assert p gs) k := by
  have hsame := same_clause hp hgs
  obtain ⟨hreadp, -, rfl⟩ := hp
  exact ⟨.assert hreadp hgs.readable, hsame, hgs.next⟩

theorem returns_retract : Returns n (.retract p gs) k := by
  have hsame := same_clause hp hgs
  obtain ⟨hreadp, -, rfl⟩ := hp
  exact ⟨.retract hreadp hgs.readable, hsame, hgs.next⟩

end Clauses

theorem returns_of_read {x : Source.Goal} (hx : x.Valid) (hvisible : ∀ y ∈ x.names, Term.isHidden y = false)
    {g : Goal} (h : x.read depth c n = .ok (g, k)) : Returns n g k := by
  induction hx generalizing depth n g k with
  | @call p hp =>
    rw [Source.Goal.read] at h
    obtain ⟨q, l, hq, h⟩ := bind_eq_ok h
    obtain ⟨rfl, rfl⟩ := pure_eq_ok h
    exact returns_call (Predicate.returns_of_read hp (by simpa [Source.Goal.names] using hvisible) hq)
  | @truth name hname =>
    rw [Source.Goal.read] at h
    obtain ⟨rfl, rfl⟩ := pure_eq_ok h
    exact returns_truth hname _
  | cut =>
    rw [Source.Goal.read] at h
    obtain ⟨rfl, rfl⟩ := pure_eq_ok h
    exact ⟨.cut, rfl, rfl⟩
  | @not s goals hne _ ih =>
    rw [Source.Goal.names] at hvisible
    rw [Source.Goal.read] at h
    replace h := checked_eq_ok h
    obtain ⟨gs, l, hgs, h⟩ := bind_eq_ok h
    obtain ⟨rfl, rfl⟩ := pure_eq_ok h
    obtain ⟨hall, hgs⟩ := returnAll_of_readAll (fun x hx depth n g k hg => ih x hx
      (fun y hy => hvisible y (mem_namesAll hx hy)) hg) hgs
    exact returns_not (hgs hne) hall
  | @unify a b ha hb =>
    simp only [Source.Goal.names, List.mem_append] at hvisible
    rw [Source.Goal.read] at h
    obtain ⟨t, l, ht, h⟩ := bind_eq_ok h
    obtain ⟨u, l', hu, h⟩ := bind_eq_ok h
    obtain ⟨rfl, rfl⟩ := pure_eq_ok h
    exact returns_unify (Term.returns_of_read ha (fun y hy => hvisible y (Or.inl hy)) ht)
      (Term.returns_of_read hb (fun y hy => hvisible y (Or.inr hy)) hu)
  | @is a e ha he =>
    simp only [Source.Goal.names, List.mem_append] at hvisible
    rw [Source.Goal.read] at h
    obtain ⟨t, l, ht, h⟩ := bind_eq_ok h
    obtain ⟨f, l', hf, h⟩ := bind_eq_ok h
    obtain ⟨rfl, rfl⟩ := pure_eq_ok h
    exact returns_is (Term.returns_of_read ha (fun y hy => hvisible y (Or.inl hy)) ht)
      (Formula.returns_of_read he (fun y hy => hvisible y (Or.inr hy)) hf)
  | @compare op a b ha hb =>
    simp only [Source.Goal.names, List.mem_append] at hvisible
    rw [Source.Goal.read] at h
    obtain ⟨e, l, he, h⟩ := bind_eq_ok h
    obtain ⟨f, l', hf, h⟩ := bind_eq_ok h
    obtain ⟨rfl, rfl⟩ := pure_eq_ok h
    exact returns_compare op (Formula.returns_of_read ha (fun y hy => hvisible y (Or.inl hy)) he)
      (Formula.returns_of_read hb (fun y hy => hvisible y (Or.inr hy)) hf)
  | @collect kind s t r goals ht hne _ hr ih =>
    simp only [Source.Goal.names, List.mem_append] at hvisible
    rw [Source.Goal.read] at h
    obtain ⟨u, l, hu, h⟩ := bind_eq_ok h
    replace h := checked_eq_ok h
    obtain ⟨gs, l', hgs, h⟩ := bind_eq_ok h
    obtain ⟨w, l'', hw, h⟩ := bind_eq_ok h
    obtain ⟨rfl, rfl⟩ := pure_eq_ok h
    obtain ⟨hall, hgsne⟩ := returnAll_of_readAll (fun x hx depth n g k hg => ih x hx
      (fun y hy => hvisible y (Or.inl (Or.inr (mem_namesAll hx hy)))) hg) hgs
    exact returns_collect kind (Term.returns_of_read ht (fun y hy => hvisible y (Or.inl (Or.inl hy))) hu) (hgsne hne)
      hall (Term.returns_of_read hr (fun y hy => hvisible y (Or.inr hy)) hw)
  | @assert s head body hh _ ih =>
    simp only [Source.Goal.names, List.mem_append] at hvisible
    rw [Source.Goal.read] at h
    obtain ⟨p, gs, _, rfl, hp, hgs⟩ := returns_clause hh
      (fun x hx depth n g k hg => ih x hx (fun y hy => hvisible y (Or.inr (mem_namesAll hx hy))) hg)
      (fun y hy => hvisible y (Or.inl hy)) h
    exact returns_assert hp hgs
  | @retract s head body hh _ ih =>
    simp only [Source.Goal.names, List.mem_append] at hvisible
    rw [Source.Goal.read] at h
    obtain ⟨p, gs, _, rfl, hp, hgs⟩ := returns_clause hh
      (fun x hx depth n g k hg => ih x hx (fun y hy => hvisible y (Or.inr (mem_namesAll hx hy))) hg)
      (fun y hy => hvisible y (Or.inl hy)) h
    exact returns_retract hp hgs

end Goal

namespace StatementForm

/-- The same statement, where numbers count as the same if they are equal. -/
def same : StatementForm → StatementForm → Bool
  | .fact head, .fact head' => head == head'
  | .rule head body, .rule head' body' => head == head' && Goal.sameAll body body'
  | .query goals, .query goals' => Goal.sameAll goals goals'
  | .directive g, .directive g' => g.same g'
  | _, _ => false

structure Returns (n : Nat) (f : StatementForm) (k : Nat) : Prop where
  readable : f.Readable
  same : f.same (f.reread n).1 = true
  next : (f.reread n).2 = k

variable {n k : Nat} {c : Source.Context}

theorem returnAll_of_body {b : Source.Body} (hb : b.Valid)
    (hvisible : ∀ y ∈ Source.Goal.namesAll b.goals, Term.isHidden y = false) {gs : List Goal}
    (h : b.read c n = .ok (gs, k)) : Goal.ReturnAll n gs k ∧ gs ≠ [] := by
  rw [Source.Body.read] at h
  obtain ⟨hall, hne⟩ := Goal.returnAll_of_readAll (fun x hx depth n g k hg => Goal.returns_of_read (hb.goals x hx)
    (fun y hy => hvisible y (Goal.mem_namesAll hx hy)) hg) (checked_eq_ok h)
  exact ⟨hall, hne hb.ne_nil⟩

theorem returns_of_read {x : Source.Statement} (hx : x.form.Valid)
    (hvisible : ∀ y ∈ x.form.names, Term.isHidden y = false) {s : Statement} (h : x.read c n = .ok (s, k)) :
    Returns n s.form k := by
  obtain ⟨span, form⟩ := x
  cases hx with
  | @fact head hhead =>
    change (head.read 0 >>= fun head => pure (⟨.fact head, span⟩ : Statement) : Source.Reading Statement) c n = _ at h
    obtain ⟨p, l, hp, h⟩ := bind_eq_ok h
    obtain ⟨rfl, rfl⟩ := pure_eq_ok h
    obtain ⟨hreadable, hsame, hnext⟩ := Predicate.returns_of_read hhead hvisible hp
    exact ⟨.fact hreadable, hsame, hnext⟩
  | @rule head body hhead hbody =>
    simp only [Source.StatementForm.names, List.mem_append] at hvisible
    change (head.read 0 >>= fun head => body.read >>= fun body => pure (⟨.rule head body, span⟩ : Statement) :
      Source.Reading Statement) c n = _ at h
    obtain ⟨p, l, hp, h⟩ := bind_eq_ok h
    obtain ⟨gs, l', hgs, h⟩ := bind_eq_ok h
    obtain ⟨rfl, rfl⟩ := pure_eq_ok h
    replace hp := Predicate.returns_of_read hhead (fun y hy => hvisible y (Or.inl hy)) hp
    obtain ⟨hall, hne⟩ := returnAll_of_body hbody (fun y hy => hvisible y (Or.inr hy)) hgs
    have hsame := Goal.same_clause hp hall
    obtain ⟨hreadp, -, rfl⟩ := hp
    exact ⟨.rule hreadp hne hall.readable, hsame, hall.next⟩
  | @query body hbody =>
    change (body.read >>= fun body => pure (⟨.query body, span⟩ : Statement) : Source.Reading Statement) c n = _ at h
    obtain ⟨gs, l, hgs, h⟩ := bind_eq_ok h
    obtain ⟨rfl, rfl⟩ := pure_eq_ok h
    obtain ⟨hall, hne⟩ := returnAll_of_body hbody hvisible hgs
    exact ⟨.query hne hall.readable, hall.same, hall.next⟩
  | @assert s head body hhead hbody =>
    change ((Source.Goal.assert head s body).read 0 >>= fun g => pure (⟨.directive g, span⟩ : Statement) :
      Source.Reading Statement) c n = _ at h
    obtain ⟨g, l, hg, h⟩ := bind_eq_ok h
    obtain ⟨rfl, rfl⟩ := pure_eq_ok h
    obtain ⟨hreadable, hsame, hnext⟩ := Goal.returns_of_read (.assert s hhead hbody) hvisible hg
    rw [Source.Goal.read] at hg
    obtain ⟨p, _, -, hg⟩ := bind_eq_ok hg
    obtain ⟨gs, _, -, hg⟩ := bind_eq_ok hg
    obtain ⟨rfl, -⟩ := pure_eq_ok hg
    cases hreadable with
    | assert hp hgs => exact ⟨.assert hp hgs, hsame, hnext⟩
  | @retract s head body hhead hbody =>
    change ((Source.Goal.retract head s body).read 0 >>= fun g => pure (⟨.directive g, span⟩ : Statement) :
      Source.Reading Statement) c n = _ at h
    obtain ⟨g, l, hg, h⟩ := bind_eq_ok h
    obtain ⟨rfl, rfl⟩ := pure_eq_ok h
    obtain ⟨hreadable, hsame, hnext⟩ := Goal.returns_of_read (.retract s hhead hbody) hvisible hg
    rw [Source.Goal.read] at hg
    obtain ⟨p, _, -, hg⟩ := bind_eq_ok hg
    obtain ⟨gs, _, -, hg⟩ := bind_eq_ok hg
    obtain ⟨rfl, -⟩ := pure_eq_ok hg
    cases hreadable with
    | retract hp hgs => exact ⟨.retract hp hgs, hsame, hnext⟩

/-- The statements that are read are readable, and they come back the same in order. -/
theorem returnAll_of_readStatements {xs : List Source.Statement} (hx : ∀ x ∈ xs, x.form.Valid)
    (hvisible : ∀ x ∈ xs, ∀ y ∈ x.form.names, Term.isHidden y = false) {done ss : List Statement}
    (h : Source.readStatements c n done xs = .ok ss) : ∃ more, ss = done.reverse ++ more ∧
      (∀ s ∈ more, s.form.Readable) ∧
      List.Forall₂ (fun s f => s.form.same f = true) more (rereadAll n (more.map Statement.form)) := by
  induction xs generalizing n done with
  | nil =>
    rw [Source.readStatements] at h
    cases h
    exact ⟨[], by simp, by simp, .nil⟩
  | cons x xs ih =>
    rw [Source.readStatements] at h
    cases hs : x.read c n with
    | error e =>
      rw [hs] at h
      cases h
    | ok r =>
      obtain ⟨s, l⟩ := r
      rw [hs] at h
      obtain ⟨hreadable, hsame, rfl⟩ := returns_of_read (hx x (by simp)) (hvisible x (by simp)) hs
      obtain ⟨more, rfl, hmore, hall⟩ := ih (fun x h => hx x (by simp [h])) (fun x h => hvisible x (by simp [h])) h
      refine ⟨s :: more, by simp, by simpa using ⟨hreadable, hmore⟩, ?_⟩
      rw [List.map_cons, rereadAll]
      exact .cons hsame hall

end StatementForm

end BilingualLogic
