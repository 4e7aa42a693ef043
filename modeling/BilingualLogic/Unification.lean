import BilingualLogic.Goal
import BilingualLogic.Substitution

/-!
Unification of terms under a substitution, without a check that a variable occurs in its own value. Values are unified
if they are loosely equal. Where both sides are variables the left one is bound.
-/

namespace BilingualLogic

/-- A result, or `none` where the effort that was granted did not suffice. -/
abbrev Bounded (α : Type) := Option α

/-- Unifies the terms of two lists of one length in turn. -/
def unifyAllBy (unify : Term → Term → Substitution → Bounded (Option Substitution)) :
    List Term → List Term → Substitution → Bounded (Option Substitution)
  | a :: as, b :: bs, s =>
    match unify a b s with
    | some (some s) => unifyAllBy unify as bs s
    | r => r
  | [], [], s => some (some s)
  | _, _, _ => some none

/-- Unifies the items and the rest of a pattern with the two parts of a list. -/
def unifyFrontBy (unify : Term → Term → Substitution → Bounded (Option Substitution)) (as : List Term) (a : Term)
    (bs : List Term) (s : Substitution) : Bounded (Option Substitution) :=
  if bs.length < as.length then some none
  else
    match unifyAllBy unify as (bs.take as.length) s with
    | some (some s) => unify a (.list (bs.drop as.length)) s
    | r => r

/-- Unifies the items that two patterns share, then what is left of them. -/
def unifyPatternsBy (unify : Term → Term → Substitution → Bounded (Option Substitution)) (as : List Term) (a : Term)
    (bs : List Term) (b : Term) (s : Substitution) : Bounded (Option Substitution) :=
  let k := min as.length bs.length
  match unifyAllBy unify (as.take k) (bs.take k) s with
  | some (some s) => unify (.cons (as.drop k) a) (.cons (bs.drop k) b) s
  | r => r

/-- Unifies two terms. The effort bounds how deep they go into one another. -/
def unify : Nat → Term → Term → Substitution → Bounded (Option Substitution)
  | 0, _, _, _ => none
  | n + 1, a, b, s =>
    match s.walk a, s.walk b with
    | .var x, .var y => some (some (if x = y then s else s.bind x (.var y)))
    | .var x, t => some (some (s.bind x t))
    | t, .var x => some (some (s.bind x t))
    | .const v, .const w => some (if v.loose w then some s else none)
    | .list as, .list bs => if as.length = bs.length then unifyAllBy (unify n) as bs s else some none
    | .pattern as a, .list bs => unifyFrontBy (unify n) as a bs s
    | .list bs, .pattern as a => unifyFrontBy (unify n) as a bs s
    | .pattern as a, .pattern bs b => unifyPatternsBy (unify n) as a bs b s
    | _, _ => some none

/-- Unifies the terms of two lists, which fails if their lengths differ. -/
def unifyAll (effort : Nat) (as bs : List Term) (s : Substitution) : Bounded (Option Substitution) :=
  if as.length = bs.length then unifyAllBy (unify effort) as bs s else some none

def Predicate.unify (effort : Nat) (p q : Predicate) (s : Substitution) : Bounded (Option Substitution) :=
  if p.name = q.name then unifyAll effort p.arguments q.arguments s else some none

end BilingualLogic
