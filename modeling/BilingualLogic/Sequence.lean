import BilingualLogic.Error
import BilingualLogic.Limits
import BilingualLogic.Unification

/-!
The predicates on lists: membership, concatenation and length. Each gives all its answers in order. A list must be
known to its end, except where unification alone can match it.
-/

namespace BilingualLogic

def Limits.checkListLength (l : Limits) (n : Nat) : Except Error Unit :=
  if n > l.maxListLength then .error (.limit (.listLength l.maxListLength n)) else .ok ()

namespace Sequence

/-- The items of a list that is known to its end, following the rests of patterns. -/
def items (s : Substitution) : Nat → Term → Bounded (Option (List Term))
  | 0, _ => none
  | n + 1, t =>
    match s.walk t with
    | .list as => some (some as)
    | .pattern as rest =>
      match items s n rest with
      | some (some more) => some (some (as ++ more))
      | r => r
    | _ => some none

/-- The substitutions among the results, unless one of these is unfinished. -/
def answers {α : Type} (f : α → Bounded (Option Substitution)) (done : List Substitution) :
    List α → Bounded (List Substitution)
  | [] => some done.reverse
  | x :: xs =>
    match f x with
    | none => none
    | some none => answers f done xs
    | some (some s) => answers f (s :: done) xs

def member (effort : Nat) (element list : Term) (s : Substitution) : Bounded (List Substitution) :=
  match items s effort list with
  | none => none
  | some none => some []
  | some (some as) => answers (fun a => unify effort element a s) [] as

/-- Concatenates, if both parts are lists; otherwise splits the whole in every way, short fronts first. -/
def append (limits : Limits) (effort : Nat) (front back whole : Term) (s : Substitution) :
    Bounded (Except Error (List Substitution)) :=
  match items s effort front with
  | none => none
  | some fronts =>
    match items s effort back with
    | none => none
    | some backs =>
      match fronts, backs with
      | some as, some bs =>
        match limits.checkListLength (as.length + bs.length) with
        | .error e => some (.error e)
        | .ok () => (unify effort whole (.list (as ++ bs)) s).map fun r => .ok r.toList
      | _, _ => splits
where
  splits : Bounded (Except Error (List Substitution)) :=
    match items s effort whole with
    | none => none
    | some none => some (.ok [])
    | some (some as) =>
      let atSplit (k : Nat) : Bounded (Option Substitution) :=
        match unify effort front (.list (as.take k)) s with
        | some (some s) => unify effort back (.list (as.drop k)) s
        | r => r
      (answers atSplit [] (List.range (as.length + 1))).map .ok

/-- The number of items that a term asks for, if it is a natural number. -/
def size? (s : Substitution) (count : Term) : Option Nat :=
  match s.walk count with
  | .const v =>
    match v.number?.bind Decimal.toInt? with
    | some n => if n < 0 then none else some (min n.toNat (twoPow 64 - 1))
    | none => none
  | _ => none

/-- The variables of a new list; `copy` is a number that no other list was made with. -/
def freshItems (copy n : Nat) : List Term :=
  (List.range n).map fun i => .var ("_L" ++ toString i ++ "#" ++ toString copy)

/-- Measures a list, or makes one of new variables. -/
def length (limits : Limits) (effort copy : Nat) (list count : Term) (s : Substitution) :
    Bounded (Except Error (List Substitution)) :=
  match items s effort list with
  | none => none
  | some (some as) =>
    match Decimal.ofInt? as.length with
    | some n => (unify effort count (.number n) s).map fun r => .ok r.toList
    | none => some (.ok [])
  | some none =>
    if (s.walk list).isVar then
      match size? s count with
      | none => some (.ok [])
      | some n =>
        match limits.checkListLength n with
        | .error e => some (.error e)
        | .ok () => (unify effort list (.list (freshItems copy n)) s).map fun r => .ok r.toList
    else some (.ok [])

/-- Keeps the first of every class of loosely equal terms; `kept` holds those so far, backwards. -/
def distinctFrom (kept : List Term) : List Term → List Term
  | [] => kept.reverse
  | a :: as => distinctFrom (if kept.any (·.loose a) then kept else a :: kept) as

def distinct (terms : List Term) : List Term := distinctFrom [] terms

end Sequence

/-- The collected terms as the collection gives them. -/
def Collection.arrange : Collection → List Term → List Term
  | .setOf, terms => Sequence.distinct terms
  | _, terms => terms

end BilingualLogic
