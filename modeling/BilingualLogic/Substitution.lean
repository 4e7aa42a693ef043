import BilingualLogic.Term
import Std.Data.TreeMap.Basic

/-!
Substitutions: finite maps from variables to terms. Bindings are followed one at a time by `walk` and all the way down
by `resolve`; a variable that would be resolved inside itself stays as it is.
-/

namespace BilingualLogic

structure Substitution where
  bindings : Std.TreeMap String Term

namespace Substitution

def empty : Substitution := ⟨∅⟩

instance : EmptyCollection Substitution := ⟨empty⟩

instance : Inhabited Substitution := ⟨empty⟩

def get? (s : Substitution) (x : String) : Option Term := s.bindings[x]?

def bind (s : Substitution) (x : String) (t : Term) : Substitution := ⟨s.bindings.insert x t⟩

def erase (s : Substitution) (x : String) : Substitution := ⟨s.bindings.erase x⟩

def size (s : Substitution) : Nat := s.bindings.size

/-- The bindings in the order of the variables. -/
def toList (s : Substitution) : List (String × Term) := s.bindings.toList

/-- Follows at most `n` bindings of variables. -/
def follow (s : Substitution) : Nat → Term → Term
  | 0, t => t
  | n + 1, .var x =>
    match s.get? x with
    | some t => s.follow n t
    | none => .var x
  | _ + 1, t => t

/-- Follows bindings up to an unbound variable or a term of another kind. -/
def walk (s : Substitution) (t : Term) : Term := s.follow s.size t

/-- The value of a variable with all that is in it resolved; `n` bounds the variables on the way. -/
def resolveVar : Nat → Substitution → String → Term
  | 0, _, x => .var x
  | n + 1, s, x =>
    match s.get? x with
    | some t => t.bindVars (resolveVar n (s.erase x))
    | none => .var x

/-- The term with all its variables resolved. -/
def resolve (s : Substitution) (t : Term) : Term := t.bindVars (resolveVar s.size s)

end Substitution
end BilingualLogic
