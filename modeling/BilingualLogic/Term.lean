import BilingualLogic.Decimal.Numeral
import BilingualLogic.Keyword

/-!
Terms: variables, constants and lists. A list whose end is not known is a pattern, its first items followed by the
rest; `Term.cons` builds patterns so that the rest is never a list or a pattern itself.
-/

namespace BilingualLogic

inductive Value where
  | number (value : Decimal)
  | text (content : String)
  | boolean (value : Bool)
  | atom (name : String)
deriving BEq, Inhabited

namespace Value

/-- The number that the value is or, for a text, denotes. -/
def number? : Value → Option Decimal
  | number n => some n
  | text s => Decimal.ofText? s
  | _ => none

/-- Equality of values in unification: by number where both sides have one, else by their characters. -/
def loose : Value → Value → Bool
  | number a, number b => a == b
  | number a, text s => (Decimal.ofText? s).any (· == a)
  | text s, number a => (Decimal.ofText? s).any (· == a)
  | boolean a, boolean b => a == b
  | text s, text t =>
    match Decimal.ofText? s, Decimal.ofText? t with
    | some a, some b => a == b
    | _, _ => s == t
  | text s, atom t => s == t
  | atom s, text t => s == t
  | atom s, atom t => s == t
  | _, _ => false

/-- A character inside a quoted text. -/
def escaped : Char → List Char
  | '"' => ['\\', '"']
  | '\\' => ['\\', '\\']
  | '\n' => ['\\', 'n']
  | '\t' => ['\\', 't']
  | c => [c]

def quoted (s : String) : String := "\"" ++ String.ofList (s.toList.flatMap escaped) ++ "\""

def render (v : Vocabulary) : Value → String
  | number n => n.text
  | text s => quoted s
  | boolean true => Keyword.true.spelling v
  | boolean false => Keyword.false.spelling v
  | atom name => name

end Value

inductive Term where
  | var (name : String)
  | const (value : Value)
  | list (items : List Term)
  | pattern (items : List Term) (rest : Term)

namespace Term

instance : Inhabited Term := ⟨list []⟩

def atom (name : String) : Term := const (.atom name)

def text (content : String) : Term := const (.text content)

def number (n : Decimal) : Term := const (.number n)

/-- The items followed by what the rest stands for. -/
def cons (items : List Term) (rest : Term) : Term :=
  if items.isEmpty then rest
  else match rest with
    | list more => list (items ++ more)
    | pattern more rest => pattern (items ++ more) rest
    | rest => pattern items rest

def isVar : Term → Bool
  | var _ => true
  | _ => false

mutual

/-- Whether the term has no variables. -/
def isGround : Term → Bool
  | var _ => false
  | const _ => true
  | list items => groundAll items
  | pattern items rest => groundAll items && rest.isGround

def groundAll : List Term → Bool
  | [] => true
  | a :: as => a.isGround && groundAll as

end

mutual

/-- Levels of nesting; a variable or a constant has one. -/
def depth : Term → Nat
  | var _ => 1
  | const _ => 1
  | list items => 1 + depthAll items
  | pattern items rest => 1 + max (depthAll items) rest.depth

/-- The most levels that one of the terms has. -/
def depthAll : List Term → Nat
  | [] => 0
  | a :: as => max a.depth (depthAll as)

end

mutual

/-- Adds the variables that are not among the given ones, in the order in which they appear. -/
def addVars (seen : List String) : Term → List String
  | var name => if seen.contains name then seen else seen ++ [name]
  | const _ => seen
  | list items => addVarsAll seen items
  | pattern items rest => rest.addVars (addVarsAll seen items)

def addVarsAll (seen : List String) : List Term → List String
  | [] => seen
  | a :: as => addVarsAll (a.addVars seen) as

end

/-- Replaces every variable. -/
def bindVars (f : String → Term) : Term → Term
  | var name => f name
  | const value => const value
  | list items => list (items.map (bindVars f))
  | pattern items rest => cons (items.map (bindVars f)) (rest.bindVars f)

mutual

/-- Equality of terms up to the loose equality of their values. -/
def loose : Term → Term → Bool
  | var a, var b => a == b
  | const a, const b => a.loose b
  | list as, list bs => looseAll as bs
  | pattern as a, pattern bs b => looseAll as bs && a.loose b
  | _, _ => false

def looseAll : List Term → List Term → Bool
  | [], [] => true
  | a :: as, b :: bs => a.loose b && looseAll as bs
  | _, _ => false

end

mutual

/-- The same term, where numbers count as the same if they are equal. -/
def same : Term → Term → Bool
  | var a, var b => a == b
  | const a, const b => a == b
  | list as, list bs => sameAll as bs
  | pattern as a, pattern bs b => sameAll as bs && a.same b
  | _, _ => false

def sameAll : List Term → List Term → Bool
  | [], [] => true
  | a :: as, b :: bs => a.same b && sameAll as bs
  | _, _ => false

end

instance : BEq Term := ⟨same⟩

/-- A variable whose name begins with `_` is shown without its name. -/
def isHidden (name : String) : Bool := name.toList.head? == some '_'

def render (v : Vocabulary) : Term → String
  | var name => if isHidden name then "_" else "?" ++ name
  | const value => value.render v
  | list items => "[" ++ ", ".intercalate (items.map (render v)) ++ "]"
  | pattern items rest => "[" ++ ", ".intercalate (items.map (render v)) ++ " | " ++ rest.render v ++ "]"

def renderAll (v : Vocabulary) (terms : List Term) : String := ", ".intercalate (terms.map (render v))

end Term
end BilingualLogic
