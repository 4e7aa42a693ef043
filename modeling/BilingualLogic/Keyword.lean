/-!
The keywords of the language. Every keyword has spellings in two vocabularies; the table is the one place that lists
them, and no spelling stands in it twice, so that a spelling determines its keyword.
-/

namespace BilingualLogic

inductive Vocabulary where
  | latin
  | arabic
deriving DecidableEq, Repr

inductive Keyword where
  | fact | rule | query | implies | and | not | cut
  | findAll | bagOf | setOf | assert | retract
  | is | unify | member | append | length | true | false
deriving DecidableEq, Repr

structure Spelling where
  keyword : Keyword
  vocabulary : Vocabulary
  text : String
deriving DecidableEq, Repr

namespace Keyword

def all : List Keyword :=
  [fact, rule, query, implies, and, not, cut, findAll, bagOf, setOf, assert, retract, is, unify, member, append,
    length, .true, .false]

def name : Keyword → String
  | fact => "fact"
  | rule => "rule"
  | query => "query"
  | implies => "implies"
  | and => "and"
  | not => "not"
  | cut => "cut"
  | findAll => "findall"
  | bagOf => "bagof"
  | setOf => "setof"
  | assert => "assert"
  | retract => "retract"
  | is => "is"
  | unify => "unify"
  | member => "member"
  | append => "append"
  | length => "length"
  | .true => "true"
  | .false => "false"

/-- The spellings of a keyword in one vocabulary; the first one is preferred. -/
def spellings : Keyword → Vocabulary → List String
  | findAll, .latin => ["findall", "findAll"]
  | bagOf, .latin => ["bagof", "bagOf"]
  | setOf, .latin => ["setof", "setOf"]
  | k, .latin => [k.name]
  | fact, .arabic => ["حقيقة"]
  | rule, .arabic => ["قاعدة"]
  | query, .arabic => ["استعلام"]
  | implies, .arabic => ["يستلزم"]
  | and, .arabic => ["و"]
  | not, .arabic => ["ليس"]
  | cut, .arabic => ["قطع", "اقطع"]
  | findAll, .arabic => ["اجمع_كل", "اجمع"]
  | bagOf, .arabic => ["كيس_من", "كيس"]
  | setOf, .arabic => ["مجموعة_من", "مجموعة"]
  | assert, .arabic => ["أضف", "اضف"]
  | retract, .arabic => ["احذف"]
  | is, .arabic => ["هو"]
  | unify, .arabic => ["يوحد"]
  | member, .arabic => ["عضو", "عضو_في"]
  | append, .arabic => ["ألحق", "الحق"]
  | length, .arabic => ["طول"]
  | .true, .arabic => ["صحيح"]
  | .false, .arabic => ["خطأ", "خاطئ"]

/-- The spellings of both vocabularies, the Latin ones first. -/
def allSpellings (k : Keyword) : List String := k.spellings .latin ++ k.spellings .arabic

/-- Every spelling with its keyword and vocabulary. -/
def table : List Spelling :=
  all.flatMap fun k =>
    [Vocabulary.latin, .arabic].flatMap fun v => (k.spellings v).map fun text => ⟨k, v, text⟩

/-- The keyword that a text spells in either vocabulary. -/
def ofSpelling? (text : String) : Option Keyword := all.find? fun k => k.allSpellings.contains text

/-- The preferred spelling. -/
def spelling (k : Keyword) (v : Vocabulary) : String := ((k.spellings v).head?).getD k.name

/-- The keywords that name a predicate on lists, with its number of arguments. -/
def listArity? : Keyword → Option Nat
  | member => some 2
  | append => some 3
  | length => some 2
  | _ => none

/-- Whether the keyword names a predicate on lists, so that it is no reserved word. -/
def namesPredicate (k : Keyword) : Bool := k.listArity?.isSome

theorem mem_all (k : Keyword) : k ∈ all := by cases k <;> decide

end Keyword
end BilingualLogic
