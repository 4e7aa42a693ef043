import BilingualLogic.Text.Position

/-!
Parsing expressions with values. Choice is ordered, repetition takes as much as it can, and no finished choice is
reopened. Where an expression is spaced, blanks are passed over between the parts of a sequence and between
repetitions. The rules that failed farthest into the text are noted, for the error message.
-/

namespace BilingualLogic

open Text

/-- Expressions over rules that yield values; `Result r` is the type of what the rule `r` yields. -/
inductive Peg (Rule : Type) (Result : Rule → Type) : Type → Type 1 where
  | pure {α : Type} (value : α) : Peg Rule Result α
  /-- One character of a class. -/
  | char (accepts : Char → Bool) : Peg Rule Result Char
  /-- The first of the texts that stands here. -/
  | oneOf (texts : List String) : Peg Rule Result String
  /-- The end of the text. -/
  | finish : Peg Rule Result Unit
  | rule (r : Rule) : Peg Rule Result (Result r)
  | map {α β : Type} (f : α → β) (e : Peg Rule Result α) : Peg Rule Result β
  | seq {α β : Type} (first : Peg Rule Result α) (second : Peg Rule Result β) : Peg Rule Result (α × β)
  | choice {α : Type} (first second : Peg Rule Result α) : Peg Rule Result α
  | many {α : Type} (e : Peg Rule Result α) : Peg Rule Result (List α)
  | option {α : Type} (e : Peg Rule Result α) : Peg Rule Result (Option α)
  /-- Takes nothing, where the expression fails. -/
  | unless {α : Type} (e : Peg Rule Result α) : Peg Rule Result Unit
  /-- Hands over the stretch of text that the expression takes. -/
  | placed {α : Type} (e : Peg Rule Result (Span → α)) : Peg Rule Result α

namespace Peg

variable {Rule : Type} {Result : Rule → Type}

instance : Functor (Peg Rule Result) := ⟨map, fun a e => map (fun _ => a) e⟩

instance : Seq (Peg Rule Result) := ⟨fun f e => map (fun (f, a) => f a) (seq f (e ()))⟩

instance : SeqLeft (Peg Rule Result) := ⟨fun a b => map Prod.fst (seq a (b ()))⟩

instance : SeqRight (Peg Rule Result) := ⟨fun a b => map Prod.snd (seq a (b ()))⟩

instance {α : Type} : OrElse (Peg Rule Result α) := ⟨fun a b => choice a (b ())⟩

def token (text : String) : Peg Rule Result String := oneOf [text]

/-- At least one. -/
def many1 {α : Type} (e : Peg Rule Result α) : Peg Rule Result (List α) := List.cons <$> e <*> many e

/-- Items with separators between them. -/
def separated {α β : Type} (e : Peg Rule Result α) (separator : Peg Rule Result β) : Peg Rule Result (List α) :=
  List.cons <$> e <*> many (separator *> e)

end Peg

/-- How the inside of a rule is read: spaced or not, and with its failures noted or not. -/
structure Mode where
  spaced : Bool
  noted : Bool

inductive RuleKind where
  /-- Read as the place that calls it. -/
  | plain
  /-- Not spaced, and nothing is noted inside. -/
  | atomic
  /-- Not spaced. -/
  | compound
deriving DecidableEq

/-- The rules that failed farthest into the text, in the order in which they were tried. -/
structure Attempts (Rule : Type) where
  best : Position
  tried : Array Rule

namespace Attempts

variable {Rule : Type}

def start : Attempts Rule := ⟨.start, #[]⟩

/-- How many rules are noted as failing at the place. -/
def countAt (a : Attempts Rule) (p : Position) : Nat :=
  if a.best.offset = p.offset then a.tried.size else 0

/-- Notes a rule that failed at `p`, where `before` rules were noted when it began: a single one noted since says more
than the rule itself, several are replaced by it. -/
def note (r : Rule) (p : Position) (before : Nat) (a : Attempts Rule) : Attempts Rule :=
  if a.countAt p - before = 1 then a
  else if p.offset = a.best.offset then ⟨a.best, (a.tried.take before).push r⟩
  else if p.offset > a.best.offset then ⟨p, #[r]⟩
  else a

end Attempts

structure Grammar where
  Rule : Type
  Result : Rule → Type
  kind : Rule → RuleKind
  body (r : Rule) : Peg Rule Result (Result r)
  /-- Passes over blanks. -/
  skip : Cursor → Cursor

namespace Grammar

/-- What reading gives: the value and what is left, or nothing; and the failures noted so far. -/
abbrev Reply (Rule α : Type) := Option (α × Cursor) × Attempts Rule

/-- Reads the text at its front. -/
def readText : List Char → Cursor → Option Cursor
  | [], c => some c
  | x :: xs, ⟨y :: rest, p⟩ => if x = y then readText xs ⟨rest, p.after y⟩ else none
  | _ :: _, ⟨[], _⟩ => none

def readOneOf : List String → Cursor → Option (String × Cursor)
  | [], _ => none
  | t :: ts, c =>
    match readText t.toList c with
    | some c => some (t, c)
    | none => readOneOf ts c

/-- Repeats a reader until it fails; the fuel bounds the repetitions, of which each takes some text. -/
def repeatRead {Rule α : Type} (read : Cursor → Attempts Rule → Reply Rule α) (skip : Cursor → Cursor) :
    Nat → List α → Cursor → Attempts Rule → Reply Rule (List α)
  | 0, done, c, a => (some (done.reverse, c), a)
  | fuel + 1, done, c, a =>
    match read (if done.isEmpty then c else skip c) a with
    | (some (x, c), a) => repeatRead read skip fuel (x :: done) c a
    | (none, a) => (some (done.reverse, c), a)

/-- Reads an expression, given how to read the rules; the fuel bounds repetitions. -/
def readExpr (G : Grammar) (fuel : Nat)
    (rules : (r : G.Rule) → Mode → Cursor → Attempts G.Rule → Reply G.Rule (G.Result r))
    (mode : Mode) : {α : Type} → Peg G.Rule G.Result α → Cursor → Attempts G.Rule → Reply G.Rule α
  | _, .pure x, c, a => (some (x, c), a)
  | _, .char accepts, c, a =>
    match c with
    | ⟨x :: rest, p⟩ => (if accepts x then some (x, ⟨rest, p.after x⟩) else none, a)
    | ⟨[], _⟩ => (none, a)
  | _, .oneOf texts, c, a => (readOneOf texts c, a)
  | _, .finish, c, a => (if c.rest.isEmpty then some ((), c) else none, a)
  | _, .rule r, c, a => rules r mode c a
  | _, .map f e, c, a =>
    match readExpr G fuel rules mode e c a with
    | (some (x, c), a) => (some (f x, c), a)
    | (none, a) => (none, a)
  | _, .seq e₁ e₂, c, a =>
    match readExpr G fuel rules mode e₁ c a with
    | (none, a) => (none, a)
    | (some (x, c), a) =>
      match readExpr G fuel rules mode e₂ (if mode.spaced then G.skip c else c) a with
      | (some (y, c), a) => (some ((x, y), c), a)
      | (none, a) => (none, a)
  | _, .choice e₁ e₂, c, a =>
    match readExpr G fuel rules mode e₁ c a with
    | (some x, a) => (some x, a)
    | (none, a) => readExpr G fuel rules mode e₂ c a
  | _, .many e, c, a =>
    repeatRead (readExpr G fuel rules mode e) (if mode.spaced then G.skip else id) fuel [] c a
  | _, .option e, c, a =>
    match readExpr G fuel rules mode e c a with
    | (some (x, c), a) => (some (some x, c), a)
    | (none, a) => (some (none, c), a)
  | _, .unless e, c, a =>
    match readExpr G fuel rules mode e c a with
    | (some _, a) => (none, a)
    | (none, a) => (some ((), c), a)
  | _, .placed e, c, a =>
    match readExpr G fuel rules mode e c a with
    | (some (f, d), a) => (some (f ⟨c.position, d.position.offset⟩, d), a)
    | (none, a) => (none, a)

/-- Reads a rule; the fuel bounds the nesting of rules. -/
def readRule (G : Grammar) (repetitions : Nat) :
    Nat → (r : G.Rule) → Mode → Cursor → Attempts G.Rule → Reply G.Rule (G.Result r)
  | 0, _, _, _, a => (none, a)
  | fuel + 1, r, mode, c, a =>
    let inside : Mode := match G.kind r with
      | .plain => mode
      | .atomic => ⟨false, false⟩
      | .compound => ⟨false, true⟩
    let noted := mode.noted || G.kind r == .compound
    let before := a.countAt c.position
    match readExpr G repetitions (readRule G repetitions fuel) inside (G.body r) c a with
    | (some x, a) => (some x, a)
    | (none, a) => (none, if noted then a.note r c.position before else a)

/-- Reads a text by a rule: the value, or the failures that were noted. Rules nest at most `depth` deep without taking
a character. -/
def parse (G : Grammar) (depth : Nat) (r : G.Rule) (text : String) : Except (Attempts G.Rule) (G.Result r) :=
  let c := Cursor.ofString text
  let n := c.rest.length + 1
  match readRule G n (n * depth) r ⟨true, true⟩ c .start with
  | (some (x, _), _) => .ok x
  | (none, a) => .error a

end Grammar
end BilingualLogic
