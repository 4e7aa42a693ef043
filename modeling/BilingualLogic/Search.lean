import BilingualLogic.Evaluation
import BilingualLogic.Sequence
import BilingualLogic.Store

/-!
The search for answers, depth first and from left to right. The goals that are left form a list of frames; what has
not been tried yet is a stack of choices. Every frame knows how high the stack was when the call was entered whose body
the goal stands in: a cut brings the stack back to that height.
-/

namespace BilingualLogic

structure Frame where
  goal : Goal
  barrier : Nat

inductive Choice where
  /-- The clauses of a call after the one with the given number. -/
  | clauses (call : Predicate) (after : Nat) (rest : List Frame) (bindings : Substitution)
  /-- More answers of a predicate on lists. -/
  | answers (pending : List Substitution) (rest : List Frame)

/-- The choices with their number. -/
structure Choices where
  stack : List Choice
  height : Nat

namespace Choices

def empty : Choices := ⟨[], 0⟩

def push (c : Choice) (cs : Choices) : Choices := ⟨c :: cs.stack, cs.height + 1⟩

/-- Takes choices off the stack until it has the given height. -/
def cutTo (height : Nat) (cs : Choices) : Choices := ⟨cs.stack.drop (cs.height - height), min height cs.height⟩

end Choices

/-- What all searches share: the clauses, and how many copies of clauses and new lists have been made. -/
structure World where
  store : Store
  copies : Nat

/-- Goals left to prove and the bindings they are proved under. -/
structure Branch where
  goals : List Frame
  bindings : Substitution

/-- A search for the answers to some goals, between two answers or during one step. -/
structure Search where
  /-- The branch that is being tried; without one the search goes on from the newest choice. -/
  current : Option Branch
  choices : Choices
  /-- Steps taken so far, those of nested searches included. -/
  steps : Nat
  /-- The limit that ended the search. -/
  error : Option Error

namespace Search

def frames (barrier : Nat) (goals : List Goal) (rest : List Frame) : List Frame :=
  goals.map (⟨·, barrier⟩) ++ rest

/-- A search that begins after the given number of steps. -/
def start (goals : List Goal) (bindings : Substitution) (steps : Nat) : Search where
  current := some ⟨frames 0 goals [], bindings⟩
  choices := .empty
  steps := steps
  error := none

def succeed (s : Search) (rest : List Frame) (bindings : Substitution) : Search :=
  { s with current := some ⟨rest, bindings⟩ }

/-- Ends the search for good. -/
def failWith (s : Search) (e : Error) : Search := { s with current := none, choices := .empty, error := some e }

/-- Goes on with the first of several answers and keeps the others as a choice. -/
def offer (s : Search) (rest : List Frame) : List Substitution → Search
  | [] => s
  | [b] => s.succeed rest b
  | b :: more => { s with current := some ⟨rest, b⟩, choices := s.choices.push (.answers more rest) }

/-- A search and the world after a step, within the effort that was granted. -/
abbrev Step := Bounded (World × Search)

/-- Tries clauses until the head of one unifies with the call; a choice remains for those after it. Besides the branch
and the choices this gives the number of copies made. -/
def tryClauses (effort : Nat) (call : Predicate) (rest : List Frame) (bindings : Substitution) (choices : Choices) :
    Nat → List StoredClause → Bounded (Nat × Option (Branch × Choices))
  | copies, [] => some (copies, none)
  | copies, c :: cs =>
    let copy := c.clause.rename copies
    match copy.head.unify effort call bindings with
    | none => none
    | some (some unified) =>
      some (copies + 1, some (⟨frames choices.height copy.body rest, unified⟩,
        choices.push (.clauses call c.id rest bindings)))
    | some none => tryClauses effort call rest bindings choices (copies + 1) cs

/-- Goes back to the newest choice that leads anywhere. -/
def retry (effort : Nat) (store : Store) : Nat → Nat → List Choice → Bounded (Nat × Option (Branch × Choices))
  | copies, _, [] => some (copies, none)
  | copies, height, .answers [] _ :: cs => retry effort store copies (height - 1) cs
  | copies, height, .answers [b] rest :: cs => some (copies, some (⟨rest, b⟩, ⟨cs, height - 1⟩))
  | copies, height, .answers (b :: more) rest :: cs =>
    some (copies, some (⟨rest, b⟩, ⟨.answers more rest :: cs, height⟩))
  | copies, height, .clauses call after rest bindings :: cs =>
    match tryClauses effort call rest bindings ⟨cs, height - 1⟩ copies (store.clausesAfter call.key (some after)) with
    | none => none
    | some (copies, some found) => some (copies, some found)
    | some (copies, none) => retry effort store copies (height - 1) cs

def resolveGoals (b : Substitution) (goals : List Goal) : List Goal := Goal.mapTermsAll b.resolve goals

/-- Proves a call by the clauses of its predicate. -/
def callClauses (effort : Nat) (w : World) (s : Search) (call : Predicate) (rest : List Frame) (b : Substitution) :
    Step :=
  match tryClauses effort call rest b s.choices w.copies (w.store.clausesAfter call.key none) with
  | none => none
  | some (copies, none) => some ({ w with copies }, s)
  | some (copies, some (branch, choices)) => some ({ w with copies }, { s with current := some branch, choices })

def offerOrFail (s : Search) (rest : List Frame) : Except Error (List Substitution) → Search
  | .ok answers => s.offer rest answers
  | .error e => s.failWith e

def cut (s : Search) (barrier : Nat) (rest : List Frame) (b : Substitution) : Search :=
  { s with current := some ⟨rest, b⟩, choices := s.choices.cutTo barrier }

/-- Proves a call: keywords that name predicates have their own meaning at their own number of arguments. -/
def call (limits : Limits) (effort : Nat) (w : World) (s : Search) (p : Predicate) (barrier : Nat)
    (rest : List Frame) (b : Substitution) : Step :=
  match Keyword.ofSpelling? p.name, p.arguments with
  | some .cut, [] => some (w, s.cut barrier rest b)
  | some .true, [] => some (w, s.succeed rest b)
  | some .false, [] => some (w, s)
  | some .member, [x, xs] => (Sequence.member effort x xs b).map fun answers => (w, s.offer rest answers)
  | some .append, [front, back, whole] =>
    (Sequence.append limits effort front back whole b).map fun answers => (w, s.offerOrFail rest answers)
  | some .length, [xs, n] =>
    (Sequence.length limits effort w.copies xs n b).map fun answers =>
      ({ w with copies := w.copies + 1 }, s.offerOrFail rest answers)
  | some .unify, [x, y] =>
    (unify effort x y b).map fun
      | some b => (w, s.succeed rest b)
      | none => (w, s)
  | _, _ => callClauses effort w s p rest b

/-- Proves a goal that needs no search of its own. -/
def simpleStep (limits : Limits) (effort : Nat) (w : World) (s : Search) (f : Frame) (rest : List Frame)
    (b : Substitution) : Step :=
  match f.goal with
  | .call p => call limits effort w s p f.barrier rest b
  | .cut => some (w, s.cut f.barrier rest b)
  | .unify x y => (unify effort x y b).map fun
    | some b => (w, s.succeed rest b)
    | none => (w, s)
  | .is x e => (e.unifyValue effort x b).map fun
    | some b => (w, s.succeed rest b)
    | none => (w, s)
  | .compare op x y => some (w, if op.holds x y b then s.succeed rest b else s)
  | .assert head body =>
    let clause : Clause := ⟨head.mapTerms b.resolve, resolveGoals b body⟩
    some ({ w with store := w.store.add clause }, s.succeed rest b)
  | .retract head [] =>
    (w.store.retractHead effort (head.mapTerms b.resolve)).map fun (removed, store) =>
      ({ w with store }, if removed then s.succeed rest b else s)
  | .retract head body =>
    let (removed, store) := w.store.retractClause ⟨head.mapTerms b.resolve, resolveGoals b body⟩
    some ({ w with store }, if removed then s.succeed rest b else s)
  | .not _ => some (w, s)
  | .collect .. => some (w, s)

/-- The limit that a number of steps goes beyond. -/
def excess (limits : Limits) (steps : Nat) : Option Error :=
  match limits.maxInferences with
  | some max => if steps > max then some (.limit (.inferences max steps)) else none
  | none => none

mutual

/-- Runs the search up to the next answer, or to its end. The effort bounds the number of steps, one after the other
or nested. -/
def next (limits : Limits) : Nat → World → Search → Bounded (Option Substitution × World × Search)
  | 0, _, _ => none
  | n + 1, w, s =>
    if s.error.isSome then some (none, w, s)
    else
      match s.current with
      | none =>
        match retry n w.store w.copies s.choices.height s.choices.stack with
        | none => none
        | some (copies, none) => some (none, { w with copies }, { s with choices := .empty })
        | some (copies, some (branch, choices)) =>
          next limits n { w with copies } { s with current := some branch, choices }
      | some ⟨[], b⟩ => some (some b, w, { s with current := none })
      | some ⟨f :: rest, b⟩ =>
        let s := { s with current := none, steps := s.steps + 1 }
        match excess limits s.steps with
        | some e => some (none, w, s.failWith e)
        | none =>
          match f.goal with
          | .not goals =>
            match next limits n w (start goals b s.steps) with
            | none => none
            | some (answer, w, inner) =>
              let s := { s with steps := inner.steps }
              match inner.error, answer with
              | some e, _ => some (none, w, s.failWith e)
              | none, some _ => next limits n w s
              | none, none => next limits n w (s.succeed rest b)
          | .collect kind template goals result =>
            match gather limits n w (start goals b s.steps) template [] with
            | none => none
            | some (terms, w, inner) =>
              let s := { s with steps := inner.steps }
              match inner.error with
              | some e => some (none, w, s.failWith e)
              | none =>
                match unify n result (.list (kind.arrange terms)) b with
                | none => none
                | some none => next limits n w s
                | some (some b) => next limits n w (s.succeed rest b)
          | _ =>
            match simpleStep limits n w s f rest b with
            | none => none
            | some (w, s) => next limits n w s

/-- Runs the search to its end and resolves a term under every answer; `done` holds those so far, backwards. -/
def gather (limits : Limits) : Nat → World → Search → Term → List Term → Bounded (List Term × World × Search)
  | 0, _, _, _, _ => none
  | n + 1, w, s, template, done =>
    match next limits n w s with
    | none => none
    | some (none, w, s) => some (done.reverse, w, s)
    | some (some b, w, s) => gather limits n w s template (b.resolve template :: done)

end

end Search
end BilingualLogic
