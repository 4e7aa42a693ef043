import BilingualLogic.Prompt
import BilingualLogic.Report

/-!
Dialogues at the prompt. A query is answered with one solution at a time, and after each the user says whether to look
for another one.
-/

namespace BilingualLogic.Prompt

structure Dialogue where
  session : Session
  /-- How many times statements have been added. -/
  added : Nat
  /-- The query of which another solution has been offered. -/
  asking : Option Query

/-- What is shown for a line, and the dialogue after it unless it is over. -/
structure Reply where
  output : String
  errors : String
  next : Option Dialogue

def greeting : String := "Bayan REPL. Type :help for commands.\n"

/-- What is said when no line can be read. -/
def endOfInput : String := "Failed to read query"

namespace Dialogue

def start (s : Session) : Dialogue := ⟨s, 0, none⟩

def say (d : Dialogue) (output : String) : Reply := ⟨output, "", some { d with asking := none }⟩

/-- Shows the next solution of a query, or that there is none. -/
def answer (effort : Nat) (d : Dialogue) (q : Query) : Bounded Reply :=
  (q.next d.session.limits effort d.session.world).map fun (found, world, q) =>
    let d := { d with session := { d.session with world } }
    match found, q.search.error with
    | some s, _ => ⟨s.text ++ "\n", "", some { d with asking := some q }⟩
    | none, some e => d.say ("stopped: " ++ e.message ++ "\n")
    | none, none => d.say "false\n"

def fail (d : Dialogue) (e : Error) : Reply := ⟨"", Report.error e ++ "\n", some d⟩

def add (effort : Nat) (d : Dialogue) (code : String) : Bounded Reply :=
  let d := { d with added := d.added + 1 }
  (d.session.load effort ("repl_" ++ toString d.added) code).map fun
    | .ok (session, r) => say { d with session } (Report.response r)
    | .error e => d.fail e

/-- Whether a line asks for another solution. -/
def agrees (line : String) : Bool :=
  ["y", "yes"].contains (String.ofList ((Text.trim line).toList.map Char.toLower))

def command (effort : Nat) (d : Dialogue) : Command → Bounded Reply
  | .empty => some (d.say "")
  | .quit => some ⟨"", "", none⟩
  | .help => some (d.say (help ++ "\n"))
  | .list => some (d.say (Report.summary d.session.sources.length d.session.store.summary))
  | .keywords => some (d.say Report.keywords)
  | .add code => d.add effort code
  | .query text =>
    match Goal.parseQuery text with
    | .ok goals => d.answer effort (Query.start goals)
    | .error e => some (d.fail e)

def reply (effort : Nat) (d : Dialogue) (line : String) : Bounded Reply :=
  match d.asking with
  | some q => if agrees line then d.answer effort q else some (d.say "")
  | none => d.command effort (.ofLine line)

end Dialogue
end BilingualLogic.Prompt
