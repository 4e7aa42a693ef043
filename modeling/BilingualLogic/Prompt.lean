import BilingualLogic.Text.Blank

/-!
The lines that a user types at the prompt: commands that begin with a colon, and queries.
-/

namespace BilingualLogic.Prompt

inductive Command where
  | quit
  | help
  | list
  | keywords
  /-- Statements to load. -/
  | add (code : String)
  | query (text : String)
  | empty

/-- The text behind `start`, if the text begins with it. -/
def afterPrefix? (start text : List Char) : Option (List Char) :=
  if start.isPrefixOf text then some (text.drop start.length) else none

/-- Semicolons at the end of a query are left aside. -/
def Command.ofLine (line : String) : Command :=
  match Text.trim line with
  | "" => .empty
  | ":q" | ":quit" | ":exit" => .quit
  | ":h" | ":help" => .help
  | ":list" => .list
  | ":keywords" => .keywords
  | text =>
    match afterPrefix? ":add".toList text.toList with
    | some code => .add (Text.trim (String.ofList code))
    | none => .query (String.ofList (Text.dropEnd Text.isBlank (Text.dropEnd (· == ';') text.toList)))

def help : String :=
  "Enter goals to prove, e.g. parent(?X, \"Ali\")\n" ++
  "  :add <statements>  load facts or rules, e.g. :add fact parent(\"Ali\", \"Zain\");\n" ++
  "  :list              list predicates\n" ++
  "  :keywords          show the keyword table\n" ++
  "  :quit              leave"

end BilingualLogic.Prompt
