/-!
What commands take, and the pages that tell of it. A short page has one line for every argument; a long one says more
about the command and puts what it says about an argument below it.
-/

namespace BilingualLogic.CommandLine

/-- An option of a command. -/
structure Parameter where
  name : String
  letter : Option Char
  /-- What the value is called, if there is one. -/
  value : Option String
  about : String
  default : Option String

/-- The argument of a command that is no option; it may be left out if there is a default. -/
structure Operand where
  name : String
  about : String
  default : Option String

structure Page where
  command : String
  about : String
  /-- What a long page has to add. -/
  details : Option String
  options : List Parameter
  operand : Option Operand

/-- A line of a page, or what stands for it on a long one. -/
structure Entry where
  label : String
  about : String
  default : Option String

/-- Breaks a line between words so that no part is longer than the width; `used` columns are taken. -/
def breakWords (width : Nat) : Nat → List String → String
  | _, [] => ""
  | 0, w :: ws => w ++ breakWords width w.length ws
  | used, w :: ws =>
    if used + 1 + w.length ≤ width then " " ++ w ++ breakWords width (used + 1 + w.length) ws
    else "\n" ++ w ++ breakWords width w.length ws

def breakLines (width : Nat) (text : String) : String :=
  "\n".intercalate ((text.splitOn "\n").map fun line => breakWords width 0 (line.splitOn " "))

def pageWidth : Nat := 100

def defaultText (value : String) : String := "[default: " ++ value ++ "]"

namespace Entry

def brief (width : Nat) (e : Entry) : String :=
  "  " ++ e.label ++ String.ofList (List.replicate (width - e.label.length) ' ') ++ "  " ++ e.about ++
    match e.default with
    | some value => " " ++ defaultText value
    | none => ""

def spread (e : Entry) : String :=
  let margin := "\n          "
  "  " ++ e.label ++ margin ++ e.about ++
    match e.default with
    | some value => margin ++ margin ++ defaultText value
    | none => ""

/-- Entries under a title, a line each. -/
def briefList (title : String) (entries : List Entry) : String :=
  let width := entries.foldl (fun w e => max w e.label.length) 0
  title ++ ":\n" ++ "\n".intercalate (entries.map (brief width))

def list (long : Bool) (title : String) (entries : List Entry) : String :=
  if long then title ++ ":\n" ++ "\n\n".intercalate (entries.map spread) else briefList title entries

end Entry

def Parameter.entry (p : Parameter) : Entry where
  label := (match p.letter with
    | some c => String.ofList ['-', c, ',', ' ']
    | none => "    ") ++ "--" ++ p.name ++ (match p.value with
    | some value => " <" ++ value ++ ">"
    | none => "")
  about := p.about
  default := p.default

def Operand.label (o : Operand) : String := if o.default.isSome then "[" ++ o.name ++ "]" else "<" ++ o.name ++ ">"

def Operand.entry (o : Operand) : Entry := ⟨o.label, o.about, o.default⟩

/-- The option that shows a page; `hasLong` says whether the short page and the long one differ. -/
def helpEntry (hasLong long : Bool) : Entry where
  label := "-h, --help"
  about := "Print help" ++
    if ! hasLong then "" else if long then " (see a summary with '-h')" else " (see more with '--help')"
  default := none

def versionEntry : Entry := ⟨"-V, --version", "Print version", none⟩

def joinBlocks (blocks : List String) : String := "\n\n".intercalate blocks ++ "\n"

namespace Page

def usage (p : Page) : String :=
  "Usage: bayan " ++ p.command ++ (if p.options.isEmpty then "" else " [OPTIONS]") ++
    match p.operand with
    | some o => " " ++ o.label
    | none => ""

def text (p : Page) (long : Bool) : String :=
  let long := long && p.details.isSome
  joinBlocks ([p.about]
    ++ (if long then p.details.toList.map (breakLines pageWidth) else [])
    ++ [p.usage]
    ++ p.operand.toList.map (fun o => Entry.list long "Arguments" [o.entry])
    ++ [Entry.list long "Options" (p.options.map Parameter.entry ++ [helpEntry p.details.isSome long])])

def helpAbout : String := "Print this message or the help of the given subcommand(s)"

/-- The page of the command that shows pages. -/
def helpText : String :=
  joinBlocks [helpAbout, "Usage: bayan help [COMMAND]...",
    Entry.briefList "Arguments" [⟨"[COMMAND]...", "Print help for the subcommand(s)", none⟩]]

/-- The page of the program, which lists the pages of its commands. -/
def overview (pages : List Page) (long : Bool) : String :=
  let about := if long then
      "Bayan is a logic programming language whose keywords can be written in Latin or Arabic script.\n" ++
      "The CLI runs .bayan programs, answers queries against them, and serves them over HTTP."
    else "Logic programming in Latin and Arabic script."
  let commands := pages.map (fun p => ⟨p.command, p.about, none⟩) ++
    [⟨"help", helpAbout, none⟩]
  joinBlocks [about, "Usage: bayan <COMMAND>", Entry.briefList "Commands" commands,
    Entry.list long "Options" [helpEntry true long, versionEntry]]

end Page
end BilingualLogic.CommandLine
