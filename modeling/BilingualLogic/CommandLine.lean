import BilingualLogic.CommandLine.Address
import BilingualLogic.CommandLine.Arguments
import BilingualLogic.Prompt.Dialogue
import BilingualLogic.Service
import BilingualLogic.Workspace

/-!
The command line: what the arguments ask for, and what carrying it out over the files of a workspace puts out. The
outcome has exit code 1 if the sources cannot be loaded or the query cannot be answered, and 2 if the arguments do not
make a command.
-/

namespace BilingualLogic.CommandLine

inductive Command where
  | run (path : String) (json : Bool) (maxInferences : Option Nat)
  | query (goals folder : String) (limit : Option Nat) (json : Bool) (maxInferences : Option Nat)
  | list (folder : String)
  | clauses (name folder : String) (vocabulary : Vocabulary)
  | keywords
  | prompt (folder : String)
  | serve (folder host : String) (port : Nat)

namespace Command

/-- Numbers that are asked for have at most 64 bits. -/
def maxNumber : Nat := twoPow 64

def maxPort : Nat := twoPow 16

def folderOption : Parameter := ⟨"dir", some 'd', some "WORKDIR", "Directory containing .bayan files", some "."⟩

def jsonSwitch (about : String) : Parameter := ⟨"json", none, none, about, none⟩

def inferencesOption (about : String) : Parameter := ⟨"max-inferences", none, some "MAX_INFERENCES", about, none⟩

def runPage : Page where
  command := "run"
  about := "Run programs and print the answers to their queries"
  details := some <|
    "Loads a .bayan file, or every .bayan file under a directory in path order, and executes its statements: facts " ++
    "and rules are stored, queries are answered and top-level assert/retract are applied."
  options := [jsonSwitch "Print the responses as JSON",
    inferencesOption "Stop any single query after this many resolution steps"]
  operand := some ⟨"PATH", "A .bayan file or a directory containing .bayan files", some "."⟩

def readRun (args : List String) : Except Ending Command := do
  let a ← Arguments.read runPage args
  .ok (.run (← Arguments.path a.positional.head?) (a.isGiven "json") (← a.number "max-inferences" maxNumber))

def queryPage : Page where
  command := "query"
  about := "Answer a query against the loaded programs"
  details := some <|
    "Examples: bayan query 'grandparent(\"Ahmed\", ?Who)' bayan query 'جد(\"أحمد\"، ?حفيد)' --limit 1"
  options := [folderOption, ⟨"limit", some 'n', some "LIMIT", "Stop after this many solutions", none⟩,
    jsonSwitch "Print the solutions as JSON", inferencesOption "Stop the query after this many resolution steps"]
  operand := some ⟨"GOALS", "Goals to prove, with or without a leading `query` keyword", none⟩

def readQuery (args : List String) : Except Ending Command := do
  let a ← Arguments.read queryPage args
  let folder ← Arguments.path (a.value? "dir")
  let limit ← a.number "limit" maxNumber
  let maxInferences ← a.number "max-inferences" maxNumber
  match a.positional with
  | goals :: _ => .ok (.query goals folder limit (a.isGiven "json") maxInferences)
  | [] => .error .misuse

def listPage : Page :=
  ⟨"list", "List every predicate with its fact and rule counts", none, [folderOption], none⟩

def readList (args : List String) : Except Ending Command := do
  let a ← Arguments.read listPage args
  .ok (.list (← Arguments.path (a.value? "dir")))

def clausesPage : Page where
  command := "show"
  about := "Show the clauses of a predicate"
  details := none
  options := [folderOption, ⟨"arabic", none, none, "Render keywords in Arabic script", none⟩]
  operand := some ⟨"NAME", "Predicate name (every arity is shown)", none⟩

def readClauses (args : List String) : Except Ending Command := do
  let a ← Arguments.read clausesPage args
  let folder ← Arguments.path (a.value? "dir")
  match a.positional with
  | name :: _ => .ok (.clauses name folder (if a.isGiven "arabic" then .arabic else .latin))
  | [] => .error .misuse

def keywordsPage : Page := ⟨"keywords", "Print the keyword table with every accepted spelling", none, [], none⟩

def readKeywords (args : List String) : Except Ending Command := do
  let _ ← Arguments.read keywordsPage args
  .ok .keywords

def promptPage : Page where
  command := "repl"
  about := "Start an interactive query loop"
  details := some <|
    "Solutions are produced one at a time; after each one you choose whether to backtrack for the next."
  options := [folderOption]
  operand := none

def readPrompt (args : List String) : Except Ending Command := do
  let a ← Arguments.read promptPage args
  .ok (.prompt (← Arguments.path (a.value? "dir")))

def servePage : Page where
  command := "server"
  about := "Start HTTP REST API server (default: localhost:3000)"
  details := some <|
    "Serves the programs in the workspace. Every request is answered by a fresh engine built from the stored " ++
    "programs, with sandboxed limits. API: POST /query with \x7bcode?, query, limit?\x7d, POST /run with " ++
    "\x7bcode\x7d, POST /facts with \x7bcode\x7d"
  options := [folderOption, ⟨"host", none, some "HOST", "Host address to bind to", some "127.0.0.1"⟩,
    ⟨"port", some 'p', some "PORT", "Port number to listen on", some "3000"⟩]
  operand := none

def readServe (args : List String) : Except Ending Command := do
  let a ← Arguments.read servePage args
  let folder ← Arguments.path (a.value? "dir")
  let port ← a.number "port" maxPort
  .ok (.serve folder ((a.value? "host").getD "127.0.0.1") (port.getD 3000))

/-- The commands by their pages, and how their arguments are read. -/
def readers : List (Page × (List String → Except Ending Command)) :=
  [(runPage, readRun), (queryPage, readQuery), (listPage, readList), (clausesPage, readClauses),
    (keywordsPage, readKeywords), (promptPage, readPrompt), (servePage, readServe)]

def pages : List Page := readers.map (·.1)

def overview (long : Bool) : Ending := .text (Page.overview pages long)

/-- Where the sources are that a command loads. -/
def path? : Command → Option String
  | run path .. => some path
  | query _ folder .. => some folder
  | list folder => some folder
  | clauses _ folder _ => some folder
  | keywords => none
  | prompt folder => some folder
  | serve folder .. => some folder

/-- The command that arguments ask for. -/
def ofArguments : List String → Except Ending Command
  | [] => .error .misuse
  | "-h" :: _ => .error (overview false)
  | "--help" :: _ | ["help"] => .error (overview true)
  | "-V" :: _ | "--version" :: _ => .error (.text ("bayan " ++ Service.version ++ "\n"))
  | ["help", "help"] => .error (.text Page.helpText)
  | ["help", name] =>
    match pages.find? (·.command == name) with
    | some page => .error (.text (page.text true))
    | none => .error .misuse
  | name :: args =>
    match readers.find? (·.1.command == name) with
    | some (_, read) => read args
    | none => .error .misuse

end Command

structure Outcome where
  code : Nat
  output : String
  errors : String

def succeed (output : String) : Outcome := ⟨0, output, ""⟩

def fail (message : String) : Outcome := ⟨1, "", "Error: " ++ message ++ "\n"⟩

def failWith (e : Error) : Outcome := ⟨1, "", Report.error e ++ "\n"⟩

def Ending.outcome : Ending → Outcome
  | text shown => succeed shown
  | misuse => ⟨2, "", Page.overview Command.pages false⟩

def limitsWith (maxInferences : Option Nat) : Limits := { maxInferences }

/-- A session that has loaded the sources at a path, with its responses. -/
structure Loaded where
  sources : List (String × String)
  session : Session
  responses : List Response

def load (effort : Nat) (limits : Limits) (files : Workspace.Files) (path : String) :
    Bounded (Except Outcome Loaded) :=
  match Workspace.sources files path with
  | .error fault => some (.error (fail fault.message))
  | .ok sources =>
    (Session.loadAll effort [] (.start limits) sources).map fun
      | .error e => .error (failWith e)
      | .ok (session, responses) => .ok ⟨sources, session, responses⟩

def responsesText (json : Bool) (responses : List Response) : String :=
  if json then (Json.array (responses.map Report.responseJson)).pretty ++ "\n"
  else String.join (responses.map Report.response)

def solutionsText (json : Bool) (vars : List String) (found : List Solution) : String :=
  if json then (Json.array (found.map Solution.toSortedJson)).pretty ++ "\n" else Report.solutions vars found

def answerQuery (effort : Nat) (s : Session) (text : String) (limit : Option Nat) (json : Bool) : Bounded Outcome :=
  match Goal.parseQuery text with
  | .error e => some (failWith e)
  | .ok goals =>
    let q := Query.start goals
    let drawn := match limit with
      | some n => q.take s.limits effort [] n s.world
      | none => q.all s.limits effort s.world
    drawn.map fun (found, _, q) =>
      match q.search.error with
      | some e => failWith e
      | none => succeed (solutionsText json q.vars found)

def showClauses (s : Session) (name : String) (v : Vocabulary) : Outcome :=
  match s.store.clausesNamed name with
  | [] => fail ("Predicate '" ++ name ++ "' not found")
  | found => succeed (Report.clauses name found v)

/-- Carries out a command. A prompt and a server are carried out up to their first input, which does not come. -/
def perform (effort : Nat) (files : Workspace.Files) : Command → Bounded Outcome
  | .run path json maxInferences =>
    (load effort (limitsWith maxInferences) files path).map fun
      | .error o => o
      | .ok l =>
        if l.sources.isEmpty then fail ("No .bayan files found in " ++ path)
        else succeed (responsesText json l.responses)
  | .query goals folder limit json maxInferences =>
    match load effort (limitsWith maxInferences) files folder with
    | none => none
    | some (.error o) => some o
    | some (.ok l) => answerQuery effort l.session goals limit json
  | .list folder =>
    (load effort {} files folder).map fun
      | .error o => o
      | .ok l => succeed (Report.summary l.sources.length l.session.store.summary)
  | .clauses name folder v =>
    (load effort {} files folder).map fun
      | .error o => o
      | .ok l => showClauses l.session name v
  | .keywords => some (succeed Report.keywords)
  | .prompt folder =>
    (load effort {} files folder).map fun
      | .error o => o
      | .ok _ => { fail Prompt.endOfInput with output := Prompt.greeting }
  | .serve folder host _ =>
    (load effort .untrusted files folder).map fun
      | .error o => o
      | .ok l =>
        let o := if Address.isHost host then succeed "" else fail "invalid socket address syntax"
        { o with output := "Starting HTTP server with " ++ toString l.sources.length ++ " file(s), "
            ++ toString l.session.store.size ++ " clause(s) loaded\n" }

/-- What a list of arguments puts out over the files of a workspace. -/
def execute (effort : Nat) (files : Workspace.Files) (args : List String) : Bounded Outcome :=
  match Command.ofArguments args with
  | .ok c => perform effort files c
  | .error ending => some ending.outcome

end BilingualLogic.CommandLine
