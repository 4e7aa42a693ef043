import BilingualLogic.CommandLine

/-!
The program. A path may be that of a file, which is read; if it is that of a folder, the names of the files in it come
on standard input, a line each, up to an empty line or the end. The lines behind them are those of a prompt, or the
requests to a server, as method, path and body.
-/

namespace BilingualLogic.Console

/-- Steps that a search may take, more than there is time for. -/
def effort : Nat := twoPow 62

/-- A line without its end, unless there is none. -/
def readLine? : IO (Option String) := do
  let line ← (← IO.getStdin).getLine
  if line.isEmpty then return none
  return some (String.ofList (Text.dropEnd (fun c => c == '\n' || c == '\r') line.toList))

/-- File names up to an empty line; `done` holds those so far, backwards. -/
partial def readNames (done : List String) : IO (List String) := do
  match ← readLine? with
  | none | some "" => return done.reverse
  | some name => readNames (name :: done)

def readNamed (name : String) : IO (String × String) := do
  let text ← IO.FS.readFile name
  return (name, text)

def readFiles (path : String) : IO Workspace.Files := do
  match ← (readNamed path).toBaseIO with
  | .ok file => return [file]
  | .error (.noFileOrDirectory ..) => return []
  | .error _ => (← readNames []).mapM readNamed

def put (output errors : String) : IO Unit := do
  let out ← IO.getStdout
  out.putStr output
  out.flush
  IO.eprint errors

def finish (o : CommandLine.Outcome) : IO UInt32 := do
  put o.output o.errors
  return o.code.toUInt32

def tooHard : IO UInt32 := finish (CommandLine.fail "The search goes too deep")

partial def converse (d : Prompt.Dialogue) : IO UInt32 := do
  put (if d.asking.isSome then "More? " else "?- ") ""
  match ← readLine? with
  | none => finish (CommandLine.fail Prompt.endOfInput)
  | some line =>
    match d.reply effort line with
    | none => tooHard
    | some r =>
      put r.output r.errors
      match r.next with
      | some d => converse d
      | none => return 0

partial def serve (programs : Service.Programs) : IO UInt32 := do
  match ← readLine? with
  | none => return 0
  | some line =>
    let source := "inline_" ++ toString (← IO.monoMsNow)
    match Service.respond effort programs source (.ofLine line) with
    | none => tooHard
    | some (reply, programs) =>
      put (reply.line ++ "\n") ""
      serve programs

def perform (files : Workspace.Files) (c : CommandLine.Command) : IO UInt32 := do
  match CommandLine.perform effort files c with
  | none => tooHard
  | some o =>
    match c with
    | .prompt folder =>
      match CommandLine.load effort {} files folder with
      | some (.ok l) =>
        put Prompt.greeting ""
        converse (.start l.session)
      | _ => finish o
    | .serve folder _ _ =>
      match Workspace.sources files folder with
      | .ok sources =>
        let code ← finish o
        if code = 0 then serve sources else return code
      | .error _ => finish o
    | _ => finish o

end BilingualLogic.Console

open BilingualLogic in
def main (args : List String) : IO UInt32 := do
  match CommandLine.Command.ofArguments args with
  | .error ending => Console.finish ending.outcome
  | .ok c =>
    let files ← match c.path? with
      | some path => Console.readFiles path
      | none => pure []
    Console.perform files c
