import BilingualLogic.Report
import BilingualLogic.Service.Payload

/-!
The service that answers requests from stored programs. Every request is answered by a new session, under the limits
for untrusted input, that loads the stored programs in order; only accepted facts are stored.
-/

namespace BilingualLogic.Service

/-- Programs by their source names, in the order in which they are loaded. -/
abbrev Programs := List (String × String)

structure Request where
  method : String
  path : String
  body : String
  /-- Whether the body is said to be JSON. -/
  typed : Bool

structure Reply where
  status : Nat
  body : Option Json

/-- A request written as method, path and body with blanks in between; the body is taken to be JSON. -/
def Request.ofLine (line : String) : Request :=
  match (Text.trim line).splitOn " " with
  | method :: path :: body => ⟨method, path, " ".intercalate body, true⟩
  | [path] => ⟨"GET", path, "", true⟩
  | [] => ⟨"GET", "/", "", true⟩

/-- A reply written as status and body. -/
def Reply.line (r : Reply) : String :=
  toString r.status ++ match r.body with
    | some body => " " ++ body.compact
    | none => ""

def version : String := "0.3.0"

def defaultLimit : Nat := 100

/-- The largest number of solutions that can be asked for. -/
def maxCount : Nat := twoPow 64 - 1

def ok (body : Json) : Reply := ⟨200, some body⟩

def refuse (context reason : String) : Reply := ⟨400, some (.object [("error", .string (context ++ ": " ++ reason))])⟩

/-- A session that has loaded the programs, with their responses. -/
def build (effort : Nat) (programs : Programs) : Bounded (Except Error (Session × List Response)) :=
  Session.loadAll effort [] (.start .untrusted) programs

def health : Reply :=
  ok (.object [("status", .string "ok"), ("service", .string "bayan"), ("version", .string version)])

def predicates (effort : Nat) (programs : Programs) : Bounded Reply :=
  (build effort programs).map fun
    | .ok (s, _) => ok (.array (s.store.summary.map Report.summaryJson))
    | .error e => refuse "Failed to load programs" e.message

/-- Answers a query; one solution more than asked for tells whether there are more. -/
def query (effort : Nat) (programs : Programs) (code : Option String) (text : String) (limit : Nat) : Bounded Reply :=
  match build effort (programs ++ code.toList.map ("request", ·)) with
  | none => none
  | some (.error e) => some (refuse "Failed to load code" e.message)
  | some (.ok (s, _)) =>
    match Goal.parseQuery text with
    | .error e => some (refuse "Failed to parse query" e.message)
    | .ok goals =>
      let q := Query.start goals
      (q.take s.limits effort [] (min (limit + 1) maxCount) s.world).map fun (found, _, rest) =>
        ok (.object ([("variables", Report.strings q.vars),
          ("solutions", .array ((found.take limit).map Solution.toJson)),
          ("truncated", .bool (decide (found.length > limit)))]
          ++ Report.optional "error" (rest.search.error.map fun e => .string e.message)))

def run (effort : Nat) (programs : Programs) (code : String) : Bounded Reply :=
  (build effort (programs ++ [("request", code)])).map fun
    | .ok (_, responses) =>
      match responses.getLast? with
      | some r => ok (Report.responseJson r)
      | none => ⟨500, none⟩
    | .error e => refuse "Failed to run code" e.message

/-- Stores code under a source name, if the programs still load with it. -/
def store (effort : Nat) (programs : Programs) (source code : String) : Bounded (Reply × Programs) :=
  (build effort (programs ++ [(source, code)])).map fun
    | .ok (s, responses) =>
      let warnings := (responses.getLast?.map (·.warnings)).getD []
      (ok (.object [("source_id", .string source), ("clauses", .integer s.store.size),
        ("warnings", Report.strings (warnings.map Warning.text))]), programs ++ [(source, code)])
    | .error e => (refuse "Failed to add code" e.message, programs)

def isBlankText (s : String) : Bool := s.toList.all Text.isBlank

def queryFields : Payload.Fields := [("code", .optionalText), ("query", .text), ("limit", .optionalSize)]

def codeFields : Payload.Fields := [("code", .text)]

/-- Hands over the payload of a request, or says why it is refused. -/
def withPayload (fields : Payload.Fields) (r : Request) (programs : Programs)
    (answer : Payload.Values → Bounded (Reply × Programs)) : Bounded (Reply × Programs) :=
  if ! r.typed then some (⟨415, none⟩, programs)
  else
    match Payload.read fields r.body with
    | .error .malformed => some (⟨400, none⟩, programs)
    | .error .mistyped => some (⟨422, none⟩, programs)
    | .ok values => answer values

def withCode (r : Request) (programs : Programs) (answer : String → Bounded (Reply × Programs)) :
    Bounded (Reply × Programs) :=
  withPayload codeFields r programs fun values =>
    let code := (Payload.text values "code").getD ""
    if isBlankText code then some (refuse "Invalid request" "Code cannot be empty", programs) else answer code

/-- Answers a request for something that is only looked at. -/
def look (r : Request) (programs : Programs) (answer : Unit → Bounded Reply) : Bounded (Reply × Programs) :=
  if r.method = "GET" then (answer ()).map (·, programs)
  else if r.method = "HEAD" then (answer ()).map fun a => (⟨a.status, none⟩, programs)
  else some (⟨405, none⟩, programs)

def post (r : Request) (programs : Programs) (answer : Unit → Bounded (Reply × Programs)) :
    Bounded (Reply × Programs) :=
  if r.method = "POST" then answer () else some (⟨405, none⟩, programs)

/-- The reply to a request, and the programs that are stored afterwards. `source` names new code. -/
def respond (effort : Nat) (programs : Programs) (source : String) (r : Request) : Bounded (Reply × Programs) :=
  if r.method = "OPTIONS" then some (⟨200, none⟩, programs)
  else
    match String.ofList (r.path.toList.takeWhile (· != '?')) with
    | "/health" => look r programs fun _ => some health
    | "/predicates" => look r programs fun _ => predicates effort programs
    | "/query" => post r programs fun _ => withPayload queryFields r programs fun values =>
      let text := (Payload.text values "query").getD ""
      if isBlankText text then some (refuse "Invalid request" "Query cannot be empty", programs)
      else
        (query effort programs (Payload.text values "code") text ((Payload.size values "limit").getD defaultLimit)).map
          (·, programs)
    | "/run" => post r programs fun _ => withCode r programs fun code => (run effort programs code).map (·, programs)
    | "/facts" => post r programs fun _ => withCode r programs fun code => store effort programs source code
    | _ => some (⟨404, none⟩, programs)

end BilingualLogic.Service
