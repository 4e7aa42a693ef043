import BilingualLogic.CommandLine.Page
import BilingualLogic.Decimal.Numeral

/-!
Arguments of a command: options, which have a long name and may have a letter, and positional arguments. The value of
an option is attached to it or follows it; behind `--` all arguments are positional.
-/

namespace BilingualLogic.CommandLine

/-- Why there is no command to carry out. -/
inductive Ending where
  /-- A text was asked for. -/
  | text (shown : String)
  | misuse
deriving DecidableEq

structure Arguments where
  options : List (String × String)
  positional : List String

/-- What one argument says. -/
inductive Token where
  | positional
  | endOfOptions
  | option (p : Parameter) (attached : Option String)
  | help (long : Bool)
  | unknown

namespace Page

def ofName (page : Page) (name : List Char) (attached : Option String) : Token :=
  match page.options.find? (·.name.toList == name) with
  | some p => .option p attached
  | none => if name == "help".toList && attached.isNone then .help true else .unknown

/-- The value behind a letter may follow an equals sign. -/
def ofLetter (page : Page) (letter : Char) (more : List Char) : Token :=
  match page.options.find? (·.letter == some letter) with
  | some p => .option p (match more with
    | [] => none
    | '=' :: value => some (String.ofList value)
    | value => some (String.ofList value))
  | none => if letter = 'h' then .help false else .unknown

def token (page : Page) (arg : String) : Token :=
  match arg.toList with
  | ['-', '-'] => .endOfOptions
  | '-' :: '-' :: text =>
    match text.dropWhile (· != '=') with
    | _ :: value => page.ofName (text.takeWhile (· != '=')) (some (String.ofList value))
    | [] => page.ofName text none
  | '-' :: letter :: more => page.ofLetter letter more
  | _ => .positional

end Page

namespace Arguments

def value? (a : Arguments) (name : String) : Option String := a.options.lookup name

def isGiven (a : Arguments) (name : String) : Bool := (a.value? name).isSome

/-- Adds an option, which may stand only once. -/
def addOption (a : Arguments) (p : Parameter) (value : String) : Except Ending Arguments :=
  if a.isGiven p.name then .error .misuse else .ok { a with options := (p.name, value) :: a.options }

def addPositional (page : Page) (a : Arguments) (values : List String) : Except Ending Arguments :=
  if a.positional.length + values.length ≤ page.operand.toList.length then
    .ok { a with positional := a.positional ++ values }
  else .error .misuse

/-- Reads arguments in order; `a` holds those so far. -/
def scan (page : Page) : Arguments → List String → Except Ending Arguments
  | a, [] => .ok a
  | a, arg :: rest =>
    match page.token arg with
    | .endOfOptions => a.addPositional page rest
    | .positional => (a.addPositional page [arg]).bind fun a => scan page a rest
    | .option p (some value) =>
      if p.value.isSome then (a.addOption p value).bind fun a => scan page a rest else .error .misuse
    | .option p none =>
      if p.value.isSome then
        match rest with
        | value :: rest =>
          match page.token value with
          | .positional => (a.addOption p value).bind fun a => scan page a rest
          | _ => .error .misuse
        | [] => .error .misuse
      else (a.addOption p "").bind fun a => scan page a rest
    | .help long => .error (.text (page.text long))
    | .unknown => .error .misuse

def read (page : Page) (args : List String) : Except Ending Arguments := scan page ⟨[], []⟩ args

/-- A natural number below a bound, which may have a sign. -/
def numeral? (bound : Nat) (text : String) : Option Nat :=
  let digits := match text.toList with
    | '+' :: digits => digits
    | digits => digits
  if digits.isEmpty then none
  else
    let value := digits.foldl (fun n c => match n, Decimal.digit? c with
      | some n, some d => some (n * 10 + d)
      | _, _ => none) (some 0)
    value.filter (· < bound)

def number (a : Arguments) (name : String) (bound : Nat) : Except Ending (Option Nat) :=
  match a.value? name with
  | none => .ok none
  | some text =>
    match numeral? bound text with
    | some n => .ok (some n)
    | none => .error .misuse

/-- A path, which has at least one character. -/
def path (given : Option String) : Except Ending String :=
  match given with
  | none => .ok "."
  | some "" => .error .misuse
  | some text => .ok text

end Arguments
end BilingualLogic.CommandLine
