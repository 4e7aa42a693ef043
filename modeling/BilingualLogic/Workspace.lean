/-!
Workspaces: files by their names. The sources at a path are the file there, or the files in the folder there and below
it, as far as their extension is that of programs. In a folder they go by the names of its entries.
-/

namespace BilingualLogic.Workspace

/-- File names, relative to one folder, with the texts of the files. -/
abbrev Files := List (String × String)

inductive Fault where
  | missing (path : String)
  | notFolder (path : String)

def Fault.message : Fault → String
  | missing path => "IO error for operation on " ++ path ++ ": No such file or directory (os error 2)"
  | notFolder path => "IO error for operation on " ++ path ++ ": Not a directory (os error 20)"

/-- Goes from a folder to an entry, which may be the folder itself or the one above. -/
def enter (folder : List String) (entry : String) : List String :=
  if entry = "" ∨ entry = "." then folder
  else if entry = ".." ∧ folder ≠ [] ∧ folder.getLast? ≠ some ".." then folder.dropLast
  else folder ++ [entry]

/-- The names on the way to a place, from the outermost folder on. -/
def components (path : String) : List String :=
  (path.splitOn "/").foldl enter (if path.startsWith "/" then ["/"] else [])

/-- The way from a folder to a place in it. -/
def relative? (folder place : List String) : Option (List String) :=
  if folder.isPrefixOf place then some (place.drop folder.length) else none

/-- A name with the extension of programs and something in front of it. -/
def isSourceName (name : String) : Bool :=
  let suffix := ".bayan".toList
  suffix.isSuffixOf name.toList && decide (suffix.length < name.length)

def isSource (place : List String) : Bool := place.getLast?.any isSourceName

/-- Whether a place comes before another, entry by entry. -/
def precedes : List String → List String → Bool
  | [], _ => true
  | _ :: _, [] => false
  | a :: as, b :: bs => if a = b then precedes as bs else decide (a < b)

def join (path : String) (rest : List String) : String :=
  path ++ (if path.endsWith "/" then "" else "/") ++ "/".intercalate rest

/-- The sources at a path, each named by the path and the way from there. -/
def sources (files : Files) (path : String) : Except Fault (List (String × String)) :=
  let place := components path
  let inside := files.filterMap fun (name, text) => (relative? place (components name)).map (·, text)
  match inside.find? (·.1.isEmpty) with
  | some (_, text) =>
    if path.endsWith "/" || path.endsWith "/." then .error (.notFolder path)
    else .ok (if isSource place then [(path, text)] else [])
  | none =>
    if inside.isEmpty && ! place.isEmpty then
      .error (if files.any fun f => (components f.1).isPrefixOf place then .notFolder path else .missing path)
    else
      let found := (inside.filter fun f => isSource f.1).mergeSort fun a b => precedes a.1 b.1
      .ok (found.map fun (rest, text) => (join path rest, text))

end BilingualLogic.Workspace
