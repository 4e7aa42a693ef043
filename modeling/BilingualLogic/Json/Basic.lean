import BilingualLogic.Double.Basic

/-!
JSON values. Numbers are integers or doubles; the members of an object stand in the order in which they are written.
-/

namespace BilingualLogic

inductive Json where
  | null
  | bool (value : Bool)
  | integer (value : Int)
  | real (negative : Bool) (magnitude : Double)
  | string (value : String)
  | array (items : List Json)
  | object (members : List (String × Json))

namespace Json

instance : Inhabited Json := ⟨null⟩

/-- Puts a member in front of the first one with a greater key, in the place of one with the same key. -/
def insertMember (key : String) (value : Json) : List (String × Json) → List (String × Json)
  | [] => [(key, value)]
  | (k, v) :: rest =>
    if key < k then (key, value) :: (k, v) :: rest
    else if k < key then (k, v) :: insertMember key value rest
    else (key, value) :: rest

/-- The object with the keys in order, the last of several members with one key. -/
def sortedObject (members : List (String × Json)) : Json :=
  object (members.foldl (fun sorted (k, v) => insertMember k v sorted) [])

def member? (key : String) : Json → Option Json
  | object members => members.lookup key
  | _ => none

end Json
end BilingualLogic
