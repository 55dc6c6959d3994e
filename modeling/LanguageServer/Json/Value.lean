/-! # JSON values

The values of JSON, numbers split into integers and floating point. The members of an object stand
in increasing order of their keys, and each key once: `insert` keeps that order and lets the last
value of a key win, and `ofMembers` builds an object from members in any order. -/

namespace LanguageServer

/-- A JSON value. -/
inductive Json
  | null
  | bool (value : Bool)
  | integer (value : Int)
  | float (value : Float)
  | string (value : String)
  | array (elements : List Json)
  | object (members : List (String × Json))
  deriving Inhabited

namespace Json

/-- Whether the first text comes before the second: it has the lesser character where they first
differ, or it ends there. -/
def textBefore : List Char → List Char → Bool
  | _, [] => false
  | [], _ :: _ => true
  | c :: cs, d :: ds => if c = d then textBefore cs ds else c.toNat < d.toNat

/-- Whether the key `a` comes before the key `b`. -/
def keyBefore (a b : String) : Bool := textBefore a.toList b.toList

/-- The members with `key` bound to `value`, in place if it is there already. -/
def insert (key : String) (value : Json) : List (String × Json) → List (String × Json)
  | [] => [(key, value)]
  | (k, v) :: rest =>
    if keyBefore key k then (key, value) :: (k, v) :: rest
    else if key = k then (key, value) :: rest
    else (k, v) :: insert key value rest

/-- The object with the given members; the last value of a key wins. -/
def ofMembers (members : List (String × Json)) : Json :=
  .object (members.foldl (fun done m => insert m.1 m.2 done) [])

/-- The value of a member of an object. -/
def get? (key : String) : Json → Option Json
  | object members => members.lookup key
  | _ => none

/-- The text of a string. -/
def text? : Json → Option String
  | string s => some s
  | _ => none

end Json

end LanguageServer
