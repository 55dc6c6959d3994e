import LanguageServer.Json.Record

/-! # Request identifiers

A message that wants a reply carries an identifier, a number or a string. A message without one is a
notification; `0` and the empty string are identifiers like any other. -/

namespace LanguageServer

/-- The identifier of a request. -/
inductive RequestId
  | number (value : Int64)
  | string (value : String)
  deriving DecidableEq, Repr

namespace RequestId

/-- The identifier as a JSON value. -/
def toJson : RequestId → Json
  | number value => .integer value.toInt
  | string value => .string value

/-- The identifier that a JSON value gives: an integer of 64 bits or a string. -/
def ofJson? : Json → Option RequestId
  | .integer n =>
    if -0x8000000000000000 ≤ n ∧ n < 0x8000000000000000 then some (number (Int64.ofInt n))
    else none
  | .string s => some (string s)
  | _ => none

/-- The identifier in a log: the number, or the string in quotes. -/
def text : RequestId → String
  | number value => toString value.toInt
  | string value => Text.quoted value

/-- Reads an identifier; the value may nest `depth` levels before it is refused. -/
def read (depth : Nat) : Json.Reader RequestId := fun bs =>
  match Json.value depth bs with
  | .error e => .error e
  | .ok t =>
    match ofJson? t.value with
    | some id => .ok (t.map fun _ => id)
    | none => Json.failUndecided (.variant "RequestId") t.rest

theorem ofJson?_toJson (id : RequestId) : ofJson? id.toJson = some id := by
  cases id with
  | number n =>
    have := n.le_toInt
    have := n.toInt_lt
    simp only [toJson, ofJson?]
    rw [if_pos ⟨by omega, by omega⟩, Int64.ofInt_toInt]
  | string s => rfl

end RequestId

end LanguageServer
