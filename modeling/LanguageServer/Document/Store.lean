import LanguageServer.Document.Basic
import LanguageServer.Log

/-! # The open documents

The documents of a session by name, in the order they were first opened. A closed document stays,
without its text. -/

namespace LanguageServer

/-- The documents of a session by name, each name once. -/
structure Store where
  entries : List (String × Document)
  deriving DecidableEq, Repr

namespace Store

/-- No document. -/
def empty : Store := ⟨[]⟩

/-- The document with a name. -/
def get? (s : Store) (uri : String) : Option Document := s.entries.lookup uri

/-- Whether there is a document with the name. -/
def contains (s : Store) (uri : String) : Bool := (s.get? uri).isSome

/-- The number of documents. -/
def size (s : Store) : Nat := s.entries.length

/-- Whether there is no document. -/
def isEmpty (s : Store) : Bool := s.entries.isEmpty

/-- The entries with the document under `uri`, in place if the name is there already. -/
def put (uri : String) (d : Document) : List (String × Document) → List (String × Document)
  | [] => [(uri, d)]
  | entry :: rest => if entry.1 = uri then (uri, d) :: rest else entry :: put uri d rest

/-- The store with the document under `uri`. -/
def insert (s : Store) (uri : String) (d : Document) : Store := ⟨put uri d s.entries⟩

/-- Opens a document, or replaces it. -/
def openDocument (s : Store) (uri text : String) (version : Int32) : Logged Store := do
  let d := Document.create uri text version
  Logged.log .store .info ("Opened " ++ uri ++ " (version " ++ toString version.toInt ++ ", " ++
    toString d.lineCount ++ " lines)")
  return s.insert uri d

/-- Makes the changes one after the other and stops at the first that fails, with those before it
made. -/
def applyAll (version : Int32) (d : Document) :
    List Change → Logged (Document × Except DocumentError Unit)
  | [] => pure (d, .ok ())
  | change :: changes =>
    match d.apply change version with
    | .error e => pure (d, .error e)
    | .ok next => do
      Logged.log .document .trace ("Document " ++ next.uri ++ ": applied change, now " ++
        toString next.lineCount ++ " lines at version " ++ toString version.toInt)
      applyAll version next changes

/-- Changes a document. -/
def applyChanges (s : Store) (uri : String) (version : Int32) (changes : List Change) :
    Logged (Store × Except DocumentError Unit) :=
  match s.get? uri with
  | none => pure (s, .error .notFound)
  | some d => do
    let (next, result) ← applyAll version d changes
    match result with
    | .error e => return (s.insert uri next, .error e)
    | .ok () =>
      Logged.log .store .debug ("Applied " ++ toString changes.length ++ " change(s) to " ++ uri)
      return (s.insert uri next, .ok ())

/-- Closes a document; for an unknown one nothing happens. -/
def close (s : Store) (uri : String) : Logged Store :=
  match s.get? uri with
  | none => do
    Logged.log .store .debug ("Ignoring close for unknown document " ++ uri)
    return s
  | some d => do
    Logged.log .store .info ("Closed " ++ uri)
    return s.insert uri d.clear

end Store

end LanguageServer
