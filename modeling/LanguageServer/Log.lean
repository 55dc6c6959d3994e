/-! # Log events

What the server says about its work. A computation that logs returns its value together with the
events, in order; `Logged` is the monad of such computations. -/

namespace LanguageServer

/-- How severe an event is. -/
inductive Level
  | error | warn | info | debug | trace
  deriving DecidableEq, Repr

/-- The name of a level. -/
def Level.name : Level → String
  | error => "ERROR"
  | warn => "WARN"
  | info => "INFO"
  | debug => "DEBUG"
  | trace => "TRACE"

/-- The rank of a level, the most severe first. -/
def Level.rank : Level → Nat
  | error => 1
  | warn => 2
  | info => 3
  | debug => 4
  | trace => 5

/-- The part of the program that an event comes from. -/
inductive Source
  | program
  | session
  | framing
  | signal
  | handler
  | store
  | document
  deriving DecidableEq, Repr

/-- The name of a source, as filters spell it. -/
def Source.path : Source → String
  | program => "dlite_lsp"
  | session => "dlite_lsp::jsonrpc::server"
  | framing => "dlite_lsp::jsonrpc::framing"
  | signal => "dlite_lsp::jsonrpc::shutdown"
  | handler => "dlite_lsp::lsp::handler"
  | store => "dlite_lsp::lsp::store"
  | document => "dlite_lsp::lsp::document"

/-- One event: where it comes from, its level, its message, details by name, and the names of
further details whose values are not kept: whole messages, times, processes. -/
structure Event where
  source : Source
  level : Level
  message : String
  fields : List (String × String) := []
  unkept : List String := []
  deriving DecidableEq, Repr

/-- The names of all details of an event, its message among them. -/
def Event.fieldNames (e : Event) : List String := "message" :: e.fields.map (·.1) ++ e.unkept

/-- A value and the events on the way to it, in order. -/
structure Logged (α : Type) where
  value : α
  events : List Event

namespace Logged

variable {α β : Type}

instance : Monad Logged where
  pure a := ⟨a, []⟩
  bind x f :=
    let y := f x.value
    ⟨y.value, x.events ++ y.events⟩

/-- Logs one event. -/
def log (source : Source) (level : Level) (message : String)
    (fields : List (String × String) := []) (unkept : List String := []) : Logged Unit :=
  ⟨(), [⟨source, level, message, fields, unkept⟩]⟩

@[simp] theorem value_pure (a : α) : (pure a : Logged α).value = a := rfl

@[simp] theorem value_bind (x : Logged α) (f : α → Logged β) :
    (x >>= f).value = (f x.value).value := rfl

@[simp] theorem events_pure (a : α) : (pure a : Logged α).events = [] := rfl

@[simp] theorem events_bind (x : Logged α) (f : α → Logged β) :
    (x >>= f).events = x.events ++ (f x.value).events := rfl

end Logged

end LanguageServer
