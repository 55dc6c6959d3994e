import LanguageServer.Document.Store
import LanguageServer.Hover
import LanguageServer.Language
import LanguageServer.Message.Response
import LanguageServer.Params
import LanguageServer.Signal

/-! # The methods

`Handler.handle` answers one method: it decodes the parameters, works on the open documents and the
exit signal, and gives a value, nothing, or an error. The language it serves is a parameter: how a
text becomes a tree of nodes, and which functions are documented. -/

namespace LanguageServer

open Script (Syntactic)

/-- The name of the server. -/
def serverName : String := "DLiteScript"

/-- The version of the server. -/
def serverVersion : String := "0.1.0"

/-- The state of a session: the open documents, whether a shutdown was requested, and whether an
exit was. -/
structure Handler where
  store : Store
  shutdownRequested : Bool
  signal : Signal
  deriving DecidableEq, Repr

namespace Handler

/-- The state at the start of a session. -/
def fresh : Handler := ⟨.empty, false, .idle⟩

/-- What a method answers: a value, nothing, or an error. -/
abbrev Answer := Except ResponseError (Option Json)

/-- What the server can do. Positions count characters, documents are sent change by change, and the
server offers hover, completion and signature help. -/
def capabilities : Json :=
  .ofMembers
    [("capabilities", .ofMembers
      [("positionEncoding", .string "utf-32"),
       ("textDocumentSync", .ofMembers [("openClose", .bool true), ("change", .integer 2)]),
       ("hoverProvider", .bool true),
       ("definitionProvider", .bool false),
       ("completionProvider", .ofMembers [("triggerCharacters", .array [])]),
       ("signatureHelpProvider", .ofMembers
         [("triggerCharacters", .array [.string "(", .string ","])])]),
     ("serverInfo", .ofMembers
      [("name", .string serverName), ("version", .string serverVersion)])]

/-- The signature help for every place, until signatures are looked up. -/
def signaturePlaceholder : Json :=
  .ofMembers
    [("signatures", .array [.ofMembers
      [("label", .string "TODO: Implement signature help"),
       ("documentation", .ofMembers [("kind", .string "plaintext"), ("value", .string "")]),
       ("parameters", .array [])]]),
     ("activeSignature", .integer 0),
     ("activeParameter", .integer 0)]

/-- The completions for every place: none, and there are no more. -/
def noCompletions : Json := .ofMembers [("isIncomplete", .bool false), ("items", .array [])]

/-- Decodes parameters; what does not fit is an error of the parameters. -/
def decode {α : Type} (decoder : Json.Decoder α) (params : Json) : Except ResponseError α :=
  (decoder params).mapError fun cause => .invalidParams cause.message

/-! ### Documents -/

/-- Opens a document. -/
def didOpen (h : Handler) (params : Json) : Logged (Handler × Answer) :=
  match decode Params.opened params with
  | .error e => pure (h, .error e)
  | .ok p => do
    let store ← h.store.openDocument p.uri p.text p.version
    Logged.log .handler .debug (toString store.size ++ " document(s) tracked")
    return ({ h with store }, .ok (some .null))

/-- Changes a document. -/
def didChange (h : Handler) (params : Json) : Logged (Handler × Answer) :=
  match decode Params.changed params with
  | .error e => pure (h, .error e)
  | .ok p => do
    let (store, result) ← h.store.applyChanges p.uri p.version p.changes
    return ({ h with store },
      (result.mapError fun e => .invalidParams e.message).map fun _ => none)

/-- Closes a document. -/
def didClose (h : Handler) (params : Json) : Logged (Handler × Answer) :=
  match decode Params.closed params with
  | .error e => pure (h, .error e)
  | .ok uri => do
    let store ← h.store.close uri
    return ({ h with store }, .ok none)

/-! ### Questions about a place -/

section Language

variable {α : Type} [Syntactic α] (language : Language α)

/-- The node at a place of a document and the offset of the place, and the document. -/
def nodeAt (store : Store) (target : Params.Target) :
    Except ResponseError (Document × Nat × α) :=
  match store.get? target.uri with
  | none => .error (.invalidParams DocumentError.notFound.message)
  | some d =>
    match language.parse d.text with
    | .error e => .error (.invalidParams e.message)
    | .ok tree =>
      match d.indexOf target.position with
      | .error e => .error (.invalidParams e.message)
      | .ok index =>
        match tree.findAt index with
        | none => .error (.invalidParams "Could not find AST node at position")
        | some node => .ok (d, index, node)

/-- What is shown at a place. -/
def hover (h : Handler) (params : Json) : Logged Answer :=
  match decode Params.hover params with
  | .error e => pure (.error e)
  | .ok target =>
    match nodeAt language h.store target with
    | .error e => pure (.error e)
    | .ok (d, index, node) => do
      Logged.log .handler .debug
        ("Hover at " ++ toString index ++ " resolved to " ++ Syntactic.kind node)
      return .ok (some (Hover.ofNode language.functions d node).toJson)

/-! ### The session -/

/-- Starts the session: says what the server can do. -/
def start (params : Json) : Logged Answer := do
  let client := ((params.get? "clientInfo").bind (·.get? "name")).bind Json.text?
  Logged.log .handler .info ("Initializing for " ++ client.getD "unknown client")
  return .ok (some capabilities)

/-- Requests a shutdown. -/
def shutdown (h : Handler) : Logged (Handler × Answer) := do
  Logged.log .handler .info "Shutdown requested"
  return ({ h with shutdownRequested := true }, .ok (some .null))

/-- Requests an exit, which is clean after a shutdown. -/
def exit (h : Handler) : Logged (Handler × Answer) := do
  unless h.shutdownRequested do
    Logged.log .handler .warn "Exit received before shutdown"
  let (signal, fired) := h.signal.trigger h.shutdownRequested
  if fired then Logged.log .handler .info "Exit requested, shutdown signal armed"
  else Logged.log .signal .debug "Shutdown signal already armed, ignoring"
  return ({ h with signal }, .ok none)

/-- **Answers a method.** -/
def handle (h : Handler) (method : String) (params : Json) : Logged (Handler × Answer) := do
  Logged.log .handler .debug ("Received request: " ++ method)
  match method with
  | "initialize" => return (h, ← start params)
  | "initialized" | "$/setTrace" => return (h, .ok none)
  | "textDocument/didOpen" => h.didOpen params
  | "textDocument/didChange" => h.didChange params
  | "textDocument/didClose" => h.didClose params
  | "textDocument/hover" => return (h, ← h.hover language params)
  | "textDocument/signatureHelp" =>
    return (h, (decode Params.signatureHelp params).map fun _ => some signaturePlaceholder)
  | "textDocument/completion" =>
    return (h, (decode Params.completion params).map fun _ => some noCompletions)
  | "shutdown" => h.shutdown
  | "exit" => h.exit
  | _ => return (h, .error (.methodNotFound method))

end Language

end Handler

end LanguageServer
