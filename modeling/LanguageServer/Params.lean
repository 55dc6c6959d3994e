import LanguageServer.Document.Basic
import LanguageServer.Json.Decode
import LanguageServer.Uri

/-! # Parameters of the methods

What the methods take, and how it is decoded. The name of a document is kept as it was sent, once it
is known to be a URI reference. Parameters that carry a position are read as the union of several
records over the members of one object: first the member of their own, then the document and the
position, then the tokens for progress. -/

namespace LanguageServer.Params

open LanguageServer.Json (Decoder Layout Surplus Mismatch)

/-! ### Parts -/

/-- The name of a document. -/
def uri : Decoder String := fun v => do
  let text ← Decoder.string v
  match Uri.check text with
  | .ok () => return text
  | .error e => .error (.malformed e.message)

/-- A document by name. -/
def documentId (surplus : Surplus) : Decoder String :=
  ((Layout.build id).field "uri" uri none).decoder "TextDocumentIdentifier" surplus

/-- A position. -/
def position (surplus : Surplus) : Decoder Position :=
  (((Layout.build Position.mk).field "line" Decoder.uint32 none).field
    "character" Decoder.uint32 none).decoder "Position" surplus

/-- A range. -/
def range : Decoder Range :=
  (((Layout.build Range.mk).field "start" (position .fewer) none).field
    "end" (position .fewer) none).decoder "Range" .fewer

/-! ### Documents -/

/-- A document that was opened. -/
structure Opened where
  uri : String
  version : Int32
  text : String

/-- The parameters of opening a document. -/
def opened : Decoder Opened :=
  let item : Decoder Opened :=
    (((((Layout.build fun uri _ version text => ⟨uri, version, text⟩).field "uri" uri none).field
      "languageId" Decoder.string none).field "version" Decoder.int32 none).field
      "text" Decoder.string none).decoder "TextDocumentItem" .fewer
  ((Layout.build id).field "textDocument" item none).decoder "DidOpenTextDocumentParams" .fewer

/-- A change of a document. -/
def change : Decoder Change :=
  ((((Layout.build fun range (_ : Option UInt32) text => ⟨range, text⟩).field
    "range" (Decoder.nullable range) (some none)).field
    "rangeLength" (Decoder.nullable Decoder.uint32) (some none)).field
    "text" Decoder.string none).decoder "TextDocumentContentChangeEvent" .fewer

/-- Changes that were made to a document, in order, and its version after them. -/
structure Changed where
  uri : String
  version : Int32
  changes : List Change

/-- The parameters of changing a document. -/
def changed : Decoder Changed :=
  let document : Decoder (String × Int32) :=
    (((Layout.build Prod.mk).field "uri" uri none).field "version" Decoder.int32 none).decoder
      "VersionedTextDocumentIdentifier" .fewer
  (((Layout.build fun (d : String × Int32) changes => ⟨d.1, d.2, changes⟩).field
    "textDocument" document none).field
    "contentChanges" (Decoder.list change) none).decoder "DidChangeTextDocumentParams" .fewer

/-- The parameters of closing a document: its name. -/
def closed : Decoder String :=
  ((Layout.build id).field "textDocument" (documentId .fewer) none).decoder
    "DidCloseTextDocumentParams" .fewer

/-! ### Positions in a document -/

/-- A place in a document. -/
structure Target where
  uri : String
  position : Position

/-- A document and a position in it. -/
def target : Layout Target :=
  ((Layout.build Target.mk).field "textDocument" (documentId .counted) none).field
    "position" (position .counted) none

/-- A token for progress: a number or a string. -/
def token : Decoder Unit :=
  Decoder.oneOf "NumberOrString"
    [fun v => (Decoder.int32 v).map fun _ => (), fun v => (Decoder.string v).map fun _ => ()]

/-- A token for progress that may be left out. -/
def tokenNamed (name : String) : Layout (Option Unit) :=
  (Layout.build id).field name (Decoder.nullable token) (some none)

/-- The members of an object that is the union of several records. -/
def union (name : String) : Decoder (List (String × Json))
  | .object members => .ok members
  | v => .error (.type v.found ("struct " ++ name))

/-- The parameters of a hover. -/
def hover : Decoder Target := fun v => do
  let members ← union "HoverParams" v
  let place ← target.ofMembers members
  let _ ← (tokenNamed "workDoneToken").ofMembers members
  return place

/-! ### Signature help -/

/-- The kind of a documentation text, by name or by an object with the name as its only key. -/
def markupKind : Decoder Unit := fun v =>
  let known (name : String) : Bool := name = "plaintext" || name = "markdown"
  match v with
  | .string name => if known name then .ok () else .error (.variant "MarkupKind")
  | .object [(name, .null)] => if known name then .ok () else .error (.variant "MarkupKind")
  | v => .error (.type v.found "enum MarkupKind")

/-- A documentation text, plain or with its kind. -/
def documentation : Decoder Unit :=
  Decoder.oneOf "Documentation"
    [fun v => (Decoder.string v).map fun _ => (),
     (((Layout.build fun _ _ => ()).field "kind" markupKind none).field
       "value" Decoder.string none).decoder "MarkupContent" .counted]

/-- The label of a parameter: a text, or the two ends of one in the label of the signature. -/
def parameterLabel : Decoder Unit :=
  Decoder.oneOf "ParameterLabel"
    [fun v => (Decoder.string v).map fun _ => (),
     fun v => match v with
      | .array [low, high] => do
        let _ ← Decoder.uint32 low
        let _ ← Decoder.uint32 high
        return ()
      | v => .error (.type v.found "an array of length 2")]

/-- A parameter of a signature. -/
def parameter : Decoder Unit :=
  (((Layout.build fun _ _ => ()).field "label" parameterLabel none).field
    "documentation" (Decoder.nullable documentation) (some none)).decoder
    "ParameterInformation" .fewer

/-- A signature. -/
def signature : Decoder Unit :=
  (((((Layout.build fun _ _ _ _ => ()).field "label" Decoder.string none).field
    "documentation" (Decoder.nullable documentation) (some none)).field
    "parameters" (Decoder.nullable (Decoder.list parameter)) (some none)).field
    "activeParameter" (Decoder.nullable Decoder.uint32) (some none)).decoder
    "SignatureInformation" .fewer

/-- The signatures that are shown. -/
def signatures : Decoder Unit :=
  ((((Layout.build fun _ _ _ => ()).field "signatures" (Decoder.list signature) none).field
    "activeSignature" (Decoder.nullable Decoder.uint32) (some none)).field
    "activeParameter" (Decoder.nullable Decoder.uint32) (some none)).decoder
    "SignatureHelp" .fewer

/-- Why signature help was asked for. -/
def signatureContext : Decoder Unit :=
  (((((Layout.build fun _ _ _ _ => ()).field "triggerKind" Decoder.int32 none).field
    "triggerCharacter" (Decoder.nullable Decoder.string) (some none)).field
    "isRetrigger" Decoder.boolean none).field
    "activeSignatureHelp" (Decoder.nullable signatures) (some none)).decoder
    "SignatureHelpContext" .fewer

/-- The member `context`, which may be null or left out. -/
def contextOf (context : Decoder Unit) : Layout (Option Unit) :=
  (Layout.build id).field "context" (Decoder.nullable context) (some none)

/-- The parameters of signature help. -/
def signatureHelp : Decoder Target := fun v => do
  let members ← union "SignatureHelpParams" v
  let _ ← (contextOf signatureContext).ofMembers members
  let place ← target.ofMembers members
  let _ ← (tokenNamed "workDoneToken").ofMembers members
  return place

/-! ### Completion -/

/-- Why completion was asked for. -/
def completionContext : Decoder Unit :=
  (((Layout.build fun _ _ => ()).field "triggerKind" Decoder.int32 none).field
    "triggerCharacter" (Decoder.nullable Decoder.string) (some none)).decoder
    "CompletionContext" .fewer

/-- The parameters of completion. -/
def completion : Decoder Target := fun v => do
  let members ← union "CompletionParams" v
  let _ ← (contextOf completionContext).ofMembers members
  let place ← target.ofMembers members
  let _ ← (tokenNamed "workDoneToken").ofMembers members
  let _ ← (tokenNamed "partialResultToken").ofMembers members
  return place

end LanguageServer.Params
