import LanguageServer.Message.Id

/-! # Requests and notifications

The envelope of a message from the client: the protocol version, the method, its parameters and the
identifier. Version, parameters and identifier may be left out. `encode` writes an envelope and
`decode` reads one. -/

namespace LanguageServer

/-- The version of the protocol. -/
def protocolVersion : String := "2.0"

/-- A message from the client. The parameters are null if left out, and the identifier is absent for
a notification. -/
structure Request where
  version : String
  method : String
  params : Json
  id : Option RequestId

namespace Request

/-- Whether the message wants no reply. -/
def isNotification (r : Request) : Bool := r.id.isNone

/-- Whether a value is null. -/
def isNull : Json → Bool
  | .null => true
  | _ => false

/-- The members of the envelope; null parameters and an absent identifier are left out. -/
def members (r : Request) : List (String × Json) :=
  [("jsonrpc", .string r.version), ("method", .string r.method)] ++
    (if isNull r.params then [] else [("params", r.params)]) ++
    (match r.id with
      | none => []
      | some id => [("id", id.toJson)])

/-- The text of the envelope. -/
def encode (r : Request) : String := (Json.object r.members).print

/-- What has been read of an envelope; the inner option of the identifier is for null. -/
structure Draft where
  version : Option String := none
  method : Option String := none
  params : Option Json := none
  id : Option (Option RequestId) := none

/-- How an envelope is read. The envelope takes one level of the nesting, so its members have
`depth` levels. -/
def record (depth : Nat) : Json.Record Draft Request where
  name := "JsonRpcRequest"
  start := {}
  fields :=
    [⟨"jsonrpc", (·.version.isSome),
        fun d bs => (Json.text bs).map (·.map fun s => { d with version := some s }), true⟩,
     ⟨"method", (·.method.isSome),
        fun d bs => (Json.text bs).map (·.map fun s => { d with method := some s }), false⟩,
     ⟨"params", (·.params.isSome),
        fun d bs => (Json.value depth bs).map (·.map fun v => { d with params := some v }), true⟩,
     ⟨"id", (·.id.isSome),
        fun d bs =>
          (Json.nullable (RequestId.read depth) bs).map (·.map fun i => { d with id := some i }),
        true⟩]
  finish d :=
    match d.method with
    | none => .error (.missing "method")
    | some method =>
      .ok ⟨d.version.getD protocolVersion, method, d.params.getD .null, d.id.getD none⟩

/-- The envelope that a message body spells. -/
def decode (body : List UInt8) : Except Json.DecodeError Request :=
  Json.decodeWith (record (Json.maxDepth - 1)).read body

/-- The identifier of a body that is no envelope, if it is JSON with an identifier in its place. -/
def salvageId (body : List UInt8) : Option RequestId :=
  match Json.decode body with
  | .error _ => none
  | .ok v => (v.get? "id").bind RequestId.ofJson?

end Request

end LanguageServer
