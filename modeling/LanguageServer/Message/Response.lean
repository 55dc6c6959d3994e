import LanguageServer.Message.Request

/-! # Responses

The reply to a request: the identifier of the request and either a result or an error. The error
carries a code, a message and possibly more data. -/

namespace LanguageServer

/-! ### Errors -/

namespace ErrorCode

/-- The message is not JSON, or no request. -/
def parseError : Int32 := -32700

/-- There is no such method. -/
def methodNotFound : Int32 := -32601

/-- The parameters are not those of the method. -/
def invalidParams : Int32 := -32602

/-- The server failed. -/
def internalError : Int32 := -32603

/-- Whether the code is one of those left to servers. -/
def isServerError (code : Int32) : Bool := -32099 ≤ code && code ≤ -32000

end ErrorCode

/-- What went wrong with a request: the kind of error, a message, and more about it. -/
structure ResponseError where
  code : Int32
  message : String
  data : Option Json := none

namespace ResponseError

/-- There is no such method. -/
def methodNotFound (method : String) : ResponseError :=
  { code := ErrorCode.methodNotFound, message := "method " ++ method ++ " not found" }

/-- The parameters are not those of the method. -/
def invalidParams (message : String) : ResponseError :=
  { code := ErrorCode.invalidParams, message }

/-- The server failed. -/
def internal (message : String) : ResponseError := { code := ErrorCode.internalError, message }

/-- The error in a log. -/
def text (e : ResponseError) : String :=
  "code: " ++ toString e.code.toInt ++ ", message: " ++ e.message ++
    match e.data with
    | none => ""
    | some data => ", data: " ++ data.print

/-- The members of the error; absent data is left out. -/
def members (e : ResponseError) : List (String × Json) :=
  [("code", .integer e.code.toInt), ("message", .string e.message)] ++
    match e.data with
    | none => []
    | some data => [("data", data)]

/-- The error as a JSON value. -/
def toJson (e : ResponseError) : Json := .object e.members

/-- The text of the error object. -/
def encode (e : ResponseError) : String := e.toJson.print

/-- What has been read of an error; the inner option of the data is for null. -/
structure Draft where
  code : Option Int32 := none
  message : Option String := none
  data : Option (Option Json) := none

/-- How an error is read; its data may nest `depth` levels. -/
def record (depth : Nat) : Json.Record Draft ResponseError where
  name := "ResponseError"
  start := {}
  fields :=
    [⟨"code", (·.code.isSome),
        fun d bs => (Json.int32 bs).map (·.map fun c => { d with code := some c }), false⟩,
     ⟨"message", (·.message.isSome),
        fun d bs => (Json.text bs).map (·.map fun s => { d with message := some s }), false⟩,
     ⟨"data", (·.data.isSome),
        fun d bs =>
          (Json.nullable (Json.value depth) bs).map (·.map fun v => { d with data := some v }),
        false⟩]
  finish d :=
    match d.code, d.message with
    | none, _ => .error (.missing "code")
    | some _, none => .error (.missing "message")
    | some code, some message => .ok ⟨code, message, d.data.getD none⟩

/-- The error that a text spells. -/
def decode (body : List UInt8) : Except Json.DecodeError ResponseError :=
  Json.decodeWith (record (Json.maxDepth - 1)).read body

end ResponseError

/-! ### Replies -/

/-- A reply to a request: its identifier, absent if it is not known, and the result if the request
succeeded, or the error if it failed. -/
structure Response where
  version : String
  id : Option RequestId
  result : Option Json
  error : Option ResponseError

namespace Response

/-- The reply to a request that succeeded. -/
def success (id : Option RequestId) (result : Json) : Response :=
  ⟨protocolVersion, id, some result, none⟩

/-- The reply to a request that failed. -/
def failure (id : Option RequestId) (error : ResponseError) : Response :=
  ⟨protocolVersion, id, none, some error⟩

/-- The reply to a body that is no request. -/
def parseError (id : Option RequestId) (reason : String) : Response :=
  failure id { code := ErrorCode.parseError, message := reason }

/-- The members of the reply: the identifier always, null if absent, and of result and error the one
that is there. -/
def members (r : Response) : List (String × Json) :=
  [("jsonrpc", .string r.version), ("id", (r.id.map RequestId.toJson).getD .null)] ++
    (match r.result with
      | none => []
      | some result => [("result", result)]) ++
    (match r.error with
      | none => []
      | some error => [("error", error.toJson)])

/-- The text of the reply. -/
def encode (r : Response) : String := (Json.object r.members).print

/-- What has been read of a reply; the inner options are for null. -/
structure Draft where
  version : Option String := none
  id : Option (Option RequestId) := none
  result : Option (Option Json) := none
  error : Option (Option ResponseError) := none

/-- How a reply is read; the reply takes one level of the nesting, so its members have `depth + 1`
levels. -/
def record (depth : Nat) : Json.Record Draft Response where
  name := "JsonRpcResponse"
  start := {}
  fields :=
    [⟨"jsonrpc", (·.version.isSome),
        fun d bs => (Json.text bs).map (·.map fun s => { d with version := some s }), false⟩,
     ⟨"id", (·.id.isSome),
        fun d bs =>
          (Json.nullable (RequestId.read (depth + 1)) bs).map
            (·.map fun i => { d with id := some i }),
        false⟩,
     ⟨"result", (·.result.isSome),
        fun d bs =>
          (Json.nullable (Json.value (depth + 1)) bs).map
            (·.map fun v => { d with result := some v }),
        false⟩,
     ⟨"error", (·.error.isSome),
        fun d bs =>
          (Json.nullable (ResponseError.record depth).read bs).map
            (·.map fun e => { d with error := some e }),
        false⟩]
  finish d :=
    match d.version with
    | none => .error (.missing "jsonrpc")
    | some version => .ok ⟨version, d.id.getD none, d.result.getD none, d.error.getD none⟩

/-- The reply that a text spells. -/
def decode (body : List UInt8) : Except Json.DecodeError Response :=
  Json.decodeWith (record (Json.maxDepth - 2)).read body

end Response

end LanguageServer
