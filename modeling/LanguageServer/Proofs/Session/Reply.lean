import LanguageServer.Proofs.Frame.Stream
import LanguageServer.Proofs.Message.Request
import LanguageServer.Proofs.Session.Answer
import LanguageServer.Session

/-! # Replies of a session

`Exchange` says what one message does to the state of the methods and which reply it gets, if any.
A session whose sink never fails writes exactly the replies of the exchanges, in order, and every
reply is read back as the object it stands for.

* `Response.wire`, `decode_encode`: the object that a reply is read back as;
* `Exchange`, `Exchanges`: one message and a list of messages;
* `handleMessage_exchange`, `handleAll_exchanges`: a session goes through exchanges;
* `handleAll_replies`: the replies read off the output. -/

namespace LanguageServer

open FramingError (maxBody)
open Json (Canonical)

/-! ### Replies on the wire -/

/-- The object of an error without data. -/
def ResponseError.wire (e : ResponseError) : Json :=
  .object [("code", .integer e.code.toInt), ("message", .string e.message)]

theorem ResponseError.toJson_eq_wire {e : ResponseError} (h : e.data = none) :
    e.toJson = e.wire := by
  unfold toJson members
  rw [h]
  rfl

theorem ResponseError.canonical_wire (e : ResponseError) (depth : Nat) :
    Canonical (depth + 1) e.wire := by
  have hlow := e.code.le_toInt
  have hhigh := e.code.toInt_lt
  refine ⟨?_, ?_⟩
  · exact List.pairwise_pair.mpr (show Json.keyBefore "code" "message" = true by decide)
  · simp only [List.forall_mem_cons, Json.canonical_integer, Json.canonical_string, true_and]
    refine ⟨?_, by simp⟩
    omega

namespace Response

/-- The object that a reply stands for: its members in the order of their keys. -/
def wire (r : Response) : Json :=
  .object ((r.error.map fun e => ("error", e.wire)).toList ++
    [("id", (r.id.map RequestId.toJson).getD .null), ("jsonrpc", .string r.version)] ++
    (r.result.map fun v => ("result", v)).toList)

/-- The reply has exactly one of result and error, and what it has can be sent. -/
def Sendable (r : Response) : Prop :=
  (∃ v, r.result = some v ∧ r.error = none ∧ Canonical (Json.maxDepth - 1) v) ∨
    ∃ e, r.result = none ∧ r.error = some e ∧ e.data = none

theorem canonical_id (id : Option RequestId) (depth : Nat) :
    Canonical depth ((id.map RequestId.toJson).getD .null) := by
  cases id with
  | none => exact Json.canonical_null depth
  | some id => exact id.canonical_toJson depth

theorem get?_wire (r : Response) :
    r.wire.get? "jsonrpc" = some (.string r.version) ∧
      r.wire.get? "id" = some ((r.id.map RequestId.toJson).getD .null) ∧
      r.wire.get? "result" = r.result ∧
      r.wire.get? "error" = r.error.map ResponseError.wire := by
  obtain ⟨version, id, result, error⟩ := r
  cases result <;> cases error <;> simp [wire, Json.get?, List.lookup_cons]

/-- The members are written in another order than the object has. -/
theorem ofMembers_members {r : Response} (h : r.Sendable) :
    Json.ofMembers r.members = r.wire := by
  obtain ⟨version, id, result, error⟩ := r
  rcases h with ⟨v, rfl, rfl, -⟩ | ⟨e, rfl, rfl, he⟩
  · simp [members, wire, Json.ofMembers, Json.insert, Json.keyBefore, Json.textBefore]
  · simp [members, wire, Json.ofMembers, Json.insert, Json.keyBefore, Json.textBefore,
      ResponseError.toJson_eq_wire he]

theorem canonical_of_mem_members {r : Response} (h : r.Sendable) {m : String × Json}
    (hm : m ∈ r.members) : Canonical (Json.maxDepth - 1) m.2 := by
  obtain ⟨version, id, result, error⟩ := r
  have hid := canonical_id id (Json.maxDepth - 1)
  rcases h with ⟨v, rfl, rfl, hv⟩ | ⟨e, rfl, rfl, he⟩
  · simp only [members, List.append_nil, List.cons_append, List.nil_append, List.mem_cons,
      List.not_mem_nil, or_false] at hm
    rcases hm with rfl | rfl | rfl
    · exact Json.canonical_string _ version
    · exact hid
    · exact hv
  · simp only [members, List.append_nil, List.cons_append, List.nil_append, List.mem_cons,
      List.not_mem_nil, or_false, ResponseError.toJson_eq_wire he] at hm
    rcases hm with rfl | rfl | rfl
    · exact Json.canonical_string _ version
    · exact hid
    · exact e.canonical_wire 125

/-- **A reply is read back as its object.** -/
theorem decode_encode {r : Response} (h : r.Sendable) :
    Json.decode (Text.Utf8.ofString r.encode) = .ok r.wire := by
  rw [← ofMembers_members h]
  exact Json.decode_object fun m hm => canonical_of_mem_members h hm

end Response

/-! ### Exchanges -/

section Language

variable {α : Type} [Script.Syntactic α] (language : Language α)

/-- What one message does to the state of the methods, and the reply it gets. -/
inductive Exchange : Handler → List UInt8 → Handler → Option Response → Prop
  /-- A body that is no request is answered with what is wrong with it. -/
  | undecodable {h : Handler} {body : List UInt8} {e : Json.DecodeError}
    (hbody : Request.decode body = .error e) :
    Exchange h body h (some (.parseError (Request.salvageId body) e.message))
  /-- A request that fails is answered with the error. -/
  | failed {h next : Handler} {body : List UInt8} {request : Request} {id : RequestId}
    {e : ResponseError} (hbody : Request.decode body = .ok request) (hid : request.id = some id)
    (hanswer : (h.handle language request.method request.params).value = (next, .error e)) :
    Exchange h body next (some (.failure (some id) e))
  /-- A request that gives a value, null or not, is answered with it. -/
  | succeeded {h next : Handler} {body : List UInt8} {request : Request} {id : RequestId}
    {v : Json} (hbody : Request.decode body = .ok request) (hid : request.id = some id)
    (hanswer : (h.handle language request.method request.params).value = (next, .ok (some v))) :
    Exchange h body next (some (.success (some id) v))
  /-- A request that gives nothing gets no reply. -/
  | silent {h next : Handler} {body : List UInt8} {request : Request} {id : RequestId}
    (hbody : Request.decode body = .ok request) (hid : request.id = some id)
    (hanswer : (h.handle language request.method request.params).value = (next, .ok none)) :
    Exchange h body next none
  /-- A message without an identifier gets no reply, whatever the method answers. -/
  | notified {h next : Handler} {body : List UInt8} {request : Request} {answer : Handler.Answer}
    (hbody : Request.decode body = .ok request) (hid : request.id = none)
    (hanswer : (h.handle language request.method request.params).value = (next, answer)) :
    Exchange h body next none

/-- What messages do one after the other, and the replies they get. -/
inductive Exchanges : Handler → List (List UInt8) → Handler → List (Option Response) → Prop
  | nil {h : Handler} : Exchanges h [] h []
  | cons {h next last : Handler} {body : List UInt8} {bodies : List (List UInt8)}
    {reply : Option Response} {replies : List (Option Response)}
    (hfirst : Exchange language h body next reply) (hrest : Exchanges next bodies last replies) :
    Exchanges h (body :: bodies) last (reply :: replies)

variable {language}

theorem Exchange.sendable {h next : Handler} {body : List UInt8} {r : Response}
    (hexchange : Exchange language h body next (some r)) :
    r.version = protocolVersion ∧ r.Sendable := by
  cases hexchange with
  | undecodable hbody => exact ⟨rfl, Or.inr ⟨_, rfl, rfl, rfl⟩⟩
  | failed hbody hid hanswer =>
    exact ⟨rfl, Or.inr ⟨_, rfl, rfl, Handler.sendable_of_handle hanswer⟩⟩
  | succeeded hbody hid hanswer =>
    exact ⟨rfl, Or.inl ⟨_, rfl, rfl, Handler.sendable_of_handle hanswer⟩⟩

theorem Exchanges.sendable {h last : Handler} {bodies : List (List UInt8)}
    {replies : List (Option Response)} (hexchanges : Exchanges language h bodies last replies)
    {r : Response} (hr : some r ∈ replies) : r.version = protocolVersion ∧ r.Sendable := by
  induction hexchanges with
  | nil => cases hr
  | cons hfirst hrest ih =>
    rcases List.mem_cons.mp hr with rfl | hr
    · exact hfirst.sendable
    · exact ih hr

theorem Exchange.unique {h next next' : Handler} {body : List UInt8}
    {reply reply' : Option Response} (hleft : Exchange language h body next reply)
    (hright : Exchange language h body next' reply') :
    next = next' ∧ reply = reply' := by
  cases hleft <;> cases hright <;> simp_all

theorem Exchanges.unique {h last last' : Handler} {bodies : List (List UInt8)}
    {replies replies' : List (Option Response)} (hleft : Exchanges language h bodies last replies)
    (hright : Exchanges language h bodies last' replies') : last = last' ∧ replies = replies' := by
  induction hleft generalizing replies' with
  | nil =>
    cases hright
    exact ⟨rfl, rfl⟩
  | cons hfirst hrest ih =>
    cases hright with
    | cons hfirst' hrest' =>
      obtain ⟨rfl, rfl⟩ := hfirst.unique hfirst'
      obtain ⟨rfl, rfl⟩ := ih hrest'
      exact ⟨rfl, rfl⟩

/-! ### Sessions -/

namespace Session

/-- The session with the given state whose sink never fails and holds the given bytes. -/
def holding (h : Handler) (stored : List UInt8) : Session := ⟨h, ⟨stored, none, none⟩⟩

/-- The bytes of a reply. -/
def frame (r : Response) : List UInt8 := Frame.encode (Text.Utf8.ofString r.encode)

variable (language)

/-- **One message is one exchange,** and its reply is all that is written. -/
theorem handleMessage_exchange (h : Handler) (stored body : List UInt8) :
    ∃ next reply, Exchange language h body next reply ∧
      ((holding h stored).handleMessage language body).value.1 =
        holding next (stored ++ reply.toList.flatMap frame) := by
  unfold handleMessage
  cases hbody : Request.decode body with
  | error e =>
    refine ⟨h, _, .undecodable hbody, ?_⟩
    rw [Option.toList_some, List.flatMap_singleton]
    rfl
  | ok request =>
    rcases hanswer : (h.handle language request.method request.params).value with ⟨next, answer⟩
    have hstate : (holding h stored).handler = h := rfl
    simp only [Logged.value_bind, hstate, hanswer]
    cases hid : request.id with
    | none =>
      refine ⟨next, none, .notified hbody hid hanswer, ?_⟩
      rw [Option.toList_none, List.flatMap_nil, List.append_nil]
      cases answer with
      | error e => rfl
      | ok result => cases result <;> rfl
    | some id =>
      cases answer with
      | error e =>
        refine ⟨next, _, .failed hbody hid hanswer, ?_⟩
        rw [Option.toList_some, List.flatMap_singleton]
        rfl
      | ok result =>
        cases result with
        | none =>
          refine ⟨next, none, .silent hbody hid hanswer, ?_⟩
          rw [Option.toList_none, List.flatMap_nil, List.append_nil]
          rfl
        | some v =>
          refine ⟨next, _, .succeeded hbody hid hanswer, ?_⟩
          rw [Option.toList_some, List.flatMap_singleton]
          rfl

/-- The session after messages given one after the other. -/
def handleAll (s : Session) (bodies : List (List UInt8)) : Session :=
  bodies.foldl (fun s body => (s.handleMessage language body).value.1) s

theorem handleAll_exchanges (h : Handler) (stored : List UInt8) (bodies : List (List UInt8)) :
    ∃ last replies, Exchanges language h bodies last replies ∧
      handleAll language (holding h stored) bodies =
        holding last (stored ++ (replies.filterMap id).flatMap frame) := by
  -- The state and the bytes stored both move on with each message.
  induction bodies generalizing h stored with
  | nil => exact ⟨h, [], .nil, by simp [handleAll]⟩
  | cons body bodies ih =>
    obtain ⟨next, reply, hfirst, hstored⟩ := handleMessage_exchange language h stored body
    obtain ⟨last, replies, hrest, hall⟩ := ih next (stored ++ reply.toList.flatMap frame)
    refine ⟨last, reply :: replies, .cons hfirst hrest, ?_⟩
    have hsent : ((reply :: replies).filterMap id).flatMap frame =
        reply.toList.flatMap frame ++ (replies.filterMap id).flatMap frame := by
      cases reply <;> simp
    rw [handleAll, List.foldl_cons, hstored, hsent, ← List.append_assoc]
    exact hall

/-- **The replies of a session.** Every list of messages goes through exchanges, one a message, that
lead to the state of the session, and there is only one way. Every reply is an object with the
version of the protocol, the identifier, and exactly one of result and error. If no reply is too
large, the messages read off the output are the replies of the exchanges, in order, each decoded as
its object, and the output ends cleanly. -/
theorem handleAll_replies (bodies : List (List UInt8)) :
    ∃ replies, Exchanges language .fresh bodies
        (handleAll language (.fresh .unlimited) bodies).handler replies ∧
      (∀ last replies', Exchanges language .fresh bodies last replies' → replies' = replies) ∧
      (∀ r, some r ∈ replies →
        r.wire.get? "jsonrpc" = some (.string "2.0") ∧
        r.wire.get? "id" = some ((r.id.map RequestId.toJson).getD .null) ∧
        r.wire.get? "result" = r.result ∧
        r.wire.get? "error" = r.error.map ResponseError.wire ∧
        r.result.isSome = !r.error.isSome) ∧
      ((∀ r, some r ∈ replies → (Text.Utf8.ofString r.encode).length ≤ maxBody) →
        ∃ wires, Frame.readAll none (handleAll language (.fresh .unlimited) bodies).sink.stored =
            (wires, none) ∧
          wires.map Json.decode = (replies.filterMap id).map fun r => .ok r.wire) := by
  obtain ⟨last, replies, hexchanges, hall⟩ := handleAll_exchanges language .fresh [] bodies
  have hsession : handleAll language (.fresh .unlimited) bodies =
      holding last ((replies.filterMap id).flatMap frame) := hall
  rw [hsession]
  refine ⟨replies, hexchanges, ?_, ?_, ?_⟩
  · intro last' replies' hright
    exact (hright.unique hexchanges).2
  · intro r hr
    obtain ⟨hversion, hsendable⟩ := hexchanges.sendable hr
    obtain ⟨hjsonrpc, hid, hresult, herror⟩ := r.get?_wire
    refine ⟨?_, hid, hresult, herror, ?_⟩
    · rw [hjsonrpc, hversion]
      rfl
    · rcases hsendable with ⟨v, hv, hnone, -⟩ | ⟨e, hnone, he, -⟩
      · rw [hv, hnone]
        rfl
      · rw [hnone, he]
        rfl
  · intro hsize
    have hmem : ∀ r ∈ replies.filterMap id, some r ∈ replies := by
      intro r hr
      obtain ⟨reply, hreply, rfl⟩ := List.mem_filterMap.mp hr
      exact hreply
    have hbodies : (replies.filterMap id).flatMap frame =
        ((replies.filterMap id).map fun r => Text.Utf8.ofString r.encode).flatMap Frame.encode := by
      rw [List.flatMap_map]
      rfl
    refine ⟨(replies.filterMap id).map fun r => Text.Utf8.ofString r.encode, ?_, ?_⟩
    · rw [holding, hbodies]
      refine Frame.readAll_flatMap_encode fun body hbody => ?_
      obtain ⟨r, hr, rfl⟩ := List.mem_map.mp hbody
      exact hsize r (hmem r hr)
    · rw [List.map_map]
      refine List.map_congr_left fun r hr => ?_
      rw [Function.comp_apply]
      exact Response.decode_encode (hexchanges.sendable (hmem r hr)).2

end Session

end Language

end LanguageServer
