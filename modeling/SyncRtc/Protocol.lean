import SyncRtc.Json

/-!
# Message ids and error codes

`global.h` of RealtimeServer: every frame carries a request id, every answer an error code. The
internal events of the server (disconnect, timer, media) have ids a client cannot send, and are not
ids here: they are commands of their own (`SyncRtc.Command`).
-/

set_option autoImplicit false

namespace SyncRtc

/-- `ErrorCodes`, those RealtimeServer answers with, and the two AI codes of `LogicSystem.cpp`. -/
inductive ErrorCode where
  | success
  | json
  | redis
  | mysql
  | network
  | password
  | meetingNotFound
  | meetingStatus
  | meetingFull
  | meetingAccess
  | token
  | aiEmptyQuestion
  | aiRequestFailed
  /-- Any other code: AIServer reports its own. -/
  | other (code : Int)
  deriving DecidableEq

/-- The code on the wire. -/
def ErrorCode.toInt : ErrorCode → Int
  | .success => 0
  | .json => 1
  | .redis => 2
  | .mysql => 3
  | .network => 101
  | .password => 103
  | .meetingNotFound => 104
  | .meetingStatus => 105
  | .meetingFull => 106
  | .meetingAccess => 107
  | .token => 112
  | .aiEmptyQuestion => 1001
  | .aiRequestFailed => 2002
  | .other code => code

/-- `RequestID`: requests, responses and notifications. `unknown` is any id the server gives no
meaning to; a client may send it. -/
inductive RequestID where
  | authLoginRequest | authLoginResponse
  | createMeetingRequest | createMeetingResponse
  | pastMeetingRequest | pastMeetingResponse
  | joinMeetingRequest | joinMeetingResponse
  | startMeetingRequest | startMeetingResponse
  | meetingStarted
  | leaveMeetingRequest | leaveMeetingResponse
  | endMeetingRequest | endMeetingResponse
  | meetingEnded
  | sendMeetingMessageRequest | sendMeetingMessageResponse
  | meetingMessagePush
  | meetingMemberJoined | meetingMemberLeft
  | meetingMemberReconnecting | meetingMemberReconnected | meetingMemberTimeoutLeft
  | getMeetingGroupMessagesRequest | getMeetingGroupMessagesResponse
  | getMeetingPrivateMessagesRequest | getMeetingPrivateMessagesResponse
  | mediaOfferRequest | mediaCandidateRequest
  | mediaAnswerResponse | mediaCandidateResponse
  | mediaRenegotiationOffer | mediaRenegotiationAnswerRequest
  | aiAskRequest | aiAskResponse
  | resumeMeetingRequest | resumeMeetingResponse
  | unknown (id : Nat)
  deriving DecidableEq

/-- `ResponseId`: the id a request is answered under; none for an id that is not answered. -/
def responseId : RequestID → Option RequestID
  | .authLoginRequest => some .authLoginResponse
  | .createMeetingRequest => some .createMeetingResponse
  | .pastMeetingRequest => some .pastMeetingResponse
  | .joinMeetingRequest => some .joinMeetingResponse
  | .resumeMeetingRequest => some .resumeMeetingResponse
  | .startMeetingRequest => some .startMeetingResponse
  | .leaveMeetingRequest => some .leaveMeetingResponse
  | .endMeetingRequest => some .endMeetingResponse
  | .sendMeetingMessageRequest => some .sendMeetingMessageResponse
  | .getMeetingGroupMessagesRequest => some .getMeetingGroupMessagesResponse
  | .getMeetingPrivateMessagesRequest => some .getMeetingPrivateMessagesResponse
  | .mediaOfferRequest => some .mediaAnswerResponse
  | .mediaCandidateRequest => some .mediaCandidateResponse
  | .aiAskRequest => some .aiAskResponse
  | _ => none

/-- A client's request: its id and its payload. -/
structure Request where
  id : RequestID
  body : Payload

/-- The members of an answer, in the order the handler sets them. -/
abbrev Reply := List (String × Json)

namespace Reply

/-- `value[name] = item`. -/
def set (reply : Reply) (name : String) (item : Json) : Reply :=
  reply.filter (fun f => decide (f.1 ≠ name)) ++ [(name, item)]

/-- `value["error"] = code`, next to what the answer already holds. -/
def withError (reply : Reply) (code : ErrorCode) : Reply := reply.set "error" (.int code.toInt)

/-- An answer that is an error and nothing else. -/
def error (code : ErrorCode) : Reply := Reply.withError [] code

/-- The `error` member of an answer. -/
def errorCode (reply : Reply) : Option Int :=
  match (Json.obj reply).get "error" with
  | .int code => some code
  | _ => none

theorem get_set (reply : Reply) (name : String) (item : Json) :
    (Json.obj (reply.set name item)).get name = item := by
  have hnone : (reply.filter fun f => decide (f.1 ≠ name)).find? (fun f => f.1 = name) = none :=
    List.find?_eq_none.mpr fun f hf => by simpa using (List.mem_filter.mp hf).2
  simp only [Json.get, set, List.find?_append, hnone, Option.none_or, List.find?_cons, decide_true,
    Option.elim_some]

theorem get_set_of_ne {name other : String} (h : other ≠ name) (reply : Reply) (item : Json) :
    (Json.obj (reply.set name item)).get other = (Json.obj reply).get other := by
  have hnone : [(name, item)].find? (fun f => f.1 = other) = none := by
    simp [Ne.symm h]
  have hpred : (fun f : String × Json => decide (decide (f.1 ≠ name) = true ∧ decide (f.1 = other) = true)) =
      fun f => decide (f.1 = other) := by
    funext f
    by_cases hf : f.1 = other
    · simp [hf, h]
    · simp [hf]
  simp only [Json.get, set, List.find?_append, hnone, Option.or_none, List.find?_filter, hpred]

@[simp] theorem errorCode_withError (reply : Reply) (code : ErrorCode) :
    (reply.withError code).errorCode = some code.toInt := by
  simp only [errorCode, withError, get_set]

end Reply

/-- What a malformed payload is answered with: `reader.parse` returned false, or it threw and the
answer is sent while the exception is on its way. -/
def Payload.root : Payload → Except ErrorCode Json
  | .throws => .error .network
  | .malformed => .error .json
  | .value root => if root.isObject then .ok root else .error .json

end SyncRtc
