import SyncRtc.Realtime.Common

/-!
# Meeting messages

`LogicSystem::SendMeetingMessageHandler` and the two handlers that read the history. A message is
stored first and pushed as the row the store answers; whom it is pushed to is read off the request.
-/

set_option autoImplicit false

namespace SyncRtc

/-! ## SEND -/

/-- A request to send a message, with the shape checked. `target` is the private receiver. -/
structure MessageRequest where
  meeting : MeetingId
  target : Option Nat
  content : String
  clientMsgId : String

/-- The target of a request: none for a group message, whose `target_user_id` must be null, a positive
number for a private one. -/
def messageTarget (chatType : String) (target : Json) : Option (Option Nat) :=
  if chatType = "group" then if target.isNull then some none else none
  else if !target.isUInt && !target.isUInt64 && !target.isInt then none
  else if target.isInt && target.asInt.any (· ≤ 0) then none
  else target.asUInt64.bind fun id => if id = 0 then none else some (some id)

/-- The request of a SEND_MEETING_MESSAGE, or what to answer instead. -/
def messageRequest (body : Payload) : Except Reply MessageRequest :=
  match body.root with
  | .error code => .error (Reply.error code)
  | .ok root =>
    match root.get "meeting_id", root.get "chat_type", root.get "content", root.get "client_msg_id",
        root.isMember "target_user_id" with
    | .str meeting, .str chatType, .str content, .str clientMsgId, true =>
      let value : Reply := [("meeting_id", .str meeting), ("client_msg_id", .str clientMsgId)]
      if (chatType ≠ "group" ∧ chatType ≠ "private") ∨ content.isEmpty ∨ content.utf8ByteSize > 2000 ∨
          clientMsgId.isEmpty ∨ clientMsgId.utf8ByteSize > 128 then .error (value.withError .json)
      else
        match messageTarget chatType (root.get "target_user_id"), root.meetingIdText with
        | some target, some id =>
          .ok { meeting := id, target := target, content := content, clientMsgId := clientMsgId }
        | _, _ => .error (value.withError .json)
    | _, _, _, _, _ => .error (Reply.error .json)

/-- The answer so far, once the two members that name the request are known. -/
def messageValue (body : Payload) (r : MessageRequest) : Reply :=
  match body with
  | .value root => [("meeting_id", root.get "meeting_id"), ("client_msg_id", .str r.clientMsgId)]
  | _ => []

/-- The row the handler hands to `SaveMeetingMessage`. -/
def MessageRequest.row (r : MessageRequest) (uid : Uid) : MeetingMessageInfo where
  meetingId := r.meeting
  senderUserId := uid
  receiverUserId := r.target
  clientMsgId := r.clientMsgId
  content := r.content
  contentType := 0

/-- Whom the handler pushes to: everyone for a group request, sender and target for a private one.
`static_cast<int>` keeps the low 32 bits of the target; what it yields above `2 ^ 31` is no user. -/
def MessageRequest.isFor (r : MessageRequest) (uid user : Uid) : Bool :=
  match r.target with
  | none => true
  | some target => decide (user = uid) || decide (user = target % 2 ^ 32)

/-- The checks of a SEND after its shape: the session's place, the memberships, the meeting. The
answer is the sender's name. -/
def messageChecks (s : SessionId) (uid : Uid) (r : MessageRequest) : Op (Except ErrorCode String) := do
  if uid = 0 then return .error .token
  let session ← getSession s
  if session.meetingId ≠ r.meeting then return .error .meetingAccess
  let sender : Bool ← query .messageSender (.sIsMember r.meeting uid)
  if !sender then return .error .meetingAccess
  let target : Bool ← match r.target with
    | none => pure true
    | some target => query .messageTarget (.sIsMember r.meeting target)
  if !target then return .error .meetingAccess
  match ← query .messageInfo (.getMeetingInfoById r.meeting) with
  | .missing => return .error .meetingNotFound
  | .unavailable => return .error .meetingNotFound
  | .found info =>
    if info.status = .kEnded ∨ info.status = .kCancelled then return .error .meetingStatus
    let name : Option String ← query .messageName (.getUserDisplayNameById uid)
    match name with
    | none => return .error .mysql
    | some name => return .ok name

/-- The body of `LogicSystem::SendMeetingMessageHandler`. -/
def sendMessageBody (room : MeetingId) (s : SessionId) (body : Payload) : Op Reply := do
  match messageRequest body with
  | .error reply => return reply
  | .ok r =>
    let value := messageValue body r
    let session ← getSession s
    let uid := session.userId
    match ← messageChecks s uid r with
    | .error code => return value.withError code
    | .ok name =>
      let saved : Option MeetingMessageInfo ← query .messageSave (.saveMeetingMessage (r.row uid))
      match saved with
      | none => return value.withError .mysql
      | some row =>
        let message := meetingMessageToJson row name true
        broadcast room .meetingMessagePush message (r.isFor uid)
        return message.withError .success

def sendMeetingMessageHandler (room : MeetingId) (s : SessionId) (body : Payload) : Op Unit := do
  let value ← sendMessageBody room s body
  let _ ← send s .sendMeetingMessageResponse value

/-! ## History -/

/-- `before_message_id` and `limit` of a history request: absent or null reads as the default. -/
def optionalUInt64 (root : Json) (name : String) : Option (Option Nat) :=
  if root.isMember name && !(root.get name).isNull then (readUInt64Value (root.get name)).map some
  else some none

/-- A request for a page of messages. -/
structure PageRequest where
  meeting : MeetingId
  before : Nat
  limit : Nat

/-- The members the two history requests share. -/
def pageRequest (root : Json) : Option PageRequest :=
  match readUInt64Value (root.get "meeting_id"), optionalUInt64 root "before_message_id",
      optionalUInt64 root "limit" with
  | some meeting, some before, some limit =>
    if !root.isMember "meeting_id" || meeting = 0 || limit = some 0 then none
    else some { meeting := meeting, before := before.getD 0, limit := min (limit.getD 50) 100 }
  | _, _, _ => none

/-- One message of a page, with its sender's name. -/
def pageMessage (site : Site) (uid : Uid) (row : MeetingMessageInfo) : Op Json := do
  let name : Option String ← query site (.getUserDisplayNameById row.senderUserId)
  return .obj (meetingMessageToJson row (name.getD ("用户 " ++ toString row.senderUserId))
    (decide (row.senderUserId = uid)))

/-- The answer with its page. -/
def pageReply (site : Site) (uid : Uid) (value : Reply) (rows : Option (List MeetingMessageInfo)) :
    Op Reply := do
  match rows with
  | none => return value.withError .mysql
  | some rows =>
    let messages ← Prog.collect (pageMessage site uid) rows
    return (value.withError .success).set "messages" (.arr messages)

/-- The body of `LogicSystem::GetMeetingGroupMessagesHandler`. -/
def groupMessagesBody (s : SessionId) (body : Payload) : Op Reply := do
  match body.root with
  | .error code => return Reply.error code
  | .ok root =>
    match pageRequest root with
    | none => return Reply.error .json
    | some r =>
      let value : Reply :=
        [("meeting_id", idText r.meeting), ("before_message_id", .int r.before), ("limit", .int r.limit)]
      let session ← getSession s
      let uid := session.userId
      if uid = 0 then return value.withError .token
      let session ← getSession s
      if session.meetingId ≠ r.meeting then return value.withError .meetingAccess
      let isMember : Bool ← query .groupMember (.sIsMember r.meeting uid)
      if !isMember then return value.withError .meetingAccess
      let rows : Option (List MeetingMessageInfo) ←
        query .groupPage (.getMeetingGroupMessages r.meeting r.before r.limit)
      pageReply .groupName uid value rows

def getMeetingGroupMessagesHandler (s : SessionId) (body : Payload) : Op Unit := do
  let value ← groupMessagesBody s body
  let _ ← send s .getMeetingGroupMessagesResponse value

/-- The body of `LogicSystem::GetMeetingPrivateMessagesHandler`. -/
def privateMessagesBody (s : SessionId) (body : Payload) : Op Reply := do
  match body.root with
  | .error code => return Reply.error code
  | .ok root =>
    match pageRequest root, (readUInt64Value (root.get "peer_user_id")).filter (· ≠ 0) with
    | some r, some peer =>
      let value : Reply :=
        [("meeting_id", idText r.meeting), ("peer_user_id", .int peer),
         ("before_message_id", .int r.before), ("limit", .int r.limit)]
      let session ← getSession s
      let uid := session.userId
      if uid = 0 then return value.withError .token
      let session ← getSession s
      if session.meetingId ≠ r.meeting ∨ uid = peer ∨ peer > 2147483647 then
        return value.withError .meetingAccess
      let isMember : Bool ← query .privateMember (.sIsMember r.meeting uid)
      if !isMember then return value.withError .meetingAccess
      let isPeer : Bool ← query .privatePeer (.sIsMember r.meeting peer)
      if !isPeer then return value.withError .meetingAccess
      let rows : Option (List MeetingMessageInfo) ←
        query .privatePage (.getMeetingPrivateMessages r.meeting uid peer r.before r.limit)
      pageReply .privateName uid value rows
    | _, _ => return Reply.error .json

def getMeetingPrivateMessagesHandler (s : SessionId) (body : Payload) : Op Unit := do
  let value ← privateMessagesBody s body
  let _ ← send s .getMeetingPrivateMessagesResponse value

end SyncRtc
