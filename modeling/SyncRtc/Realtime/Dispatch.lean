import SyncRtc.Realtime.Join
import SyncRtc.Realtime.Lifecycle
import SyncRtc.Realtime.Reconnect
import SyncRtc.Realtime.Chat
import SyncRtc.Realtime.Media
import SyncRtc.Realtime.Account

/-!
# Routing and dispatch

`LogicDispatch.cpp`: a command leaves its connection's queue (`route`), finds the room it belongs to,
passes the fences of that room (`dispatch`) and reaches its handler. A command that belongs to no
meeting is dispatched where it stands, in room 0.

Exceptions leave the code at three places, and what the client hears differs: an exception in `route`
is answered by the queue entry's own catch (`PostMsgToQue`), one in a handler by the handler's
`Defer`, and one in `dispatch` before the handler by nobody.
-/

set_option autoImplicit false

namespace SyncRtc

/-- `LogicSystem::ReplyError`. -/
def replyError (s : SessionId) (id : RequestID) (code : ErrorCode) : Op Unit := do
  match responseId id with
  | none => return
  | some response =>
    let _ ← send s response (Reply.error code)

/-! ## Dispatch -/

/-- The entries of `maps` a client's request can reach. -/
def hasHandler : RequestID → Bool
  | .authLoginRequest | .aiAskRequest | .createMeetingRequest | .pastMeetingRequest
  | .joinMeetingRequest | .resumeMeetingRequest | .startMeetingRequest | .leaveMeetingRequest
  | .endMeetingRequest | .sendMeetingMessageRequest | .getMeetingGroupMessagesRequest
  | .getMeetingPrivateMessagesRequest | .mediaOfferRequest | .mediaCandidateRequest
  | .mediaRenegotiationAnswerRequest => true
  | _ => false

/-- JOIN and RESUME, the two requests that bind a session to a member. -/
def isEntry (id : RequestID) : Bool := id = .joinMeetingRequest || id = .resumeMeetingRequest

/-- `handler->second(op, room, session, id, message)`. -/
def handle (room : MeetingId) (s : SessionId) (r : Request) : Op Unit :=
  match r.id with
  | .authLoginRequest => loginHandler s r.body
  | .aiAskRequest => aiAskHandler s r.body
  | .createMeetingRequest => createMeetingHandler s r.body
  | .pastMeetingRequest => getPastMeetingHandler s
  | .joinMeetingRequest => joinMeetingHandler room s false r.body
  | .resumeMeetingRequest => joinMeetingHandler room s true r.body
  | .startMeetingRequest => startMeetingHandler room s r.body
  | .leaveMeetingRequest => leaveMeetingHandler room s r.body
  | .endMeetingRequest => endMeetingHandler room s r.body
  | .sendMeetingMessageRequest => sendMeetingMessageHandler room s r.body
  | .getMeetingGroupMessagesRequest => getMeetingGroupMessagesHandler s r.body
  | .getMeetingPrivateMessagesRequest => getMeetingPrivateMessagesHandler s r.body
  | .mediaOfferRequest => mediaOfferHandler s r.body
  | .mediaCandidateRequest => mediaCandidateHandler s r.body
  | .mediaRenegotiationAnswerRequest => mediaAnswerHandler s r.body
  | _ => .pure ()

/-- What the room fence says to a request that names a meeting of its own. -/
inductive Fence where
  | pass
  /-- The parser throws: the exception ends the operation, and no answer is sent. -/
  | throws
  | refuse (code : ErrorCode)
  deriving DecidableEq

/-- The room fence: a user in a room may not name another one. Unlike the handlers it reads a text as
far as it is a number. -/
def roomFence (room : MeetingId) (body : Payload) : Fence :=
  match body with
  | .throws => .throws
  | .malformed => .pass
  | .value root =>
    if root.isObject && root.isMember "meeting_id" then
      let requested := match root.get "meeting_id" with
        | .str text => (stoull text).map Prod.fst
        | value => value.asUInt64
      match requested with
      | none => .refuse .json
      | some id => if id ≠ room then .refuse .meetingAccess else .pass
    else .pass

/-- The handler of a request. JOIN and RESUME run under a reservation of the user for the room, which
is settled when the handler ends, whichever way. -/
def handleReserved (room : MeetingId) (s : SessionId) (r : Request) : Op Unit := do
  if isEntry r.id then
    let session ← getSession s
    let uid := session.userId
    let reserved : Bool ← call (.reserveUser uid room)
    if reserved then
      handle room s r
      let session ← getSession s
      call (.finishJoin uid room (decide (session.meetingId = room)))
    else replyError s r.id .meetingAccess
  else handle room s r

/-- Whether the session may act as its user in the room: it is the one the member is bound to, or the
user is no member. -/
def bindingFence (room : MeetingId) (s : SessionId) : Op Bool := do
  let session ← getSession s
  let data ← getRoom room
  match data.members session.userId with
  | none => return true
  | some member =>
    let bound ← lock member.session
    return bound = some s

/-- The binding fence where it applies: in a room, for anything but JOIN and RESUME. A connection that
has been replaced may not act on the new one's member. -/
def mayAct (room : MeetingId) (s : SessionId) (r : Request) : Op Bool :=
  if room ≠ 0 ∧ isEntry r.id = false then bindingFence room s else .pure true

/-- The place in the storage pool an operation takes before its first state change; AI requests have a
pool of their own. -/
def reserveFor (r : Request) : Op Bool :=
  if r.id = .aiAskRequest then .pure true else reservePool false

/-- The room fence where it applies: in a room, for anything but JOIN. -/
def fenceFor (room : MeetingId) (r : Request) : Fence :=
  if room ≠ 0 ∧ r.id ≠ .joinMeetingRequest then roomFence room r.body else .pass

/-- `LogicSystem::Dispatch` of a request, past the two checks that drop it silently. -/
def admitRequest (room : MeetingId) (s : SessionId) (r : Request) : Op Unit := do
  if ← mayAct room s r then
    if ← reserveFor r then
      match fenceFor room r with
      | .throws => return
      | .refuse code => replyError s r.id code
      | .pass => handleReserved room s r
    else replyError s r.id .network
  else replyError s r.id .meetingAccess

/-- `LogicSystem::Dispatch` of a request. -/
def dispatchRequest (room : MeetingId) (s : SessionId) (r : Request) : Op Unit :=
  if hasHandler r.id then do
    let session ← getSession s
    if session.closed then return
    else admitRequest room s r
  else .pure ()

/-- `LogicSystem::Dispatch`. -/
def dispatch (room : MeetingId) (s : SessionId) : Command → Op Unit
  | .request r => dispatchRequest room s r
  | .disconnected => do
    let _ ← reservePool true
    sessionDisconnectedHandler room s

/-! ## Route -/

/-- The meeting code of a JOIN as `Route` reads it. -/
def joinCode (body : Payload) : Except ErrorCode String :=
  match body.root with
  | .error code => .error code
  | .ok root =>
    match root.get "meeting_code" with
    | .str code => if code.isEmpty then .error .json else .ok code
    | _ => .error .json

/-- The meeting a request names: a text that is a number as a whole, or a number. -/
def namedMeeting (root : Json) : MeetingId :=
  match root.get "meeting_id" with
  | .str text => (stoullWhole text).getD 0
  | value => if value.isUInt64 then value.asUInt64.getD 0 else 0

/-- The requests that do not look for a meeting when the session is in none. -/
def isOrdinary (id : RequestID) : Bool :=
  id = .authLoginRequest || id = .createMeetingRequest || id = .pastMeetingRequest || id = .aiAskRequest

/-- Where a command goes: to a room (0 is the ordinary one), or nowhere, with the error to answer. -/
def routeTarget (s : SessionId) : Command → Op (Except ErrorCode MeetingId)
  | .disconnected => do
    let session ← getSession s
    return .ok session.meetingId
  | .request r => do
    let session ← getSession s
    let meeting := session.meetingId
    if r.id = .joinMeetingRequest then
      if meeting ≠ 0 then return .error .meetingAccess
      let session ← getSession s
      if session.userId = 0 then return .error .json
      match joinCode r.body with
      | .error code => return .error code
      | .ok code =>
        let reserved ← reservePool false
        if !reserved then return .error .network
        let info : Option MeetingInfo ← query .routeCode (.getMeetingInfoByCode code)
        return info.elim (.error .meetingNotFound) fun info => .ok info.meetingId
    else if meeting = 0 ∧ !isOrdinary r.id then
      match r.body with
      | .throws => return .error .network
      | .malformed => return .ok 0
      | .value root => return .ok (if root.isObject then namedMeeting root else 0)
    else return .ok meeting

/-- The answer to a command that could not be routed. -/
def routeError (s : SessionId) (code : ErrorCode) : Command → Op Unit
  | .request r => replyError s r.id code
  | .disconnected => .pure ()

/-- `LogicSystem::Route`, as the queue entry of `PostMsgToQue` calls it. The answer is the room the
connection has to wait for, if one has accepted the command. -/
def route (s : SessionId) (command : Command) : Op (Option MeetingId) := do
  let closed : Bool ← match command with
    | .disconnected => pure false
    | .request _ => do
      let session ← getSession s
      pure session.closed
  if closed then return none
  match ← routeTarget s command with
  | .error code =>
    routeError s code command
    return none
  | .ok meeting =>
    if meeting = 0 then
      dispatch 0 s command
      return none
    let accepted ← submitRoom meeting (.dispatch s command)
    if accepted then return some meeting
    routeError s .network command
    return none

/-! ## Tasks of a room, and MediaServer's messages -/

/-- The room operation of a message of MediaServer. -/
def mediaReply (room : MeetingId) (epoch id : Nat) (registered : SessionId) (message : Payload) :
    Op Unit := do
  let accepted : Bool ← call (.acceptMediaEvent .message epoch)
  if !accepted then return
  let bound ← lock registered
  let current ← findSignal id
  match current with
  | none => return
  | some signal =>
    if signal.epoch ≠ epoch then return
    let now ← lock signal.session
    if now ≠ bound then return
    mediaSignalResponseHandler room message

/-- What a room's queue entry runs. -/
def Task.op (room : MeetingId) : Task → Op Unit
  | .dispatch s command => SyncRtc.dispatch room s command
  | .expire uid => expireMemberHandler room uid
  | .mediaReply epoch id registered message => SyncRtc.mediaReply room epoch id registered message

/-- The operation of the control queue: an event of the MediaServer link. A message is handed to the
room its association names. -/
def controlOp (event : MediaEvent) (epoch : Nat) (message : Payload) : Op Unit := do
  let accepted : Bool ← call (.acceptMediaEvent event epoch)
  if !accepted then return
  match message.root with
  | .error _ => return
  | .ok root =>
    let member := root.get "signal_id"
    match if member.isUInt64 then member.asUInt64 else none with
    | none => return
    | some id =>
      match ← findSignal id with
      | none => return
      | some signal =>
        if signal.epoch ≠ epoch ∨ signal.meeting = 0 then return
        let accepted ← submitRoom signal.meeting (.mediaReply epoch id signal.session message)
        if !accepted then call (.invalidate epoch)

end SyncRtc
