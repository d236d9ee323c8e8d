import SyncRtc.Realtime.Common

/-!
# JOIN and RESUME

`LogicSystem::JoinMeeetingHandler` in its four stages: the request and the admission checks, which
write nothing; the writes to the two stores, with what they undo; the rebinding of the member to the
session; the answer and the broadcasts. A stage that ends the request early answers
`Except.error` with the answer to send.

RESUME is JOIN by ticket: it names no meeting code, needs a member this process knows, and keeps that
member's ticket.
-/

set_option autoImplicit false

namespace SyncRtc

/-- `kReconnectGraceSeconds`. -/
def reconnectGraceSeconds : Nat := 45

/-! ## The request -/

/-- The object a JOIN or RESUME carries, and its meeting code. `asString` of a RESUME's meeting code
throws for an array or an object. -/
def joinRoot (resuming : Bool) (body : Payload) : Except Reply (Json × String) :=
  match body.root with
  | .error code => .error (Reply.error code)
  | .ok root =>
    if !resuming && !(root.get "meeting_code").isString then .error (Reply.error .json)
    else
      match (root.get "meeting_code").asString with
      | none => .error (Reply.error .network)
      | some code =>
        if !resuming && code.isEmpty then .error (Reply.error .json) else .ok (root, code)

/-- What a RESUME identifies itself by. -/
structure Credentials where
  ticket : String
  request : String
  /-- `known_generation`. -/
  known : Nat

/-- The credentials of a RESUME, when they have the right shape. -/
def resumeCredentials (root : Json) : Option Credentials :=
  match root.get "request_id", root.get "resume_ticket",
      readUInt64Value (root.get "membership_generation") with
  | .str request, .str ticket, some known =>
    if request.isEmpty ∨ request.utf8ByteSize > 64 then none else some ⟨ticket, request, known⟩
  | _, _, _ => none

/-- The credential check of a RESUME apart from the deadline: the member's ticket, the token its
session logged in with, and a generation that is the current one, or an older one that repeats the
last accepted request. -/
def Membership.admits (member : Membership) (c : Credentials) (token : String) : Bool :=
  member.ticket == c.ticket && !member.authToken.isEmpty && member.authToken == token &&
    (c.known == member.generation || (decide (c.known < member.generation) && member.lastRequest == c.request))

/-! ## Admission -/

/-- The meeting of the request, when it is the room's and still admits anyone. -/
def joinInfo (room : MeetingId) (resuming : Bool) (code : String) : Op (Except Reply MeetingInfo) := do
  let checked (info : MeetingInfo) : Except Reply MeetingInfo :=
    if info.meetingId ≠ room then .error (Reply.error .meetingNotFound)
    else if info.status = .kCancelled ∨ info.status = .kEnded then .error (Reply.error .meetingStatus)
    else .ok info
  if resuming then
    match ← query .joinInfo (.getMeetingInfoById room) with
    | .found info => return checked info
    | .missing => return .error (Reply.error .meetingNotFound)
    | .unavailable => return .error (Reply.error .mysql)
  else
    match ← query .joinInfo (.getMeetingInfoByCode code) with
    | some info => return checked info
    | none => return .error (Reply.error .meetingNotFound)

/-- The deadline part of the credential check. The answer carries the time of the check, if there was
one. -/
def deadlineOpen (deadline : Option Nat) : Op (Option (Option Nat)) := do
  match deadline with
  | none => return some none
  | some d =>
    let now ← steadyNow
    return if d ≤ now then none else some (some now)

/-- The credential check of a RESUME; `value` is the answer so far. -/
def resumeCheck (room : MeetingId) (s : SessionId) (uid : Uid) (c : Credentials) (value : Reply) :
    Op (Except Reply (Option Nat)) := do
  let data ← getRoom room
  match data.members uid with
  | none => return .error (value.withError .meetingAccess)
  | some member =>
    let session ← getSession s
    if !member.admits c session.authToken then return .error (value.withError .meetingAccess)
    match ← deadlineOpen member.deadline with
    | none => return .error (value.withError .meetingAccess)
    | some checkedAt => return .ok checkedAt

/-- The password check of a JOIN. -/
def joinPassword (info : MeetingInfo) (root : Json) (value : Reply) : Op (Except Reply Unit) := do
  match root.get "password" with
  | .str password =>
    match ← query .joinPasswordHash (.getMeetingPasswordHash info.meetingId) with
    | none => return .error (value.withError .password)
    | some hash =>
      let ok : Bool ← query .joinPassword (.checkMeetingPassword password hash)
      return if ok then .ok () else .error (value.withError .password)
  | _ => return .error (value.withError .password)

/-- A JOIN of a uid that is in the member set takes the place of one that is waiting for its
reconnection, and of no other. -/
def rejoinCheck (room : MeetingId) (uid : Uid) (value : Reply) : Op (Except Reply Unit) := do
  let state : Option RoomState ← query .joinState (.hGetRoomState room uid)
  if state ≠ some .reconnecting then return .error (value.withError .meetingAccess)
  let deadline : Option Nat ← query .joinDeadline (.hGetDeadline room uid)
  match deadline with
  | none => return .error (value.withError .meetingAccess)
  | some deadline =>
    let now ← wallNow
    return if deadline ≤ now then .error (value.withError .meetingAccess) else .ok ()

/-- What the admission stage hands on. -/
structure Admission where
  info : MeetingInfo
  alreadyInRoom : Bool
  isReconnected : Bool

/-- The member set against the request: whether the uid is in it, and whether it may come in. -/
def joinPlace (room : MeetingId) (uid : Uid) (resuming : Bool) (info : MeetingInfo) (value : Reply) :
    Op (Except Reply Admission) := do
  let found : Option (List Uid) ← query .joinSnapshot (.sMembers room)
  match found with
  | none => return .error (value.withError .redis)
  | some members =>
    let alreadyInRoom := decide (uid ∈ members)
    if !alreadyInRoom && decide (info.maxParticipants ≤ members.length) then
      return .error (value.withError .meetingFull)
    if resuming && !alreadyInRoom then return .error (value.withError .meetingAccess)
    if alreadyInRoom && !resuming then
      match ← rejoinCheck room uid value with
      | .error reply => return .error reply
      | .ok _ => return .ok ⟨info, true, true⟩
    return .ok ⟨info, alreadyInRoom, resuming⟩

/-! ## The stores -/

/-- The compensating `SRem`: only of a uid this request added. -/
def joinUndo (room : MeetingId) (uid : Uid) (alreadyInRoom : Bool) : Op Unit := do
  if !alreadyInRoom then
    let _ : Bool ← query .joinUndo (.sRem room uid)

/-- The writes of JOIN and RESUME, in the order of the source, each followed by what its failure
undoes. The answer is the member set after them. -/
def joinStore (room : MeetingId) (uid : Uid) (resuming : Bool) (a : Admission) (value : Reply) :
    Op (Except Reply (List Uid)) := do
  let added : Bool ← query .joinAdd (.sAdd room uid)
  if !added then return .error (value.withError .redis)
  if !resuming then
    let part : Bool ← query .joinParticipation (.updateMeetingPart a.info uid)
    if !part then
      joinUndo room uid a.alreadyInRoom
      return .error (value.withError .meetingAccess)
  let status : Bool ← query .joinPresenceStatus (.hSetPresenceStatus uid .inMeeting)
  if !status then
    joinUndo room uid a.alreadyInRoom
    return .error (value.withError .redis)
  let meeting : Bool ← query .joinPresenceMeeting (.hSetPresenceMeeting uid (some room))
  if !meeting then
    joinUndo room uid a.alreadyInRoom
    return .error (value.withError .redis)
  if !a.alreadyInRoom then
    let state : Bool ← query .joinRoomState (.hSetRoomState room uid .active)
    if !state then
      joinUndo room uid false
      return .error (value.withError .redis)
  if a.isReconnected then
    let activated : Bool ← query .joinActivate (.activateMember room uid)
    if !activated then return .error (value.withError .redis)
  let members : Option (List Uid) ← query .joinMembers (.sMembers room)
  match members with
  | none => return .error (value.withError .redis)
  | some members => return .ok members

/-! ## The rebinding -/

/-- The member after the request was accepted, and the event the ghost history records. -/
def rebound (old : Option Membership) (uid : Uid) (s : SessionId) (previous : Option SessionId)
    (token ticket : String) (resume : Option (Credentials × Option Nat)) : Membership × RoomEvent :=
  match resume, old with
  | some (c, checkedAt), some member =>
    let generation := if previous = some s then member.generation else member.generation + 1
    ({ member with
        generation := generation, session := s, deadline := none, lastRequest := c.request },
      .resumed uid s token c.ticket c.request c.known checkedAt)
  | _, _ =>
    ({ ticket := ticket, authToken := token, lastRequest := "", session := s }, .joined uid s token ticket)

/-- The sessions that stay in the list: not the new one, and after a reconnection none of the uid. -/
def staysInRoom (s : SessionId) (uid : Uid) (isReconnected : Bool) (item : SessionId) : Op Bool := do
  match ← lock item with
  | none => return false
  | some active =>
    if active = s then return false
    if isReconnected then
      let session ← getSession active
      return session.userId ≠ uid
    return true

/-- The session a member is bound to, if its object is left. -/
def boundSession (member : Option Membership) : Op (Option SessionId) :=
  match member with
  | some member => lock member.session
  | none => .pure none

/-- The session the member was bound to before, when it is another one: it loses its media association
and its meeting, and is closed. -/
def displace (previous : Option SessionId) (s : SessionId) : Op Unit :=
  match previous with
  | some p =>
    if p = s then .pure ()
    else do
      releaseMediaSession p
      setMeetingId p 0
      requestClose p
  | none => .pure ()

/-- Bind the member to the session, give the session the meeting and a place in the list. -/
def joinBind (room : MeetingId) (s : SessionId) (uid : Uid) (isReconnected : Bool) (ticket : String)
    (resume : Option (Credentials × Option Nat)) : Op Membership := do
  let data ← getRoom room
  let old := data.members uid
  let previous ← boundSession old
  displace previous s
  let session ← getSession s
  let bound := rebound old uid s previous session.authToken ticket resume
  let data ← getRoom room
  setRoom room { data with
    members := Function.update data.members uid (some bound.1), history := bound.2 :: data.history }
  setMeetingId s room
  pruneSessions room (staysInRoom s uid isReconnected)
  let data ← getRoom room
  setRoom room { data with sessions := data.sessions ++ [s] }
  return bound.1

/-! ## The answer -/

/-- A member as the answer lists it. -/
def memberJson (room : MeetingId) (self member : Uid) : Op Reply := do
  let state : Option RoomState ← query .joinMemberState (.hGetRoomState room member)
  let name : Option String ← query .joinMemberName (.getUserDisplayNameById member)
  return [("user_id", .int member), ("is_self", .bool (member = self)),
    ("room_state", .str (roomStateText state)),
    ("name", .str (name.getD ("Member " ++ toString member)))]

/-- The broadcast of a new member, as the answer lists it. -/
def joinedNotice (room : MeetingId) (uid : Uid) (alreadyInRoom : Bool) (joined : Option (Uid × Reply))
    (count : Nat) : Op Unit :=
  match alreadyInRoom, joined with
  | false, some (_, member) =>
    broadcast room .meetingMemberJoined
      [("meeting_id", idText room), ("member", .obj (member.set "is_self" (.bool false))),
       ("current_participants", .int count)]
      (fun u => decide (u ≠ uid))
  | _, _ => .pure ()

/-- The broadcast of a member that is back. -/
def returnedNotice (room : MeetingId) (uid : Uid) (isReconnected : Bool) : Op Unit :=
  if isReconnected then
    broadcast room .meetingMemberReconnected
      [("meeting_id", idText room), ("user_id", .int uid), ("room_state", .str "active")]
      (fun u => decide (u ≠ uid))
  else .pure ()

/-- The answer of an accepted request, and the two broadcasts. -/
def joinAnswer (room : MeetingId) (uid : Uid) (a : Admission) (members : List Uid) (value : Reply) :
    Op Reply := do
  let listed ← Prog.collect (memberJson room uid) members
  let array : Json := .arr (listed.map .obj)
  let role := if a.info.creatorUserId = uid then "host" else "participant"
  let value := value ++
    [("error", .int ErrorCode.success.toInt), ("meeting_id", idText room),
     ("meeting_code", .str a.info.meetingCode), ("status", .str (meetingStatusText a.info.status)),
     ("role", .str role), ("members", array), ("title", .str a.info.title),
     ("creator_user_id", .int a.info.creatorUserId), ("max_participants", .int a.info.maxParticipants),
     ("current_participants", .int members.length), ("member_uids", array)]
  joinedNotice room uid a.alreadyInRoom ((members.zip listed).reverse.find? fun m => m.1 = uid) members.length
  returnedNotice room uid a.isReconnected
  return value

/-! ## The handler -/

/-- What a RESUME adds to every answer from its credential check on. -/
def resumeValue (root : Json) : Reply := [("request_id", root.get "request_id")]

/-- The checks before the member set is read: the meeting, and the credentials of a RESUME or the
password of a JOIN. -/
def joinChecks (room : MeetingId) (s : SessionId) (uid : Uid) (resuming : Bool) (root : Json)
    (code : String) :
    Op (Except Reply (MeetingInfo × Option (Credentials × Option Nat))) := do
  match ← joinInfo room resuming code with
  | .error reply => return .error reply
  | .ok info =>
    if resuming then
      match resumeCredentials root with
      | none => return .error (Reply.error .json)
      | some c =>
        match ← resumeCheck room s uid c (resumeValue root) with
        | .error reply => return .error reply
        | .ok checkedAt => return .ok (info, some (c, checkedAt))
    else if info.requiresPassword then
      match ← joinPassword info root [] with
      | .error reply => return .error reply
      | .ok _ => return .ok (info, none)
    else return .ok (info, none)

/-- The ticket of the member the request makes: a RESUME keeps the member's, a JOIN draws one, before
any write, because the random source may fail. -/
def joinTicket (room : MeetingId) (uid : Uid) (resuming : Bool) : Op (Option String) := do
  if resuming then
    let data ← getRoom room
    return (data.members uid).map Membership.ticket
  else call .newResumeTicket

/-- The body of `LogicSystem::JoinMeeetingHandler`: everything but sending the answer. -/
def joinBody (room : MeetingId) (s : SessionId) (resuming : Bool) (body : Payload) : Op Reply := do
  match joinRoot resuming body with
  | .error reply => return reply
  | .ok (root, code) =>
    let session ← getSession s
    let uid := session.userId
    if uid = 0 then return Reply.error .token
    match ← joinChecks room s uid resuming root code with
    | .error reply => return reply
    | .ok (info, resume) =>
      let value := if resuming then resumeValue root else []
      match ← joinPlace room uid resuming info value with
      | .error reply => return reply
      | .ok a =>
        match ← joinTicket room uid resuming with
        | none => return value.withError .network
        | some ticket =>
          match ← joinStore room uid resuming a value with
          | .error reply => return reply
          | .ok members =>
            let member ← joinBind room s uid a.isReconnected ticket resume
            joinAnswer room uid a members (value ++
              [("resume_ticket", .str member.ticket), ("membership_generation", idText member.generation)])

/-- `LogicSystem::JoinMeeetingHandler`. An answer that cannot be queued closes the session. -/
def joinMeetingHandler (room : MeetingId) (s : SessionId) (resuming : Bool) (body : Payload) : Op Unit := do
  let value ← joinBody room s resuming body
  let queued ← send s (if resuming then .resumeMeetingResponse else .joinMeetingResponse) value
  if !queued then requestClose s

end SyncRtc
